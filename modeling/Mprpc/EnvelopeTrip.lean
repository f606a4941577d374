import Mprpc.EnvelopeWire

namespace Mprpc.EnvelopeTrip

open Transport RpcProtocolHelper EnvelopeWire Library.ProtoWire

def ValidUtf8 (t : Text) : Prop := ∃ s, text s = t

/-- What the code relies on: parsing inverts serializing for strings that are valid and
numbers of their width, and only the default message takes no bytes. -/
structure Proto3 (pb : Protobuf) : Prop where
  request : ∀ proto, ValidUtf8 proto.serviceName → ValidUtf8 proto.methodName →
    ∃ bytes, pb.serializeRequest proto = some bytes ∧ pb.parseRequest bytes = some proto
  request_nil : ∀ proto, pb.serializeRequest proto = some [] ↔ proto = ⟨0, [], [], []⟩
  response : ∀ proto, ValidUtf8 proto.errorMessage →
    -2 ^ 31 ≤ proto.errorCode → proto.errorCode < 2 ^ 31 →
    ∃ bytes, pb.serializeResponse proto = some bytes ∧ pb.parseResponse bytes = some proto
  response_nil : ∀ proto, -2 ^ 31 ≤ proto.errorCode → proto.errorCode < 2 ^ 31 →
    (pb.serializeResponse proto = some [] ↔ proto = ⟨0, false, [], 0, []⟩)

theorem fromRequestProto_create (request : RpcRequest) :
    fromRequestProto (createRequestProto request) = request := rfl

/-- The error text is lost when the call succeeded, and kept otherwise. -/
theorem fromResponseProto_create {response : RpcResponse}
    (h : response.success = true → response.errorMessage = []) :
    fromResponseProto (createResponseProto response) = response := by
  obtain ⟨requestId, success, errorMessage, responseData⟩ := response
  cases success with
  | true =>
    obtain rfl : errorMessage = [] := h rfl
    rfl
  | false => rfl

/-- The response that is all defaults is never sent: a success has its flag, and a failure its
error code. -/
theorem createResponseProto_ne (response : RpcResponse) :
    createResponseProto response ≠ ⟨0, false, [], 0, []⟩ := by
  unfold createResponseProto
  cases response.success <;> simp [RpcErrorCode.value]

theorem errorCode_range (response : RpcResponse) :
    -2 ^ 31 ≤ (createResponseProto response).errorCode ∧
      (createResponseProto response).errorCode < 2 ^ 31 := by
  unfold createResponseProto
  cases response.success <;> simp [RpcErrorCode.value]

theorem errorMessage_valid {response : RpcResponse} (h : ValidUtf8 response.errorMessage) :
    ValidUtf8 (createResponseProto response).errorMessage := by
  unfold createResponseProto
  cases response.success with
  | true => exact ⟨"", rfl⟩
  | false => exact h

section Trips

variable {pb : Protobuf}

theorem request_trip (h : Proto3 pb) {request : RpcRequest}
    (hservice : ValidUtf8 request.serviceName) (hmethod : ValidUtf8 request.methodName) :
    ∃ bytes, serializeRequest pb request = .ok bytes ∧
      (request ≠ {} → parseRequest pb bytes = .ok request) ∧
      (request = {} → parseRequest pb bytes = .error (text "Empty data for request parsing")) := by
  obtain ⟨bytes, hserialize, hparse⟩ := h.request (createRequestProto request) hservice hmethod
  have hempty : bytes = [] ↔ request = {} := by
    have hnil := h.request_nil (createRequestProto request)
    rw [hserialize, Option.some_inj] at hnil
    rw [hnil]
    constructor
    · intro hproto
      exact congrArg fromRequestProto hproto
    · rintro rfl
      rfl
  refine ⟨bytes, ?_, ?_, ?_⟩
  · rw [serializeRequest, hserialize]
  · intro hne
    have hbytes : bytes.isEmpty = false := List.isEmpty_eq_false_iff.mpr (mt hempty.mp hne)
    rw [parseRequest, hbytes, hparse]
    exact congrArg Except.ok (fromRequestProto_create request)
  · intro heq
    rw [hempty.mpr heq]
    rfl

theorem response_trip (h : Proto3 pb) {response : RpcResponse}
    (hvalid : ValidUtf8 response.errorMessage)
    (hsuccess : response.success = true → response.errorMessage = []) :
    ∃ bytes, serializeResponse pb response = .ok bytes ∧
      parseResponse pb bytes = .ok response := by
  obtain ⟨hl, hu⟩ := errorCode_range response
  obtain ⟨bytes, hserialize, hparse⟩ :=
    h.response (createResponseProto response) (errorMessage_valid hvalid) hl hu
  have hbytes : bytes.isEmpty = false := by
    rw [List.isEmpty_eq_false_iff]
    rintro rfl
    exact createResponseProto_ne response ((h.response_nil _ hl hu).mp hserialize)
  refine ⟨bytes, ?_, ?_⟩
  · rw [serializeResponse, hserialize]
  · rw [parseResponse, hbytes, hparse]
    exact congrArg Except.ok (fromResponseProto_create hsuccess)

end Trips

def requestOf (fields : List Field) : RpcRequestProto :=
  ⟨UInt64.ofNat (numberAt fields 1), dataAt fields 2, dataAt fields 3, dataAt fields 5⟩

def responseOf (fields : List Field) : RpcResponseProto :=
  ⟨UInt64.ofNat (numberAt fields 1), numberAt fields 2 ≠ 0, dataAt fields 3,
    toInt32 (numberAt fields 4), dataAt fields 5⟩

/-- The two messages on the wire. -/
def wire : Protobuf where
  serializeRequest proto := some (encodeRequest proto)
  parseRequest bytes := (decode bytes).map requestOf
  serializeResponse proto := some (encodeResponse proto)
  parseResponse bytes := (decode bytes).map responseOf

theorem requestOf_fields (proto : RpcRequestProto) :
    requestOf (omitDefaults (requestFields proto)) = proto := by
  have hkeys : ((requestFields proto).map (·.key)).Nodup := by
    change [1, 2, 3, 5].Nodup
    decide
  simp only [requestOf, numberAt_omitDefaults _ hkeys, dataAt_omitDefaults _ hkeys]
  exact congrArg (fun requestId => { proto with requestId := requestId }) UInt64.ofNat_toNat

theorem responseOf_fields {proto : RpcResponseProto} (hl : -2 ^ 31 ≤ proto.errorCode)
    (hu : proto.errorCode < 2 ^ 31) :
    responseOf (omitDefaults (responseFields proto)) = proto := by
  have hkeys : ((responseFields proto).map (·.key)).Nodup := by
    change [1, 2, 3, 4, 5].Nodup
    decide
  simp only [responseOf, numberAt_omitDefaults _ hkeys, dataAt_omitDefaults _ hkeys]
  obtain ⟨requestId, success, responseData, errorCode, errorMessage⟩ := proto
  change (⟨UInt64.ofNat requestId.toNat, success.toNat ≠ 0, responseData,
    toInt32 (ofInt errorCode), errorMessage⟩ : RpcResponseProto) = _
  rw [UInt64.ofNat_toNat, toInt32_ofInt hl hu]
  cases success <;> rfl

theorem wire_proto3 : Proto3 wire where
  request proto _ _ := by
    refine ⟨encode (omitDefaults (requestFields proto)), rfl, ?_⟩
    change (decode _).map requestOf = some proto
    rw [decode_encode, Option.map_some, requestOf_fields]
  request_nil proto := by
    change some (encode _) = some [] ↔ _
    rw [Option.some_inj, encode_eq_nil]
    constructor
    · intro hnil
      rw [← requestOf_fields proto, hnil]
      rfl
    · rintro rfl
      rfl
  response proto _ hl hu := by
    refine ⟨encode (omitDefaults (responseFields proto)), rfl, ?_⟩
    change (decode _).map responseOf = some proto
    rw [decode_encode, Option.map_some, responseOf_fields hl hu]
  response_nil proto hl hu := by
    change some (encode _) = some [] ↔ _
    rw [Option.some_inj, encode_eq_nil]
    constructor
    · intro hnil
      rw [← responseOf_fields hl hu, hnil]
      rfl
    · rintro rfl
      rfl

/-- Every request but the one that is all defaults comes back, and every response does; that
one request takes no bytes, and is refused as empty data. -/
theorem envelopes_survive {pb : Protobuf} (h : Proto3 pb) :
    (∀ request : RpcRequest, ValidUtf8 request.serviceName → ValidUtf8 request.methodName →
      ∃ bytes, serializeRequest pb request = .ok bytes ∧
        (request ≠ {} → parseRequest pb bytes = .ok request) ∧
        (request = {} →
          parseRequest pb bytes = .error (text "Empty data for request parsing"))) ∧
    ∀ response : RpcResponse, ValidUtf8 response.errorMessage →
      (response.success = true → response.errorMessage = []) →
      ∃ bytes, serializeResponse pb response = .ok bytes ∧
        parseResponse pb bytes = .ok response := by
  constructor
  · intro request hservice hmethod
    exact request_trip h hservice hmethod
  · intro response hvalid hsuccess
    exact response_trip h hvalid hsuccess

theorem envelopes_survive_wire :
    let request : RpcRequest := ⟨300, text "Calculator", text "Add", [8, 1]⟩
    let response : RpcResponse := ⟨300, false, text "division by zero", []⟩
    (∃ bytes, serializeRequest wire request = .ok bytes ∧ parseRequest wire bytes = .ok request) ∧
    ∃ bytes, serializeResponse wire response = .ok bytes ∧
      parseResponse wire bytes = .ok response := by
  intro request response
  obtain ⟨hrequests, hresponses⟩ := envelopes_survive wire_proto3
  constructor
  · obtain ⟨bytes, hserialize, hparse, _⟩ := hrequests request ⟨_, rfl⟩ ⟨_, rfl⟩
    exact ⟨bytes, hserialize, hparse (by decide)⟩
  · exact hresponses response ⟨_, rfl⟩ nofun

/-- The request that is all defaults. -/
theorem default_request_refused :
    ¬ ∀ pb, Proto3 pb → ∀ request : RpcRequest, ValidUtf8 request.serviceName →
      ValidUtf8 request.methodName → ∃ bytes, serializeRequest pb request = .ok bytes ∧
        parseRequest pb bytes = .ok request := by
  intro hall
  obtain ⟨bytes, hserialize, hparse⟩ := hall wire wire_proto3 {} ⟨"", rfl⟩ ⟨"", rfl⟩
  obtain rfl : [] = bytes := Except.ok.inj hserialize
  cases hparse

end Mprpc.EnvelopeTrip
