import Mathlib.Data.List.Infix
import Mprpc.Decimal
import Mprpc.Library.ProtoWire

namespace Mprpc

open Transport Library Decimal

/-- The protobuf runtime on the messages of one type. A parse that fails may leave anything
in the message. -/
structure MessageType (μ : Type) where
  typeName : Text
  hasDescriptor : Bool
  fresh : μ
  isInitialized : μ → Bool
  serializeToString : μ → Option Bytes
  parseFromString : Bytes → μ → Bool × μ
  shortDebugString : μ → Text

structure Serializer (μ : Type) where
  serialize : μ → Bytes
  deserialize : Bytes → μ → Bool × μ
  getName : Text

variable {μ : Type}

namespace ProtobufSerializer

variable (type : MessageType μ)

def isValidMessage (message : μ) : Bool :=
  if !type.isInitialized message then false
  else if !type.hasDescriptor then false
  else true

/-- A failure is reported as no bytes. -/
def serialize (message : μ) : Bytes :=
  if !isValidMessage type message then []
  else
    match type.serializeToString message with
    | some serialized => serialized
    | none => []

def deserialize (data : Bytes) (message : μ) : Bool × μ :=
  if data.isEmpty then (false, message)
  else
    let (parsed, message) := type.parseFromString data message
    if !parsed then (false, message) else (true, message)

end ProtobufSerializer

def ProtobufSerializer (type : MessageType μ) : Serializer μ where
  serialize := ProtobufSerializer.serialize type
  deserialize := ProtobufSerializer.deserialize type
  getName := text "protobuf"

namespace JsonSerializer

def openBrace : UInt8 := 0x7b
def closeBrace : UInt8 := 0x7d

/-- `find` comes to a place. -/
def found (pattern json : Text) : Bool := pattern <:+: json

def messageToJson (type : MessageType μ) (message : μ) : Text :=
  text "\x7b" ++ text "\"message_type\":\"" ++ type.typeName ++ text "\"," ++
    text "\"data\":\"" ++ type.shortDebugString message ++ text "\"" ++ text "\x7d"

/-- The fields of the message are left as they are. -/
def jsonToMessage (json : Text) (message : μ) : Bool × μ :=
  if found (text "\"message_type\"") json && found (text "\"data\"") json then (true, message)
  else (false, message)

def isValidJson (json : Text) : Bool :=
  if json.isEmpty then false
  else if json.count openBrace ≠ json.count closeBrace then false
  else if !found (text "\"message_type\"") json then false
  else true

def serialize (type : MessageType μ) (message : μ) : Bytes := messageToJson type message

def deserialize (data : Bytes) (message : μ) : Bool × μ :=
  if !isValidJson data then (false, message) else jsonToMessage data message

end JsonSerializer

def JsonSerializer (type : MessageType μ) : Serializer μ where
  serialize := JsonSerializer.serialize type
  deserialize := JsonSerializer.deserialize
  getName := text "json"

/-- What is read into a fresh message is what was written. -/
def Serializer.RoundTrips (serializer : Serializer μ) (type : MessageType μ) (message : μ) : Prop :=
  serializer.deserialize (serializer.serialize message) type.fresh = (true, message)

/-- What the code relies on: parsing inverts serializing, and only a message with all fields
at their defaults takes no bytes. -/
structure MessageType.Lawful (type : MessageType μ) : Prop where
  descriptor : type.hasDescriptor = true
  inverse : ∀ message, type.isInitialized message = true →
    ∃ data, type.serializeToString message = some data ∧
      ∀ old, type.parseFromString data old = (true, message)
  nil : ∀ message, type.isInitialized message = true →
    (type.serializeToString message = some [] ↔ message = type.fresh)

section Protobuf

variable {type : MessageType μ} {message : μ}

theorem ProtobufSerializer.serialize_eq (h : type.Lawful)
    (hinit : type.isInitialized message = true) {data : Bytes}
    (hdata : type.serializeToString message = some data) :
    ProtobufSerializer.serialize type message = data := by
  have hvalid : isValidMessage type message = true := by
    rw [isValidMessage, hinit, h.descriptor]
    rfl
  rw [serialize, hvalid, hdata]
  rfl

/-- The message with nothing but defaults takes no bytes, and these are refused. -/
theorem ProtobufSerializer.roundTrips_iff (h : type.Lawful)
    (hinit : type.isInitialized message = true) :
    (ProtobufSerializer type).RoundTrips type message ↔ message ≠ type.fresh := by
  obtain ⟨data, hdata, hparse⟩ := h.inverse message hinit
  have hnil := h.nil message hinit
  rw [hdata, Option.some_inj] at hnil
  change deserialize type (serialize type message) type.fresh = _ ↔ _
  rw [serialize_eq h hinit hdata, deserialize, hparse]
  by_cases hempty : data = []
  · have hfresh := hnil.mp hempty
    subst hempty
    change (false, type.fresh) = _ ↔ _
    exact iff_of_false (fun heq => by cases heq) (not_not.mpr hfresh)
  · rw [if_neg (by simpa using hempty)]
    exact iff_of_true rfl (mt hnil.mpr hempty)

end Protobuf

section Json

variable {type : MessageType μ} {message : μ}

def Balanced (t : Text) : Prop :=
  t.count JsonSerializer.openBrace = t.count JsonSerializer.closeBrace

theorem JsonSerializer.found_iff {pattern json : Text} :
    found pattern json = true ↔ pattern <:+: json := decide_eq_true_iff

theorem JsonSerializer.found_messageToJson :
    found (text "\"message_type\"") (messageToJson type message) = true ∧
      found (text "\"data\"") (messageToJson type message) = true := by
  have hfirst : text "\"message_type\":\"" = text "\"message_type\"" ++ text ":\"" := by decide
  have hsecond : text "\"data\":\"" = text "\"data\"" ++ text ":\"" := by decide
  rw [found_iff, found_iff, messageToJson, hfirst, hsecond]
  constructor
  · refine ⟨text "\x7b", text ":\"" ++ type.typeName ++ text "\"," ++
      (text "\"data\"" ++ text ":\"") ++
      type.shortDebugString message ++ text "\"" ++ text "\x7d", ?_⟩
    simp only [List.append_assoc]
  · refine ⟨text "\x7b" ++ (text "\"message_type\"" ++ text ":\"") ++ type.typeName ++ text "\",",
      text ":\"" ++ type.shortDebugString message ++ text "\"" ++ text "\x7d", ?_⟩
    simp only [List.append_assoc]

theorem JsonSerializer.count_messageToJson (c : UInt8) :
    (messageToJson type message).count c =
      (type.typeName ++ type.shortDebugString message).count c +
        (text "\x7b\"message_type\":\"\",\"data\":\"\"\x7d").count c := by
  have hframe : text "\x7b\"message_type\":\"\",\"data\":\"\"\x7d" =
      text "\x7b" ++ text "\"message_type\":\"" ++ text "\"," ++ text "\"data\":\"" ++ text "\"" ++
        text "\x7d" := by decide
  rw [hframe, messageToJson]
  simp only [List.count_append]
  omega

theorem JsonSerializer.isValidJson_iff :
    isValidJson (messageToJson type message) = true ↔
      Balanced (type.typeName ++ type.shortDebugString message) := by
  have hne : (messageToJson type message).isEmpty = false := by
    have hbrace : text "\x7b" ≠ [] := by decide
    rw [List.isEmpty_eq_false_iff, messageToJson]
    simp only [ne_eq, List.append_eq_nil_iff, hbrace, false_and, not_false_eq_true]
  have hframe : (text "\x7b\"message_type\":\"\",\"data\":\"\"\x7d").count openBrace =
      (text "\x7b\"message_type\":\"\",\"data\":\"\"\x7d").count closeBrace := by decide
  rw [isValidJson, hne, count_messageToJson, count_messageToJson, hframe, found_messageToJson.1]
  unfold Balanced
  simp

/-- Nothing is read from the text, so only a message that is fresh already comes back. -/
theorem JsonSerializer.roundTrips_iff :
    (JsonSerializer type).RoundTrips type message ↔
      message = type.fresh ∧ Balanced (type.typeName ++ type.shortDebugString message) := by
  obtain ⟨hfirst, hsecond⟩ := @found_messageToJson _ type message
  have hread : jsonToMessage (messageToJson type message) type.fresh = (true, type.fresh) := by
    rw [jsonToMessage, hfirst, hsecond]
    rfl
  change deserialize (messageToJson type message) type.fresh = _ ↔ _
  rw [deserialize, hread, ← isValidJson_iff]
  cases isValidJson (messageToJson type message) with
  | true => simp [eq_comm]
  | false => simp

end Json

theorem serializers_round_trip_iff {type : MessageType μ} (h : type.Lawful) (message : μ)
    (hinit : type.isInitialized message = true) :
    ((ProtobufSerializer type).RoundTrips type message ↔ message ≠ type.fresh) ∧
      ((JsonSerializer type).RoundTrips type message ↔
        message = type.fresh ∧ Balanced (type.typeName ++ type.shortDebugString message)) :=
  ⟨ProtobufSerializer.roundTrips_iff h hinit, JsonSerializer.roundTrips_iff⟩

section Calculator

open ProtoWire

structure AddResponse where
  result : Int32
deriving DecidableEq, Repr

namespace AddResponse

def fields (message : AddResponse) : List Field := [⟨1, .number (ofInt message.result.toInt)⟩]

/-- The message as the calculator's protocol has it: one field, an `int32`. -/
def type : MessageType AddResponse where
  typeName := text "rpc.AddResponse"
  hasDescriptor := true
  fresh := ⟨0⟩
  isInitialized _ := true
  serializeToString message := some (encode (omitDefaults message.fields))
  parseFromString data old :=
    match decode data with
    | some fields => (true, ⟨Int32.ofInt (toInt32 (numberAt fields 1))⟩)
    | none => (false, old)
  shortDebugString message :=
    if message.result = 0 then [] else text "result: " ++ decimalInt message.result.toInt

theorem parse_fields (message : AddResponse) :
    Int32.ofInt (toInt32 (numberAt (omitDefaults message.fields) 1)) = message.result := by
  have hkeys : (message.fields.map (·.key)).Nodup := List.nodup_singleton 1
  rw [numberAt_omitDefaults 1 hkeys]
  change Int32.ofInt (toInt32 (ofInt message.result.toInt)) = message.result
  rw [toInt32_ofInt message.result.le_toInt message.result.toInt_lt, Int32.ofInt_toInt]

theorem type_lawful : type.Lawful where
  descriptor := rfl
  inverse message _ := by
    refine ⟨encode (omitDefaults message.fields), rfl, ?_⟩
    intro old
    simp only [type, decode_encode, parse_fields]
  nil message _ := by
    change some (encode _) = some [] ↔ _
    rw [Option.some_inj, encode_eq_nil]
    constructor
    · intro hnil
      have hparse := parse_fields message
      rw [hnil] at hparse
      exact congrArg AddResponse.mk hparse.symm
    · rintro rfl
      rfl

theorem shortDebugString_injective : Function.Injective type.shortDebugString := by
  rintro ⟨a⟩ ⟨b⟩ h
  have hprefix : text "result: " ≠ [] := by decide
  by_cases ha : a = 0
  · by_cases hb : b = 0
    · rw [ha, hb]
    · simp [type, ha, hb, hprefix] at h
  · by_cases hb : b = 0
    · simp [type, ha, hb, hprefix] at h
    · simp only [type, ha, hb, if_false, List.append_cancel_left_eq] at h
      have hsame := congrArg stoi h
      rw [stoi_decimalInt a.le_toInt a.toInt_lt, stoi_decimalInt b.le_toInt b.toInt_lt] at hsame
      exact congrArg AddResponse.mk (Int32.toInt_inj.mp (Except.ok.inj hsame))

end AddResponse

theorem serializers_round_trip_iff_answer :
    (ProtobufSerializer AddResponse.type).RoundTrips AddResponse.type ⟨5⟩ ∧
      ¬ (JsonSerializer AddResponse.type).RoundTrips AddResponse.type ⟨5⟩ := by
  obtain ⟨hprotobuf, hjson⟩ := serializers_round_trip_iff AddResponse.type_lawful ⟨5⟩ rfl
  exact ⟨hprotobuf.mpr (by decide), fun h => absurd (hjson.mp h).1 (by decide)⟩

/-- The sum 5 comes back from JSON as 0, and the sum 0 does not come back from protobuf. -/
theorem sums_lost :
    let json := JsonSerializer AddResponse.type
    let protobuf := ProtobufSerializer AddResponse.type
    json.deserialize (json.serialize ⟨5⟩) AddResponse.type.fresh = (true, ⟨0⟩) ∧
      protobuf.deserialize (protobuf.serialize ⟨0⟩) AddResponse.type.fresh = (false, ⟨0⟩) ∧
      ¬ ∀ (μ : Type) (type : MessageType μ), type.Lawful →
        Function.Injective type.shortDebugString →
        ∀ serializer ∈ [ProtobufSerializer type, JsonSerializer type],
          ∀ message, type.isInitialized message = true → serializer.RoundTrips type message := by
  intro json protobuf
  have hjson : json.deserialize (json.serialize ⟨5⟩) AddResponse.type.fresh = (true, ⟨0⟩) := by
    decide +kernel
  refine ⟨hjson, by decide +kernel, ?_⟩
  intro hall
  have hback := hall AddResponse AddResponse.type AddResponse.type_lawful
    AddResponse.shortDebugString_injective json (List.mem_cons_of_mem _ List.mem_cons_self) ⟨5⟩ rfl
  rw [Serializer.RoundTrips, hjson] at hback
  exact absurd hback (by decide)

end Calculator

end Mprpc
