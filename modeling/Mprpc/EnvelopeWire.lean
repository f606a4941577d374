import Mprpc.Library.ProtoWire
import Mprpc.RpcProtocolHelper

namespace Mprpc.EnvelopeWire

open Transport RpcProtocolHelper Library.ProtoWire

def requestFields (proto : RpcRequestProto) : List Field :=
  [⟨1, .number proto.requestId.toNat⟩, ⟨2, .data proto.serviceName⟩, ⟨3, .data proto.methodName⟩,
    ⟨5, .data proto.requestData⟩]

def responseFields (proto : RpcResponseProto) : List Field :=
  [⟨1, .number proto.requestId.toNat⟩, ⟨2, .number proto.success.toNat⟩,
    ⟨3, .data proto.responseData⟩, ⟨4, .number (ofInt proto.errorCode)⟩,
    ⟨5, .data proto.errorMessage⟩]

/-- Fields at their default values are left out. -/
def encodeRequest (proto : RpcRequestProto) : Bytes := encode (omitDefaults (requestFields proto))

def encodeResponse (proto : RpcResponseProto) : Bytes :=
  encode (omitDefaults (responseFields proto))

/-- A runtime that knows how to parse the envelopes in two lists and no others. -/
def runtime (requests : List RpcRequestProto) (responses : List RpcResponseProto) : Protobuf where
  serializeRequest proto := some (encodeRequest proto)
  parseRequest data := requests.find? (fun proto => encodeRequest proto = data)
  serializeResponse proto := some (encodeResponse proto)
  parseResponse data := responses.find? (fun proto => encodeResponse proto = data)

end Mprpc.EnvelopeWire
