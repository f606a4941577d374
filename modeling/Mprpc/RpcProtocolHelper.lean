import Mprpc.Transport

namespace Mprpc.RpcProtocolHelper

open Transport

/-- The fields that the code sets and reads; it leaves the others of the message
at their defaults. -/
structure RpcRequestProto where
  requestId : UInt64
  serviceName : Text
  methodName : Text
  requestData : Bytes
deriving DecidableEq, Repr

structure RpcResponseProto where
  requestId : UInt64
  success : Bool
  responseData : Bytes
  errorCode : Int
  errorMessage : Text
deriving DecidableEq, Repr

inductive RpcErrorCode
  | success
  | serverError
deriving DecidableEq, Repr

def RpcErrorCode.value : RpcErrorCode → Int
  | .success => 0
  | .serverError => 8

/-- The protobuf runtime on the two envelope messages. -/
structure Protobuf where
  serializeRequest : RpcRequestProto → Option Bytes
  parseRequest : Bytes → Option RpcRequestProto
  serializeResponse : RpcResponseProto → Option Bytes
  parseResponse : Bytes → Option RpcResponseProto

def createRequestProto (request : RpcRequest) : RpcRequestProto :=
  ⟨request.requestId, request.serviceName, request.methodName, request.requestData⟩

def fromRequestProto (proto : RpcRequestProto) : RpcRequest :=
  ⟨proto.requestId, proto.serviceName, proto.methodName, proto.requestData⟩

/-- The error text of a successful response is not carried over. -/
def createResponseProto (response : RpcResponse) : RpcResponseProto :=
  if response.success then
    ⟨response.requestId, true, response.responseData, RpcErrorCode.success.value, []⟩
  else
    ⟨response.requestId, false, response.responseData, RpcErrorCode.serverError.value,
      response.errorMessage⟩

def fromResponseProto (proto : RpcResponseProto) : RpcResponse :=
  ⟨proto.requestId, proto.success, proto.errorMessage, proto.responseData⟩

variable (pb : Protobuf)

def serializeRequest (request : RpcRequest) : Except Text Bytes :=
  match pb.serializeRequest (createRequestProto request) with
  | some serialized => .ok serialized
  | none => .error (text "Failed to serialize RpcRequestProto")

def parseRequest (data : Bytes) : Except Text RpcRequest :=
  if data.isEmpty then .error (text "Empty data for request parsing")
  else
    match pb.parseRequest data with
    | some proto => .ok (fromRequestProto proto)
    | none => .error (text "Failed to parse RpcRequestProto")

def serializeResponse (response : RpcResponse) : Except Text Bytes :=
  match pb.serializeResponse (createResponseProto response) with
  | some serialized => .ok serialized
  | none => .error (text "Failed to serialize RpcResponseProto")

def parseResponse (data : Bytes) : Except Text RpcResponse :=
  if data.isEmpty then .error (text "Empty data for response parsing")
  else
    match pb.parseResponse data with
    | some proto => .ok (fromResponseProto proto)
    | none => .error (text "Failed to parse RpcResponseProto")

end Mprpc.RpcProtocolHelper
