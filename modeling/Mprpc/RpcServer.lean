import Mprpc.FrameCodec
import Mprpc.RpcProtocolHelper

namespace Mprpc

open Transport RpcProtocolHelper

/-- What the server needs of a method: parsing its argument, the call, which may
throw, and serialising the result. -/
structure Method (μ : Type) where
  parseFromArray : Bytes → Option μ
  callMethod : μ → Except Text μ
  serializeToString : μ → Option Bytes

structure Service (μ : Type) where
  findMethodByName : Text → Option (Method μ)

structure RpcServer (μ : Type) where
  services : Text → Option (Service μ)
  protobuf : Protobuf

/-- One call of `send`: on which connection, with which bytes, and the response
that they were made from. -/
structure Sent where
  connection : Text
  response : RpcResponse
  frame : Bytes
deriving DecidableEq, Repr

namespace RpcServer

variable {μ : Type} (server : RpcServer μ)

/-- The handlers throw `std::runtime_error`; what was sent before stays sent. -/
abbrev Action := EStateM Text (List Sent)

def orThrow {α : Type} : Except Text α → Action α
  | .ok a => return a
  | .error e => throw e

def parseRpcRequest (data : Bytes) : Except Text RpcRequest :=
  match parseRequest server.protobuf data with
  | .ok request => .ok request
  | .error e => .error (text "Invalid RPC request format: " ++ e)

/-- The bytes, with the response that went into them. -/
def serializeRpcResponse (response : RpcResponse) : Except Text (RpcResponse × Bytes) :=
  match serializeResponse server.protobuf response with
  | .ok data => .ok (response, data)
  | .error e =>
    let errorResponse : RpcResponse :=
      { requestId := response.requestId
        success := false
        errorMessage := text "Serialization error: " ++ e }
    match serializeResponse server.protobuf errorResponse with
    | .ok data => .ok (errorResponse, data)
    | .error e => .error e

def callServiceMethod (serviceName methodName : Text) (requestData : Bytes) :
    Except Text Bytes := do
  match server.services serviceName with
  | none => throw (text "Service not found: " ++ serviceName)
  | some service =>
    match service.findMethodByName methodName with
    | none => throw (text "Method not found: " ++ methodName)
    | some method =>
      match method.parseFromArray requestData with
      | none => throw (text "Failed to parse request")
      | some request =>
        let response ← method.callMethod request
        match method.serializeToString response with
        | none => throw (text "Failed to serialize response")
        | some responseData => return responseData

/-- A connection is named by its remote address; `none` is a null pointer. What
`send` returns is only logged. -/
def sendResponse (connection : Option Text) (response : RpcResponse) : Action Unit := do
  match connection with
  | none => return ()
  | some connection =>
    let (response, data) ← orThrow (server.serializeRpcResponse response)
    modify fun log => log ++ [⟨connection, response, FrameCodec.encode data⟩]

def handleRpcRequest (connection : Option Text) (requestData : Bytes) : Action Unit := do
  try
    let request ← orThrow (server.parseRpcRequest requestData)
    let responseData ← orThrow (server.callServiceMethod request.serviceName request.methodName
      request.requestData)
    server.sendResponse connection
      { requestId := request.requestId, responseData := responseData, success := true }
  catch e =>
    server.sendResponse connection { requestId := 0, success := false, errorMessage := e }

end RpcServer

end Mprpc
