import CoSocket.Lib.Lts
import CoSocket.Http.HttpParser
import CoSocket.Http.HttpEncoder
import CoSocket.Http.WebSocketParser

/-!
# Http.HttpDispatch

`net/http/HttpDispatch.cpp` as a step function: registering handlers, entering `operator()` for a
connection, and one round of its loop for each read.

The library `http_parser` and `SHA1` are parameters (`Deps`). Handlers are arbitrary function
objects, known by a number; what one makes of its response, and whether the response could be
written, comes with the action. `log` records the calls of handlers and the responses made; no code
reads it.
-/

namespace CoSocket
namespace Http

open Base Lts

/-- A function object, `none` when it is empty. -/
abbrev HttpHandler := Option Nat

abbrev WebSocketHandler := Option Nat

structure Handler where
  httpHandler : HttpHandler := none
  webSocketHandler : WebSocketHandler := none
deriving DecidableEq, Repr

structure HttpDispatch where
  isWebSocketReq : Bool := false
  enableWebSocket : Bool
  handlers : Std.ExtTreeMap Bytes Handler := ∅
  wsHandler : WebSocketHandler := none

/-- What a handler can see of a request. -/
structure Request where
  method : Bytes
  url : Bytes
  parameters : Parameters
  headers : HeaderMap
  body : Bytes

def HttpParser.request (p : HttpParser) : Request :=
  ⟨p.method, p.url, p.parameters, p.headers, p.body⟩

/-- How `Dispatch` answers a request. -/
inductive Answer where
  | notFound
  | handshake (webSocketKey : Bytes)
  | call (httpHandler : Nat)
deriving DecidableEq, Repr

namespace HttpDispatch

def addHttpHandler (d : HttpDispatch) (url : Bytes) (handler : HttpHandler) : HttpDispatch :=
  let h : Handler := d.handlers.getD url {}
  { d with handlers := d.handlers.insert url { h with httpHandler := handler } }

def addWebSocketHandler (d : HttpDispatch) (url : Bytes) (handler : WebSocketHandler) :
    HttpDispatch :=
  let h : Handler := d.handlers.getD url {}
  { d with handlers := d.handlers.insert url { h with webSocketHandler := handler } }

def webSocketKeyName : Bytes := bytesOf "Sec-WebSocket-Key"

/-- `Dispatch`, with the answer. -/
def dispatch (d : HttpDispatch) (httpRequest : HttpParser) : HttpDispatch × Answer :=
  let webSocketKey := if d.enableWebSocket then httpRequest.getHeader webSocketKeyName else []
  let d := if d.enableWebSocket then { d with isWebSocketReq := !webSocketKey.isEmpty } else d
  match d.handlers[cStr httpRequest.url]? with
  | none => (d, .notFound)
  | some handler =>
    if d.isWebSocketReq then
      match handler.webSocketHandler with
      | none => (d, .notFound)
      | some h => ({ d with wsHandler := some h }, .handshake webSocketKey)
    else
      match handler.httpHandler with
      | none => (d, .notFound)
      | some h => (d, .call h)

end HttpDispatch

/-- The response to an answer, `reply` being what a handler does with it. -/
def Answer.response (sha1 : Bytes → Bytes) (reply : HttpEncoder → HttpEncoder) :
    Answer → HttpEncoder
  | .notFound => responseHttpNotFound { closeConnection := false }
  | .handshake key => responseWebSocketHandshake sha1 { closeConnection := false } key
  | .call _ => reply { closeConnection := false }

/-! ## The loop of `operator()` -/

/-- The code outside this repository. -/
structure Deps (σ : Type) where
  http : HttpLib σ
  sha1 : Bytes → Bytes

inductive Event where
  | answered (request : Request) (answer : Answer) (response : Bytes)
  | message (webSocketHandler : Nat) (payload : Bytes)

/-- The local variables of `operator()`. -/
structure Conn (σ : Type) where
  httpRequest : HttpDecoder σ
  wsDecoder : WebSocketParser := {}

/-- An `HttpDispatch` object; `conn` is there while `operator()` runs. -/
structure Server (σ : Type) where
  dispatcher : HttpDispatch
  conn : Option (Conn σ) := none
  log : List Event := []

def kBufferSize : Nat := 102400

inductive HttpAct where
  | addHttpHandler (url : Bytes) (handler : HttpHandler)
  | addWebSocketHandler (url : Bytes) (handler : WebSocketHandler)
  | connect
  | read (data : Bytes) (reply : HttpEncoder → HttpEncoder) (written : Bool)
  | readFailed

/-- The call of an empty `std::function`. -/
inductive HttpTrap where
  | badFunctionCall
deriving DecidableEq, Repr

namespace Server

variable {σ : Type}

def init (enableWebSocket : Bool) : Server σ := { dispatcher := { enableWebSocket } }

/-- `ParseHttpToDispatch`; `operator()` returns when it returns `false`. -/
def parseHttpToDispatch (deps : Deps σ) (s : Server σ) (c : Conn σ) (data : Bytes)
    (reply : HttpEncoder → HttpEncoder) (written : Bool) : Server σ :=
  match c.httpRequest.parse deps.http data with
  | (false, _) => { s with conn := none }
  | (true, httpRequest) =>
    if httpRequest.fields.complete then
      let (dispatcher, answer) := s.dispatcher.dispatch httpRequest.fields
      let response := (answer.response deps.sha1 reply).getReponseString
      { dispatcher
        conn := if written then some { c with httpRequest := .init deps.http } else none
        log := s.log ++ [.answered httpRequest.fields.request answer response] }
    else { s with conn := some { c with httpRequest } }

/-- `ProcessWebSocketData`; `written` says whether `ResponseWebSocketData` could write its
frames. -/
def processWebSocketData (s : Server σ) (c : Conn σ) (data : Bytes) (written : Bool) :
    Outcome (Server σ) HttpTrap :=
  match c.wsDecoder.parse data with
  | (false, _) => .next { s with conn := none }
  | (true, wsDecoder) =>
    if wsDecoder.complete then
      match s.dispatcher.wsHandler with
      | none => .trapped .badFunctionCall
      | some h =>
        .next { s with
          conn := if written then some { c with wsDecoder := wsDecoder.reset } else none
          log := s.log ++ [.message h wsDecoder.payload] }
    else .next { s with conn := some { c with wsDecoder } }

/-- A read returns between one byte and a full buffer. -/
def readOk (data : Bytes) : Bool := !data.isEmpty && data.length ≤ kBufferSize

def step (deps : Deps σ) (s : Server σ) : HttpAct → Outcome (Server σ) HttpTrap
  | .addHttpHandler url handler =>
    .next { s with dispatcher := s.dispatcher.addHttpHandler url handler }
  | .addWebSocketHandler url handler =>
    .next { s with dispatcher := s.dispatcher.addWebSocketHandler url handler }
  | .connect =>
    if s.conn.isNone then .next { s with conn := some { httpRequest := .init deps.http } }
    else .disabled
  | .read data reply written =>
    match s.conn with
    | none => .disabled
    | some c =>
      if readOk data then
        if !s.dispatcher.isWebSocketReq then
          .next (s.parseHttpToDispatch deps c data reply written)
        else s.processWebSocketData c data written
      else .disabled
  | .readFailed =>
    match s.conn with
    | none => .disabled
    | some _ => .next { s with conn := none }

theorem step_read {deps : Deps σ} {s : Server σ} {c : Conn σ} (hc : s.conn = some c) {data : Bytes}
    (hread : readOk data = true) (reply : HttpEncoder → HttpEncoder) (written : Bool) :
    step deps s (.read data reply written) =
      if s.dispatcher.isWebSocketReq then s.processWebSocketData c data written
      else .next (s.parseHttpToDispatch deps c data reply written) := by
  simp only [step, hc, hread, if_true]
  cases s.dispatcher.isWebSocketReq <;> rfl

end Server

end Http
end CoSocket
