import CoSocket.Base.Bytes

/-!
# Http.WebSocketParser

`net/http/WebSocketParser.h`. The parser collects its input in `inputCache`, reads the header of the
frame at its start again with each chunk until it is there as a whole, waits for the payload, and
appends the unmasked payload to the message.

`discarded` is what the cache holds behind the frame when `ProcessPayload` clears it; no code looks
at it. `Session` is the use that `ProcessWebSocketData` makes of a parser.
-/

namespace CoSocket
namespace Http

open Base

def kMaxLength : Nat := 10 * 1024 * 1024

inductive OpCodeType where
  | Continue
  | Text
  | Binary
  | Close
  | Ping
  | Pong
deriving DecidableEq, Repr

def OpCodeType.ofCode : Nat → Option OpCodeType
  | 0 => some .Continue
  | 1 => some .Text
  | 2 => some .Binary
  | 8 => some .Close
  | 9 => some .Ping
  | 10 => some .Pong
  | _ => none

structure WebSocketParser where
  complete : Bool := false
  headerComplete : Bool := false
  fin : Bool := false
  opCode : Nat := 0
  payloadLen : Nat := 0
  offset : Nat := 0
  maskKey : Bytes := []
  inputCache : Bytes := []
  payload : Bytes := []
deriving DecidableEq, Repr

namespace WebSocketParser

def resetCurrentFrame (p : WebSocketParser) : WebSocketParser :=
  { p with headerComplete := false, fin := false, payloadLen := 0, offset := 0, inputCache := [] }

def reset (p : WebSocketParser) : WebSocketParser :=
  { p.resetCurrentFrame with complete := false, payload := [] }

/-- `m_inputCache.size() - m_offset`, in 64 bits. A string is shorter than `2 ^ 64`, so the
difference wraps only when it is negative. -/
def available (p : WebSocketParser) : Nat :=
  if p.offset ≤ p.inputCache.length then p.inputCache.length - p.offset
  else 2 ^ 64 + p.inputCache.length - p.offset

def haveBytes (p : WebSocketParser) (len : Nat) : Bool := len ≤ p.available

/-- `*GetDataPtr()` -/
def dataByte (p : WebSocketParser) : UInt8 := p.inputCache.getD p.offset 0

/-- The `n` bytes at `GetDataPtr()`. -/
def data (p : WebSocketParser) (n : Nat) : Bytes := (p.inputCache.drop p.offset).take n

/-- The part of `ParseHeader` that reads an extended payload length. -/
def parsePayloadLen (p : WebSocketParser) : Bool × WebSocketParser :=
  if p.payloadLen = 126 then
    if p.haveBytes 2 then
      (true, { p with payloadLen := ntohs (load (p.data 2)), offset := p.offset + 2 })
    else (false, p)
  else if p.payloadLen = 127 then
    if p.haveBytes 8 then
      (true, { p with payloadLen := ntohll (load (p.data 8)), offset := p.offset + 8 })
    else (false, p)
  else (true, p)

/-- The part of `ParseHeader` that reads the masking key. -/
def parseMaskKey (p : WebSocketParser) (mask : Bool) : Bool × WebSocketParser :=
  let p := { p with maskKey := [] }
  if mask then
    if p.haveBytes 4 then
      (true, { p with maskKey := p.maskKey ++ p.data 4, offset := p.offset + 4 })
    else (false, p)
  else (true, p)

def parseHeader (p : WebSocketParser) : Bool × WebSocketParser :=
  let p := { p with offset := 0 }
  if !p.haveBytes 1 then (false, p)
  else
    let p := { p with
      opCode := (0x0F &&& p.dataByte).toNat
      fin := 0x80 &&& p.dataByte != 0
      offset := p.offset + 1 }
    if !p.haveBytes 1 then (false, p)
    else
      let mask := 0x80 &&& p.dataByte != 0
      let p := { p with payloadLen := (0x7F &&& p.dataByte).toNat, offset := p.offset + 1 }
      match p.parsePayloadLen with
      | (false, p) => (false, p)
      | (true, p) => p.parseMaskKey mask

def checkOpCode (p : WebSocketParser) : Bool :=
  match OpCodeType.ofCode p.opCode with
  | some .Continue => !p.payload.isEmpty
  | some _ => true
  | none => false

def isValidFrame (p : WebSocketParser) : Bool :=
  if p.maskKey.isEmpty then false
  else if !p.checkOpCode then false
  else !((p.payload.length + p.payloadLen) % 2 ^ 64 > kMaxLength)

/-- The loop of `ProcessPayload`, from index `i` on, with `n` bytes to go. -/
def unmask (p : WebSocketParser) (i : Nat) : Nat → WebSocketParser
  | 0 => p
  | n + 1 =>
    unmask { p with
      payload := p.payload ++ [p.dataByte ^^^ p.maskKey.getD (i % p.maskKey.length) 0]
      offset := p.offset + 1 } (i + 1) n

def processPayload (p : WebSocketParser) : WebSocketParser :=
  if !p.haveBytes p.payloadLen then p
  else
    let p := p.unmask 0 p.payloadLen
    { p with complete := p.fin }.resetCurrentFrame

/-- The first part of `Parse`: the data is in the cache, and the header is read if it is there. -/
def collect (p : WebSocketParser) (data : Bytes) : WebSocketParser :=
  let p := { p with inputCache := p.inputCache ++ data }
  if !p.headerComplete then
    let (headerComplete, p) := p.parseHeader
    { p with headerComplete }
  else p

/-- `Parse`, with its return value. -/
def parse (p : WebSocketParser) (data : Bytes) : Bool × WebSocketParser :=
  if data.isEmpty then (true, p)
  else
    let p := p.collect data
    if !p.headerComplete then (true, p)
    else if !p.isValidFrame then (false, p)
    else (true, p.processPayload)

/-- The bytes behind the frame that `Parse` completes; `ResetCurrentFrame` clears them with the
frame. -/
def discarded (p : WebSocketParser) (data : Bytes) : Bytes :=
  let p := p.collect data
  if !data.isEmpty && p.headerComplete && p.isValidFrame && p.haveBytes p.payloadLen then
    let p := p.unmask 0 p.payloadLen
    p.inputCache.drop p.offset
  else []

end WebSocketParser

/-! ## As `ProcessWebSocketData` uses it -/

/-- A parser in use: the payloads given to the handler, the bytes discarded so far, and whether a
`Parse` has returned `false`, which ends the connection. -/
structure Session where
  parser : WebSocketParser := {}
  delivered : List Bytes := []
  lost : Bytes := []
  failed : Bool := false
deriving DecidableEq, Repr

namespace Session

/-- `ProcessWebSocketData` with a handler that answers nothing. -/
def receive (s : Session) (chunk : Bytes) : Session :=
  if s.failed then s
  else
    let lost := s.lost ++ s.parser.discarded chunk
    match s.parser.parse chunk with
    | (false, parser) => { s with parser, lost, failed := true }
    | (true, parser) =>
      if parser.complete then
        { s with parser := parser.reset, lost, delivered := s.delivered ++ [parser.payload] }
      else { s with parser, lost }

def feed (s : Session) (chunks : List Bytes) : Session := chunks.foldl receive s

@[simp] theorem feed_nil (s : Session) : s.feed [] = s := rfl

@[simp] theorem feed_cons (s : Session) (c : Bytes) (cs : List Bytes) :
    s.feed (c :: cs) = (s.receive c).feed cs := rfl

theorem feed_append (s : Session) (cs ds : List Bytes) :
    s.feed (cs ++ ds) = (s.feed cs).feed ds :=
  List.foldl_append

theorem feed_failed {s : Session} (h : s.failed = true) (cs : List Bytes) :
    (s.feed cs).failed = true := by
  induction cs with
  | nil => exact h
  | cons c cs ih => rwa [feed_cons, receive, if_pos h]

end Session

end Http
end CoSocket
