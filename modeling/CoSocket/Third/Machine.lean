import CoSocket.Base.Codec
import CoSocket.Lib.Pieces

/-!
# Third.Machine

`3rd/http-parser/http_parser.c`, the states and what each of them does with a byte
(`HTTP_PARSER_STRICT` is 1 and `lenient_http_headers` is 0, as this repository builds and calls it).

The states that read one byte are functions from the parser and the byte to a `Step`. `REEXECUTE`
always goes to a state that is known where it stands, so it is a call of that state's function.
The callbacks are the notes and the pieces of a step: they return 0 and leave the parser as it is,
so that it does not matter which of them are set. An assertion that fails is the outcome `abort`, and
so is a read outside a string constant.
-/

namespace CoSocket
namespace Third

open Base Pieces

/-! ## Types -/

/-- `enum state`. -/
inductive State where
  | dead
  | startReqOrRes
  | resOrRespH
  | startRes
  | resH
  | resHT
  | resHTT
  | resHTTP
  | resFirstHttpMajor
  | resHttpMajor
  | resFirstHttpMinor
  | resHttpMinor
  | resFirstStatusCode
  | resStatusCode
  | resStatusStart
  | resStatus
  | resLineAlmostDone
  | startReq
  | reqMethod
  | reqSpacesBeforeUrl
  | reqSchema
  | reqSchemaSlash
  | reqSchemaSlashSlash
  | reqServerStart
  | reqServer
  | reqServerWithAt
  | reqPath
  | reqQueryStringStart
  | reqQueryString
  | reqFragmentStart
  | reqFragment
  | reqHttpStart
  | reqHttpH
  | reqHttpHT
  | reqHttpHTT
  | reqHttpHTTP
  | reqFirstHttpMajor
  | reqHttpMajor
  | reqFirstHttpMinor
  | reqHttpMinor
  | reqLineAlmostDone
  | headerFieldStart
  | headerField
  | headerValueDiscardWs
  | headerValueDiscardWsAlmostDone
  | headerValueDiscardLws
  | headerValueStart
  | headerValue
  | headerValueLws
  | headerAlmostDone
  | chunkSizeStart
  | chunkSize
  | chunkParameters
  | chunkSizeAlmostDone
  | headersAlmostDone
  | headersDone
  | chunkData
  | chunkDataAlmostDone
  | chunkDataDone
  | bodyIdentity
  | bodyIdentityEof
  | messageDone
deriving DecidableEq, Repr

/-- `PARSING_HEADER`: the states up to `headersDone`. -/
def State.parsingHeader : State → Bool
  | .chunkData | .chunkDataAlmostDone | .chunkDataDone => false
  | .bodyIdentity | .bodyIdentityEof | .messageDone => false
  | _ => true

/-- `enum header_states`. -/
inductive HeaderStates where
  | general
  | C
  | CO
  | CON
  | matchingConnection
  | matchingProxyConnection
  | matchingContentLength
  | matchingTransferEncoding
  | matchingUpgrade
  | connection
  | contentLength
  | transferEncoding
  | upgrade
  | matchingTransferEncodingChunked
  | matchingConnectionTokenStart
  | matchingConnectionKeepAlive
  | matchingConnectionClose
  | matchingConnectionUpgrade
  | matchingConnectionToken
  | transferEncodingChunked
  | connectionKeepAlive
  | connectionClose
  | connectionUpgrade
deriving DecidableEq, Repr

/-- `enum http_method`. -/
inductive Method where
  | delete | get | head | post | put | connect | options | trace | copy | lock | mkcol | move
  | propfind | proppatch | search | unlock | bind | rebind | unbind | acl | report | mkactivity
  | checkout | merge | msearch | notify | subscribe | unsubscribe | patch | purge | mkcalendar
  | link | unlink
deriving DecidableEq, Repr

/-- `method_strings`. -/
def Method.str : Method → Bytes
  | .delete => bytesOf "DELETE"
  | .get => bytesOf "GET"
  | .head => bytesOf "HEAD"
  | .post => bytesOf "POST"
  | .put => bytesOf "PUT"
  | .connect => bytesOf "CONNECT"
  | .options => bytesOf "OPTIONS"
  | .trace => bytesOf "TRACE"
  | .copy => bytesOf "COPY"
  | .lock => bytesOf "LOCK"
  | .mkcol => bytesOf "MKCOL"
  | .move => bytesOf "MOVE"
  | .propfind => bytesOf "PROPFIND"
  | .proppatch => bytesOf "PROPPATCH"
  | .search => bytesOf "SEARCH"
  | .unlock => bytesOf "UNLOCK"
  | .bind => bytesOf "BIND"
  | .rebind => bytesOf "REBIND"
  | .unbind => bytesOf "UNBIND"
  | .acl => bytesOf "ACL"
  | .report => bytesOf "REPORT"
  | .mkactivity => bytesOf "MKACTIVITY"
  | .checkout => bytesOf "CHECKOUT"
  | .merge => bytesOf "MERGE"
  | .msearch => bytesOf "M-SEARCH"
  | .notify => bytesOf "NOTIFY"
  | .subscribe => bytesOf "SUBSCRIBE"
  | .unsubscribe => bytesOf "UNSUBSCRIBE"
  | .patch => bytesOf "PATCH"
  | .purge => bytesOf "PURGE"
  | .mkcalendar => bytesOf "MKCALENDAR"
  | .link => bytesOf "LINK"
  | .unlink => bytesOf "UNLINK"

/-- `enum http_errno`, without the errors of callbacks, of `http_parser_parse_url` and of pausing. -/
inductive Errno where
  | ok
  | invalidEofState
  | headerOverflow
  | closedConnection
  | invalidVersion
  | invalidStatus
  | invalidMethod
  | invalidUrl
  | lfExpected
  | invalidHeaderToken
  | invalidContentLength
  | unexpectedContentLength
  | invalidChunkSize
  | invalidConstant
  | strict
deriving DecidableEq, Repr

/-- `enum http_parser_type`. -/
inductive ParserType where
  | request
  | response
  | both
deriving DecidableEq, Repr

/-- The bits of `enum flags`. -/
structure Flags where
  chunked : Bool := false
  connectionKeepAlive : Bool := false
  connectionClose : Bool := false
  connectionUpgrade : Bool := false
  trailing : Bool := false
  upgrade : Bool := false
  skipbody : Bool := false
  contentlength : Bool := false
deriving DecidableEq, Repr

/-- `struct http_parser`. The versions, the status code and the content length are checked against a
bound that their next value cannot wrap around; `index` has 7 bits and `nread` has 32. -/
structure Parser where
  type : ParserType
  flags : Flags := {}
  state : State
  headerState : HeaderStates := .general
  index : Nat := 0
  nread : Nat := 0
  contentLength : Nat := 0
  httpMajor : Nat := 0
  httpMinor : Nat := 0
  statusCode : Nat := 0
  method : Method := .delete
  httpErrno : Errno := .ok
  upgrade : Bool := false
deriving DecidableEq, Repr

/-- The data callbacks. -/
inductive DataKind where
  | headerField
  | headerValue
  | url
  | body
  | status
deriving DecidableEq, Repr

/-- The other callbacks; the one for a complete message reads the method and the status code. -/
inductive Note where
  | messageBegin
  | headersComplete
  | messageComplete (method : Method) (statusCode : Nat)
  | chunkHeader
  | chunkComplete
deriving DecidableEq, Repr

abbrev Event := Piece DataKind Note UInt8

abbrev Action := Act DataKind Note UInt8

/-- How the work on a byte ends: `break`, `RETURN` behind the byte, `goto error`, or a failed
assertion. -/
inductive Outcome where
  | next
  | exit
  | error
  | abort
deriving DecidableEq, Repr

structure Step where
  parser : Parser
  acts : List Action
  outcome : Outcome

def HTTP_MAX_HEADER_SIZE : Nat := 80 * 1024

def ULLONG_MAX : Nat := 2 ^ 64 - 1

/-! ## Character classes -/

def CR : UInt8 := 13

def LF : UInt8 := 10

def lower (c : UInt8) : UInt8 := c ||| 0x20

def isAlpha (c : UInt8) : Bool := lower c ≥ ascii 'a' ∧ lower c ≤ ascii 'z'

def isNum (c : UInt8) : Bool := c ≥ ascii '0' ∧ c ≤ ascii '9'

def isMark (c : UInt8) : Bool := c ∈ bytesOf "-_.!~*'()"

def isUserinfoChar (c : UInt8) : Bool := isAlpha c || isNum c || isMark c || c ∈ bytesOf "%;:&=+$,"

/-- `tokens`: the byte in lower case, or 0. -/
def token (c : UInt8) : UInt8 :=
  if c ∈ bytesOf "!#$%&'*+-.^_`|~" ∨ isNum c ∨ c ≥ ascii 'a' ∧ c ≤ ascii 'z' then c
  else if c ≥ ascii 'A' ∧ c ≤ ascii 'Z' then c + 32
  else 0

/-- `normal_url_char`. -/
def isUrlChar (c : UInt8) : Bool := 32 < c ∧ c < 127 ∧ c ≠ ascii '#' ∧ c ≠ ascii '?'

/-- `unhex`. The table gives the first 128 entries only, so that the others are 0 and not -1. -/
def unhex (c : UInt8) : Option Nat :=
  if isNum c then some (c - ascii '0').toNat
  else if c ≥ ascii 'A' ∧ c ≤ ascii 'F' then some (c - ascii 'A' + 10).toNat
  else if c ≥ ascii 'a' ∧ c ≤ ascii 'f' then some (c - ascii 'a' + 10).toNat
  else if c ≥ 128 then some 0
  else none

def isHeaderChar (c : UInt8) : Bool := c = CR ∨ c = LF ∨ c = 9 ∨ c > 31 ∧ c ≠ 127

def digit (c : UInt8) : Nat := (c - ascii '0').toNat

/-- `matcher[index]`: a character of a C string, its zero byte included. -/
def charAt (s : Bytes) (i : Nat) : Option UInt8 := (s ++ [0])[i]?

/-! ## `parse_url_char` -/

def serverChar (ch : UInt8) : State :=
  if ch = ascii '/' then .reqPath
  else if ch = ascii '?' then .reqQueryStringStart
  else if ch = ascii '@' then .reqServerWithAt
  else if isUserinfoChar ch ∨ ch = ascii '[' ∨ ch = ascii ']' then .reqServer
  else .dead

def parseUrlChar (s : State) (ch : UInt8) : State :=
  if ch = ascii ' ' ∨ ch = CR ∨ ch = LF then .dead
  else if ch = 9 ∨ ch = 12 then .dead
  else
    match s with
    | .reqSpacesBeforeUrl =>
      if ch = ascii '/' ∨ ch = ascii '*' then .reqPath
      else if isAlpha ch then .reqSchema
      else .dead
    | .reqSchema =>
      if isAlpha ch then .reqSchema
      else if ch = ascii ':' then .reqSchemaSlash
      else .dead
    | .reqSchemaSlash => if ch = ascii '/' then .reqSchemaSlashSlash else .dead
    | .reqSchemaSlashSlash => if ch = ascii '/' then .reqServerStart else .dead
    | .reqServerWithAt => if ch = ascii '@' then .dead else serverChar ch
    | .reqServerStart | .reqServer => serverChar ch
    | .reqPath =>
      if isUrlChar ch then .reqPath
      else if ch = ascii '?' then .reqQueryStringStart
      else if ch = ascii '#' then .reqFragmentStart
      else .dead
    | .reqQueryStringStart | .reqQueryString =>
      if isUrlChar ch then .reqQueryString
      else if ch = ascii '?' then .reqQueryString
      else if ch = ascii '#' then .reqFragmentStart
      else .dead
    | .reqFragmentStart =>
      if isUrlChar ch then .reqFragment
      else if ch = ascii '?' then .reqFragment
      else if ch = ascii '#' then .reqFragmentStart
      else .dead
    | .reqFragment =>
      if isUrlChar ch ∨ ch = ascii '?' ∨ ch = ascii '#' then .reqFragment
      else .dead
    | _ => .dead

/-! ## The end of a message -/

/-- `http_message_needs_eof`. -/
def messageNeedsEof (p : Parser) : Bool :=
  if p.type = .request then false
  else if p.statusCode / 100 = 1 ∨ p.statusCode = 204 ∨ p.statusCode = 304 ∨ p.flags.skipbody then
    false
  else if p.flags.chunked ∨ p.contentLength ≠ ULLONG_MAX then false
  else true

/-- `http_should_keep_alive`. -/
def shouldKeepAlive (p : Parser) : Bool :=
  if p.httpMajor > 0 ∧ p.httpMinor > 0 then
    if p.flags.connectionClose then false else !messageNeedsEof p
  else if !p.flags.connectionKeepAlive then false
  else !messageNeedsEof p

def startState (p : Parser) : State := if p.type = .request then .startReq else .startRes

/-- `NEW_MESSAGE`. -/
def newMessage (p : Parser) : State := if shouldKeepAlive p then startState p else .dead

namespace Step

/-- `break` with these callbacks. -/
def next (p : Parser) (acts : List Action) : Step := ⟨p, acts, .next⟩

/-- `SET_ERRNO` and `goto error`. -/
def fail (p : Parser) (e : Errno) : Step := ⟨{ p with httpErrno := e }, [], .error⟩

/-- A failed assertion. -/
def abort (p : Parser) : Step := ⟨p, [], .abort⟩

/-- What is done before the step. -/
def after (acts : List Action) (s : Step) : Step := { s with acts := acts ++ s.acts }

end Step

/-- `UPDATE_STATE(NEW_MESSAGE())` and the callback. -/
def complete (p : Parser) (outcome : Outcome) : Step :=
  ⟨{ p with state := newMessage p }, [.note (.messageComplete p.method p.statusCode)], outcome⟩

def messageDone (p : Parser) : Step := complete p (if p.upgrade then .exit else .next)

def headersDone (p : Parser) (ch : UInt8) : Step :=
  if ch ≠ LF then .fail p .strict
  else
    let p := { p with nread := 0 }
    let hasBody := p.flags.chunked ∨ p.contentLength > 0 ∧ p.contentLength ≠ ULLONG_MAX
    if p.upgrade ∧ (p.method = .connect ∨ p.flags.skipbody ∨ ¬hasBody) then complete p .exit
    else if p.flags.skipbody then complete p .next
    else if p.flags.chunked then .next { p with state := .chunkSizeStart } []
    else if p.contentLength = 0 then complete p .next
    else if p.contentLength ≠ ULLONG_MAX then .next { p with state := .bodyIdentity } []
    else if !messageNeedsEof p then complete p .next
    else .next { p with state := .bodyIdentityEof } []

def headersAlmostDone (p : Parser) (ch : UInt8) : Step :=
  if ch ≠ LF then .fail p .strict
  else if p.flags.trailing then
    (messageDone { p with state := .messageDone }).after [.note .chunkComplete]
  else if p.flags.chunked ∧ p.flags.contentlength then .fail p .unexpectedContentLength
  else
    let p := { p with
      state := .headersDone
      upgrade := p.flags.upgrade && p.flags.connectionUpgrade || p.method = .connect }
    (headersDone p ch).after [.note .headersComplete]

/-! ## Headers -/

def fieldStart (c : UInt8) : HeaderStates :=
  if c = ascii 'c' then .C
  else if c = ascii 'p' then .matchingProxyConnection
  else if c = ascii 't' then .matchingTransferEncoding
  else if c = ascii 'u' then .matchingUpgrade
  else .general

def headerFieldStart (p : Parser) (ch : UInt8) : Step :=
  if ch = CR then .next { p with state := .headersAlmostDone } []
  else if ch = LF then headersAlmostDone { p with state := .headersAlmostDone } ch
  else if token ch = 0 then .fail p .invalidHeaderToken
  else
    .next { p with index := 0, state := .headerField, headerState := fieldStart (token ch) }
      [.mark .headerField]

/-- The flag of a header that ends here. -/
def headerFlag (p : Parser) : Parser :=
  match p.headerState with
  | .connectionKeepAlive => { p with flags := { p.flags with connectionKeepAlive := true } }
  | .connectionClose => { p with flags := { p.flags with connectionClose := true } }
  | .transferEncodingChunked => { p with flags := { p.flags with chunked := true } }
  | .connectionUpgrade => { p with flags := { p.flags with connectionUpgrade := true } }
  | _ => p

/-- The start of a token of `Connection`. -/
def connectionToken (c : UInt8) : HeaderStates :=
  if c = ascii 'k' then .matchingConnectionKeepAlive
  else if c = ascii 'c' then .matchingConnectionClose
  else if c = ascii 'u' then .matchingConnectionUpgrade
  else .matchingConnectionToken

def headerValueStart (p : Parser) (ch : UInt8) : Step :=
  let p := { p with state := .headerValue, index := 0 }
  let acts : List Action := [.mark .headerValue]
  match p.headerState with
  | .upgrade =>
    .next { p with flags := { p.flags with upgrade := true }, headerState := .general } acts
  | .transferEncoding =>
    if lower ch = ascii 'c' then
      .next { p with headerState := .matchingTransferEncodingChunked } acts
    else .next { p with headerState := .general } acts
  | .contentLength =>
    if !isNum ch then (Step.fail p .invalidContentLength).after acts
    else .next { p with contentLength := digit ch } acts
  | .connection => .next { p with headerState := connectionToken (lower ch) } acts
  | .matchingConnectionTokenStart => .next p acts
  | _ => .next { p with headerState := .general } acts

def headerValueDiscardWs (p : Parser) (ch : UInt8) : Step :=
  if ch = ascii ' ' ∨ ch = 9 then .next p []
  else if ch = CR then .next { p with state := .headerValueDiscardWsAlmostDone } []
  else if ch = LF then .next { p with state := .headerValueDiscardLws } []
  else headerValueStart p ch

def headerValueLws (p : Parser) (ch : UInt8) : Step :=
  if ch = ascii ' ' ∨ ch = 9 then headerValueStart { p with state := .headerValueStart } ch
  else headerFieldStart { headerFlag p with state := .headerFieldStart } ch

/-- The value of the header was empty, unless its line goes on. -/
def headerValueDiscardLws (p : Parser) (ch : UInt8) : Step :=
  if ch = ascii ' ' ∨ ch = 9 then .next { p with state := .headerValueDiscardWs } []
  else
    (headerFieldStart { headerFlag p with state := .headerFieldStart } ch).after
      [.mark .headerValue, .data .headerValue]

/-! ## The first line -/

/-- A state in which one byte is allowed. -/
def expect (want : UInt8) (next : State) (e : Errno) (p : Parser) (ch : UInt8) : Step :=
  if ch ≠ want then .fail p e else .next { p with state := next } []

def startMessage (p : Parser) : Parser := { p with flags := {}, contentLength := ULLONG_MAX }

def startMethod (ch : UInt8) : Option Method :=
  if ch = ascii 'A' then some .acl
  else if ch = ascii 'B' then some .bind
  else if ch = ascii 'C' then some .connect
  else if ch = ascii 'D' then some .delete
  else if ch = ascii 'G' then some .get
  else if ch = ascii 'H' then some .head
  else if ch = ascii 'L' then some .lock
  else if ch = ascii 'M' then some .mkcol
  else if ch = ascii 'N' then some .notify
  else if ch = ascii 'O' then some .options
  else if ch = ascii 'P' then some .post
  else if ch = ascii 'R' then some .report
  else if ch = ascii 'S' then some .subscribe
  else if ch = ascii 'T' then some .trace
  else if ch = ascii 'U' then some .unlock
  else none

def startReq (p : Parser) (ch : UInt8) : Step :=
  if ch = CR ∨ ch = LF then .next p []
  else
    let p := startMessage p
    if !isAlpha ch then .fail p .invalidMethod
    else
      let p := { p with method := .delete, index := 1 }
      match startMethod ch with
      | none => .fail p .invalidMethod
      | some method => .next { p with method, state := .reqMethod } [.note .messageBegin]

def startReqOrRes (p : Parser) (ch : UInt8) : Step :=
  if ch = CR ∨ ch = LF then .next p []
  else
    let p := startMessage p
    if ch = ascii 'H' then .next { p with state := .resOrRespH } [.note .messageBegin]
    else startReq { p with type := .request, state := .startReq } ch

def resOrRespH (p : Parser) (ch : UInt8) : Step :=
  if ch = ascii 'T' then .next { p with type := .response, state := .resHT } []
  else if ch ≠ ascii 'E' then .fail p .invalidConstant
  else .next { p with type := .request, method := .head, index := 2, state := .reqMethod } []

def startRes (p : Parser) (ch : UInt8) : Step :=
  let p := startMessage p
  if ch = ascii 'H' then .next { p with state := .resH } [.note .messageBegin]
  else if ch = CR ∨ ch = LF then .next p [.note .messageBegin]
  else .fail p .invalidConstant

def firstHttpMajor (least : UInt8) (next : State) (p : Parser) (ch : UInt8) : Step :=
  if ch < least ∨ ch > ascii '9' then .fail p .invalidVersion
  else .next { p with httpMajor := digit ch, state := next } []

def httpMajor (next : State) (p : Parser) (ch : UInt8) : Step :=
  if ch = ascii '.' then .next { p with state := next } []
  else if !isNum ch then .fail p .invalidVersion
  else
    let p := { p with httpMajor := p.httpMajor * 10 + digit ch }
    if p.httpMajor > 999 then .fail p .invalidVersion else .next p []

def firstHttpMinor (next : State) (p : Parser) (ch : UInt8) : Step :=
  if !isNum ch then .fail p .invalidVersion
  else .next { p with httpMinor := digit ch, state := next } []

def nextHttpMinor (p : Parser) (ch : UInt8) : Step :=
  if !isNum ch then .fail p .invalidVersion
  else
    let p := { p with httpMinor := p.httpMinor * 10 + digit ch }
    if p.httpMinor > 999 then .fail p .invalidVersion else .next p []

def resHttpMinor (p : Parser) (ch : UInt8) : Step :=
  if ch = ascii ' ' then .next { p with state := .resFirstStatusCode } []
  else nextHttpMinor p ch

def resFirstStatusCode (p : Parser) (ch : UInt8) : Step :=
  if !isNum ch then
    if ch = ascii ' ' then .next p [] else .fail p .invalidStatus
  else .next { p with statusCode := digit ch, state := .resStatusCode } []

def resStatusCode (p : Parser) (ch : UInt8) : Step :=
  if !isNum ch then
    if ch = ascii ' ' then .next { p with state := .resStatusStart } []
    else if ch = CR then .next { p with state := .resLineAlmostDone } []
    else if ch = LF then .next { p with state := .headerFieldStart } []
    else .fail p .invalidStatus
  else
    let p := { p with statusCode := p.statusCode * 10 + digit ch }
    if p.statusCode > 999 then .fail p .invalidStatus else .next p []

def resStatusStart (p : Parser) (ch : UInt8) : Step :=
  if ch = CR then .next { p with state := .resLineAlmostDone } []
  else if ch = LF then .next { p with state := .headerFieldStart } []
  else .next { p with state := .resStatus, index := 0 } [.mark .status]

def resStatus (p : Parser) (ch : UInt8) : Step :=
  if ch = CR then .next { p with state := .resLineAlmostDone } [.data .status]
  else if ch = LF then .next { p with state := .headerFieldStart } [.data .status]
  else .next p []

/-- The methods that begin like another one, from the byte in which they differ. -/
def switchMethod (method : Method) (index : Nat) (ch : UInt8) : Option Method :=
  match method, index with
  | .post, 1 =>
    if ch = ascii 'U' then some .put
    else if ch = ascii 'A' then some .patch
    else if ch = ascii 'R' then some .propfind
    else none
  | .connect, 1 => if ch = ascii 'H' then some .checkout else none
  | .connect, 2 => if ch = ascii 'P' then some .copy else none
  | .mkcol, 1 =>
    if ch = ascii 'O' then some .move
    else if ch = ascii 'E' then some .merge
    else none
  | .mkcol, 2 => if ch = ascii 'A' then some .mkactivity else none
  | .mkcol, 3 => if ch = ascii 'A' then some .mkcalendar else none
  | .subscribe, 1 => if ch = ascii 'E' then some .search else none
  | .report, 2 => if ch = ascii 'B' then some .rebind else none
  | .propfind, 4 => if ch = ascii 'P' then some .proppatch else none
  | .put, 2 => if ch = ascii 'R' then some .purge else none
  | .lock, 1 => if ch = ascii 'I' then some .link else none
  | .unlock, 2 =>
    if ch = ascii 'S' then some .unsubscribe
    else if ch = ascii 'B' then some .unbind
    else none
  | .unlock, 3 => if ch = ascii 'I' then some .unlink else none
  | _, _ => none

def nextIndex (p : Parser) : Nat := (p.index + 1) % 128

def reqMethod (p : Parser) (ch : UInt8) : Step :=
  if ch = 0 then .fail p .invalidMethod
  else
    match charAt p.method.str p.index with
    | none => .abort p
    | some c =>
      if ch = ascii ' ' ∧ c = 0 then
        .next { p with state := .reqSpacesBeforeUrl, index := nextIndex p } []
      else if ch = c then .next { p with index := nextIndex p } []
      else if isAlpha ch then
        match switchMethod p.method p.index ch with
        | none => .fail p .invalidMethod
        | some method => .next { p with method, index := nextIndex p } []
      else if ch = ascii '-' ∧ p.index = 1 ∧ p.method = .mkcol then
        .next { p with method := .msearch, index := nextIndex p } []
      else .fail p .invalidMethod

def urlChar (p : Parser) (s : State) (ch : UInt8) : Step :=
  let p := { p with state := parseUrlChar s ch }
  if p.state = .dead then .fail p .invalidUrl else .next p []

def reqSpacesBeforeUrl (p : Parser) (ch : UInt8) : Step :=
  if ch = ascii ' ' then .next p []
  else
    (urlChar p (if p.method = .connect then .reqServerStart else p.state) ch).after [.mark .url]

/-- The start of an absolute URL, where no white space is allowed. -/
def reqSchema (p : Parser) (ch : UInt8) : Step :=
  if ch = ascii ' ' ∨ ch = CR ∨ ch = LF then .fail p .invalidUrl else urlChar p p.state ch

def reqUrl (p : Parser) (ch : UInt8) : Step :=
  if ch = ascii ' ' then .next { p with state := .reqHttpStart } [.data .url]
  else if ch = CR ∨ ch = LF then
    .next { p with
      httpMajor := 0
      httpMinor := 9
      state := if ch = CR then .reqLineAlmostDone else .headerFieldStart } [.data .url]
  else urlChar p p.state ch

def reqHttpStart (p : Parser) (ch : UInt8) : Step :=
  if ch = ascii 'H' then .next { p with state := .reqHttpH } []
  else if ch = ascii ' ' then .next p []
  else .fail p .invalidConstant

def reqHttpMinor (p : Parser) (ch : UInt8) : Step :=
  if ch = CR then .next { p with state := .reqLineAlmostDone } []
  else if ch = LF then .next { p with state := .headerFieldStart } []
  else nextHttpMinor p ch

/-! ## Chunks -/

def chunkSizeStart (p : Parser) (ch : UInt8) : Step :=
  if ¬(p.nread = 1 ∧ p.flags.chunked) then .abort p
  else
    match unhex ch with
    | none => .fail p .invalidChunkSize
    | some v => .next { p with contentLength := v, state := .chunkSize } []

def chunkSize (p : Parser) (ch : UInt8) : Step :=
  if ¬p.flags.chunked then .abort p
  else if ch = CR then .next { p with state := .chunkSizeAlmostDone } []
  else
    match unhex ch with
    | none =>
      if ch = ascii ';' ∨ ch = ascii ' ' then .next { p with state := .chunkParameters } []
      else .fail p .invalidChunkSize
    | some v =>
      if (ULLONG_MAX - 16) / 16 < p.contentLength then .fail p .invalidContentLength
      else .next { p with contentLength := p.contentLength * 16 + v } []

def chunkParameters (p : Parser) (ch : UInt8) : Step :=
  if ¬p.flags.chunked then .abort p
  else if ch = CR then .next { p with state := .chunkSizeAlmostDone } []
  else .next p []

def chunkSizeAlmostDone (p : Parser) (ch : UInt8) : Step :=
  if ¬p.flags.chunked then .abort p
  else if ch ≠ LF then .fail p .strict
  else
    let p := { p with nread := 0 }
    if p.contentLength = 0 then
      .next { p with flags := { p.flags with trailing := true }, state := .headerFieldStart }
        [.note .chunkHeader]
    else .next { p with state := .chunkData } [.note .chunkHeader]

def chunkDataAlmostDone (p : Parser) (ch : UInt8) : Step :=
  if ¬(p.flags.chunked ∧ p.contentLength = 0) then .abort p
  else if ch ≠ CR then .fail p .strict
  else .next { p with state := .chunkDataDone } [.data .body]

def chunkDataDone (p : Parser) (ch : UInt8) : Step :=
  if ¬p.flags.chunked then .abort p
  else if ch ≠ LF then .fail p .strict
  else .next { p with nread := 0, state := .chunkSizeStart } [.note .chunkComplete]

/-- `s_dead`: behind a message after which the connection closes. -/
def closed (p : Parser) (ch : UInt8) : Step :=
  if ch = CR ∨ ch = LF then .next p [] else .fail p .closedConnection

/-! ## One byte -/

/-- The `switch`, for the states that read one byte. -/
def handle (p : Parser) (ch : UInt8) : Step :=
  match p.state with
  | .dead => closed p ch
  | .startReqOrRes => startReqOrRes p ch
  | .resOrRespH => resOrRespH p ch
  | .startRes => startRes p ch
  | .resH => expect (ascii 'T') .resHT .strict p ch
  | .resHT => expect (ascii 'T') .resHTT .strict p ch
  | .resHTT => expect (ascii 'P') .resHTTP .strict p ch
  | .resHTTP => expect (ascii '/') .resFirstHttpMajor .strict p ch
  | .resFirstHttpMajor => firstHttpMajor (ascii '0') .resHttpMajor p ch
  | .resHttpMajor => httpMajor .resFirstHttpMinor p ch
  | .resFirstHttpMinor => firstHttpMinor .resHttpMinor p ch
  | .resHttpMinor => resHttpMinor p ch
  | .resFirstStatusCode => resFirstStatusCode p ch
  | .resStatusCode => resStatusCode p ch
  | .resStatusStart => resStatusStart p ch
  | .resStatus => resStatus p ch
  | .resLineAlmostDone => expect LF .headerFieldStart .strict p ch
  | .startReq => startReq p ch
  | .reqMethod => reqMethod p ch
  | .reqSpacesBeforeUrl => reqSpacesBeforeUrl p ch
  | .reqSchema | .reqSchemaSlash | .reqSchemaSlashSlash | .reqServerStart => reqSchema p ch
  | .reqServer | .reqServerWithAt | .reqPath | .reqQueryStringStart | .reqQueryString
  | .reqFragmentStart | .reqFragment => reqUrl p ch
  | .reqHttpStart => reqHttpStart p ch
  | .reqHttpH => expect (ascii 'T') .reqHttpHT .strict p ch
  | .reqHttpHT => expect (ascii 'T') .reqHttpHTT .strict p ch
  | .reqHttpHTT => expect (ascii 'P') .reqHttpHTTP .strict p ch
  | .reqHttpHTTP => expect (ascii '/') .reqFirstHttpMajor .strict p ch
  | .reqFirstHttpMajor => firstHttpMajor (ascii '1') .reqHttpMajor p ch
  | .reqHttpMajor => httpMajor .reqFirstHttpMinor p ch
  | .reqFirstHttpMinor => firstHttpMinor .reqHttpMinor p ch
  | .reqHttpMinor => reqHttpMinor p ch
  | .reqLineAlmostDone => expect LF .headerFieldStart .lfExpected p ch
  | .headerFieldStart => headerFieldStart p ch
  | .headerValueDiscardWs => headerValueDiscardWs p ch
  | .headerValueDiscardWsAlmostDone => expect LF .headerValueDiscardLws .strict p ch
  | .headerValueDiscardLws => headerValueDiscardLws p ch
  | .headerValueStart => headerValueStart p ch
  | .headerValueLws => headerValueLws p ch
  | .headerAlmostDone => expect LF .headerValueLws .lfExpected p ch
  | .chunkSizeStart => chunkSizeStart p ch
  | .chunkSize => chunkSize p ch
  | .chunkParameters => chunkParameters p ch
  | .chunkSizeAlmostDone => chunkSizeAlmostDone p ch
  | .headersAlmostDone => headersAlmostDone p ch
  | .headersDone => headersDone p ch
  | .chunkDataAlmostDone => chunkDataAlmostDone p ch
  | .chunkDataDone => chunkDataDone p ch
  | .messageDone => messageDone p
  | .headerField | .headerValue | .bodyIdentity | .bodyIdentityEof | .chunkData => .abort p

end Third
end CoSocket
