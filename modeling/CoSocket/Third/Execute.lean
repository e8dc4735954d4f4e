import CoSocket.Third.Machine

/-!
# Third.Execute

`http_parser_execute`: the states that read several bytes at once, the loop over the buffer and what
stands around it. The place in the buffer is the list of the bytes from it on.
-/

namespace CoSocket
namespace Third

open Base Pieces

/-- One round of the loop over the buffer; `rest` is what the next round reads, or the bytes from
the place that is returned. -/
structure Move where
  parser : Parser
  acts : List Action
  outcome : Outcome
  rest : Bytes

/-- The end of the work on the byte `ch`. -/
def Step.move (s : Step) (ch : UInt8) (rest : Bytes) : Move where
  parser := s.parser
  acts := s.acts ++ [.advance [ch]]
  outcome := s.outcome
  rest := if s.outcome = .next ∨ s.outcome = .exit then rest else ch :: rest

/-- `COUNT_HEADER_SIZE`, without its check. -/
def countHeaderSize (p : Parser) (n : Nat) : Parser := { p with nread := (p.nread + n) % 2 ^ 32 }

/-- `COUNT_HEADER_SIZE` before `k`. -/
def counted (p : Parser) (n : Nat) (acts : List Action) (rest : Bytes) (k : Parser → Move) : Move :=
  if (countHeaderSize p n).nread > HTTP_MAX_HEADER_SIZE then
    ⟨{ countHeaderSize p n with httpErrno := .headerOverflow }, acts, .error, rest⟩
  else k (countHeaderSize p n)

/-! ## Header names -/

def CONNECTION : Bytes := bytesOf "connection"

def PROXY_CONNECTION : Bytes := bytesOf "proxy-connection"

def CONTENT_LENGTH : Bytes := bytesOf "content-length"

def TRANSFER_ENCODING : Bytes := bytesOf "transfer-encoding"

def UPGRADE : Bytes := bytesOf "upgrade"

def CHUNKED : Bytes := bytesOf "chunked"

def KEEP_ALIVE : Bytes := bytesOf "keep-alive"

def CLOSE : Bytes := bytesOf "close"

/-- The header state after a byte that should be `word[index]`. -/
def matchWord (word : Bytes) (index : Nat) (c : UInt8) (now found lost : HeaderStates) :
    HeaderStates :=
  if index > word.length ∨ charAt word index ≠ some c then lost
  else if index = word.length - 1 then found
  else now

/-- The `switch` of `s_header_field`. -/
def headerFieldByte (p : Parser) (ch : UInt8) : Step :=
  let c := token ch
  let i := nextIndex p
  match p.headerState with
  | .general => .next p []
  | .C =>
    .next { p with index := i, headerState := if c = ascii 'o' then .CO else .general } []
  | .CO =>
    .next { p with index := i, headerState := if c = ascii 'n' then .CON else .general } []
  | .CON =>
    .next { p with
      index := i
      headerState :=
        if c = ascii 'n' then .matchingConnection
        else if c = ascii 't' then .matchingContentLength
        else .general } []
  | .matchingConnection =>
    .next { p with
      index := i
      headerState := matchWord CONNECTION i c .matchingConnection .connection .general } []
  | .matchingProxyConnection =>
    .next { p with
      index := i
      headerState :=
        matchWord PROXY_CONNECTION i c .matchingProxyConnection .connection .general } []
  | .matchingContentLength =>
    let p := { p with index := i }
    let h := matchWord CONTENT_LENGTH i c .matchingContentLength .contentLength .general
    if h = .contentLength then
      if p.flags.contentlength then .fail p .unexpectedContentLength
      else .next { p with headerState := h, flags := { p.flags with contentlength := true } } []
    else .next { p with headerState := h } []
  | .matchingTransferEncoding =>
    .next { p with
      index := i
      headerState :=
        matchWord TRANSFER_ENCODING i c .matchingTransferEncoding .transferEncoding .general } []
  | .matchingUpgrade =>
    .next { p with
      index := i
      headerState := matchWord UPGRADE i c .matchingUpgrade .upgrade .general } []
  | .connection | .contentLength | .transferEncoding | .upgrade =>
    .next (if ch ≠ ascii ' ' then { p with headerState := .general } else p) []
  | _ => .abort p

/-- Where an inner loop over the buffer stopped: the bytes it passed, and those from its place
on. -/
structure Scan where
  parser : Parser
  passed : Bytes
  rest : Bytes
  outcome : Outcome

def Scan.pass (ch : UInt8) (s : Scan) : Scan := { s with passed := ch :: s.passed }

/-- The loop of `s_header_field`: up to a byte that is not a token. -/
def headerFieldLoop (p : Parser) : Bytes → Scan
  | [] => ⟨p, [], [], .next⟩
  | ch :: rest =>
    if token ch = 0 then ⟨p, [], ch :: rest, .next⟩
    else
      match headerFieldByte p ch with
      | ⟨p', _, .next⟩ => (headerFieldLoop p' rest).pass ch
      | ⟨p', _, outcome⟩ => ⟨p', [], ch :: rest, outcome⟩

/-- Behind the loop of `s_header_field`. -/
def fieldEnd (s : Scan) : Move :=
  let acts : List Action := [.advance s.passed]
  if s.outcome ≠ .next then ⟨s.parser, acts, s.outcome, s.rest⟩
  else
    counted s.parser s.passed.length acts s.rest fun p =>
      match s.rest with
      | [] => ⟨p, acts, .next, []⟩
      | ch :: rest =>
        if ch = ascii ':' then
          ⟨{ p with state := .headerValueDiscardWs },
            acts ++ [.data .headerField, .advance [ch]], .next, rest⟩
        else ⟨{ p with httpErrno := .invalidHeaderToken }, acts, .error, ch :: rest⟩

def headerField (p : Parser) (data : Bytes) : Move := fieldEnd (headerFieldLoop p data)

/-! ## Header values -/

/-- The `switch` of `s_header_value`, behind the case `h_general`. `h_state` is kept in
`headerState`, which the loop does not read. -/
def headerValueByte (p : Parser) (ch : UInt8) : Step :=
  let c := lower ch
  let i := nextIndex p
  match p.headerState with
  | .connection | .transferEncoding => .abort p
  | .contentLength =>
    if ch = ascii ' ' then .next p []
    else if !isNum ch then .fail p .invalidContentLength
    else if (ULLONG_MAX - 10) / 10 < p.contentLength then .fail p .invalidContentLength
    else .next { p with contentLength := p.contentLength * 10 + digit ch } []
  | .matchingTransferEncodingChunked =>
    .next { p with
      index := i
      headerState := matchWord CHUNKED i c .matchingTransferEncodingChunked
        .transferEncodingChunked .general } []
  | .matchingConnectionTokenStart =>
    .next { p with
      headerState :=
        if c = ascii 'k' then .matchingConnectionKeepAlive
        else if c = ascii 'c' then .matchingConnectionClose
        else if c = ascii 'u' then .matchingConnectionUpgrade
        else if token c ≠ 0 then .matchingConnectionToken
        else if c = ascii ' ' ∨ c = 9 then .matchingConnectionTokenStart
        else .general } []
  | .matchingConnectionKeepAlive =>
    .next { p with
      index := i
      headerState := matchWord KEEP_ALIVE i c .matchingConnectionKeepAlive .connectionKeepAlive
        .matchingConnectionToken } []
  | .matchingConnectionClose =>
    .next { p with
      index := i
      headerState := matchWord CLOSE i c .matchingConnectionClose .connectionClose
        .matchingConnectionToken } []
  | .matchingConnectionUpgrade =>
    .next { p with
      index := i
      headerState := matchWord UPGRADE i c .matchingConnectionUpgrade .connectionUpgrade
        .matchingConnectionToken } []
  | .matchingConnectionToken =>
    .next (if ch = ascii ',' then
      { p with headerState := .matchingConnectionTokenStart, index := 0 } else p) []
  | .transferEncodingChunked =>
    .next (if ch ≠ ascii ' ' then { p with headerState := .general } else p) []
  | .connectionKeepAlive | .connectionClose | .connectionUpgrade =>
    if ch = ascii ',' then
      .next { headerFlag p with headerState := .matchingConnectionTokenStart, index := 0 } []
    else if ch ≠ ascii ' ' then .next { p with headerState := .matchingConnectionToken } []
    else .next p []
  | _ => .next { p with state := .headerValue, headerState := .general } []

/-- The two calls of `memchr`: the bytes up to the first end of a line, and those from it on. The
search stops after `HTTP_MAX_HEADER_SIZE` bytes; then, as at the end of the buffer, all are
skipped. -/
def lineEnd (data : Bytes) : Bytes × Bytes :=
  let skipped := (data.take HTTP_MAX_HEADER_SIZE).takeWhile fun c => c ≠ CR ∧ c ≠ LF
  if skipped.length < min data.length HTTP_MAX_HEADER_SIZE then
    (skipped, data.drop skipped.length)
  else (data, [])

/-- The loop of `s_header_value`: up to an end of a line. -/
def headerValueLoop (p : Parser) : Bytes → Scan
  | [] => ⟨p, [], [], .next⟩
  | ch :: rest =>
    if ch = CR ∨ ch = LF then ⟨p, [], ch :: rest, .next⟩
    else if !isHeaderChar ch then
      ⟨{ p with httpErrno := .invalidHeaderToken }, [], ch :: rest, .error⟩
    else if p.headerState = .general then
      ⟨p, (lineEnd (ch :: rest)).1, (lineEnd (ch :: rest)).2, .next⟩
    else
      match headerValueByte p ch with
      | ⟨p', _, .next⟩ => (headerValueLoop p' rest).pass ch
      | ⟨p', _, outcome⟩ => ⟨p', [], ch :: rest, outcome⟩

/-- Behind the loop of `s_header_value`. -/
def valueEnd (s : Scan) : Move :=
  let acts : List Action := [.advance s.passed]
  if s.outcome ≠ .next then ⟨s.parser, acts, s.outcome, s.rest⟩
  else
    match s.rest with
    | [] => counted s.parser s.passed.length acts [] fun p => ⟨p, acts, .next, []⟩
    | ch :: rest =>
      let p := { s.parser with state := .headerAlmostDone }
      let given := acts ++ [.data .headerValue]
      if ch = CR then
        counted p s.passed.length given (ch :: rest) fun p =>
          (Step.next p given).move ch rest
      else
        counted p s.passed.length acts (ch :: rest) fun p =>
          ((expect LF .headerValueLws .lfExpected p ch).after given).move ch rest

def headerValue (p : Parser) (data : Bytes) : Move := valueEnd (headerValueLoop p data)

/-! ## Bodies -/

def bodyIdentity (p : Parser) (data : Bytes) : Move :=
  let toRead := min p.contentLength data.length
  if p.contentLength = 0 ∨ p.contentLength = ULLONG_MAX then ⟨p, [], .abort, data⟩
  else
    let p := { p with contentLength := p.contentLength - toRead }
    if p.contentLength = 0 then
      -- the last byte of the body is read again for the end of the message
      match data.drop (toRead - 1) with
      | [] => ⟨p, [], .abort, []⟩
      | ch :: rest =>
        ((messageDone { p with state := .messageDone }).after
          [.mark .body, .advance (data.take (toRead - 1)), .dataThrough .body ch]).move ch rest
    else ⟨p, [.mark .body, .advance (data.take toRead)], .next, data.drop toRead⟩

def bodyIdentityEof (p : Parser) (data : Bytes) : Move :=
  ⟨p, [.mark .body, .advance data], .next, []⟩

def chunkData (p : Parser) (data : Bytes) : Move :=
  let toRead := min p.contentLength data.length
  if ¬p.flags.chunked ∨ p.contentLength = 0 ∨ p.contentLength = ULLONG_MAX then
    ⟨p, [], .abort, data⟩
  else
    let p := { p with contentLength := p.contentLength - toRead }
    ⟨if p.contentLength = 0 then { p with state := .chunkDataAlmostDone } else p,
      [.mark .body, .advance (data.take toRead)], .next, data.drop toRead⟩

/-! ## The loop -/

/-- The `switch`. -/
def dispatch (p : Parser) (ch : UInt8) (rest : Bytes) : Move :=
  match p.state with
  | .headerField => headerField p (ch :: rest)
  | .headerValue => headerValue p (ch :: rest)
  | .bodyIdentity => bodyIdentity p (ch :: rest)
  | .bodyIdentityEof => bodyIdentityEof p (ch :: rest)
  | .chunkData => chunkData p (ch :: rest)
  | _ => (handle p ch).move ch rest

def iterate (p : Parser) (ch : UInt8) (rest : Bytes) : Move :=
  if p.state.parsingHeader then counted p 1 [] (ch :: rest) fun p => dispatch p ch rest
  else dispatch p ch rest

/-- Where the loop over the buffer ends. -/
structure Run where
  parser : Parser
  marks : Marks DataKind UInt8
  events : List Event
  outcome : Outcome
  rest : Bytes

/-- The loop over the buffer. Each round reads a byte, so that as many rounds as there are bytes are
enough. -/
def loop : Nat → Parser → Marks DataKind UInt8 → Bytes → Run
  | 0, p, m, data => ⟨p, m, [], .next, data⟩
  | _ + 1, p, m, [] => ⟨p, m, [], .next, []⟩
  | rounds + 1, p, m, ch :: rest =>
    let mv := iterate p ch rest
    let (m', events) := m.run mv.acts
    match mv.outcome with
    | .next =>
      let r := loop rounds mv.parser m' mv.rest
      { r with events := events ++ r.events }
    | outcome => ⟨mv.parser, m', events, outcome, mv.rest⟩

/-! ## The call -/

def State.inUrl : State → Bool
  | .reqPath | .reqSchema | .reqSchemaSlash | .reqSchemaSlashSlash | .reqServerStart => true
  | .reqServer | .reqServerWithAt | .reqQueryStringStart | .reqQueryString => true
  | .reqFragmentStart | .reqFragment => true
  | _ => false

/-- The marks at the start of a buffer. -/
def startMarks (s : State) : Marks DataKind UInt8
  | .headerField => if s = .headerField then some [] else none
  | .headerValue => if s = .headerValue then some [] else none
  | .url => if s.inUrl then some [] else none
  | .body => none
  | .status => if s = .resStatus then some [] else none

/-- The order of the callbacks behind the loop. -/
def kinds : List DataKind := [.headerField, .headerValue, .url, .body, .status]

/-- What a call does; `aborted` is that an assertion failed in it. -/
structure Result where
  parser : Parser
  events : List Event
  consumed : Nat
  aborted : Bool
deriving DecidableEq, Repr

/-- A call with `len == 0`: the other side has closed the connection. -/
def executeEof (p : Parser) : Result :=
  match p.state with
  | .bodyIdentityEof => ⟨p, [.note (.messageComplete p.method p.statusCode)], 0, false⟩
  | .dead | .startReqOrRes | .startRes | .startReq => ⟨p, [], 0, false⟩
  | _ => ⟨{ p with httpErrno := .invalidEofState }, [], 1, false⟩

/-- Behind the loop. -/
def finish (len : Nat) (r : Run) : Result :=
  match r.outcome with
  | .next =>
    if (kinds.filter fun k => (r.marks k).isSome).length ≤ 1 then
      ⟨r.parser, r.events ++ r.marks.flush kinds, len, false⟩
    else ⟨r.parser, r.events, len, true⟩
  | .exit | .error => ⟨r.parser, r.events, len - r.rest.length, false⟩
  | .abort => ⟨r.parser, r.events, len - r.rest.length, true⟩

/-- `http_parser_execute`. -/
def execute (p : Parser) (data : Bytes) : Result :=
  if p.httpErrno ≠ .ok then ⟨p, [], 0, false⟩
  else if data = [] then executeEof p
  else finish data.length (loop data.length p (startMarks p.state) data)

/-- `http_parser_init`. -/
def init (type : ParserType) : Parser where
  type
  state :=
    match type with
    | .request => .startReq
    | .response => .startRes
    | .both => .startReqOrRes

end Third
end CoSocket
