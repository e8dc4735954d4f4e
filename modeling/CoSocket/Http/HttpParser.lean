import CoSocket.Base.Codec

/-!
# Http.HttpParser

`net/http/HttpParser.cpp`: the callbacks of `http_parser` and the fields they fill.

The library `http_parser` is a parameter (`HttpLib`): a state, and what one call of
`http_parser_execute` does with it, namely the callbacks it makes, in order, and whether its error
is `HPE_OK` afterwards. The callbacks here always return 0 and do not touch the library's state, so
they have no influence on what it does.
-/

namespace CoSocket
namespace Http

open Base

inductive HeaderState where
  | None
  | HasName
  | HasVaule
  | HasAll
deriving DecidableEq, Repr

/-- The bitwise or of two values. -/
def HeaderState.or : HeaderState → HeaderState → HeaderState
  | .None, s => s
  | s, .None => s
  | .HasName, .HasName => .HasName
  | .HasVaule, .HasVaule => .HasVaule
  | _, _ => .HasAll

abbrev HeaderMap := Std.ExtTreeMap Bytes Bytes

abbrev Parameters := Std.ExtTreeMap Bytes Bytes

/-- What the callbacks fill in. -/
structure HttpParser where
  url : Bytes := []
  urlAndParams : Bytes := []
  status : Nat := 0
  method : Bytes := []
  headerState : HeaderState := .None
  headerName : Bytes := []
  headerValue : Bytes := []
  headers : HeaderMap := ∅
  parameters : Parameters := ∅
  body : Bytes := []
  complete : Bool := false

/-- A callback of the library, with what it is given; `messageComplete` reads the method and the
status code from the library's state. -/
inductive Callback where
  | url (data : Bytes)
  | headerField (data : Bytes)
  | headerValue (data : Bytes)
  | body (data : Bytes)
  | messageComplete (method : Bytes) (statusCode : Nat)
deriving DecidableEq, Repr

namespace HttpParser

def onUrl (p : HttpParser) (data : Bytes) : HttpParser :=
  if data.length ≤ 0 then p else { p with urlAndParams := p.urlAndParams ++ data }

def onHeaderName (p : HttpParser) (data : Bytes) : HttpParser :=
  if data.length ≤ 0 then p
  else
    let p := { p with headerName := data, headerState := p.headerState.or .HasName }
    if p.headerState = .HasAll then
      { p with headerState := .None, headers := p.headers.insert p.headerName p.headerValue }
    else p

def onHeaderValue (p : HttpParser) (data : Bytes) : HttpParser :=
  if data.length ≤ 0 then p
  else
    let p := { p with headerValue := data, headerState := p.headerState.or .HasVaule }
    if p.headerState = .HasAll then
      { p with headerState := .None, headers := p.headers.insert p.headerName p.headerValue }
    else p

def onBody (p : HttpParser) (data : Bytes) : HttpParser :=
  if data.length ≤ 0 then p else { p with body := p.body ++ data }

/-- `GetStringBefore`, for an offset inside the string. -/
def getStringBefore (flag : UInt8) (urlAndParams : Bytes) (offset : Nat) : Bytes :=
  (urlAndParams.drop offset).takeWhile (· ≠ flag)

/-- The loop of `ParseUrlAndParam`. Each round moves `offset` on, so that as many rounds as the
string has bytes are enough. -/
def parseParams (urlAndParams : Bytes) : Nat → Nat → Parameters → Parameters
  | 0, _, parameters => parameters
  | rounds + 1, offset, parameters =>
    if offset < urlAndParams.length then
      let key := getStringBefore (ascii '=') urlAndParams offset
      let offset := offset + key.length + 1
      let value := if offset < urlAndParams.length then
        getStringBefore (ascii '&') urlAndParams offset else []
      let offset := if offset < urlAndParams.length then offset + value.length + 1 else offset
      parseParams urlAndParams rounds offset
        (if key ≠ [] then parameters.insert key value
        else if value ≠ [] then parameters.insert value []
        else parameters)
    else parameters

def parseUrlAndParam (p : HttpParser) : HttpParser :=
  let urlAndParams := urlDecode p.urlAndParams
  let url := getStringBefore (ascii '?') urlAndParams 0
  { p with
    urlAndParams
    url
    parameters := parseParams urlAndParams urlAndParams.length (url.length + 1) p.parameters }

def onComplete (p : HttpParser) (method : Bytes) (statusCode : Nat) : HttpParser :=
  { { p with method, status := statusCode }.parseUrlAndParam with complete := true }

def onCallback (p : HttpParser) : Callback → HttpParser
  | .url data => p.onUrl data
  | .headerField data => p.onHeaderName data
  | .headerValue data => p.onHeaderValue data
  | .body data => p.onBody data
  | .messageComplete method statusCode => p.onComplete method statusCode

def onCallbacks (p : HttpParser) (cbs : List Callback) : HttpParser := cbs.foldl onCallback p

/-- `GetHeader`: a C string. -/
def getHeader (p : HttpParser) (name : Bytes) : Bytes :=
  match p.headers[name]? with
  | some value => cStr value
  | none => []

theorem parseParams_end {s : Bytes} {offset : Nat} (h : s.length ≤ offset) (rounds : Nat)
    (parameters : Parameters) : parseParams s rounds offset parameters = parameters := by
  cases rounds with
  | zero => rfl
  | succ rounds => rw [parseParams, if_neg (Nat.not_lt.mpr h)]

/-- The loop ends before it runs out of rounds: more of them than there are bytes left change
nothing. -/
theorem parseParams_rounds {s : Bytes} :
    ∀ {n m offset : Nat} {parameters : Parameters}, s.length - offset ≤ n → s.length - offset ≤ m →
      parseParams s n offset parameters = parseParams s m offset parameters := by
  intro n
  induction n with
  | zero =>
    intro m offset parameters hn _
    rw [parseParams_end (by omega), parseParams_end (by omega)]
  | succ n ih =>
    intro m offset parameters hn hm
    cases m with
    | zero => rw [parseParams_end (by omega), parseParams_end (by omega)]
    | succ m =>
      simp only [parseParams]
      by_cases hlt : offset < s.length
      · rw [if_pos hlt, if_pos hlt]
        apply ih <;> split <;> omega
      · rw [if_neg hlt, if_neg hlt]

end HttpParser

/-! ## The library -/

/-- `http_parser`, with states `σ`: the state that `http_parser_init` sets up, and one call of
`http_parser_execute` (the state after it, the callbacks it makes, and whether the error is
`HPE_OK`). -/
structure HttpLib (σ : Type) where
  init : σ
  execute : σ → Bytes → σ × List Callback × Bool

/-- An `HttpParser` object: the fields, and the library's state in it. -/
structure HttpDecoder (σ : Type) where
  fields : HttpParser
  httpParser : σ

namespace HttpDecoder

variable {σ : Type}

/-- The constructor, and `Reset`. -/
def init (lib : HttpLib σ) : HttpDecoder σ := ⟨{}, lib.init⟩

/-- `Parse`, with its return value. -/
def parse (lib : HttpLib σ) (d : HttpDecoder σ) (data : Bytes) : Bool × HttpDecoder σ :=
  let (httpParser, cbs, ok) := lib.execute d.httpParser data
  (ok, ⟨d.fields.onCallbacks cbs, httpParser⟩)

end HttpDecoder

end Http
end CoSocket
