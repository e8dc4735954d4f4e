import CoSocket.Http.Head
import CoSocket.Http.Requests

/-!
# Http.Responses

Responses as they were sent, and how `http_parser` reports them.

A response shows where it ends by its length, by its last chunk or by its head, and the library
reports the end with the last byte. Or it ends with the stream, and the library reports the end when
it is called without data. For a response without a body whose head announces one (the answer to
`HEAD`, or a 304 with the length of what was not sent) the library waits for that body, since
nothing tells it that there is none; and it knows chunks by a header that says `chunked` and nothing
else, so that behind `gzip, chunked` it waits for the end of the stream. `SentResponse.waits` are
these and those that end with the stream.
-/

namespace CoSocket
namespace Http

open Base

/-! ## Responses -/

/-- A chunk of a body: its size as text, and its data. -/
structure Chunk where
  size : Bytes
  data : Bytes

/-- The body of a response, and how the response shows where it ends: by a length, by the last chunk
(with what follows it), by its status, or by the end of the stream. -/
inductive Content where
  | sized (body : Bytes)
  | chunked (chunks : List Chunk) (last : Bytes)
  | bodiless
  | untilClose (body : Bytes)

namespace Content

open HttpEncoder

/-- The bytes behind the head. -/
def wire : Content → Bytes
  | .sized body => body
  | .chunked chunks last => chunks.flatMap (fun c => c.size ++ crlf ++ c.data ++ crlf) ++ last
  | .bodiless => []
  | .untilClose body => body

def body : Content → Bytes
  | .sized body => body
  | .chunked chunks _ => chunks.flatMap Chunk.data
  | .bodiless => []
  | .untilClose body => body

def endsAtClose : Content → Bool
  | .untilClose _ => true
  | _ => false

end Content

structure SentResponse where
  statusCode : Nat
  reason : Bytes
  headers : List (Bytes × Bytes)
  content : Content

namespace SentResponse

open HttpEncoder

def head (r : SentResponse) : Bytes :=
  bytesOf "HTTP/1.1 " ++ decimal r.statusCode ++ bytesOf " " ++ r.reason ++ crlf ++
    r.headers.flatMap (fun h => h.1 ++ bytesOf ": " ++ h.2 ++ crlf) ++ crlf

def bytes (r : SentResponse) : Bytes := r.head ++ r.content.wire

def isLength (h : Bytes × Bytes) : Bool := lower h.1 = bytesOf "content-length"

/-- Nothing but blanks may follow the word. -/
def isChunked (h : Bytes × Bytes) : Bool :=
  lower h.1 = bytesOf "transfer-encoding" ∧ (lower h.2).take 7 = bytesOf "chunked" ∧
    (h.2.drop 7).all fun b => b = ascii ' '

/-- The head says that no body follows: by a length of 0, or by the status where it gives neither a
length nor chunks. -/
def headEnds (r : SentResponse) : Bool :=
  if r.headers.any isChunked then false
  else if r.headers.any isLength then
    r.headers.all fun h => isLength h → ¬h.2.any fun b => ascii '1' ≤ b ∧ b ≤ ascii '9'
  else r.statusCode / 100 = 1 ∨ r.statusCode = 204 ∨ r.statusCode = 304

/-- All of the response does not show where it ends, to a reader who does not know the request and
knows no other coding than `chunked`. -/
def waits (r : SentResponse) : Bool :=
  match r.content with
  | .untilClose _ => true
  | .bodiless => !r.headEnds
  | .chunked .. => !r.headers.any isChunked
  | .sized _ => false

variable {r : SentResponse}

end SentResponse

/-! ## The library -/

/-- How the library reports a response up to its end. -/
structure ResponseReport where
  front : List CutHeader
  body : List Bytes
  trailing : List CutHeader

namespace ResponseReport

def callbacks (rep : ResponseReport) : List Callback :=
  rep.front.flatMap CutHeader.callbacks ++
    (rep.body.map .body ++ rep.trailing.flatMap CutHeader.callbacks)

/-- The pieces put together are what was sent. -/
structure Of (rep : ResponseReport) (r : SentResponse) : Prop where
  front : rep.front.map (fun h => (h.name.flatten, h.value.flatten)) = r.headers
  body : rep.body.flatten = r.content.body

end ResponseReport

/-- The library on the bytes of a response, from a fresh state and in any pieces. There is no error.
The callbacks report the response and its end with the last byte and not before, or no end at all if
the library waits for more. If the end of the stream shows the end of the response, they report the
response so far, and a call without data after the head reports the end. -/
structure HttpLib.LawfulResponse {σ : Type} (lib : HttpLib σ) (r : SentResponse) : Prop where
  ok : ∀ ds, (∀ d ∈ ds, d ≠ []) → ds.flatten <+: r.bytes → (lib.feed lib.init ds).2.2 = true
  early : ∀ ds, (∀ d ∈ ds, d ≠ []) → ds.flatten <+: r.bytes →
    (ds.flatten = r.bytes → r.waits = true) →
    ∀ cb ∈ (lib.feed lib.init ds).2.1, cb.isComplete = false
  reported : (r.waits = true → r.content.endsAtClose = true) →
    ∀ ds, (∀ d ∈ ds, d ≠ []) → ds.flatten = r.bytes →
    ∃ (rep : ResponseReport) (method : Bytes), rep.Of r ∧ (lib.feed lib.init ds).2.1 =
      rep.callbacks ++ if r.waits then [] else [.messageComplete method r.statusCode]
  atClose : r.content.endsAtClose = true → ∀ ds, (∀ d ∈ ds, d ≠ []) → r.head <+: ds.flatten →
    ds.flatten <+: r.bytes → ∃ method,
      (lib.execute (lib.feed lib.init ds).1 []).2 = ([.messageComplete method r.statusCode], true)

namespace HttpParser

theorem onCallbacks_responseReport (rep : ResponseReport) :
    (onCallbacks {} rep.callbacks).body = rep.body.flatten := by
  have hfront := (foldl_sameRest onHeader_sameRest rep.front {}).2.2.1
  rw [ResponseReport.callbacks, onCallbacks_append, onCallbacks_append, onCallbacks_headers,
    onCallbacks_bodies, onCallbacks_headers]
  rw [(foldl_sameRest onHeader_sameRest rep.trailing _).2.2.1]
  show (rep.front.foldl onHeader {}).body ++ rep.body.flatten = rep.body.flatten
  rw [hfront, List.nil_append]

end HttpParser

/-- What the decoder should hold after the response. -/
def HttpDecoder.Holds {σ : Type} (d : HttpDecoder σ) (r : SentResponse) : Prop :=
  d.fields.complete = true ∧ d.fields.status = r.statusCode ∧ d.fields.body = r.content.body

theorem HttpDecoder.holds_of_report {σ : Type} {d : HttpDecoder σ} {rep : ResponseReport}
    {r : SentResponse} {method : Bytes} (hof : rep.Of r)
    (h : d.fields = (HttpParser.onCallbacks {} rep.callbacks).onComplete method r.statusCode) :
    d.Holds r := by
  refine ⟨by rw [h]; rfl, by rw [h]; rfl, ?_⟩
  rw [h, ← hof.body, ← HttpParser.onCallbacks_responseReport rep]
  rfl

namespace HttpLib.LawfulResponse

variable {σ : Type} {lib : HttpLib σ} {r : SentResponse} {ds : List Bytes}

theorem incomplete (h : lib.LawfulResponse r) (hds : ∀ d ∈ ds, d ≠ [])
    (hpre : ds.flatten <+: r.bytes)
    (hearly : ds.flatten = r.bytes → r.waits = true) :
    (HttpDecoder.fed lib ds).fields.complete = false :=
  HttpParser.onCallbacks_incomplete (h.early ds hds hpre hearly) {}

theorem holds (h : lib.LawfulResponse r) (hds : ∀ d ∈ ds, d ≠ []) (hcat : ds.flatten = r.bytes)
    (hend : r.waits = false) : (HttpDecoder.fed lib ds).Holds r := by
  obtain ⟨rep, method, hof, hcbs⟩ :=
    h.reported (fun hwaits => by rw [hend] at hwaits; cases hwaits) ds hds hcat
  rw [hend] at hcbs
  have hfields : (HttpDecoder.fed lib ds).fields =
      (HttpParser.onCallbacks {} rep.callbacks).onComplete method r.statusCode := by
    show HttpParser.onCallbacks {} (lib.feed lib.init ds).2.1 = _
    rw [hcbs, HttpParser.onCallbacks_append]
    rfl
  exact HttpDecoder.holds_of_report hof hfields

end HttpLib.LawfulResponse

end Http
end CoSocket
