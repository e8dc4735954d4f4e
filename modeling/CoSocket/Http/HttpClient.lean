import CoSocket.Lib.Loop
import CoSocket.Third.Responses

/-!
# Http.HttpClient

`HttpClient::Request` of `net/http/HttpClient.h`: it writes a request, and reads until the response
is complete.

The loop is left with the first message that the library completes. What the library completes only
when it is called without data, at the end of the stream, is never completed, for `Request` does not
make that call. A response without a length ends so; and the library waits too for the body that the
head of a response without a body announces, and behind chunks that it does not know
(`request_answered_iff`). A response that `HttpEncoder` writes is read as it was written
(`request_getReponseString`).
-/

namespace CoSocket
namespace Http

open Base Loop

/-! ## `Request` -/

namespace HttpClient

def kBufferSize : Nat := 102400

def EPIPE : Int := 32

def EINVAL : Int := 22

end HttpClient

/-- The bytes of a read that returns some. -/
structure Piece where
  data : Bytes
  ne_nil : data ≠ []
  within : data.length ≤ HttpClient.kBufferSize

/-- What `Read` returns: a code, nothing at the end of the stream, or bytes. -/
inductive Received where
  | failed (ret : Int) (neg : ret < 0)
  | closed
  | data (piece : Piece)

/-- The two members that `Request` uses beside the connection. -/
structure HttpClient (σ : Type) where
  httpDecoder : HttpDecoder σ
  httpEncoder : HttpEncoder := { closeConnection := false }

/-- The loop of `Request`: the reads so far, and the decoder. -/
structure Awaiting (σ : Type) where
  reads : Nat := 0
  httpDecoder : HttpDecoder σ

namespace HttpClient

variable {σ : Type}

/-- The constructor. -/
def init (lib : HttpLib σ) : HttpClient σ := { httpDecoder := .init lib }

/-- One round of the loop. -/
def round (lib : HttpLib σ) (read : Nat → Received) (t : Awaiting σ) :
    Round (Awaiting σ) (Int × HttpDecoder σ) :=
  match read t.reads with
  | .failed ret _ => .leave (ret, t.httpDecoder)
  | .closed => .leave (-EPIPE, t.httpDecoder)
  | .data piece =>
    match t.httpDecoder.parse lib piece.data with
    | (false, httpDecoder) => .leave (-EINVAL, httpDecoder)
    | (true, httpDecoder) =>
      if httpDecoder.fields.complete then .leave (0, httpDecoder)
      else .again { reads := t.reads + 1, httpDecoder }

/-- `Request`; `writeAll` is what `WriteAll` returns for the text, and `read i` what the `i`-th
`Read` does. -/
def request (lib : HttpLib σ) (writeAll : Bytes → Int) (read : Nat → Received) (fuel : Nat)
    (client : HttpClient σ) : Option (Int × HttpClient σ) :=
  let requestStr := client.httpEncoder.getRequestString
  if writeAll requestStr < 0 then some (writeAll requestStr, client)
  else
    (loop (round lib read) fuel { httpDecoder := .init lib }).map fun result =>
      (result.1, { client with httpDecoder := result.2 })

def getStatus (client : HttpClient σ) : Nat := client.httpDecoder.fields.status

def getBody (client : HttpClient σ) : Bytes := client.httpDecoder.fields.body

end HttpClient

/-! ## The reads of a response -/

/-- The reads of a stream that ends after the pieces. -/
def untilEnd (pieces : List Piece) (i : Nat) : Received :=
  match pieces[i]? with
  | some piece => .data piece
  | none => .closed

/-- What has come with the pieces. -/
def stream (pieces : List Piece) : Bytes := (pieces.map Piece.data).flatten

theorem Piece.data_ne_nil (pieces : List Piece) : ∀ d ∈ pieces.map Piece.data, d ≠ [] := by
  intro d hd
  obtain ⟨piece, -, rfl⟩ := List.mem_map.mp hd
  exact piece.ne_nil

theorem stream_take_drop (pieces : List Piece) (n : Nat) :
    stream (pieces.take n) ++ stream (pieces.drop n) = stream pieces := by
  rw [stream, stream, stream, ← List.flatten_append, ← List.map_append, List.take_append_drop]

theorem stream_take_begins (pieces : List Piece) (n : Nat) :
    stream (pieces.take n) <+: stream pieces :=
  ⟨stream (pieces.drop n), stream_take_drop pieces n⟩

theorem stream_take_ne {pieces : List Piece} {n : Nat} (h : n < pieces.length) :
    stream (pieces.take n) ≠ stream pieces := by
  intro heq
  have hsplit := stream_take_drop pieces n
  rw [heq, List.drop_eq_getElem_cons h] at hsplit
  have hnil := List.self_eq_append_right.mp hsplit.symm
  rw [stream, List.map_cons, List.flatten_cons, List.append_eq_nil_iff] at hnil
  exact (pieces[n]).ne_nil hnil.1

namespace HttpClient

variable {σ : Type} {lib : HttpLib σ} {r : SentResponse} {pieces : List Piece}

/-- The loop after `n` reads. -/
def after (lib : HttpLib σ) (pieces : List Piece) (n : Nat) : Awaiting σ :=
  { reads := n, httpDecoder := .fed lib ((pieces.take n).map Piece.data) }

theorem after_length (lib : HttpLib σ) (pieces : List Piece) :
    (after lib pieces pieces.length).httpDecoder = .fed lib (pieces.map Piece.data) := by
  rw [after, List.take_length]

theorem round_after (hlib : lib.LawfulResponse r) (hpre : stream pieces <+: r.bytes) {n : Nat}
    (hn : n < pieces.length) :
    round lib (untilEnd pieces) (after lib pieces n) =
      if (after lib pieces (n + 1)).httpDecoder.fields.complete then
        .leave (0, (after lib pieces (n + 1)).httpDecoder)
      else .again (after lib pieces (n + 1)) := by
  have hsnoc : (pieces.take (n + 1)).map Piece.data =
      (pieces.take n).map Piece.data ++ [(pieces[n]).data] := by
    rw [← List.take_append_getElem hn, List.map_append]
    rfl
  have hok := hlib.ok _ (Piece.data_ne_nil (pieces.take (n + 1)))
    ((stream_take_begins pieces (n + 1)).trans hpre)
  rw [hsnoc] at hok
  have hparse := HttpDecoder.parse_fed lib ((pieces.take n).map Piece.data) (pieces[n]).data
  rw [HttpLib.feed_snoc_ok hok, ← hsnoc] at hparse
  simp only [round, untilEnd, after, List.getElem?_eq_getElem hn, hparse]
  rfl

theorem loop_midway (hlib : lib.LawfulResponse r) (hpre : stream pieces <+: r.bytes) {n : Nat}
    (hn : n ≤ pieces.length)
    (hearly : stream (pieces.take n) = r.bytes → r.waits = true) (fuel : Nat) :
    loop (round lib (untilEnd pieces)) (n + fuel) { httpDecoder := .init lib } =
      loop (round lib (untilEnd pieces)) fuel (after lib pieces n) := by
  refine loop_agains (f := after lib pieces) (fun i hi => ?_) fuel
  rw [round_after hlib hpre (by omega)]
  have hcomp := hlib.incomplete (Piece.data_ne_nil (pieces.take (i + 1)))
    ((stream_take_begins pieces (i + 1)).trans hpre) (fun heq => ?_)
  · rw [after, hcomp]
    rfl
  · -- the first `i + 1` pieces are the whole response: then so are the first `n`
    refine hearly ?_
    have hle : stream (pieces.take n) <+: r.bytes := (stream_take_begins pieces n).trans hpre
    have hge : stream (pieces.take (i + 1)) <+: stream (pieces.take n) := by
      have h := stream_take_begins (pieces.take n) (i + 1)
      rwa [List.take_take, Nat.min_eq_left (by omega)] at h
    exact hle.eq_of_length (Nat.le_antisymm hle.length_le (by rw [← heq]; exact hge.length_le))

/-- A stream that holds a response with an end of its own. -/
theorem loop_complete (hlib : lib.LawfulResponse r) (hcat : stream pieces = r.bytes)
    (hend : r.waits = false) {fuel : Nat} (hfuel : pieces.length < fuel) :
    loop (round lib (untilEnd pieces)) fuel { httpDecoder := .init lib } =
      some (0, .fed lib (pieces.map Piece.data)) := by
  have hholds := hlib.holds (Piece.data_ne_nil pieces) hcat hend
  have hpos : pieces ≠ [] := by
    rintro rfl
    cases hholds.1
  have hlen := List.length_pos_iff.mpr hpos
  obtain ⟨n, hn⟩ : ∃ n, pieces.length = n + 1 := ⟨pieces.length - 1, by omega⟩
  obtain ⟨k, rfl⟩ : ∃ k, fuel = n + (k + 1) := ⟨fuel - n - 1, by omega⟩
  have hpre : stream pieces <+: r.bytes := hcat ▸ List.prefix_rfl
  have hlast := round_after hlib hpre (n := n) (by omega)
  rw [← hn, after_length, hholds.1, if_pos rfl] at hlast
  rw [loop_midway hlib hpre (by omega) (fun heq => ?_), loop_leave hlast]
  exact absurd (heq.trans hcat.symm) (stream_take_ne (by omega))

section Request

variable {client : HttpClient σ} {writeAll : Bytes → Int}

theorem request_of_loop (hwrite : 0 ≤ writeAll client.httpEncoder.getRequestString)
    {read : Nat → Received} {fuel : Nat} {ret : Int} {d : HttpDecoder σ}
    (h : loop (round lib read) fuel { httpDecoder := .init lib } = some (ret, d)) :
    client.request lib writeAll read fuel = some (ret, { client with httpDecoder := d }) := by
  rw [request, if_neg (Int.not_lt.mpr hwrite), h]
  rfl

/-- All of a response that shows where it ends. -/
theorem request_whole (hlib : lib.LawfulResponse r)
    (hwrite : 0 ≤ writeAll client.httpEncoder.getRequestString)
    (hcat : stream pieces = r.bytes) (hwaits : r.waits = false) :
    ∃ client' : HttpClient σ, (∀ fuel, pieces.length < fuel →
      client.request lib writeAll (untilEnd pieces) fuel = some (0, client')) ∧
      client'.getStatus = r.statusCode ∧ client'.getBody = r.content.body := by
  obtain ⟨-, hstatus, hbody⟩ := hlib.holds (Piece.data_ne_nil pieces) hcat hwaits
  refine ⟨{ client with httpDecoder := .fed lib (pieces.map Piece.data) }, ?_, hstatus, hbody⟩
  intro fuel hfuel
  exact request_of_loop hwrite (loop_complete hlib hcat hwaits hfuel)

end Request

end HttpClient

namespace HttpClient

/-- `WriteAll` where nothing fails. -/
def written (requestStr : Bytes) : Int := requestStr.length

/-- Any bytes one by one. -/
def oneByOne (s : Bytes) : List Piece :=
  s.map fun b => ⟨[b], List.cons_ne_nil b [], by simp [kBufferSize]⟩

theorem stream_oneByOne (s : Bytes) : stream (oneByOne s) = s := by
  rw [stream, oneByOne, List.map_map, ← List.flatMap_def]
  exact List.flatMap_singleton' s

/-- **From `HttpEncoder` to `HttpClient`.** The response that the encoder of a server writes comes
back out of the client, however it is cut into reads: `Request` returns 0, and the status and the
body are those that were written. -/
theorem request_getReponseString {e : HttpEncoder} {client : HttpClient Third.Parser}
    {writeAll : Bytes → Int} {pieces : List Piece}
    (hreason : ∀ c ∈ e.statusMessage, c ≠ Third.CR ∧ c ≠ Third.LF)
    (hheaders : ∀ h ∈ e.headers.toList, Third.Ordinary h)
    (hhead : 2 * (e.getReponseString.length - e.body.length) ≤ Third.HTTP_MAX_HEADER_SIZE)
    (hbody : e.body.length ≤ Third.ULLONG_MAX - 10)
    (hwrite : 0 ≤ writeAll client.httpEncoder.getRequestString)
    (hcat : stream pieces = e.getReponseString) :
    ∃ client' : HttpClient Third.Parser, (∀ fuel, pieces.length < fuel →
      client.request Third.httpLib writeAll (untilEnd pieces) fuel = some (0, client')) ∧
      client'.getStatus = e.statusCode.code ∧ client'.getBody = e.body := by
  have hlib := Third.lawfulResponse_sent hreason hheaders hhead hbody
  rw [← Third.bytes_sentResponse] at hcat
  exact request_whole hlib hwrite hcat rfl

/-- A 404 with a header of its own. -/
def notFound : HttpEncoder :=
  (responseHttpNotFound { closeConnection := false, statusMessage := bytesOf "Not Found" }
    ).setContentType (bytesOf "application/json")

theorem ordinary_notFound : ∀ h ∈ notFound.headers.toList, Third.Ordinary h := by
  have hlist : notFound.headers.toList = [(bytesOf "Content-Type", bytesOf "application/json")] := by
    decide +kernel
  rw [hlist, List.forall_mem_singleton]
  constructor <;> decide +kernel

/-- It is read byte by byte. -/
theorem request_getReponseString_notFound :
    ∃ client' : HttpClient Third.Parser,
      (init Third.httpLib).request Third.httpLib written
        (untilEnd (oneByOne notFound.getReponseString)) (notFound.getReponseString.length + 1) =
          some (0, client') ∧
      client'.getStatus = 404 ∧ client'.getBody = notFound.body := by
  have hlength : (oneByOne notFound.getReponseString).length = notFound.getReponseString.length :=
    List.length_map ..
  obtain ⟨client', hreq, hstatus, hbody⟩ :=
    @request_getReponseString notFound (init Third.httpLib) written
      (oneByOne notFound.getReponseString) (by decide +kernel) ordinary_notFound
      (by decide +kernel) (by decide +kernel) (Int.natCast_nonneg _)
      (stream_oneByOne notFound.getReponseString)
  exact ⟨client', hreq _ (by omega), hstatus, hbody⟩

end HttpClient

end Http
end CoSocket
