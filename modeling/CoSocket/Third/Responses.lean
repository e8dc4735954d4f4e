import CoSocket.Http.Responses
import CoSocket.Third.Library

/-!
# Third.Responses

Responses read by `http_parser`. What has to be known of a response is how it reads byte by byte
(`ReadsResponse`), which can be computed; then http_parser does in every cut what `HttpClient` is
proved under (`lawfulResponse`). For the responses that `HttpEncoder` writes the parser is followed
through the first line, and from there on as for requests (`lawfulResponse_sent`).
-/

namespace CoSocket
namespace Third

open Base Pieces Http

/-! ## The callbacks of a response -/

def contentEvents : Content → List Event
  | .sized body => dataEvents .body body
  | .chunked chunks _ =>
    chunks.flatMap (fun c => [.note .chunkHeader, .data .body c.data, .note .chunkComplete]) ++
      [.note .chunkHeader, .note .chunkComplete]
  | .bodiless => []
  | .untilClose body => dataEvents .body body

/-- The callbacks for the response, with all its data in one piece. Nothing sets the method. -/
def responseEvents (r : SentResponse) : List Event :=
  .note .messageBegin :: (dataEvents .status r.reason ++ (r.headers.flatMap headerEvents ++
    .note .headersComplete :: (contentEvents r.content ++
      if r.waits then [] else [.note (.messageComplete .delete r.statusCode)])))

theorem content_of_glue {content : Content} {evs rest : List Event}
    (h : glue evs = contentEvents content ++ rest) :
    ∃ (ds : List Bytes) (qs : List Event),
      evs.filterMap callback = ds.map .body ++ qs.filterMap callback ∧
      ds.flatten = content.body ∧ glue qs = rest := by
  have hdata {body : Bytes} (h : glue evs = dataEvents .body body ++ rest) :
      ∃ (ds : List Bytes) (qs : List Event),
        evs.filterMap callback = ds.map .body ++ qs.filterMap callback ∧
        ds.flatten = body ∧ glue qs = rest := by
    obtain ⟨ds, qs, rfl, hflat, hqs⟩ := dataEvents_of_glue h
    exact ⟨ds, qs, by rw [List.filterMap_append, filterMap_pieces fun _ => rfl], hflat, hqs⟩
  cases content with
  | sized body => exact hdata h
  | untilClose body => exact hdata h
  | bodiless => exact ⟨[], evs, rfl, rfl, h⟩
  | chunked chunks last =>
    clear hdata
    induction chunks generalizing evs with
    | nil =>
      obtain ⟨evs, rfl, hlast⟩ := note_of_glue h
      obtain ⟨evs, rfl, hrest⟩ := note_of_glue hlast
      exact ⟨[], evs, rfl, rfl, hrest⟩
    | cons c chunks ih =>
      obtain ⟨evs, rfl, hdata⟩ := note_of_glue h
      obtain ⟨ds, evs, rfl, -, hflat, hend⟩ := data_of_glue hdata
      obtain ⟨evs, rfl, hchunks⟩ := note_of_glue hend
      obtain ⟨ds', qs, hcallbacks, hflat', hqs⟩ := ih hchunks
      refine ⟨ds ++ ds', qs, ?_, ?_, hqs⟩
      · rw [List.filterMap_cons_none rfl, List.filterMap_append, List.filterMap_cons_none rfl,
          hcallbacks, filterMap_pieces fun _ => rfl, List.map_append, List.append_assoc]
      · rw [List.flatten_append, hflat, hflat']
        rfl

theorem responseReport_of_glue {r : SentResponse} {evs : List Event}
    (hnames : ∀ h ∈ r.headers, h.1 ≠ []) (h : glue evs = responseEvents r) :
    ∃ rep : ResponseReport, rep.Of r ∧ evs.filterMap callback =
      rep.callbacks ++ if r.waits then [] else [.messageComplete Method.delete.str r.statusCode] := by
  obtain ⟨evs, rfl, hstatus⟩ := note_of_glue h
  obtain ⟨reason, evs, rfl, -, hhead⟩ := dataEvents_of_glue hstatus
  obtain ⟨front, evs', hfront, hmap, -, hdone⟩ := cut_headers hnames hhead
  obtain ⟨evs', rfl, hrest⟩ := note_of_glue hdone
  obtain ⟨body, qs, hbody, hflat, hlast⟩ := content_of_glue hrest
  refine ⟨⟨front, body, []⟩, ⟨hmap, hflat⟩, ?_⟩
  have hreason : (reason.map (.data .status)).filterMap callback = [] := by
    simp [List.filterMap_map, callback]
  have hend : qs.filterMap callback =
      if r.waits then [] else [.messageComplete Method.delete.str r.statusCode] := by
    split at hlast
    · rw [nil_of_glue hlast, if_pos ‹_›]
      rfl
    · obtain ⟨qs', rfl, hnil⟩ := note_of_glue hlast
      rw [nil_of_glue hnil, if_neg ‹_›]
      rfl
  rw [List.filterMap_cons_none rfl, List.filterMap_append, hreason, List.nil_append, hfront,
    List.filterMap_cons_none rfl, hbody, hend, ResponseReport.callbacks]
  simp

/-! ## Behind a head without an end -/

/-- Every byte belongs to the body. -/
theorem feed_untilClose {p : Parser} (hs : p.state = .bodyIdentityEof) (hok : p.httpErrno = .ok)
    (bs : Bytes) : (feed p (bytewise bs)).1 = p := by
  induction bs with
  | nil => rfl
  | cons b bs ih =>
    have hone : (execute p [b]).parser = p := by
      have hmove : iterate p b [] = bodyIdentityEof p [b] := by
        rw [iterate, dispatch, hs]
        rfl
      rw [execute, if_neg (by simp [hok]), if_neg (by simp), finish]
      simp only [List.length_singleton, loop, hmove, bodyIdentityEof]
      split <;> rfl
    show (feed (execute p [b]).parser (bytewise bs)).1 = p
    rw [hone]
    exact ih

/-! ## The promise -/

/-- How the response reads byte by byte. -/
structure ReadsResponse (r : SentResponse) : Prop where
  names : ∀ h ∈ r.headers, h.1 ≠ []
  plain : Plain (init .both) r.bytes
  events : (r.waits = true → r.content.endsAtClose = true) →
    glue (feed (init .both) (bytewise r.bytes)).2 = responseEvents r
  early : r.waits = false →
    ∀ cb ∈ (httpLib.feed httpLib.init (bytewise r.bytes.dropLast)).2.1, cb.isComplete = false
  waiting : r.waits = true →
    ∀ cb ∈ (httpLib.feed httpLib.init (bytewise r.bytes)).2.1, cb.isComplete = false
  atHead : r.content.endsAtClose = true →
    (feed (init .both) (bytewise r.head)).1.state = .bodyIdentityEof ∧
      (feed (init .both) (bytewise r.head)).1.statusCode = r.statusCode

/-- **http_parser and `HttpClient`.** -/
theorem lawfulResponse {r : SentResponse} (h : ReadsResponse r) : httpLib.LawfulResponse r := by
  have hinit : httpLib.init = init .both := rfl
  constructor
  · rintro ds hne ⟨t, ht⟩
    have hplain := h.plain
    rw [← ht] at hplain
    rw [feed_httpLib]
    exact (feed_plain hne hplain.append.1).1
  · intro ds hne hpre hearly
    cases hwaits : r.waits with
    | true => exact incomplete_of_bytewise hne hpre h.plain (h.waiting hwaits)
    | false =>
      have hshort : ds.flatten ≠ r.bytes := fun heq => by
        rw [hearly heq] at hwaits
        cases hwaits
      have hnil : r.bytes ≠ [] := by simp [SentResponse.bytes, SentResponse.head, bytesOf]
      have hsplit := List.dropLast_append_getLast hnil
      have hplain := h.plain
      rw [← hsplit] at hpre hshort hplain
      exact incomplete_of_bytewise hne ((List.prefix_concat_iff.mp hpre).resolve_left hshort)
        hplain.append.1 (h.early hwaits)
  · intro hreport ds hne hcat
    have hplain := h.plain
    have hevents := h.events hreport
    rw [← hcat] at hplain hevents
    rw [feed_httpLib]
    obtain ⟨rep, hof, hrep⟩ := responseReport_of_glue h.names
      ((feed_plain hne hplain).2.trans hevents)
    exact ⟨rep, _, hof, hrep⟩
  · rintro hend ds hne ⟨t, ht⟩ ⟨u, hu⟩
    obtain ⟨hstate, hcode⟩ := h.atHead hend
    have hplain := h.plain
    rw [← hu] at hplain
    have hds := hplain.append.1
    obtain ⟨-, ⟨n, -, hparser⟩, -⟩ := calls_whole (.refl _) (live_init .both) hne hds
    rw [← ht, bytewise_append, feed_append] at hparser
    rw [← ht] at hds
    have hlive := hds.append.1.live (live_init .both)
    dsimp only at hparser
    rw [feed_untilClose hstate hlive.errno] at hparser
    refine ⟨(feed (init .both) (bytewise r.head)).1.method.str, ?_⟩
    rw [feed_httpLib, hinit, hparser]
    simp only [httpLib, execute, executeEof, hstate, hlive.errno, hcode]
    rfl

/-! ## A response that `HttpEncoder` writes -/

/-- The response that the encoder writes. -/
def sentResponse (e : HttpEncoder) : SentResponse where
  statusCode := e.statusCode.code
  reason := e.statusMessage
  headers := writtenFields e
  content := .sized e.body

def FirstLine.response (statusCode : Nat) : FirstLine := { type := .response, statusCode }

/-- The first line of the response. -/
def responseLine (e : HttpEncoder) : Bytes :=
  bytesOf "HTTP/1.1 " ++ HttpEncoder.decimal e.statusCode.code ++ [ascii ' '] ++
    (e.statusMessage ++ [CR, LF])

theorem getReponseString_eq (e : HttpEncoder) :
    e.getReponseString = responseLine e ++ e.appendToStream := by
  have hcrlf : HttpEncoder.crlf = [CR, LF] := by decide
  have hspace : bytesOf " " = [ascii ' '] := by decide
  rw [HttpEncoder.getReponseString, responseLine, hcrlf, hspace]
  simp only [List.append_assoc]

theorem bytes_sentResponse (e : HttpEncoder) : (sentResponse e).bytes = e.getReponseString := by
  have hlength : bytesOf "Content-Length: " = bytesOf "Content-Length" ++ bytesOf ": " := by decide
  have hconnection : (if e.closeConnection then bytesOf "Connection: close"
      else bytesOf "Connection: Keep-Alive") =
        bytesOf "Connection" ++ bytesOf ": " ++ connectionValue e.closeConnection := by
    cases e.closeConnection <;> decide
  rw [HttpEncoder.getReponseString, HttpEncoder.appendToStream, hlength, hconnection]
  simp only [SentResponse.bytes, SentResponse.head, sentResponse, writtenFields, Content.wire,
    List.flatMap_cons, List.append_assoc]

/-- The parser behind the status code. -/
def behindStatus (n : Nat) : Parser where
  type := .response
  state := .resStatusStart
  contentLength := ULLONG_MAX
  httpMajor := 1
  httpMinor := 1
  statusCode := n

theorem steps_status (code : StatusCode) :
    steps (init .both) (bytesOf "HTTP/1.1 " ++ HttpEncoder.decimal code.code ++ [ascii ' ']) =
      some (behindStatus code.code, [.note .messageBegin]) := by
  cases code <;> decide +kernel

/-- The parser inside the reason. -/
theorem reads_reason {p : Parser} (hs : p.state = .resStatus) (hup : p.upgrade = false)
    {reason : Bytes} (hreason : ∀ c ∈ reason, c ≠ CR ∧ c ≠ LF) :
    Reads p (reason ++ [CR, LF]) { p with state := .headerFieldStart } [.data .status reason] := by
  induction reason with
  | nil =>
    have hcr : byte p CR = .next { p with state := .resLineAlmostDone } [.data .status] := by
      unfold byte
      rw [hs]
      unfold handle
      rw [hs]
      rfl
    have hlf : byte { p with state := .resLineAlmostDone } LF =
        .next { p with state := .headerFieldStart } [] := rfl
    have hcons := Reads.cons (by simp [hs]) hcr hup (.single (fun h => by cases h) hlf)
    rw [hs] at hcons
    exact hcons
  | cons c reason ih =>
    obtain ⟨⟨hcr, hlf⟩, hreason⟩ := List.forall_mem_cons.mp hreason
    have hb : byte p c = .next p [] := by
      unfold byte
      rw [hs]
      unfold handle
      rw [hs]
      dsimp only
      rw [resStatus, if_neg hcr, if_neg hlf]
    have hcons := Reads.cons (by simp [hs]) hb hup (ih hreason)
    rw [hs] at hcons
    exact hcons.congr (glue_data_append DataKind.status [c] reason []).symm

theorem reads_responseLine {e : HttpEncoder} (hreason : ∀ c ∈ e.statusMessage, c ≠ CR ∧ c ≠ LF) :
    Reads (init .both) (responseLine e) (behindLine (.response e.statusCode.code))
      (.note .messageBegin :: dataEvents .status e.statusMessage) := by
  refine (reads_steps (steps_status e.statusCode)).append rfl ?_
  cases hmessage : e.statusMessage with
  | nil =>
    apply reads_of_steps
    rfl
  | cons c reason =>
    rw [hmessage] at hreason
    obtain ⟨⟨hcr, hlf⟩, hreason⟩ := List.forall_mem_cons.mp hreason
    have hb : byte (behindStatus e.statusCode.code) c =
        .next { behindStatus e.statusCode.code with state := .resStatus } [.mark .status] := by
      show resStatusStart (behindStatus e.statusCode.code) c = _
      rw [resStatusStart, if_neg hcr, if_neg hlf]
      rfl
    have hrest := reads_reason (p := { behindStatus e.statusCode.code with state := .resStatus })
      rfl rfl hreason
    exact (Reads.cons (fun h => by cases h) hb rfl hrest).congr
      (glue_data_append DataKind.status [c] reason []).symm

section Response

variable {e : HttpEncoder}

theorem responseEvents_eq (e : HttpEncoder) :
    responseEvents (sentResponse e) = .note .messageBegin ::
      (dataEvents .status e.statusMessage ++ writtenEvents (.response e.statusCode.code) e) := rfl

theorem glue_responseEvents (e : HttpEncoder) :
    glue (responseEvents (sentResponse e)) = responseEvents (sentResponse e) := by
  have hwritten := glue_writtenEvents (.response e.statusCode.code) e
  rw [responseEvents_eq]
  unfold dataEvents
  split
  · exact congrArg _ hwritten
  · show push (.note .messageBegin) (push (.data .status e.statusMessage)
      (glue (writtenEvents (.response e.statusCode.code) e))) = _
    rw [hwritten]
    rfl

/-- What is read byte by byte. -/
theorem reads_response (hreason : ∀ c ∈ e.statusMessage, c ≠ CR ∧ c ≠ LF)
    (hheaders : ∀ h ∈ e.headers.toList, Ordinary h) (hbody : e.body.length ≤ ULLONG_MAX - 10) :
    ∃ q, ReadsIn (2 * (e.getReponseString.length - e.body.length)) (init .both)
      e.getReponseString q (responseEvents (sentResponse e)) := by
  rw [getReponseString_eq]
  obtain ⟨q, -, hreads⟩ :=
    reads_message (reads_responseLine hreason) (fun h => by cases h) hheaders hbody
  exact ⟨q, hreads⟩

/-- All but its last byte, which do not end it. -/
theorem reads_response_early (hreason : ∀ c ∈ e.statusMessage, c ≠ CR ∧ c ≠ LF)
    (hheaders : ∀ h ∈ e.headers.toList, Ordinary h) (hbody : e.body.length ≤ ULLONG_MAX - 10) :
    ∃ bs c q evs, e.getReponseString = bs ++ [c] ∧
      ReadsIn (2 * (e.getReponseString.length - e.body.length)) (init .both) bs q evs ∧
      ∀ m n, .note (.messageComplete m n) ∉ evs := by
  rw [getReponseString_eq]
  refine reads_message_early (reads_responseLine hreason) ?_ (fun h => by cases h) hheaders hbody
  intro m n
  unfold dataEvents
  split <;> simp

theorem readsResponse_sent (hreason : ∀ c ∈ e.statusMessage, c ≠ CR ∧ c ≠ LF)
    (hheaders : ∀ h ∈ e.headers.toList, Ordinary h)
    (hhead : 2 * (e.getReponseString.length - e.body.length) ≤ HTTP_MAX_HEADER_SIZE)
    (hbody : e.body.length ≤ ULLONG_MAX - 10) : ReadsResponse (sentResponse e) := by
  have hlength : bytesOf "Content-Length" ≠ [] := by decide
  have hconnection : bytesOf "Connection" ≠ [] := by decide
  rw [← Nat.zero_add (2 * _)] at hhead
  obtain ⟨q, hreads⟩ := reads_response hreason hheaders hbody
  obtain ⟨-, -, hplain, -, hevents⟩ := hreads 0 hhead (live_init .both)
  obtain ⟨bs, c, r, evs, hsplit, hearly, hnone⟩ := reads_response_early hreason hheaders hbody
  obtain ⟨-, -, -, -, hevents'⟩ := hearly 0 hhead (live_init .both)
  constructor
  · exact List.forall_mem_cons.mpr ⟨hlength, List.forall_mem_cons.mpr
      ⟨hconnection, fun h hh => (hheaders h hh).name_ne⟩⟩
  · rw [bytes_sentResponse]
    exact hplain
  · rw [bytes_sentResponse]
    exact fun _ => hevents.trans (glue_responseEvents e)
  · intro _
    rw [bytes_sentResponse, hsplit, List.dropLast_concat]
    exact incomplete_of_reads hevents' hnone
  · intro hwaits
    cases hwaits
  · intro hend
    cases hend

/-- On a response that `HttpEncoder` writes, with no end of a line in its reason and under the
conditions of `request_read` on headers and lengths, http_parser does what `HttpClient` needs. -/
theorem lawfulResponse_sent (hreason : ∀ c ∈ e.statusMessage, c ≠ CR ∧ c ≠ LF)
    (hheaders : ∀ h ∈ e.headers.toList, Ordinary h)
    (hhead : 2 * (e.getReponseString.length - e.body.length) ≤ HTTP_MAX_HEADER_SIZE)
    (hbody : e.body.length ≤ ULLONG_MAX - 10) : httpLib.LawfulResponse (sentResponse e) :=
  lawfulResponse (readsResponse_sent hreason hheaders hhead hbody)

end Response

end Third
end CoSocket
