import CoSocket.Http.Requests
import CoSocket.Http.Upgrade
import CoSocket.Http.WebSocketFrames

/-!
# Http.Pipeline

A whole connection: requests one after the other, the last of them perhaps an upgrade with frames
behind it, and the reads in which their bytes arrive.

The code makes one answer of a read in which something became complete, and then starts anew with an
empty parser; what the read held behind the end of the request is gone. `connection_served` is about
the reads that hold bytes of one request or one frame each (`Apart`): every request is answered for
itself, and every byte behind an accepted upgrade gets to the decoder.
-/

namespace CoSocket
namespace Http

open Base Lts Cut

/-! ## The reads of one request -/

/-- A read, and what the handler makes of its response if the read brings it a request. -/
structure Read where
  data : Bytes
  reply : HttpEncoder → HttpEncoder

/-- The response to the read, if any, can be written. -/
def Read.act (r : Read) : HttpAct := .read r.data r.reply true

/-- The bytes that come in with an action. -/
def HttpAct.input : HttpAct → Bytes
  | .read data _ _ => data
  | _ => []

namespace HttpDispatch

theorem dispatch_congr (d : HttpDispatch) {p q : HttpParser} (h : p.request = q.request) :
    d.dispatch p = d.dispatch q := by
  have hurl : p.url = q.url := congrArg Request.url h
  have hheaders : p.headers = q.headers := congrArg Request.headers h
  unfold dispatch HttpParser.getHeader
  rw [hurl, hheaders]

end HttpDispatch

namespace Server

variable {σ : Type} {deps : Deps σ}

theorem ne_nil_of_readOk {data : Bytes} (h : readOk data = true) : data ≠ [] := by
  rintro rfl
  cases h

theorem data_ne_nil {rs : List Read} (hok : ∀ x ∈ rs, readOk x.data = true) :
    ∀ d ∈ rs.map Read.data, d ≠ [] := by
  intro d hd
  obtain ⟨x, hx, rfl⟩ := List.mem_map.mp hd
  exact ne_nil_of_readOk (hok x hx)

theorem ne_of_append_prefix {pre data bytes : Bytes} (h : readOk data = true)
    (hpre : pre ++ data <+: bytes) : pre ≠ bytes := by
  rintro rfl
  have hlen := hpre.length_le
  have hpos := List.length_pos_iff.mpr (ne_nil_of_readOk h)
  rw [List.length_append] at hlen
  omega

/-- The bytes that the run hands to the WebSocket decoder. -/
def toDecoder (deps : Deps σ) : Server σ → List HttpAct → Bytes
  | _, [] => []
  | s, a :: as =>
    (if s.dispatcher.isWebSocketReq then a.input else []) ++
      match step deps s a with
      | .next s' => toDecoder deps s' as
      | _ => []

theorem toDecoder_append {s s' : Server σ} {as bs : List HttpAct}
    (h : exec (step deps) s as = .next s') :
    toDecoder deps s (as ++ bs) = toDecoder deps s as ++ toDecoder deps s' bs := by
  induction as generalizing s with
  | nil =>
    cases h
    rfl
  | cons a as ih =>
    rw [exec_cons] at h
    obtain ⟨s₁, hs, hrest⟩ := Outcome.andThen_eq_next.mp h
    simp only [List.cons_append, toDecoder, hs, ih hrest, List.append_assoc]

theorem toDecoder_read {s : Server σ} (hmode : s.dispatcher.isWebSocketReq = false) (r : Read) :
    toDecoder deps s [r.act] = [] := by
  simp only [toDecoder, hmode, Bool.false_eq_true, if_false, List.nil_append]
  split <;> rfl

theorem parseHttpToDispatch_incomplete {s : Server σ} {c : Conn σ} {data : Bytes}
    {httpRequest : HttpDecoder σ}
    (hparse : c.httpRequest.parse deps.http data = (true, httpRequest))
    (hcomp : httpRequest.fields.complete = false) (reply : HttpEncoder → HttpEncoder)
    (written : Bool) :
    s.parseHttpToDispatch deps c data reply written =
      { s with conn := some { c with httpRequest } } := by
  unfold parseHttpToDispatch
  rw [hparse]
  simp only [hcomp, Bool.false_eq_true, if_false]

/-- A read that brings a message to its end: the request is dispatched and answered. -/
theorem parseHttpToDispatch_complete {s : Server σ} {c : Conn σ} {data : Bytes}
    {httpRequest : HttpDecoder σ}
    (hparse : c.httpRequest.parse deps.http data = (true, httpRequest))
    (hcomp : httpRequest.fields.complete = true) (reply : HttpEncoder → HttpEncoder) :
    ∃ response, s.parseHttpToDispatch deps c data reply true =
      { dispatcher := (s.dispatcher.dispatch httpRequest.fields).1
        conn := some { c with httpRequest := .init deps.http }
        log := s.log ++ [.answered httpRequest.fields.request
          (s.dispatcher.dispatch httpRequest.fields).2 response] } := by
  unfold parseHttpToDispatch
  rw [hparse]
  simp only [hcomp, if_true]
  exact ⟨_, rfl⟩

/-- The server that has got the reads `ds` of the current request. -/
def collecting (deps : Deps σ) (s : Server σ) (c : Conn σ) (ds : List Bytes) : Server σ :=
  { s with conn := some { c with httpRequest := .fed deps.http ds } }

theorem step_collecting {s : Server σ} {c : Conn σ} {ds : List Bytes} {r : Read}
    (hmode : s.dispatcher.isWebSocketReq = false) (hr : readOk r.data = true)
    (hgood : (deps.http.feed deps.http.init (ds ++ [r.data])).2.2 = true) :
    (HttpDecoder.fed deps.http ds).parse deps.http r.data =
        (true, .fed deps.http (ds ++ [r.data])) ∧
      step deps (s.collecting deps c ds) r.act =
        .next ((s.collecting deps c ds).parseHttpToDispatch deps
          { c with httpRequest := .fed deps.http ds } r.data r.reply true) := by
  have hparse := HttpDecoder.parse_fed deps.http ds r.data
  rw [HttpLib.feed_snoc_ok hgood] at hparse
  refine ⟨hparse, ?_⟩
  have hmode' : (s.collecting deps c ds).dispatcher.isWebSocketReq = false := hmode
  rw [Read.act, step_read rfl hr, hmode']
  rfl

section Request

variable {s : Server σ} {c : Conn σ} {r : SentRequest}

theorem reads_midway (hc : s.conn = some { c with httpRequest := .init deps.http })
    (hmode : s.dispatcher.isWebSocketReq = false) (hlib : deps.http.Lawful r) {rs : List Read}
    (hok : ∀ x ∈ rs, readOk x.data = true) (hpre : (rs.map Read.data).flatten <+: r.bytes)
    (hne : (rs.map Read.data).flatten ≠ r.bytes) :
    exec (step deps) s (rs.map Read.act) = .next (s.collecting deps c (rs.map Read.data)) ∧
      toDecoder deps s (rs.map Read.act) = [] := by
  induction rs using List.reverseRecOn with
  | nil =>
    refine ⟨?_, rfl⟩
    rw [List.map_nil, exec_nil]
    exact congrArg _ (congrArg (fun conn => { s with conn }) hc)
  | append_singleton rs x ih =>
    have hx : readOk x.data = true := hok x (by simp)
    have hds := data_ne_nil hok
    have hgood := hlib.ok _ hds hpre
    have hearly := hlib.early _ hds hpre hne
    rw [List.map_append, List.map_cons, List.map_nil] at hpre hne hgood hearly ⊢
    rw [List.flatten_append, List.flatten_singleton] at hpre hne
    have hpre₀ : (rs.map Read.data).flatten <+: r.bytes := (List.prefix_append _ _).trans hpre
    have hne₀ := ne_of_append_prefix hx hpre
    obtain ⟨hrun, hbytes⟩ := ih (fun y hy => hok y (List.mem_append_left _ hy)) hpre₀ hne₀
    obtain ⟨hparse, hstep⟩ := step_collecting (s := s) (c := c) hmode hx hgood
    have hcomp : (HttpDecoder.fed deps.http (rs.map Read.data ++ [x.data])).fields.complete =
        false := HttpParser.onCallbacks_incomplete hearly {}
    rw [List.map_append, List.map_cons, List.map_nil]
    constructor
    · rw [exec_snoc hrun, hstep, parseHttpToDispatch_incomplete hparse hcomp]
      rfl
    · rw [toDecoder_append hrun, hbytes, List.nil_append]
      exact toDecoder_read (s := s.collecting deps c _) hmode x

/-- The reads of a request: it is answered for itself, and the next one finds a new parser. -/
theorem reads_request (hc : s.conn = some { c with httpRequest := .init deps.http })
    (hmode : s.dispatcher.isWebSocketReq = false) (hlib : deps.http.Lawful r) {rs : List Read}
    (hok : ∀ x ∈ rs, readOk x.data = true) (hcat : (rs.map Read.data).flatten = r.bytes)
    (hwhole : HeadersWhole r (deps.http.feed deps.http.init (rs.map Read.data)).2.1) :
    ∃ response, exec (step deps) s (rs.map Read.act) =
        .next {
          dispatcher := (s.dispatcher.dispatch r.parser).1
          conn := some { c with httpRequest := .init deps.http }
          log := s.log ++ [.answered r.request (s.dispatcher.dispatch r.parser).2 response] } ∧
      toDecoder deps s (rs.map Read.act) = [] := by
  have hds := data_ne_nil hok
  have hgood := hlib.ok _ hds (hcat ▸ List.prefix_rfl)
  obtain ⟨rep, hof, hcbs⟩ := hlib.reported _ hds hcat
  obtain ⟨hcomp, hreq⟩ := HttpParser.onCallbacks_report hof
    (Report.whole_of_headersWhole hof (hcbs ▸ hwhole))
  rw [← hcbs] at hcomp hreq
  rcases List.eq_nil_or_concat rs with rfl | ⟨rs, x, rfl⟩
  · exact absurd hcat.symm hlib.bytes_ne_nil
  · have hx : readOk x.data = true := hok x (by simp)
    rw [List.concat_eq_append, List.map_append, List.map_cons,
      List.map_nil] at hcat hgood hcomp hreq
    have hcomp : (HttpDecoder.fed deps.http (rs.map Read.data ++ [x.data])).fields.complete =
      true := hcomp
    have hreq : (HttpDecoder.fed deps.http (rs.map Read.data ++ [x.data])).fields.request =
      r.request := hreq
    rw [List.flatten_append, List.flatten_singleton] at hcat
    have hne₀ := ne_of_append_prefix hx ⟨[], by rw [List.append_nil, hcat]⟩
    obtain ⟨hrun, hbytes⟩ := reads_midway hc hmode hlib
      (fun y hy => hok y (by simp [hy])) ⟨x.data, hcat⟩ hne₀
    obtain ⟨hparse, hstep⟩ := step_collecting (s := s) (c := c) hmode hx hgood
    obtain ⟨response, hanswer⟩ := parseHttpToDispatch_complete
      (s := s.collecting deps c (rs.map Read.data))
      (c := { c with httpRequest := .fed deps.http (rs.map Read.data) }) hparse hcomp x.reply
    have hsame := s.dispatcher.dispatch_congr (q := r.parser) hreq
    rw [List.concat_eq_append, List.map_append, List.map_cons, List.map_nil]
    refine ⟨response, ?_, ?_⟩
    · rw [exec_snoc hrun, hstep, hanswer]
      simp only [collecting, hsame, hreq]
    · rw [toDecoder_append hrun, hbytes, List.nil_append]
      exact toDecoder_read (s := s.collecting deps c _) hmode x

end Request

/-! ## The reads behind an upgrade -/

/-- `ProcessWebSocketData` does with a chunk what the session does. -/
theorem processWebSocketData_receive {s : Server σ} {c : Conn σ} {h : Nat} {sess : Session}
    {data : Bytes} (hh : s.dispatcher.wsHandler = some h) (hp : sess.parser = c.wsDecoder)
    (hfail : sess.failed = false) (hfail' : (sess.receive data).failed = false) :
    ∃ c' payloads, s.processWebSocketData c data true =
        .next { s with conn := some c', log := s.log ++ payloads.map (.message h) } ∧
      (sess.receive data).delivered = sess.delivered ++ payloads ∧
      (sess.receive data).parser = c'.wsDecoder := by
  unfold processWebSocketData
  unfold Session.receive at hfail' ⊢
  rw [hfail, hp] at hfail'
  rw [hfail, hp, hh]
  simp only [Bool.false_eq_true, if_false] at hfail' ⊢
  generalize c.wsDecoder.parse data = parsed at hfail' ⊢
  obtain ⟨ok, wsDecoder⟩ := parsed
  cases ok with
  | false => cases hfail'
  | true =>
    dsimp only
    cases wsDecoder.complete with
    | true => exact ⟨{ c with wsDecoder := wsDecoder.reset }, [wsDecoder.payload], rfl, rfl, rfl⟩
    | false => exact ⟨{ c with wsDecoder }, [], by simp, by simp, rfl⟩

theorem reads_frames {h : Nat} {rs : List Read} :
    ∀ (sess : Session) {s : Server σ} {c : Conn σ}, s.conn = some c →
      s.dispatcher.isWebSocketReq = true → s.dispatcher.wsHandler = some h →
      (∀ x ∈ rs, readOk x.data = true) → sess.parser = c.wsDecoder → sess.failed = false →
      (sess.feed (rs.map Read.data)).failed = false →
      ∃ c' payloads, exec (step deps) s (rs.map Read.act) =
          .next { s with conn := some c', log := s.log ++ payloads.map (.message h) } ∧
        (sess.feed (rs.map Read.data)).delivered = sess.delivered ++ payloads ∧
        toDecoder deps s (rs.map Read.act) = (rs.map Read.data).flatten := by
  induction rs with
  | nil =>
    intro sess s c hc hmode hh hok hp hfail hfail'
    refine ⟨c, [], ?_, (List.append_nil _).symm, rfl⟩
    rw [List.map_nil, List.map_nil, List.append_nil, exec_nil, ← hc]
  | cons x rs ih =>
    intro sess s c hc hmode hh hok hp hfail hfail'
    have hx : readOk x.data = true := hok x (by simp)
    rw [List.map_cons, Session.feed_cons] at hfail'
    have hreceive : (sess.receive x.data).failed = false := by
      by_contra hne
      rw [Bool.not_eq_false] at hne
      rw [Session.feed_failed hne] at hfail'
      cases hfail'
    obtain ⟨c₁, payloads₁, hstep, hdel₁, hp₁⟩ := processWebSocketData_receive hh hp hfail hreceive
    obtain ⟨c₂, payloads₂, hrun, hdel₂, hbytes⟩ := ih (sess.receive x.data) (s := { s with
      conn := some c₁, log := s.log ++ payloads₁.map (.message h) }) rfl hmode hh
      (fun y hy => hok y (List.mem_cons_of_mem _ hy)) hp₁ hreceive hfail'
    have hread : step deps s x.act =
        .next { s with conn := some c₁, log := s.log ++ payloads₁.map (.message h) } := by
      rw [Read.act, step_read hc hx, hmode]
      exact hstep
    refine ⟨c₂, payloads₁ ++ payloads₂, ?_, ?_, ?_⟩
    · rw [List.map_cons, exec_cons, hread, Outcome.andThen_next, hrun]
      simp
    · rw [List.map_cons, Session.feed_cons, hdel₂, hdel₁, List.append_assoc]
    · rw [List.map_cons, List.map_cons, List.flatten_cons, toDecoder, hread, hmode, ← hbytes]
      rfl

end Server

/-! ## The whole connection -/

/-- What comes over a connection: requests, and frames behind the last one. -/
structure Stream where
  requests : List SentRequest
  frames : List Frame

/-- What the server makes of it: an answer for a request, or a call with a message. -/
inductive Served where
  | answered (request : Request) (answer : Answer)
  | message (webSocketHandler : WebSocketHandler) (payload : Bytes)

def Event.served : Event → Served
  | .answered request answer _ => .answered request answer
  | .message h payload => .message (some h) payload

namespace Stream

/-- The handler for the messages: that of the last request. -/
def webSocketHandler (str : Stream) (d : HttpDispatch) : WebSocketHandler :=
  str.requests.getLast?.bind fun r => d.webSocketHandlerFor r.parser

/-- At most the last request asks for a WebSocket; frames come only behind an upgrade that is
accepted, and the decoder accepts them. -/
structure Valid (str : Stream) (d : HttpDispatch) : Prop where
  plain : ∀ r ∈ str.requests.dropLast, d.upgrades r.parser = false
  upgraded : str.frames ≠ [] → ∃ r h, str.requests.getLast? = some r ∧
    d.upgrades r.parser = true ∧ d.webSocketHandlerFor r.parser = some h
  accepted : AllAccepted [] str.frames

theorem Valid.plain_init {rs : List SentRequest} {r : SentRequest} {frames : List Frame}
    {d : HttpDispatch} (h : Valid ⟨rs ++ [r], frames⟩ d) :
    ∀ x ∈ rs, d.upgrades x.parser = false := by
  intro x hx
  exact h.plain x (by simpa using hx)

/-- One answer for each request, made of that request alone, and one call for each message. -/
def served (str : Stream) (d : HttpDispatch) : List Served :=
  str.requests.map (fun r => .answered r.request (d.dispatch r.parser).2) ++
    (deliveries [] str.frames).map (.message (str.webSocketHandler d))

/-- No read holds bytes of two requests, of a request and a frame, or of two frames; and the library
reports the headers of each request whole. -/
def Apart {σ : Type} (str : Stream) (lib : HttpLib σ) (reads : List Bytes) : Prop :=
  ∃ css ds, reads = css.flatten ++ ds ∧ css.map List.flatten = str.requests.map (·.bytes) ∧
    Refines ds (str.frames.map Frame.encode) ∧
    ∀ p ∈ str.requests.zip css, HeadersWhole p.1 (lib.feed lib.init p.2).2.1

end Stream

namespace Server

variable {σ : Type} {deps : Deps σ}

/-- The run goes on to its end; it makes of the stream what it should; and the decoder gets the
bytes of the frames, all of them. -/
def Serves (deps : Deps σ) (s : Server σ) (str : Stream) (acts : List HttpAct) : Prop :=
  ∃ s' events, exec (step deps) s acts = .next s' ∧ s'.conn.isSome = true ∧
    s'.log = s.log ++ events ∧ events.map Event.served = str.served s.dispatcher ∧
    toDecoder deps s acts = (str.frames.map Frame.encode).flatten

/-- Requests that ask for no WebSocket, one after the other. -/
theorem reads_requests {c : Conn σ} {rs : List SentRequest} :
    ∀ {s : Server σ} {css : List (List Bytes)} {reads : List Read},
      s.conn = some { c with httpRequest := .init deps.http } →
      s.dispatcher.isWebSocketReq = false → (∀ r ∈ rs, deps.http.Lawful r) →
      (∀ r ∈ rs, s.dispatcher.upgrades r.parser = false) →
      (∀ x ∈ reads, readOk x.data = true) → reads.map Read.data = css.flatten →
      css.map List.flatten = rs.map (·.bytes) →
      (∀ p ∈ rs.zip css, HeadersWhole p.1 (deps.http.feed deps.http.init p.2).2.1) →
      ∃ events, exec (step deps) s (reads.map Read.act) =
          .next { s with log := s.log ++ events } ∧
        events.map Event.served =
          rs.map (fun r => .answered r.request (s.dispatcher.dispatch r.parser).2) ∧
        toDecoder deps s (reads.map Read.act) = [] := by
  induction rs with
  | nil =>
    intro s css reads hc hmode hlib hplain hok hreads hcss hwhole
    rw [List.map_nil, List.map_eq_nil_iff] at hcss
    subst hcss
    rw [List.flatten_nil, List.map_eq_nil_iff] at hreads
    subst hreads
    exact ⟨[], by simp, rfl, rfl⟩
  | cons r rs ih =>
    intro s css reads hc hmode hlib hplain hok hreads hcss hwhole
    obtain ⟨ds, css, rfl, hds, hcss'⟩ := List.map_eq_cons_iff.mp hcss
    obtain ⟨reads₁, reads₂, rfl, rfl, hreads'⟩ := List.map_eq_append_iff.mp hreads
    obtain ⟨response, hrun₁, hbytes₁⟩ := reads_request hc hmode (hlib r (by simp))
      (fun x hx => hok x (List.mem_append_left _ hx)) hds
      (hwhole (r, reads₁.map Read.data) (by simp))
    rw [HttpDispatch.dispatch_plain (hplain r (by simp)) hmode] at hrun₁
    obtain ⟨events, hrun₂, hserved, hbytes₂⟩ := ih (s := { s with
        conn := some { c with httpRequest := .init deps.http }
        log := s.log ++ [.answered r.request (s.dispatcher.dispatch r.parser).2 response] })
      rfl hmode (fun x hx => hlib x (List.mem_cons_of_mem _ hx))
      (fun x hx => hplain x (List.mem_cons_of_mem _ hx))
      (fun x hx => hok x (List.mem_append_right _ hx)) hreads' hcss'
      (fun p hp => hwhole p (List.mem_cons_of_mem _ hp))
    refine ⟨.answered r.request (s.dispatcher.dispatch r.parser).2 response :: events, ?_, ?_, ?_⟩
    · rw [List.map_append, exec_append, hrun₁, Outcome.andThen_next, hrun₂, hc]
      simp
    · rw [List.map_cons, hserved]
      rfl
    · rw [List.map_append, toDecoder_append hrun₁, hbytes₁, hbytes₂]
      rfl

theorem reads_all_requests {s : Server σ} {c : Conn σ} {rs : List SentRequest} {r : SentRequest}
    {css : List (List Bytes)} {reads : List Read}
    (hc : s.conn = some { c with httpRequest := .init deps.http })
    (hmode : s.dispatcher.isWebSocketReq = false)
    (hlib : ∀ x ∈ rs ++ [r], deps.http.Lawful x)
    (hplain : ∀ x ∈ rs, s.dispatcher.upgrades x.parser = false)
    (hok : ∀ x ∈ reads, readOk x.data = true) (hreads : reads.map Read.data = css.flatten)
    (hcss : css.map List.flatten = (rs ++ [r]).map (·.bytes))
    (hwhole : ∀ p ∈ (rs ++ [r]).zip css,
      HeadersWhole p.1 (deps.http.feed deps.http.init p.2).2.1) :
    ∃ events, exec (step deps) s (reads.map Read.act) =
        .next {
          dispatcher := (s.dispatcher.dispatch r.parser).1
          conn := some { c with httpRequest := .init deps.http }
          log := s.log ++ events } ∧
      events.map Event.served =
        (rs ++ [r]).map (fun x => .answered x.request (s.dispatcher.dispatch x.parser).2) ∧
      toDecoder deps s (reads.map Read.act) = [] := by
  rw [List.map_append] at hcss
  obtain ⟨css₁, css₂, rfl, hcss₁, hcss₂⟩ := List.map_eq_append_iff.mp hcss
  obtain ⟨cs, rfl, hcs⟩ := List.map_eq_singleton_iff.mp hcss₂
  rw [List.flatten_append, List.flatten_singleton] at hreads
  obtain ⟨reads₁, reads₂, rfl, hreads₁, rfl⟩ := List.map_eq_append_iff.mp hreads
  have hlen : rs.length = css₁.length := by simpa using (congrArg List.length hcss₁).symm
  rw [List.zip_append hlen] at hwhole
  obtain ⟨events, hrun₁, hserved, hbytes₁⟩ := reads_requests hc hmode
    (fun x hx => hlib x (List.mem_append_left _ hx)) hplain
    (fun x hx => hok x (List.mem_append_left _ hx)) hreads₁ hcss₁
    (fun p hp => hwhole p (List.mem_append_left _ hp))
  obtain ⟨response, hrun₂, hbytes₂⟩ := reads_request (s := { s with log := s.log ++ events }) hc
    hmode (hlib r (by simp)) (fun x hx => hok x (List.mem_append_right _ hx)) hcs
    (hwhole (r, reads₂.map Read.data) (by simp))
  refine ⟨events ++ [.answered r.request (s.dispatcher.dispatch r.parser).2 response], ?_, ?_, ?_⟩
  · rw [List.map_append, exec_append, hrun₁, Outcome.andThen_next, hrun₂]
    simp
  · rw [List.map_append, List.map_append, hserved]
    rfl
  · rw [List.map_append, toDecoder_append hrun₁, hbytes₁, hbytes₂]
    rfl

theorem reads_all_frames {s : Server σ} {c : Conn σ} {h : Nat} {frames : List Frame}
    {reads : List Read} (hc : s.conn = some c) (hnew : c.wsDecoder = {})
    (hmode : s.dispatcher.isWebSocketReq = true) (hh : s.dispatcher.wsHandler = some h)
    (hok : ∀ x ∈ reads, readOk x.data = true) (hall : AllAccepted [] frames)
    (hds : Refines (reads.map Read.data) (frames.map Frame.encode)) :
    ∃ c', exec (step deps) s (reads.map Read.act) =
        .next { s with
          conn := some c'
          log := s.log ++ (deliveries [] frames).map (.message h) } ∧
      toDecoder deps s (reads.map Read.act) = (frames.map Frame.encode).flatten := by
  obtain ⟨hfail, hdel, -⟩ := Session.feed_refines hall Session.ready_init (data_ne_nil hok) hds
  obtain ⟨c', payloads, hrun, hdel', hbytes⟩ :=
    reads_frames {} hc hmode hh hok hnew.symm rfl hfail
  have hpayloads : payloads = deliveries [] frames := by
    rw [hdel] at hdel'
    exact hdel'.symm
  subst hpayloads
  exact ⟨c', hrun, by rw [hbytes, hds.flatten_eq]⟩

/-- A connection that stays with HTTP, or is upgraded by its last request and ends there. -/
theorem serves_requests {s : Server σ} {requests : List SentRequest} {css : List (List Bytes)}
    {reads : List Read} (hc : s.conn = some { httpRequest := .init deps.http })
    (hmode : s.dispatcher.isWebSocketReq = false)
    (hvalid : Stream.Valid ⟨requests, []⟩ s.dispatcher)
    (hlib : ∀ r ∈ requests, deps.http.Lawful r) (hok : ∀ x ∈ reads, readOk x.data = true)
    (hreads : reads.map Read.data = css.flatten)
    (hcss : css.map List.flatten = requests.map (·.bytes))
    (hwhole : ∀ p ∈ requests.zip css,
      HeadersWhole p.1 (deps.http.feed deps.http.init p.2).2.1) :
    Serves deps s ⟨requests, []⟩ (reads.map Read.act) := by
  rcases List.eq_nil_or_concat requests with rfl | ⟨rs, r, rfl⟩
  · rw [List.map_nil, List.map_eq_nil_iff] at hcss
    subst hcss
    rw [List.flatten_nil, List.map_eq_nil_iff] at hreads
    subst hreads
    exact ⟨s, [], rfl, by rw [hc]; rfl, (List.append_nil _).symm, rfl, rfl⟩
  · rw [List.concat_eq_append] at *
    obtain ⟨events, hrun, hserved, hbytes⟩ := reads_all_requests
      (c := { httpRequest := .init deps.http }) hc hmode hlib hvalid.plain_init hok hreads hcss
      hwhole
    exact ⟨_, events, hrun, rfl, rfl, by rw [hserved]; simp [Stream.served, deliveries], hbytes⟩

/-- **A connection.** A library that keeps its promise, a stream of requests and frames, and a cut
into reads none of which holds bytes of two of them: each request is answered once, in order and for
itself, and every byte behind an accepted upgrade reaches the WebSocket decoder. -/
theorem connection_served {s : Server σ} {str : Stream} {reads : List Read}
    (hc : s.conn = some { httpRequest := .init deps.http })
    (hmode : s.dispatcher.isWebSocketReq = false) (hvalid : str.Valid s.dispatcher)
    (hlib : ∀ r ∈ str.requests, deps.http.Lawful r) (hok : ∀ x ∈ reads, readOk x.data = true)
    (hapart : str.Apart deps.http (reads.map Read.data)) :
    Serves deps s str (reads.map Read.act) := by
  obtain ⟨requests, frames⟩ := str
  obtain ⟨css, ds, hreads, hcss, hds, hwhole⟩ := hapart
  obtain ⟨reads₁, reads₂, rfl, hreads₁, rfl⟩ := List.map_eq_append_iff.mp hreads
  dsimp only at hcss hds hwhole hlib
  have hok₁ : ∀ x ∈ reads₁, readOk x.data = true := fun x hx => hok x (List.mem_append_left _ hx)
  have hok₂ : ∀ x ∈ reads₂, readOk x.data = true := fun x hx => hok x (List.mem_append_right _ hx)
  by_cases hframes : frames = []
  · -- no frames, and so no reads behind the requests
    subst hframes
    rw [List.map_nil, refines_nil_iff, List.map_eq_nil_iff] at hds
    subst hds
    rw [List.append_nil]
    exact serves_requests hc hmode hvalid hlib hok₁ hreads₁ hcss hwhole
  · obtain ⟨r, h, hlast, hup, hh⟩ := hvalid.upgraded hframes
    obtain ⟨rs, rfl⟩ := List.getLast?_eq_some_iff.mp hlast
    obtain ⟨events, hrun₁, hserved, hbytes₁⟩ := reads_all_requests
      (c := { httpRequest := .init deps.http }) hc hmode hlib hvalid.plain_init hok₁ hreads₁ hcss
      hwhole
    -- the upgrade is accepted, and the frames go to the decoder
    obtain ⟨hflag, hhandler⟩ := HttpDispatch.dispatch_upgrade hup
    rw [hh, Option.some_or] at hhandler
    obtain ⟨c', hrun₂, hbytes₂⟩ := reads_all_frames (s := {
        dispatcher := (s.dispatcher.dispatch r.parser).1
        conn := some { httpRequest := .init deps.http }
        log := s.log ++ events }) rfl rfl hflag hhandler hok₂ hvalid.accepted hds
    have hrun := @exec_append _ _ _ (step deps) s (reads₁.map Read.act) (reads₂.map Read.act)
    rw [hrun₁, Outcome.andThen_next, hrun₂, ← List.map_append] at hrun
    refine ⟨_, events ++ (deliveries [] frames).map (.message h), hrun, rfl,
      List.append_assoc _ _ _, ?_, ?_⟩
    · rw [List.map_append, hserved]
      simp [Stream.served, Stream.webSocketHandler, hh, Event.served, Function.comp_def]
    · rw [List.map_append, toDecoder_append hrun₁, hbytes₁, hbytes₂, List.nil_append]

end Server

namespace Server

def getA : SentRequest :=
  ⟨bytesOf "GET /a HTTP/1.1\r\n\r\n", bytesOf "GET", bytesOf "/a", [], []⟩

def getB : SentRequest :=
  ⟨bytesOf "GET /b HTTP/1.1\r\n\r\n", bytesOf "GET", bytesOf "/b", [], []⟩

def upgradeW : SentRequest where
  bytes := bytesOf "GET /w HTTP/1.1\r\nUpgrade: websocket\r\nConnection: Upgrade\r\n" ++
    bytesOf "Sec-WebSocket-Key: dGhlIHNhbXBsZSBub25jZQ==\r\n\r\n"
  method := bytesOf "GET"
  target := bytesOf "/w"
  headers := [(bytesOf "Upgrade", bytesOf "websocket"), (bytesOf "Connection", bytesOf "Upgrade"),
    (bytesOf "Sec-WebSocket-Key", bytesOf "dGhlIHNhbXBsZSBub25jZQ==")]
  body := []

/-- The three requests, and the digest for the key of the last one. -/
def sampleDeps : Deps Bytes where
  http := knownRequests [(getA, false), (getB, false), (upgradeW, true)]
  sha1 := fun _ => [0xb3, 0x7a, 0x4f, 0x2c, 0xc0, 0x62, 0x4f, 0x16, 0x90, 0xf6,
    0x46, 0x06, 0xcf, 0x38, 0x59, 0x45, 0xb2, 0xbe, 0xc4, 0xea]

/-- A connection to a server with a handler for each of them. -/
def sampleServer : Server Bytes where
  dispatcher :=
    ((({ enableWebSocket := true } : HttpDispatch).addHttpHandler (bytesOf "/a") (some 0)
      ).addHttpHandler (bytesOf "/b") (some 1)).addWebSocketHandler (bytesOf "/w") (some 2)
  conn := some { httpRequest := .init sampleDeps.http }

theorem sampleDeps_lawful : ∀ r ∈ [getA, getB, upgradeW], sampleDeps.http.Lawful r := by
  have hA : sampleDeps.http.Lawful getA :=
    @lawful_known _ getA false (by decide +kernel) (by decide +kernel) (by decide +kernel)
      (by decide +kernel)
  have hB : sampleDeps.http.Lawful getB :=
    @lawful_known _ getB false (by decide +kernel) (by decide +kernel) (by decide +kernel)
      (by decide +kernel)
  have hW : sampleDeps.http.Lawful upgradeW :=
    @lawful_known _ upgradeW true (by decide +kernel) (by decide +kernel) (by decide +kernel)
      (by decide +kernel)
  intro r hr
  simp only [List.mem_cons, List.not_mem_nil, or_false] at hr
  rcases hr with rfl | rfl | rfl
  · exact hA
  · exact hB
  · exact hW

/-- A request, an upgrade and a frame of one byte. -/
def sampleStream : Stream := ⟨[getA, upgradeW], [(oneByteMessage 0x61).first]⟩

theorem sampleStream_valid : sampleStream.Valid sampleServer.dispatcher where
  plain := by decide +kernel
  upgraded _ := ⟨upgradeW, 2, rfl, by decide +kernel, by decide +kernel⟩
  accepted := (messages_accepted [oneByteMessage 0x61]).1

/-- Each request in a read of its own, and the frame in two. -/
theorem connection_served_sample :
    Serves sampleDeps sampleServer sampleStream
      ([⟨getA.bytes, id⟩, ⟨upgradeW.bytes, id⟩, ⟨[0x81, 0x81, 1], id⟩,
        ⟨[2, 3, 4, 0x60], id⟩].map Read.act) := by
  have hlawful : ∀ r ∈ sampleStream.requests, sampleDeps.http.Lawful r := by
    intro r hr
    apply sampleDeps_lawful
    rcases List.mem_pair.mp hr with rfl | rfl <;> decide +kernel
  refine connection_served rfl rfl sampleStream_valid hlawful (by decide +kernel) ?_
  refine ⟨[[getA.bytes], [upgradeW.bytes]], [[0x81, 0x81, 1], [2, 3, 4, 0x60]], rfl,
    by decide +kernel, ⟨[[[0x81, 0x81, 1], [2, 3, 4, 0x60]]], by decide, rfl⟩, ?_⟩
  intro p hp
  simp only [sampleStream, List.zip_cons_cons, List.zip_nil_right, List.mem_cons, List.not_mem_nil,
    or_false] at hp
  rcases hp with rfl | rfl
  · exact ⟨by decide +kernel, by decide +kernel⟩
  · exact ⟨by decide +kernel, by decide +kernel⟩

/-- Two requests in one read are taken for one and get one answer; and a frame in one read with the
handshake does not get to the decoder. -/
theorem pipelined_merged :
    (∀ r ∈ [getA, getB, upgradeW], sampleDeps.http.Lawful r) ∧
    Stream.Valid ⟨[getA, getB], []⟩ sampleServer.dispatcher ∧
    readOk (getA.bytes ++ getB.bytes) = true ∧
    ¬ Serves sampleDeps sampleServer ⟨[getA, getB], []⟩
      [Read.act ⟨getA.bytes ++ getB.bytes, id⟩] ∧
    sampleStream.Valid sampleServer.dispatcher ∧
    readOk (upgradeW.bytes ++ (oneByteMessage 0x61).first.encode) = true ∧
    ¬ Serves sampleDeps sampleServer sampleStream
      [Read.act ⟨getA.bytes, id⟩,
        Read.act ⟨upgradeW.bytes ++ (oneByteMessage 0x61).first.encode, id⟩] := by
  refine ⟨sampleDeps_lawful, ⟨by decide +kernel, by simp, trivial⟩, by decide +kernel, ?_,
    sampleStream_valid, by decide +kernel, ?_⟩
  · rintro ⟨s', events, hrun, -, hlog, hserved, -⟩
    have hlen : ((exec (step sampleDeps) sampleServer
        [Read.act ⟨getA.bytes ++ getB.bytes, id⟩]).stateD sampleServer).log.length = 1 := by
      decide +kernel
    rw [hrun, Outcome.stateD, hlog] at hlen
    have htwo := congrArg List.length hserved
    simp [Stream.served, deliveries] at htwo
    simp [htwo, sampleServer] at hlen
  · rintro ⟨s', events, -, -, -, -, hbytes⟩
    have hnone : toDecoder sampleDeps sampleServer
        [Read.act ⟨getA.bytes, id⟩,
          Read.act ⟨upgradeW.bytes ++ (oneByteMessage 0x61).first.encode, id⟩] = [] := by
      decide +kernel
    rw [hnone] at hbytes
    revert hbytes
    decide

end Server

end Http
end CoSocket