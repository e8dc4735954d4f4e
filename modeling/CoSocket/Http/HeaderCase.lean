import CoSocket.Http.Head
import CoSocket.Http.Query
import CoSocket.Http.Requests
import CoSocket.Http.Upgrade

/-!
# Http.HeaderCase

Requests that differ in the letter case of their header names. The parser files a header under its
name as it came (`getHeader_parsed`), and `Dispatch` asks for one spelling of one name, so that
`recased_iff` is about what came under which spelling: a value that is not empty is found without
regard to case only if it came under every spelling of its name (`EveryCasing`). What is filed is
read off the callbacks alone (`Pending.filed`); for headers that come whole it is the headers as
they were sent (`filed_report`).
-/

namespace CoSocket
namespace Http

open Base

/-- The callback with its header name in lower case. -/
def Callback.folded : Callback → Callback
  | .headerField data => .headerField (lower data)
  | cb => cb

/-- The same callbacks, but for the letter case of the header names. -/
def Recased (cbs cbs' : List Callback) : Prop :=
  cbs.map Callback.folded = cbs'.map Callback.folded

instance (cbs cbs' : List Callback) : Decidable (Recased cbs cbs') :=
  inferInstanceAs (Decidable (_ = _))

/-- The request that the callbacks report. -/
def parsed (cbs : List Callback) : HttpParser := HttpParser.onCallbacks {} cbs

/-! ## What is filed under which name -/

/-- What waits for the other half of a header. -/
inductive Pending where
  | nothing
  | name (data : Bytes)
  | value (data : Bytes)

namespace Pending

/-- What a callback leaves waiting, and the header that it files. -/
def next : Pending → Callback → Pending × List (Bytes × Bytes)
  | pending, .headerField data =>
    if data = [] then (pending, [])
    else
      match pending with
      | .value v => (.nothing, [(data, v)])
      | _ => (.name data, [])
  | pending, .headerValue data =>
    if data = [] then (pending, [])
    else
      match pending with
      | .name n => (.nothing, [(n, data)])
      | _ => (.value data, [])
  | pending, _ => (pending, [])

/-- The headers that the callbacks file, in order. -/
def filed : Pending → List Callback → List (Bytes × Bytes)
  | _, [] => []
  | pending, cb :: cbs => (pending.next cb).2 ++ (pending.next cb).1.filed cbs

/-- The parser waits for the same. -/
def Of (p : HttpParser) : Pending → Prop
  | .nothing => p.headerState = .None
  | .name data => p.headerState = .HasName ∧ p.headerName = data
  | .value data => p.headerState = .HasVaule ∧ p.headerValue = data

end Pending

/-- What was sent under the name, spelled like this: the last value, as a C string. -/
def sentAs (cbs : List Callback) (name : Bytes) : Bytes :=
  match lastValue (Pending.nothing.filed cbs) name with
  | some value => cStr value
  | none => []

/-- What was sent under the name in whatever spelling. -/
def sentAnyCase (cbs : List Callback) (name : Bytes) : Bytes :=
  match lastValue ((Pending.nothing.filed cbs).map fun h => (lower h.1, h.2)) (lower name) with
  | some value => cStr value
  | none => []

namespace Pending

theorem next_headerField {data : Bytes} (hd : data ≠ []) :
    nothing.next (.headerField data) = (.name data, []) :=
  if_neg hd

theorem next_headerValue {data : Bytes} (hd : data ≠ []) (n : Bytes) :
    (name n).next (.headerValue data) = (.nothing, [(n, data)]) :=
  if_neg hd

theorem filed_filter {call : Bytes → Callback}
    (hcall : ∀ pending, next pending (call []) = (pending, [])) (pieces : List Bytes)
    (cbs : List Callback) (pending : Pending) :
    pending.filed (pieces.map call ++ cbs) =
      pending.filed ((pieces.filter (· ≠ [])).map call ++ cbs) := by
  induction pieces generalizing pending with
  | nil => rfl
  | cons data pieces ih =>
    by_cases hd : data = []
    · subst hd
      simp [filed, hcall, ih]
    · simp [filed, hd, ih]

theorem filed_other {call : Bytes → Callback}
    (hcall : ∀ pending data, next pending (call data) = (pending, [])) (pieces : List Bytes)
    (cbs : List Callback) (pending : Pending) :
    pending.filed (pieces.map call ++ cbs) = pending.filed cbs := by
  induction pieces with
  | nil => rfl
  | cons data pieces ih => simp [filed, hcall, ih]

theorem filed_whole {hs : List CutHeader} (hw : ∀ h ∈ hs, Whole h.shape) (cbs : List Callback) :
    nothing.filed (hs.flatMap CutHeader.callbacks ++ cbs) =
      hs.map (fun h => (h.name.flatten, h.value.flatten)) ++ nothing.filed cbs := by
  induction hs with
  | nil => rfl
  | cons h hs ih =>
    obtain ⟨hn, hnf⟩ := HttpParser.pieces_of_whole (hw h (by simp)).1
    obtain ⟨hv, hvf⟩ := HttpParser.pieces_of_whole (hw h (by simp)).2
    have hrest := ih fun x hx => hw x (List.mem_cons_of_mem _ hx)
    rw [List.flatMap_cons, CutHeader.callbacks, List.append_assoc, List.append_assoc,
      filed_filter (fun _ => rfl), hnf, List.map_singleton, List.singleton_append, filed,
      next_headerField hn, List.nil_append, filed_filter (fun _ => rfl), hvf, List.map_singleton,
      List.singleton_append, filed, next_headerValue hv, hrest]
    rfl

theorem filed_report {r : SentRequest} {rep : Report} (h : rep.Of r) (hw : rep.Whole) :
    nothing.filed (rep.callbacks r.method) = r.headers := by
  rw [Report.callbacks, filed_other (fun _ _ => rfl),
    filed_whole fun x hx => hw x (List.mem_append_left _ hx), filed_other (fun _ _ => rfl),
    filed_whole fun x hx => hw x (List.mem_append_right _ hx), ← h.headers, Report.headers,
    List.map_append]
  exact congrArg _ (List.append_nil _)

/-- What waits, with its name in lower case. -/
def folded : Pending → Pending
  | .name data => .name (lower data)
  | pending => pending

theorem lower_eq_nil_iff (data : Bytes) : lower data = [] ↔ data = [] := List.map_eq_nil_iff

theorem next_folded (pending : Pending) (cb : Callback) :
    pending.folded.next cb.folded =
      ((pending.next cb).1.folded, (pending.next cb).2.map fun h => (lower h.1, h.2)) := by
  cases cb with
  | headerField data =>
    by_cases hd : data = []
    · subst hd
      cases pending <;> rfl
    · have hl : lower data ≠ [] := fun h => hd ((lower_eq_nil_iff data).mp h)
      cases pending <;> simp [next, Callback.folded, folded, hd, hl]
  | headerValue data =>
    by_cases hd : data = []
    · subst hd
      cases pending <;> rfl
    · cases pending <;> simp [next, Callback.folded, folded, hd]
  | _ => cases pending <;> rfl

theorem filed_folded (pending : Pending) (cbs : List Callback) :
    pending.folded.filed (cbs.map Callback.folded) =
      (pending.filed cbs).map fun h => (lower h.1, h.2) := by
  induction cbs generalizing pending with
  | nil => rfl
  | cons cb cbs ih =>
    rw [List.map_cons, filed, next_folded, ih, filed, List.map_append]

end Pending

theorem sentAnyCase_recased {cbs cbs' : List Callback} (h : Recased cbs cbs') :
    sentAnyCase cbs = sentAnyCase cbs' := by
  have hfiled := Pending.filed_folded .nothing cbs
  rw [h, Pending.filed_folded .nothing cbs'] at hfiled
  funext name
  rw [sentAnyCase, sentAnyCase, hfiled]

namespace HttpParser

variable {p q : HttpParser} {pending : Pending}

theorem onHeaderName_files (h : pending.Of p) (data : Bytes) :
    (pending.next (.headerField data)).1.Of (p.onHeaderName data) ∧
      (p.onHeaderName data).headers =
        p.headers.insertMany (pending.next (.headerField data)).2 := by
  by_cases hd : data = []
  · subst hd
    exact ⟨h, Std.ExtTreeMap.insertMany_nil.symm⟩
  · have hlen : ¬ data.length ≤ 0 := by simpa using hd
    unfold onHeaderName
    simp only [Pending.next, if_neg hlen, if_neg hd]
    cases pending with
    | nothing =>
      simp only [Pending.Of] at h
      simp [Pending.Of, h, HeaderState.or]
    | name name => simp [Pending.Of, h.1, HeaderState.or]
    | value value => simp [Pending.Of, h.1, h.2, HeaderState.or]

theorem onHeaderValue_files (h : pending.Of p) (data : Bytes) :
    (pending.next (.headerValue data)).1.Of (p.onHeaderValue data) ∧
      (p.onHeaderValue data).headers =
        p.headers.insertMany (pending.next (.headerValue data)).2 := by
  by_cases hd : data = []
  · subst hd
    exact ⟨h, Std.ExtTreeMap.insertMany_nil.symm⟩
  · have hlen : ¬ data.length ≤ 0 := by simpa using hd
    unfold onHeaderValue
    simp only [Pending.next, if_neg hlen, if_neg hd]
    cases pending with
    | nothing =>
      simp only [Pending.Of] at h
      simp [Pending.Of, h, HeaderState.or]
    | name name => simp [Pending.Of, h.1, h.2, HeaderState.or]
    | value value => simp [Pending.Of, h.1, HeaderState.or]

theorem onCallback_files (h : pending.Of p) (cb : Callback) :
    (pending.next cb).1.Of (p.onCallback cb) ∧
      (p.onCallback cb).headers = p.headers.insertMany (pending.next cb).2 := by
  cases cb with
  | headerField data => exact onHeaderName_files h data
  | headerValue data => exact onHeaderValue_files h data
  | url data =>
    show pending.Of (p.onUrl data) ∧ (p.onUrl data).headers = p.headers.insertMany []
    rw [Std.ExtTreeMap.insertMany_nil]
    unfold onUrl
    split <;> exact ⟨by cases pending <;> exact h, rfl⟩
  | body data =>
    show pending.Of (p.onBody data) ∧ (p.onBody data).headers = p.headers.insertMany []
    rw [Std.ExtTreeMap.insertMany_nil]
    unfold onBody
    split <;> exact ⟨by cases pending <;> exact h, rfl⟩
  | messageComplete method statusCode =>
    exact ⟨by cases pending <;> exact h, Std.ExtTreeMap.insertMany_nil.symm⟩

theorem onCallbacks_files (h : pending.Of p) (cbs : List Callback) :
    (p.onCallbacks cbs).headers = p.headers.insertMany (pending.filed cbs) := by
  induction cbs generalizing pending p with
  | nil => exact Std.ExtTreeMap.insertMany_nil.symm
  | cons cb cbs ih =>
    obtain ⟨hnext, hheaders⟩ := onCallback_files h cb
    show ((p.onCallback cb).onCallbacks cbs).headers = _
    rw [ih hnext, hheaders, Pending.filed, Std.ExtTreeMap.insertMany_append]

/-- `GetHeader` gives what was sent under the name as it is spelled. -/
theorem getHeader_parsed (cbs : List Callback) (name : Bytes) :
    (parsed cbs).getHeader name = sentAs cbs name := by
  have hnew : Pending.nothing.Of {} := rfl
  rw [getHeader, parsed, onCallbacks_files hnew, getElem?_insertMany_eq]
  rfl

/-! ## The rest of the request -/

/-- The target and the url of two parsers are the same. -/
def SameUrl (p q : HttpParser) : Prop := p.urlAndParams = q.urlAndParams ∧ p.url = q.url

theorem onHeaderName_url (p : HttpParser) (data : Bytes) : (p.onHeaderName data).url = p.url := by
  unfold onHeaderName
  dsimp only
  split
  · rfl
  · split <;> rfl

theorem onHeaderValue_url (p : HttpParser) (data : Bytes) : (p.onHeaderValue data).url = p.url := by
  unfold onHeaderValue
  dsimp only
  split
  · rfl
  · split <;> rfl

theorem onCallback_folded (h : SameUrl p q) (cb : Callback) :
    SameUrl (p.onCallback cb) (q.onCallback cb.folded) := by
  obtain ⟨htarget, hurl⟩ := h
  cases cb with
  | headerField data =>
    refine ⟨?_, ?_⟩
    · exact ((onHeaderName_sameRest p _).1.trans htarget).trans (onHeaderName_sameRest q _).1.symm
    · exact ((onHeaderName_url p _).trans hurl).trans (onHeaderName_url q _).symm
  | headerValue data =>
    refine ⟨?_, ?_⟩
    · exact ((onHeaderValue_sameRest p _).1.trans htarget).trans (onHeaderValue_sameRest q _).1.symm
    · exact ((onHeaderValue_url p _).trans hurl).trans (onHeaderValue_url q _).symm
  | url data =>
    show SameUrl (p.onUrl data) (q.onUrl data)
    unfold onUrl
    split
    · exact ⟨htarget, hurl⟩
    · exact ⟨by rw [htarget], hurl⟩
  | body data =>
    show SameUrl (p.onBody data) (q.onBody data)
    unfold onBody
    split <;> exact ⟨htarget, hurl⟩
  | messageComplete method statusCode =>
    constructor <;> simp only [onCallback, Callback.folded, onComplete, parseUrlAndParam, htarget]

theorem onCallbacks_folded (h : SameUrl p q) (cbs : List Callback) :
    SameUrl (p.onCallbacks cbs) (q.onCallbacks (cbs.map Callback.folded)) := by
  induction cbs generalizing p q with
  | nil => exact h
  | cons cb cbs ih => exact ih (onCallback_folded h cb)

theorem url_eq_of_recased {cbs cbs' : List Callback} (h : Recased cbs cbs') :
    (parsed cbs).url = (parsed cbs').url := by
  have hurl := (onCallbacks_folded (p := {}) (q := {}) ⟨rfl, rfl⟩ cbs).2
  have hurl' := (onCallbacks_folded (p := {}) (q := {}) ⟨rfl, rfl⟩ cbs').2
  rw [parsed, parsed, hurl, hurl', h]

end HttpParser

/-! ## The decision -/

namespace HttpDispatch

variable {d : HttpDispatch} {p q : HttpParser}

theorem dispatch_mode (he : d.enableWebSocket = true) :
    (d.dispatch p).1.isWebSocketReq = !(p.getHeader webSocketKeyName).isEmpty := by
  unfold dispatch
  simp only [he, if_true]
  split
  · rfl
  · split
    · split <;> rfl
    · split <;> rfl

theorem upgrades_of_key (he : d.enableWebSocket = true)
    (hk : p.getHeader webSocketKeyName ≠ []) : d.upgrades p = true := by
  simpa [upgrades, he] using hk

theorem key_nil_iff_of_dispatch_eq (he : d.enableWebSocket = true)
    (heq : d.dispatch p = d.dispatch q) :
    p.getHeader webSocketKeyName = [] ↔ q.getHeader webSocketKeyName = [] := by
  have hmode : (!(p.getHeader webSocketKeyName).isEmpty) =
      !(q.getHeader webSocketKeyName).isEmpty := by
    rw [← dispatch_mode he, ← dispatch_mode he, heq]
  rw [← List.isEmpty_iff, ← List.isEmpty_iff, Bool.not_inj hmode]

/-- Two requests for one url: `Dispatch` does the same with them if it does not look at the key, if
the keys are the same, or if both ask for a WebSocket where there is none. -/
theorem dispatch_eq_iff (d : HttpDispatch) (hurl : p.url = q.url) :
    d.dispatch p = d.dispatch q ↔
      d.enableWebSocket = false ∨
      p.getHeader webSocketKeyName = q.getHeader webSocketKeyName ∨
      p.getHeader webSocketKeyName ≠ [] ∧ q.getHeader webSocketKeyName ≠ [] ∧
        d.webSocketHandlerFor p = none := by
  have hfor : d.webSocketHandlerFor q = d.webSocketHandlerFor p := by
    rw [webSocketHandlerFor, webSocketHandlerFor, hurl]
  cases he : d.enableWebSocket with
  | false =>
    have hsame : d.dispatch p = d.dispatch q := by
      unfold dispatch
      rw [he, hurl]
      rfl
    exact iff_of_true hsame (.inl rfl)
  | true =>
    constructor
    · intro heq
      by_cases hkey : p.getHeader webSocketKeyName = q.getHeader webSocketKeyName
      · exact .inr (.inl hkey)
      · -- the same mode, so that both have a key
        have hempty := key_nil_iff_of_dispatch_eq he heq
        have hp : p.getHeader webSocketKeyName ≠ [] := fun hnil =>
          hkey (hnil.trans (hempty.mp hnil).symm)
        have hq : q.getHeader webSocketKeyName ≠ [] := fun hnil => hp (hempty.mpr hnil)
        refine .inr (.inr ⟨hp, hq, ?_⟩)
        rw [dispatch_of_upgrades (upgrades_of_key he hp),
          dispatch_of_upgrades (upgrades_of_key he hq), hfor] at heq
        cases hw : d.webSocketHandlerFor p with
        | none => rfl
        | some h =>
          rw [hw] at heq
          exact absurd (Answer.handshake.inj (Prod.mk.inj heq).2) hkey
    · rintro (hoff | hkey | ⟨hp, hq, hnone⟩)
      · cases hoff
      · unfold dispatch
        rw [hkey, hurl]
      · rw [dispatch_of_upgrades (upgrades_of_key he hp),
          dispatch_of_upgrades (upgrades_of_key he hq), hfor, hnone]

end HttpDispatch

/-! ## The answers of `GetHeader` -/

theorem lastValue_snoc (ps : List (Bytes × Bytes)) (q : Bytes × Bytes) (key : Bytes) :
    lastValue (ps ++ [q]) key = if q.1 = key then some q.2 else lastValue ps key := by
  rw [lastValue, List.reverse_append, List.reverse_singleton, List.singleton_append,
    List.findSome?_cons]
  by_cases h : q.1 = key
  · rw [if_pos h, if_pos h]
  · rw [if_neg h, if_neg h]
    rfl

/-- The headers with their names in lower case. -/
def lowered (hs : List (Bytes × Bytes)) : List (Bytes × Bytes) := hs.map fun h => (lower h.1, h.2)

theorem lowered_snoc (hs : List (Bytes × Bytes)) (h : Bytes × Bytes) :
    lowered (hs ++ [h]) = lowered hs ++ [(lower h.1, h.2)] := List.map_append

theorem exists_spelling {hs : List (Bytes × Bytes)} {name value : Bytes}
    (hv : lastValue (lowered hs) (lower name) = some value) :
    ∃ h ∈ hs, lower h.1 = lower name ∧ lastValue hs h.1 = some value := by
  induction hs using List.reverseRecOn with
  | nil => cases hv
  | append_singleton hs q ih =>
    rw [lowered_snoc, lastValue_snoc] at hv
    by_cases hq : lower q.1 = lower name
    · rw [if_pos hq] at hv
      exact ⟨q, by simp, hq, by rw [lastValue_snoc, if_pos rfl]; exact hv⟩
    · rw [if_neg hq] at hv
      obtain ⟨h, hmem, hname, hlast⟩ := ih hv
      have hne : q.1 ≠ h.1 := fun heq => hq (by rw [heq, hname])
      refine ⟨h, List.mem_append_left _ hmem, hname, ?_⟩
      rw [lastValue_snoc, if_neg hne]
      exact hlast

theorem lastValue_lowered {hs : List (Bytes × Bytes)} {name value : Bytes}
    (hv : lastValue hs name = some value) :
    ∃ value', lastValue (lowered hs) (lower name) = some value' := by
  induction hs using List.reverseRecOn with
  | nil => cases hv
  | append_singleton hs q ih =>
    rw [lowered_snoc, lastValue_snoc]
    by_cases hq : lower q.1 = lower name
    · exact ⟨q.2, if_pos hq⟩
    · have hne : q.1 ≠ name := fun heq => hq (by rw [heq])
      rw [if_neg hq]
      rw [lastValue_snoc, if_neg hne] at hv
      exact ih hv

/-- Each header came under every spelling of its name, with the same last value under all of them;
or under no spelling did anything come last that is more than empty. -/
def EveryCasing (cbs : List Callback) : Prop :=
  ∀ h ∈ Pending.nothing.filed cbs,
    (∀ name, lower name = lower h.1 → sentAs cbs name = []) ∨
    ∃ v, ∀ name, lower name = lower h.1 →
      ∃ value, lastValue (Pending.nothing.filed cbs) name = some value ∧ cStr value = v

theorem sentAs_of_some {cbs : List Callback} {name value : Bytes}
    (h : lastValue (Pending.nothing.filed cbs) name = some value) : sentAs cbs name = cStr value := by
  rw [sentAs, h]

theorem everyCasing_iff (cbs : List Callback) :
    EveryCasing cbs ↔ ∀ name, sentAs cbs name = sentAnyCase cbs name := by
  have hany : ∀ name, sentAnyCase cbs name =
      match lastValue (lowered (Pending.nothing.filed cbs)) (lower name) with
      | some value => cStr value
      | none => [] := fun _ => rfl
  constructor
  · intro hevery name
    rw [hany]
    cases hv : lastValue (lowered (Pending.nothing.filed cbs)) (lower name) with
    | none =>
      rw [sentAs]
      cases hlast : lastValue (Pending.nothing.filed cbs) name with
      | none => rfl
      | some value =>
        obtain ⟨value', hvalue'⟩ := lastValue_lowered hlast
        cases hv.symm.trans hvalue'
    | some value =>
      obtain ⟨h, hmem, hname, hlast⟩ := exists_spelling hv
      have hsent := sentAs_of_some hlast
      dsimp only
      rw [← hsent]
      rcases hevery h hmem with hempty | ⟨v, hall⟩
      · rw [hempty name hname.symm, hempty h.1 rfl]
      · obtain ⟨value₁, hlast₁, hv₁⟩ := hall name hname.symm
        obtain ⟨value₂, hlast₂, hv₂⟩ := hall h.1 rfl
        rw [sentAs_of_some hlast₁, sentAs_of_some hlast₂, hv₁, hv₂]
  · intro hsame h _
    have hspelling : ∀ name, lower name = lower h.1 → sentAs cbs name = sentAs cbs h.1 := by
      intro name hname
      rw [hsame, hsame, hany, hany, hname]
    by_cases hempty : sentAs cbs h.1 = []
    · exact .inl fun name hname => (hspelling name hname).trans hempty
    · refine .inr ⟨sentAs cbs h.1, fun name hname => ?_⟩
      have hsent := hspelling name hname
      cases hlast : lastValue (Pending.nothing.filed cbs) name with
      | some value => exact ⟨value, rfl, (sentAs_of_some hlast).symm.trans hsent⟩
      | none =>
        rw [sentAs, hlast] at hsent
        exact absurd hsent.symm hempty

/-- `GetHeader` answers every spelling of a name with the last value that came under any of them,
and so in the same way for both requests. -/
def HeadersAnyCase (cbs cbs' : List Callback) : Prop :=
  ∀ name, (parsed cbs).getHeader name = sentAnyCase cbs name ∧
    (parsed cbs').getHeader name = sentAnyCase cbs name

/-- **The case of header names.** For two requests that differ in nothing else, `Dispatch` makes the
same decision if and only if WebSockets are off, or the same key came under exactly the name
`Sec-WebSocket-Key`, or keys came with both of them but there is no WebSocket at the url; and
`GetHeader` answers without regard to case if and only if in each of the two every header, unless it
is empty, came under every spelling of its name with the same last value. -/
theorem recased_iff {cbs cbs' : List Callback} (h : Recased cbs cbs') (d : HttpDispatch) :
    (d.dispatch (parsed cbs) = d.dispatch (parsed cbs') ↔
      d.enableWebSocket = false ∨
      sentAs cbs HttpDispatch.webSocketKeyName = sentAs cbs' HttpDispatch.webSocketKeyName ∨
      sentAs cbs HttpDispatch.webSocketKeyName ≠ [] ∧
        sentAs cbs' HttpDispatch.webSocketKeyName ≠ [] ∧
        d.webSocketHandlerFor (parsed cbs) = none) ∧
    (HeadersAnyCase cbs cbs' ↔ EveryCasing cbs ∧ EveryCasing cbs') := by
  constructor
  · rw [d.dispatch_eq_iff (HttpParser.url_eq_of_recased h), HttpParser.getHeader_parsed,
      HttpParser.getHeader_parsed]
  · rw [everyCasing_iff, everyCasing_iff, ← sentAnyCase_recased h, ← forall_and]
    simp only [HeadersAnyCase, HttpParser.getHeader_parsed]

/-- A request for the WebSocket at `/chat`, with these names for two of its headers. -/
def chatRequest (host key : String) : List Callback :=
  [.url (bytesOf "/chat"), .headerField (bytesOf host), .headerValue (bytesOf "a"),
    .headerField (bytesOf key), .headerValue (bytesOf "dGhlIHNhbXBsZSBub25jZQ=="),
    .messageComplete (bytesOf "GET") 0]

/-- A server with a page and a WebSocket there. -/
def chatServer : HttpDispatch :=
  (({ enableWebSocket := true } : HttpDispatch).addHttpHandler (bytesOf "/chat") (some 0)
    ).addWebSocketHandler (bytesOf "/chat") (some 1)

/-- A request with one value under both of these names. -/
def taggedRequest (first second : String) : List Callback :=
  [.url (bytesOf "/chat"), .headerField (bytesOf first), .headerValue (bytesOf "a"),
    .headerField (bytesOf second), .headerValue (bytesOf "a"),
    .messageComplete (bytesOf "GET") 0]

theorem spellings_x {name : Bytes} (h : lower name = bytesOf "x") :
    name = bytesOf "X" ∨ name = bytesOf "x" := by
  have hbyte : ∀ c : UInt8, lower [c] = bytesOf "x" → [c] = bytesOf "X" ∨ [c] = bytesOf "x" := by
    decide +kernel
  cases name with
  | nil => cases h
  | cons c name =>
    obtain rfl : name = [] := List.map_eq_nil_iff.mp (List.cons.inj h).2
    exact hbyte c h

theorem everyCasing_tagged {first second : String}
    (h : ∀ name ∈ [bytesOf "X", bytesOf "x"],
      lastValue (Pending.nothing.filed (taggedRequest first second)) name = some (bytesOf "a"))
    (hnames : ∀ h ∈ Pending.nothing.filed (taggedRequest first second),
      lower h.1 = bytesOf "x") : EveryCasing (taggedRequest first second) := by
  intro header hheader
  refine .inr ⟨bytesOf "a", fun name hname => ⟨bytesOf "a", ?_, by decide⟩⟩
  rw [hnames header hheader] at hname
  rcases spellings_x hname with rfl | rfl
  · exact h _ (by simp)
  · exact h _ (by simp)

/-- Another name in lower case does not matter to `Dispatch`; and the two spellings of a name of one
letter, with one value under both, are one header to `GetHeader` in whatever order they come. -/
theorem recased_host :
    chatServer.dispatch (parsed (chatRequest "Host" "Sec-WebSocket-Key")) =
      chatServer.dispatch (parsed (chatRequest "host" "Sec-WebSocket-Key")) ∧
    HeadersAnyCase (taggedRequest "X" "x") (taggedRequest "x" "X") := by
  refine ⟨(recased_iff (by decide +kernel) chatServer).1.mpr (.inr (.inl (by decide +kernel))),
    (recased_iff (by decide +kernel) chatServer).2.mpr ⟨?_, ?_⟩⟩
  · exact everyCasing_tagged (by decide +kernel) (by decide +kernel)
  · exact everyCasing_tagged (by decide +kernel) (by decide +kernel)

/-- With the name of the key in lower case, the upgrade is taken for a request for the page; and a
second header with the name of the first in lower case is no repetition of it. -/
theorem recased_key :
    Recased (chatRequest "Host" "Sec-WebSocket-Key") (chatRequest "Host" "sec-websocket-key") ∧
    (chatServer.dispatch (parsed (chatRequest "Host" "Sec-WebSocket-Key"))).1.isWebSocketReq =
      true ∧
    (chatServer.dispatch (parsed (chatRequest "Host" "Sec-WebSocket-Key"))).2 =
      .handshake (bytesOf "dGhlIHNhbXBsZSBub25jZQ==") ∧
    (chatServer.dispatch (parsed (chatRequest "Host" "sec-websocket-key"))).1.isWebSocketReq =
      false ∧
    (chatServer.dispatch (parsed (chatRequest "Host" "sec-websocket-key"))).2 = .call 0 ∧
    ¬ HeadersAnyCase (chatRequest "Host" "Sec-WebSocket-Key")
      (chatRequest "Host" "sec-websocket-key") ∧
    (parsed (chatRequest "X-Tag" "x-tag")).getHeader (bytesOf "X-Tag") = bytesOf "a" ∧
    sentAnyCase (chatRequest "X-Tag" "x-tag") (bytesOf "X-Tag") =
      bytesOf "dGhlIHNhbXBsZSBub25jZQ==" := by
  refine ⟨by decide +kernel, by decide +kernel, by decide +kernel, by decide +kernel,
    by decide +kernel, ?_, by decide +kernel, by decide +kernel⟩
  intro hany
  have hkey := (hany (bytesOf "Sec-WebSocket-Key")).2
  revert hkey
  decide +kernel

end Http
end CoSocket
