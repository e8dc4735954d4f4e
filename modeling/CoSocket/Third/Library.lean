import CoSocket.Lib.Gluing
import CoSocket.Third.Requests
import CoSocket.Http.Requests

/-!
# Third.Library

`http_parser` as the library that `HttpParser` is modelled with: its callbacks are those in
`m_settings`. On the requests that `HttpEncoder` writes, with the headers and targets of
`Third.Requests`, it keeps the contract that the decoder is proved under (`httpLib_lawful`).
-/

namespace CoSocket
namespace Third

open Base Pieces Http

/-- The callback of `m_settings` for it. -/
def callback : Event → Option Callback
  | .data .url xs => some (.url xs)
  | .data .headerField xs => some (.headerField xs)
  | .data .headerValue xs => some (.headerValue xs)
  | .data .body xs => some (.body xs)
  | .note (.messageComplete m statusCode) => some (.messageComplete m.str statusCode)
  | _ => none

/-- `http_parser`, as `HttpParser` uses it. -/
def httpLib : HttpLib Parser where
  init := init .both
  execute p data :=
    let r := execute p data
    (r.parser, r.events.filterMap callback, decide (r.parser.httpErrno = .ok))

theorem feed_httpLib (p : Parser) (ds : List Bytes) :
    httpLib.feed p ds = ((feed p ds).1, (feed p ds).2.filterMap callback,
      (calls p ds).all fun r => decide (r.parser.httpErrno = .ok)) := by
  induction ds generalizing p with
  | nil => rfl
  | cons d ds ih =>
    simp only [HttpLib.feed, feed, calls, List.filterMap_append, List.all_cons]
    rw [show (httpLib.execute p d).1 = (execute p d).parser from rfl, ih]
    rfl

theorem filterMap_pieces {k : DataKind} {f : Bytes → Callback}
    (hf : ∀ xs, callback (.data k xs) = some (f xs)) (ds : List Bytes) :
    (ds.map (.data k)).filterMap callback = ds.map f := by
  induction ds with
  | nil => rfl
  | cons d ds ih => rw [List.map_cons, List.filterMap_cons_some (hf d), ih, List.map_cons]

theorem cut_headers {hs : List (Bytes × Bytes)} (hne : ∀ h ∈ hs, h.1 ≠ []) {evs rest : List Event}
    (h : glue evs = hs.flatMap headerEvents ++ rest) :
    ∃ (front : List CutHeader) (qs : List Event),
      evs.filterMap callback = front.flatMap CutHeader.callbacks ++ qs.filterMap callback ∧
      front.map (fun c => (c.name.flatten, c.value.flatten)) = hs ∧
      (∀ c ∈ front, Contract c.shape) ∧ glue qs = rest := by
  induction hs generalizing evs with
  | nil => exact ⟨[], evs, rfl, rfl, by simp, h⟩
  | cons header hs ih =>
    obtain ⟨hname, hne⟩ := List.forall_mem_cons.mp hne
    obtain ⟨names, es, rfl, -, hnames, hes⟩ := data_of_glue h
    obtain ⟨values, qs, rfl, hvalues_ne, hvalues, hqs⟩ := data_of_glue hes
    obtain ⟨front, qs', hcallbacks, hmap, hcontract, hrest⟩ := ih hne hqs
    refine ⟨⟨names, values⟩ :: front, qs', ?_, ?_, ?_, hrest⟩
    · rw [List.filterMap_append, List.filterMap_append, hcallbacks,
        filterMap_pieces (fun _ => rfl) names, filterMap_pieces (fun _ => rfl) values,
        List.flatMap_cons, CutHeader.callbacks, List.append_assoc, List.append_assoc]
    · rw [List.map_cons, hmap, hnames, hvalues]
    · refine List.forall_mem_cons.mpr ⟨⟨?_, ?_⟩, hcontract⟩
      · show (names.map List.length).sum ≠ 0
        rw [← List.length_flatten, hnames]
        exact fun hz => hname (List.length_eq_zero_iff.mp hz)
      · exact fun hz => hvalues_ne (List.map_eq_nil_iff.mp hz)

theorem dataEvents_of_glue {k : DataKind} {xs : Bytes} {evs rest : List Event}
    (h : glue evs = dataEvents k xs ++ rest) :
    ∃ (ds : List Bytes) (qs : List Event),
      evs = ds.map (.data k) ++ qs ∧ ds.flatten = xs ∧ glue qs = rest := by
  unfold dataEvents at h
  split at h
  · rename_i hempty
    exact ⟨[], evs, rfl, hempty.symm, h⟩
  · obtain ⟨ds, qs, hevs, -, hflat, hqs⟩ := data_of_glue h
    exact ⟨ds, qs, hevs, hflat, hqs⟩

theorem callback_isComplete {ev : Event} {cb : Callback} (h : callback ev = some cb)
    (hnone : ∀ m n, ev ≠ .note (.messageComplete m n)) : cb.isComplete = false := by
  unfold callback at h
  split at h <;> cases h
  · rfl
  · rfl
  · rfl
  · rfl
  · exact absurd rfl (hnone _ _)

/-- Reads of a text that can be read byte by byte. -/
theorem feed_plain {type : ParserType} {ds : List Bytes} (hne : ∀ d ∈ ds, d ≠ [])
    (hplain : Plain (init type) ds.flatten) :
    ((calls (init type) ds).all fun r => decide (r.parser.httpErrno = .ok)) = true ∧
      glue (feed (init type) ds).2 = glue (feed (init type) (bytewise ds.flatten)).2 := by
  obtain ⟨hcalls, -, hglue⟩ := calls_whole (.refl _) (live_init type) hne hplain
  refine ⟨?_, hglue⟩
  clear hglue hne hplain
  generalize calls (init type) ds = rs at hcalls
  induction hcalls with
  | nil => rfl
  | cons h _ ih => rw [List.all_cons, ih, decide_eq_true h.1, Bool.and_true]

theorem isComplete_callback {ev : Event} {cb : Callback} (h : callback ev = some cb)
    (hend : cb.isComplete = true) : ∃ m n, ev = .note (.messageComplete m n) := by
  by_contra hnot
  push Not at hnot
  rw [callback_isComplete h hnot] at hend
  cases hend

/-- If the single bytes do not complete a message, then neither does what they begin with, in any
pieces. -/
theorem incomplete_of_bytewise {ds : List Bytes} (hne : ∀ d ∈ ds, d ≠ []) {bs : Bytes}
    (hpre : ds.flatten <+: bs) (hplain : Plain (init .both) bs)
    (h : ∀ cb ∈ (httpLib.feed httpLib.init (bytewise bs)).2.1, cb.isComplete = false) :
    ∀ cb ∈ (httpLib.feed httpLib.init ds).2.1, cb.isComplete = false := by
  obtain ⟨t, rfl⟩ := hpre
  intro cb hcb
  rw [feed_httpLib] at hcb h
  obtain ⟨ev, hev, hcallback⟩ := List.mem_filterMap.mp hcb
  cases hend : cb.isComplete with
  | false => rfl
  | true =>
    obtain ⟨m, n, rfl⟩ := isComplete_callback hcallback hend
    have hwhole : .note (.messageComplete m n) ∈
        (feed httpLib.init (bytewise (ds.flatten ++ t))).2 := by
      rw [bytewise_append, feed_append]
      refine List.mem_append_left _ ?_
      rw [← note_mem_glue] at hev ⊢
      exact (feed_plain hne hplain.append.1).2 ▸ hev
    exact hend.symm.trans (h cb (List.mem_filterMap.mpr ⟨_, hwhole, hcallback⟩))

theorem incomplete_of_reads {bs : Bytes} {evs : List Event}
    (h : glue (feed (init .both) (bytewise bs)).2 = glue evs)
    (hnone : ∀ m n, .note (.messageComplete m n) ∉ evs) :
    ∀ cb ∈ (httpLib.feed httpLib.init (bytewise bs)).2.1, cb.isComplete = false := by
  intro cb hcb
  rw [feed_httpLib] at hcb
  obtain ⟨ev, hev, hcallback⟩ := List.mem_filterMap.mp hcb
  refine callback_isComplete hcallback fun m n heq => hnone m n ?_
  rw [← note_mem_glue, ← h, note_mem_glue, ← heq]
  exact hev

end Third
end CoSocket
