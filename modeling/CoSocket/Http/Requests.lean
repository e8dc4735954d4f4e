import CoSocket.Http.Headers
import CoSocket.Http.HttpDispatch

/-!
# Http.Requests

Requests as they were sent, and how `http_parser` reports them. `Lawful` is what the library
promises of a request, however its bytes are cut into reads; `onCallbacks_report` is what the
callbacks make of a new parser when the headers come whole (`HeadersWhole`).

`knownRequests` is a library of this kind for any list of requests, none of which begins another.
-/

namespace CoSocket
namespace Http

open Base

/-! ## Requests, and how the library reports them -/

/-- A request as it was sent: its bytes, and what they say. -/
structure SentRequest where
  bytes : Bytes
  method : Bytes
  target : Bytes
  headers : List (Bytes × Bytes)
  body : Bytes
deriving DecidableEq

/-- What a parser should hold after the request. -/
def SentRequest.parser (r : SentRequest) : HttpParser :=
  let p : HttpParser := { urlAndParams := r.target }
  { p.parseUrlAndParam with
    method := r.method
    headers := r.headers.foldl (fun m h => m.insert h.1 h.2) ∅
    body := r.body
    complete := true }

def SentRequest.request (r : SentRequest) : Request := r.parser.request

/-- How the library reports a request: the target, the headers, the body and the headers behind it,
each in pieces, and the end. -/
structure Report where
  target : List Bytes
  front : List CutHeader
  body : List Bytes
  trailing : List CutHeader
  statusCode : Nat

namespace Report

def headers (rep : Report) : List CutHeader := rep.front ++ rep.trailing

def callbacks (rep : Report) (method : Bytes) : List Callback :=
  rep.target.map .url ++ (rep.front.flatMap CutHeader.callbacks ++ (rep.body.map .body ++
    (rep.trailing.flatMap CutHeader.callbacks ++ [.messageComplete method rep.statusCode])))

/-- The pieces put together are what was sent. -/
structure Of (rep : Report) (r : SentRequest) : Prop where
  target : rep.target.flatten = r.target
  headers : rep.headers.map (fun h => (h.name.flatten, h.value.flatten)) = r.headers
  body : rep.body.flatten = r.body
  contract : ∀ h ∈ rep.headers, Contract h.shape

/-- Each header name and value comes in exactly one non-empty piece. -/
def Whole (rep : Report) : Prop := ∀ h ∈ rep.headers, Http.Whole h.shape

end Report

/-- A header callback with something in it. -/
def Callback.isHeaderPiece : Callback → Bool
  | .headerField data => !data.isEmpty
  | .headerValue data => !data.isEmpty
  | _ => false

/-- The library reports each header name and each header value of the request in one piece: no value
is empty, and there are no more pieces than names and values. -/
def HeadersWhole (r : SentRequest) (cbs : List Callback) : Prop :=
  (∀ h ∈ r.headers, h.2 ≠ []) ∧ cbs.countP Callback.isHeaderPiece = 2 * r.headers.length

def Callback.isComplete : Callback → Bool
  | .messageComplete _ _ => true
  | _ => false

namespace HttpLib

variable {σ : Type}

/-- `http_parser_execute` for one read after the other. -/
def feed (lib : HttpLib σ) : σ → List Bytes → σ × List Callback × Bool
  | st, [] => (st, [], true)
  | st, d :: ds =>
    let (st₁, cbs, ok) := lib.execute st d
    let (st₂, cbs', ok') := lib.feed st₁ ds
    (st₂, cbs ++ cbs', ok && ok')

theorem feed_append (lib : HttpLib σ) (st : σ) (ds es : List Bytes) :
    lib.feed st (ds ++ es) =
      ((lib.feed (lib.feed st ds).1 es).1,
        (lib.feed st ds).2.1 ++ (lib.feed (lib.feed st ds).1 es).2.1,
        (lib.feed st ds).2.2 && (lib.feed (lib.feed st ds).1 es).2.2) := by
  induction ds generalizing st with
  | nil => simp [feed]
  | cons d ds ih => simp [feed, ih, Bool.and_assoc]

/-- The library on the bytes of a request, from a fresh state and in any pieces: there is no error,
the message is complete with the last byte and not before, and the callbacks report it. -/
structure Lawful (lib : HttpLib σ) (r : SentRequest) : Prop where
  ok : ∀ ds, (∀ d ∈ ds, d ≠ []) → ds.flatten <+: r.bytes → (lib.feed lib.init ds).2.2 = true
  early : ∀ ds, (∀ d ∈ ds, d ≠ []) → ds.flatten <+: r.bytes → ds.flatten ≠ r.bytes →
    ∀ cb ∈ (lib.feed lib.init ds).2.1, cb.isComplete = false
  reported : ∀ ds, (∀ d ∈ ds, d ≠ []) → ds.flatten = r.bytes →
    ∃ rep : Report, rep.Of r ∧ (lib.feed lib.init ds).2.1 = rep.callbacks r.method

theorem Lawful.bytes_ne_nil {lib : HttpLib σ} {r : SentRequest} (h : lib.Lawful r) :
    r.bytes ≠ [] := by
  intro hnil
  obtain ⟨rep, -, hcbs⟩ := h.reported [] (by simp) hnil.symm
  simp [feed, Report.callbacks] at hcbs

end HttpLib

/-! ## Headers that come whole -/

theorem CutHeader.countP_callbacks (h : CutHeader) :
    h.callbacks.countP Callback.isHeaderPiece =
      (h.shape.1.filter (· ≠ 0)).length + (h.shape.2.filter (· ≠ 0)).length := by
  have hpiece : ∀ pieces : List Bytes, pieces.countP (fun d => !d.isEmpty) =
      ((pieces.map List.length).filter (· ≠ 0)).length := by
    intro pieces
    rw [← HttpParser.length_filter_pieces, List.countP_eq_length_filter]
    congr 2
    funext d
    cases d <;> rfl
  rw [CutHeader.callbacks, List.countP_append, List.countP_map, List.countP_map]
  exact congrArg₂ (· + ·) (hpiece h.name) (hpiece h.value)

theorem length_filter_pos {lengths : List Nat} (h : lengths.sum ≠ 0) :
    1 ≤ (lengths.filter (· ≠ 0)).length := by
  by_contra hlt
  have hnil : lengths.filter (· ≠ 0) = [] := List.length_eq_zero_iff.mp (by omega)
  refine h (List.sum_eq_zero fun n hn => ?_)
  simpa using List.filter_eq_nil_iff.mp hnil n hn

/-- Each header has a piece of its name and one of its value, so that twice as many pieces as
headers leave one for each. -/
theorem whole_of_countP {hs : List CutHeader} (hc : ∀ h ∈ hs, Contract h.shape)
    (hv : ∀ h ∈ hs, h.value.flatten ≠ []) :
    2 * hs.length ≤ (hs.flatMap CutHeader.callbacks).countP Callback.isHeaderPiece ∧
      ((hs.flatMap CutHeader.callbacks).countP Callback.isHeaderPiece = 2 * hs.length →
        ∀ h ∈ hs, Whole h.shape) := by
  induction hs with
  | nil => exact ⟨Nat.le_refl _, fun _ h hh => absurd hh (by simp)⟩
  | cons h hs ih =>
    obtain ⟨hle, hwhole⟩ := ih (fun x hx => hc x (List.mem_cons_of_mem _ hx))
      (fun x hx => hv x (List.mem_cons_of_mem _ hx))
    have hname := length_filter_pos (hc h (by simp)).1
    have hvalue : 1 ≤ (h.shape.2.filter (· ≠ 0)).length := by
      refine length_filter_pos fun hzero => hv h (by simp) ?_
      rw [CutHeader.shape, ← List.length_flatten] at hzero
      exact List.length_eq_zero_iff.mp hzero
    rw [List.flatMap_cons, List.countP_append, CutHeader.countP_callbacks, List.length_cons]
    refine ⟨by omega, fun heq x hx => ?_⟩
    rcases List.mem_cons.mp hx with rfl | hx
    · exact ⟨by omega, by omega⟩
    · exact hwhole (by omega) x hx

theorem Report.countP_callbacks (rep : Report) (method : Bytes) :
    (rep.callbacks method).countP Callback.isHeaderPiece =
      (rep.headers.flatMap CutHeader.callbacks).countP Callback.isHeaderPiece := by
  have hurls : (rep.target.map Callback.url).countP Callback.isHeaderPiece = 0 := by
    simp [List.countP_eq_zero, Callback.isHeaderPiece]
  have hbodies : (rep.body.map Callback.body).countP Callback.isHeaderPiece = 0 := by
    simp [List.countP_eq_zero, Callback.isHeaderPiece]
  have hend : [Callback.messageComplete method rep.statusCode].countP
      Callback.isHeaderPiece = 0 := rfl
  rw [Report.callbacks, Report.headers, List.flatMap_append]
  simp only [List.countP_append, hurls, hbodies, hend]
  omega

theorem Report.whole_of_headersWhole {rep : Report} {r : SentRequest} (hof : rep.Of r)
    (h : HeadersWhole r (rep.callbacks r.method)) : rep.Whole := by
  have hlen : rep.headers.length = r.headers.length := by
    rw [← hof.headers, List.length_map]
  refine (whole_of_countP hof.contract fun x hx => ?_).2 ?_
  · refine h.1 (x.name.flatten, x.value.flatten) ?_
    rw [← hof.headers]
    exact List.mem_map_of_mem hx
  · rw [← Report.countP_callbacks, h.2, hlen]

/-! ## The fields after the callbacks of a request -/

namespace HttpParser

theorem onCallbacks_append (p : HttpParser) (cbs cbs' : List Callback) :
    p.onCallbacks (cbs ++ cbs') = (p.onCallbacks cbs).onCallbacks cbs' :=
  List.foldl_append

theorem onCallbacks_urls (p : HttpParser) (urls : List Bytes) :
    p.onCallbacks (urls.map .url) = { p with urlAndParams := p.urlAndParams ++ urls.flatten } := by
  induction urls generalizing p with
  | nil => simp [onCallbacks]
  | cons d ds ih =>
    show (p.onUrl d).onCallbacks (ds.map .url) = _
    rw [ih]
    unfold onUrl
    split
    · rename_i h
      simp [List.length_eq_zero_iff.mp (Nat.le_zero.mp h)]
    · simp

theorem onCallbacks_bodies (p : HttpParser) (bodies : List Bytes) :
    p.onCallbacks (bodies.map .body) = { p with body := p.body ++ bodies.flatten } := by
  induction bodies generalizing p with
  | nil => simp [onCallbacks]
  | cons d ds ih =>
    show (p.onBody d).onCallbacks (ds.map .body) = _
    rw [ih]
    unfold onBody
    split
    · rename_i h
      simp [List.length_eq_zero_iff.mp (Nat.le_zero.mp h)]
    · simp

/-- The fields that the header callbacks do not touch. -/
def SameRest (p q : HttpParser) : Prop :=
  q.urlAndParams = p.urlAndParams ∧ q.parameters = p.parameters ∧ q.body = p.body ∧
    q.complete = p.complete

theorem SameRest.trans {p q r : HttpParser} (h : SameRest p q) (h' : SameRest q r) :
    SameRest p r :=
  ⟨h'.1.trans h.1, h'.2.1.trans h.2.1, h'.2.2.1.trans h.2.2.1, h'.2.2.2.trans h.2.2.2⟩

theorem onHeaderName_sameRest (p : HttpParser) (d : Bytes) : SameRest p (p.onHeaderName d) := by
  unfold onHeaderName
  split
  · exact ⟨rfl, rfl, rfl, rfl⟩
  · dsimp only
    split <;> exact ⟨rfl, rfl, rfl, rfl⟩

theorem onHeaderValue_sameRest (p : HttpParser) (d : Bytes) : SameRest p (p.onHeaderValue d) := by
  unfold onHeaderValue
  split
  · exact ⟨rfl, rfl, rfl, rfl⟩
  · dsimp only
    split <;> exact ⟨rfl, rfl, rfl, rfl⟩

theorem foldl_sameRest {α : Type} {f : HttpParser → α → HttpParser}
    (hf : ∀ p a, SameRest p (f p a)) (as : List α) (p : HttpParser) :
    SameRest p (as.foldl f p) := by
  induction as generalizing p with
  | nil => exact ⟨rfl, rfl, rfl, rfl⟩
  | cons a as ih => exact (hf p a).trans (ih (f p a))

theorem onHeader_sameRest (p : HttpParser) (h : CutHeader) : SameRest p (p.onHeader h) :=
  (foldl_sameRest onHeaderName_sameRest h.name p).trans
    (foldl_sameRest onHeaderValue_sameRest h.value _)

/-- The parser has got this much of a request, and is between two headers. -/
structure Filled (target body : Bytes) (headers : HeaderMap) (p : HttpParser) : Prop where
  urlAndParams : p.urlAndParams = target
  parameters : p.parameters = ∅
  headerState : p.headerState = .None
  headers : p.headers = headers
  body : p.body = body

theorem filled_init : Filled [] [] ∅ {} := ⟨rfl, rfl, rfl, rfl, rfl⟩

variable {target body : Bytes} {headers : HeaderMap} {p : HttpParser}

theorem Filled.urls (h : Filled target body headers p) (urls : List Bytes) :
    Filled (target ++ urls.flatten) body headers (p.onCallbacks (urls.map .url)) := by
  rw [onCallbacks_urls]
  exact ⟨by rw [h.urlAndParams], h.parameters, h.headerState, h.headers, h.body⟩

theorem Filled.bodies (h : Filled target body headers p) (bodies : List Bytes) :
    Filled target (body ++ bodies.flatten) headers (p.onCallbacks (bodies.map .body)) := by
  rw [onCallbacks_bodies]
  exact ⟨h.urlAndParams, h.parameters, h.headerState, h.headers, by rw [h.body]⟩

theorem Filled.cutHeaders (h : Filled target body headers p) {hs : List CutHeader}
    (hw : ∀ x ∈ hs, Whole x.shape) :
    Filled target body
      (hs.foldl (fun m x => m.insert x.name.flatten x.value.flatten) headers)
      (p.onCallbacks (hs.flatMap CutHeader.callbacks)) := by
  rw [onCallbacks_headers]
  obtain ⟨hstate, hheaders⟩ := headers_whole hw h.headerState
  obtain ⟨hurl, hparams, hbody, -⟩ := foldl_sameRest onHeader_sameRest hs p
  exact ⟨hurl.trans h.urlAndParams, hparams.trans h.parameters, hstate,
    by rw [hheaders, h.headers], hbody.trans h.body⟩

theorem Filled.messageComplete {r : SentRequest} (statusCode : Nat)
    (h : Filled r.target r.body (r.headers.foldl (fun m x => m.insert x.1 x.2) ∅) p) :
    (p.onComplete r.method statusCode).complete = true ∧
      (p.onComplete r.method statusCode).request = r.request := by
  refine ⟨rfl, ?_⟩
  simp only [onComplete, parseUrlAndParam, request, SentRequest.request, SentRequest.parser,
    h.urlAndParams, h.parameters, h.headers, h.body]

/-- A request reported to a new parser, with the headers whole: its fields are those of the
request. -/
theorem onCallbacks_report {r : SentRequest} {rep : Report} (h : rep.Of r) (hw : rep.Whole) :
    (onCallbacks {} (rep.callbacks r.method)).complete = true ∧
      (onCallbacks {} (rep.callbacks r.method)).request = r.request := by
  have hfilled := (((filled_init.urls rep.target).cutHeaders
    fun x hx => hw x (List.mem_append_left _ hx)).bodies rep.body).cutHeaders
    fun x hx => hw x (List.mem_append_right _ hx)
  rw [← onCallbacks_append, ← onCallbacks_append, ← onCallbacks_append, List.nil_append,
    List.nil_append, h.target, h.body, ← List.foldl_append] at hfilled
  have hheaders : (rep.front ++ rep.trailing).foldl
      (fun m x => m.insert x.name.flatten x.value.flatten) (∅ : HeaderMap) =
      r.headers.foldl (fun m x => m.insert x.1 x.2) ∅ := by
    rw [← h.headers, List.foldl_map]
    rfl
  rw [hheaders] at hfilled
  have hdone := hfilled.messageComplete rep.statusCode
  simpa [Report.callbacks, onCallbacks, onCallback, List.foldl_append] using hdone

theorem onCallbacks_incomplete {cbs : List Callback} (h : ∀ cb ∈ cbs, cb.isComplete = false)
    (p : HttpParser) : (p.onCallbacks cbs).complete = p.complete := by
  induction cbs generalizing p with
  | nil => rfl
  | cons cb cbs ih =>
    show ((p.onCallback cb).onCallbacks cbs).complete = p.complete
    rw [ih fun x hx => h x (List.mem_cons_of_mem _ hx)]
    have hcb := h cb (by simp)
    cases cb with
    | url d =>
      show (p.onUrl d).complete = p.complete
      unfold onUrl
      split <;> rfl
    | headerField d => exact (onHeaderName_sameRest p d).2.2.2
    | headerValue d => exact (onHeaderValue_sameRest p d).2.2.2
    | body d =>
      show (p.onBody d).complete = p.complete
      unfold onBody
      split <;> rfl
    | messageComplete => cases hcb

end HttpParser

/-- The decoder that has got the reads `ds` since it was new. -/
def HttpDecoder.fed {σ : Type} (lib : HttpLib σ) (ds : List Bytes) : HttpDecoder σ :=
  ⟨HttpParser.onCallbacks {} (lib.feed lib.init ds).2.1, (lib.feed lib.init ds).1⟩

theorem HttpDecoder.parse_fed {σ : Type} (lib : HttpLib σ) (ds : List Bytes) (d : Bytes) :
    (HttpDecoder.fed lib ds).parse lib d =
      ((lib.execute (lib.feed lib.init ds).1 d).2.2, .fed lib (ds ++ [d])) := by
  simp [HttpDecoder.parse, HttpDecoder.fed, HttpLib.feed_append, HttpLib.feed,
    HttpParser.onCallbacks_append]

theorem HttpLib.feed_snoc_ok {σ : Type} {lib : HttpLib σ} {ds : List Bytes} {d : Bytes}
    (h : (lib.feed lib.init (ds ++ [d])).2.2 = true) :
    (lib.execute (lib.feed lib.init ds).1 d).2.2 = true := by
  simp only [feed_append, feed, Bool.and_true, Bool.and_eq_true] at h
  exact h.2

/-! ## A library that knows some requests -/

/-- The request reported without a cut. -/
def SentRequest.uncut (r : SentRequest) : Report where
  target := [r.target]
  front := r.headers.map fun h => ⟨[h.1], [h.2]⟩
  body := if r.body = [] then [] else [r.body]
  trailing := []
  statusCode := 0

theorem SentRequest.uncut_of {r : SentRequest} (hnames : ∀ h ∈ r.headers, h.1 ≠ []) :
    r.uncut.Of r := by
  constructor
  · simp [uncut]
  · simp [uncut, Report.headers, Function.comp_def]
  · unfold uncut
    split <;> simp [*]
  · intro h hh
    simp only [uncut, Report.headers, List.append_nil, List.mem_map] at hh
    obtain ⟨x, hx, rfl⟩ := hh
    simpa [Contract, CutHeader.shape] using hnames x hx

def SentRequest.callbacks (r : SentRequest) : List Callback := r.uncut.callbacks r.method

/-- The requests at the start of `buffer`, one after the other up to the first that upgrades, and
the bytes behind them. -/
def scan (known : List (SentRequest × Bool)) : Nat → Bytes → List Callback × Bytes
  | 0, buffer => ([], buffer)
  | n + 1, buffer =>
    match known.find? fun k => k.1.bytes.isPrefixOf buffer with
    | none => ([], buffer)
    | some (r, true) => (r.callbacks, [])
    | some (r, false) =>
      let (cbs, rest) := scan known n (buffer.drop r.bytes.length)
      (r.callbacks ++ cbs, rest)

/-- The library for them: it reports every request that is there as a whole, in turn, and stops
behind one that upgrades. -/
def knownRequests (known : List (SentRequest × Bool)) : HttpLib Bytes where
  init := []
  execute st data :=
    let (cbs, rest) := scan known (st ++ data).length (st ++ data)
    (rest, cbs, true)

section Known

variable {known : List (SentRequest × Bool)} {r : SentRequest} {upgrade : Bool}

theorem scan_none {buffer : Bytes}
    (h : known.find? (fun k => k.1.bytes.isPrefixOf buffer) = none) (n : Nat) :
    scan known n buffer = ([], buffer) := by
  cases n with
  | zero => rfl
  | succ n => rw [scan, h]

theorem feed_known_ok (st : Bytes) (ds : List Bytes) :
    ((knownRequests known).feed st ds).2.2 = true := by
  induction ds generalizing st with
  | nil => rfl
  | cons d ds ih => exact ih _

theorem feed_known_snoc {ds : List Bytes} (d : Bytes)
    (h : (knownRequests known).feed [] ds = (ds.flatten, [], true)) :
    (knownRequests known).feed [] (ds ++ [d]) =
      ((scan known (ds.flatten ++ d).length (ds.flatten ++ d)).2,
        (scan known (ds.flatten ++ d).length (ds.flatten ++ d)).1, true) := by
  rw [HttpLib.feed_append, h]
  simp [HttpLib.feed, knownRequests]

theorem feed_known_early
    (hearly : ∀ n < r.bytes.length,
      known.find? (fun k => k.1.bytes.isPrefixOf (r.bytes.take n)) = none)
    {ds : List Bytes} (hpre : ds.flatten <+: r.bytes) (hne : ds.flatten ≠ r.bytes) :
    (knownRequests known).feed [] ds = (ds.flatten, [], true) := by
  induction ds using List.reverseRecOn with
  | nil => rfl
  | append_singleton ds d ih =>
    rw [List.flatten_append, List.flatten_singleton] at hpre hne
    have hne₀ : ds.flatten ≠ r.bytes := by
      intro he
      have hlen := hpre.length_le
      rw [List.length_append, he] at hlen
      exact hne (hpre.eq_of_length (by rw [List.length_append, he]; omega))
    have hlt : (ds.flatten ++ d).length < r.bytes.length :=
      Nat.lt_of_le_of_ne hpre.length_le fun he => hne (hpre.eq_of_length he)
    have hnone := hearly _ hlt
    rw [← List.prefix_iff_eq_take.mp hpre] at hnone
    rw [feed_known_snoc d (ih ((List.prefix_append _ _).trans hpre) hne₀), scan_none hnone,
      List.flatten_append, List.flatten_singleton]

theorem scan_known (hfind : known.find? (fun k => k.1.bytes.isPrefixOf r.bytes) = some (r, upgrade))
    (hnil : known.find? (fun k => k.1.bytes.isPrefixOf []) = none) (n : Nat) :
    (scan known (n + 1) r.bytes).1 = r.callbacks := by
  rw [scan, hfind]
  cases upgrade with
  | true => rfl
  | false =>
    dsimp only
    rw [List.drop_length, scan_none hnil, List.append_nil]

theorem lawful_known
    (hfind : known.find? (fun k => k.1.bytes.isPrefixOf r.bytes) = some (r, upgrade))
    (hearly : ∀ n < r.bytes.length,
      known.find? (fun k => k.1.bytes.isPrefixOf (r.bytes.take n)) = none)
    (hnames : ∀ h ∈ r.headers, h.1 ≠ []) (hbytes : r.bytes ≠ []) :
    (knownRequests known).Lawful r := by
  constructor
  · intro ds _ _
    exact feed_known_ok _ ds
  · intro ds _ hpre hne cb hcb
    rw [show (knownRequests known).init = [] from rfl, feed_known_early hearly hpre hne] at hcb
    cases hcb
  · intro ds hds hcat
    refine ⟨r.uncut, SentRequest.uncut_of hnames, ?_⟩
    rcases List.eq_nil_or_concat ds with rfl | ⟨ds, d, rfl⟩
    · exact absurd hcat.symm hbytes
    · rw [List.concat_eq_append] at hds hcat ⊢
      rw [List.flatten_append, List.flatten_singleton] at hcat
      have hd : d ≠ [] := hds d (by simp)
      have hne₀ : ds.flatten ≠ r.bytes := by
        intro he
        rw [he] at hcat
        exact hd (List.self_eq_append_right.mp hcat.symm)
      have hpos := List.length_pos_iff.mpr hbytes
      obtain ⟨n, hn⟩ : ∃ n, r.bytes.length = n + 1 := ⟨_, (Nat.sub_add_cancel hpos).symm⟩
      rw [show (knownRequests known).init = [] from rfl,
        feed_known_snoc d (feed_known_early hearly ⟨d, hcat⟩ hne₀), hcat, hn]
      exact scan_known hfind (hearly 0 hpos) n

end Known

end Http
end CoSocket
