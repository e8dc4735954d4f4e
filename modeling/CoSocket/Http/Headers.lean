import CoSocket.Http.HttpParser

/-!
# Http.Headers

Header names and values that the library reports in several pieces. `OnHeaderName` and
`OnHeaderValue` overwrite the name and the value with each piece and take the pieces for an
alternation of names and values, so a second piece shifts what is paired with what.

`headers_decode_iff` is about the lengths of the pieces: header lists cut in that way are decoded as
they are, whatever their bytes, if and only if each name and each value comes in exactly one
non-empty piece.
-/

namespace CoSocket
namespace Http

open Base

/-- The pieces in which a header is reported. -/
structure CutHeader where
  name : List Bytes
  value : List Bytes
deriving DecidableEq, Repr

namespace CutHeader

/-- The lengths of the pieces of the name and of the value. -/
def shape (h : CutHeader) : List Nat × List Nat := (h.name.map List.length, h.value.map List.length)

/-- The calls the library makes for the header. -/
def callbacks (h : CutHeader) : List Callback :=
  h.name.map .headerField ++ h.value.map .headerValue

end CutHeader

/-- The headers that were sent: the last value for each name. -/
def sentHeaders (hs : List CutHeader) : HeaderMap :=
  hs.foldl (fun m h => m.insert h.name.flatten h.value.flatten) ∅

/-- `m_headers` of a new parser after the calls for the headers. -/
def decodedHeaders (hs : List CutHeader) : HeaderMap :=
  (HttpParser.onCallbacks {} (hs.flatMap CutHeader.callbacks)).headers

/-- What the library promises: names are not empty, and each value is reported at least once. -/
def Contract (shape : List Nat × List Nat) : Prop := shape.1.sum ≠ 0 ∧ shape.2 ≠ []

/-- Exactly one piece of the name and one piece of the value are not empty. -/
def Whole (shape : List Nat × List Nat) : Prop :=
  (shape.1.filter (· ≠ 0)).length = 1 ∧ (shape.2.filter (· ≠ 0)).length = 1

instance (shape : List Nat × List Nat) : Decidable (Whole shape) :=
  inferInstanceAs (Decidable (_ ∧ _))

namespace HttpParser

/-! ## One header -/

def onHeader (p : HttpParser) (h : CutHeader) : HttpParser :=
  h.value.foldl onHeaderValue (h.name.foldl onHeaderName p)

theorem onCallbacks_header (p : HttpParser) (h : CutHeader) :
    p.onCallbacks h.callbacks = p.onHeader h := by
  simp [onCallbacks, CutHeader.callbacks, onHeader, List.foldl_append, List.foldl_map, onCallback]

theorem onCallbacks_headers (p : HttpParser) (hs : List CutHeader) :
    p.onCallbacks (hs.flatMap CutHeader.callbacks) = hs.foldl onHeader p := by
  induction hs generalizing p with
  | nil => rfl
  | cons h hs ih =>
    rw [List.flatMap_cons, onCallbacks, List.foldl_append]
    show (p.onCallbacks h.callbacks).onCallbacks _ = _
    rw [onCallbacks_header, ih]
    rfl

theorem onHeaderName_nil (p : HttpParser) : p.onHeaderName [] = p := rfl

theorem onHeaderValue_nil (p : HttpParser) : p.onHeaderValue [] = p := rfl

theorem onHeaderName_ne {p : HttpParser} {d : Bytes} (hd : d ≠ [])
    (hs : p.headerState = .None) :
    p.onHeaderName d = { p with headerName := d, headerState := .HasName } := by
  have hlen : ¬ d.length ≤ 0 := by simpa using hd
  unfold onHeaderName
  rw [if_neg hlen, hs]
  rfl

theorem onHeaderValue_hasName {p : HttpParser} {d : Bytes} (hd : d ≠ [])
    (hs : p.headerState = .HasName) :
    p.onHeaderValue d = { p with
      headerValue := d
      headerState := .None
      headers := p.headers.insert p.headerName d } := by
  have hlen : ¬ d.length ≤ 0 := by simpa using hd
  unfold onHeaderValue
  rw [if_neg hlen, hs]
  rfl

theorem foldl_filter_pieces {f : HttpParser → Bytes → HttpParser} (hf : ∀ p, f p [] = p)
    (pieces : List Bytes) (p : HttpParser) :
    pieces.foldl f p = (pieces.filter (· ≠ [])).foldl f p := by
  induction pieces generalizing p with
  | nil => rfl
  | cons d ds ih =>
    by_cases hd : d = []
    · subst hd
      simp [hf, ih]
    · simp [hd, ih]

theorem flatten_filter_pieces (pieces : List Bytes) :
    (pieces.filter (· ≠ [])).flatten = pieces.flatten := by
  induction pieces with
  | nil => rfl
  | cons d ds ih =>
    by_cases hd : d = []
    · subst hd
      simpa using ih
    · simpa [hd] using ih

theorem length_filter_pieces (pieces : List Bytes) :
    (pieces.filter (· ≠ [])).length = ((pieces.map List.length).filter (· ≠ 0)).length := by
  rw [List.filter_map, List.length_map]
  congr 2
  funext d
  simp [Function.comp]

theorem pieces_of_whole {pieces : List Bytes}
    (h : ((pieces.map List.length).filter (· ≠ 0)).length = 1) :
    pieces.flatten ≠ [] ∧ pieces.filter (· ≠ []) = [pieces.flatten] := by
  rw [← length_filter_pieces] at h
  obtain ⟨d, hd⟩ := List.length_eq_one_iff.mp h
  have hmem : d ∈ pieces.filter (· ≠ []) := by rw [hd]; exact List.mem_singleton_self d
  have hflat : pieces.flatten = d := by
    rw [← flatten_filter_pieces, hd]
    simp
  rw [hflat]
  exact ⟨by simpa using (List.mem_filter.mp hmem).2, hd⟩

theorem onHeader_whole {p : HttpParser} {h : CutHeader} (hs : p.headerState = .None)
    (hw : Whole h.shape) :
    (p.onHeader h).headerState = .None ∧
      (p.onHeader h).headers = p.headers.insert h.name.flatten h.value.flatten := by
  obtain ⟨hn, hnf⟩ := pieces_of_whole hw.1
  obtain ⟨hv, hvf⟩ := pieces_of_whole hw.2
  rw [onHeader, foldl_filter_pieces onHeaderName_nil, foldl_filter_pieces onHeaderValue_nil, hnf,
    hvf, List.foldl_cons, List.foldl_nil, List.foldl_cons, List.foldl_nil, onHeaderName_ne hn hs,
    onHeaderValue_hasName hv rfl]
  exact ⟨rfl, rfl⟩

theorem headers_whole {hs : List CutHeader} (hw : ∀ h ∈ hs, Whole h.shape) :
    ∀ {p : HttpParser}, p.headerState = .None →
      (hs.foldl onHeader p).headerState = .None ∧
        (hs.foldl onHeader p).headers =
          hs.foldl (fun m h => m.insert h.name.flatten h.value.flatten) p.headers := by
  induction hs with
  | nil => exact fun hp => ⟨hp, rfl⟩
  | cons h hs ih =>
    intro p hp
    obtain ⟨hs', hh⟩ := onHeader_whole hp (hw h (by simp))
    rw [List.foldl_cons, List.foldl_cons, ← hh]
    exact ih (fun x hx => hw x (List.mem_cons_of_mem _ hx)) hs'

/-! ## Pieces of another name -/

theorem onHeaderName_other (p : HttpParser) {d K : Bytes} (hd : d ≠ []) (hK : d ≠ K) :
    (p.onHeaderName d).headers[K]? = p.headers[K]? ∧ (p.onHeaderName d).headerName ≠ K := by
  have hlen : ¬ d.length ≤ 0 := by simpa using hd
  unfold onHeaderName
  rw [if_neg hlen]
  dsimp only
  split
  · exact ⟨by rw [Std.ExtTreeMap.getElem?_insert, if_neg (by simpa using hK)], hK⟩
  · exact ⟨rfl, hK⟩

theorem onHeaderValue_other (p : HttpParser) {d K : Bytes} (hK : p.headerName ≠ K) :
    (p.onHeaderValue d).headers[K]? = p.headers[K]? ∧ (p.onHeaderValue d).headerName ≠ K := by
  unfold onHeaderValue
  split
  · exact ⟨rfl, hK⟩
  dsimp only
  split
  · exact ⟨by rw [Std.ExtTreeMap.getElem?_insert, if_neg (by simpa using hK)], hK⟩
  · exact ⟨rfl, hK⟩

theorem names_other {K : Bytes} {pieces : List Bytes} (hne : ∀ d ∈ pieces, d ≠ [])
    (hK : ∀ d ∈ pieces, d ≠ K) (hcons : pieces ≠ []) (p : HttpParser) :
    (pieces.foldl onHeaderName p).headers[K]? = p.headers[K]? ∧
      (pieces.foldl onHeaderName p).headerName ≠ K := by
  induction pieces generalizing p with
  | nil => exact absurd rfl hcons
  | cons d ds ih =>
    obtain ⟨hh, hn⟩ := onHeaderName_other p (hne d (by simp)) (hK d (by simp))
    cases ds with
    | nil => exact ⟨hh, hn⟩
    | cons e es =>
      obtain ⟨hh', hn'⟩ := ih (fun x hx => hne x (List.mem_cons_of_mem _ hx))
        (fun x hx => hK x (List.mem_cons_of_mem _ hx)) (by simp) (p.onHeaderName d)
      exact ⟨hh'.trans hh, hn'⟩

theorem values_other {K : Bytes} (pieces : List Bytes) {p : HttpParser} (hK : p.headerName ≠ K) :
    (pieces.foldl onHeaderValue p).headers[K]? = p.headers[K]? := by
  induction pieces generalizing p with
  | nil => rfl
  | cons d ds ih =>
    obtain ⟨hh, hn⟩ := onHeaderValue_other p (d := d) hK
    exact (ih hn).trans hh

theorem onHeader_other {K : Bytes} {h : CutHeader} (p : HttpParser)
    (hne : h.name.flatten ≠ []) (hK : ∀ d ∈ h.name, d ≠ K) :
    (p.onHeader h).headers[K]? = p.headers[K]? := by
  have hcons : h.name.filter (· ≠ []) ≠ [] := by
    intro hnil
    rw [← flatten_filter_pieces, hnil] at hne
    exact hne rfl
  obtain ⟨hh, hn⟩ := names_other (fun d hd => by simpa using (List.mem_filter.mp hd).2)
    (fun d hd => hK d (List.mem_of_mem_filter hd)) hcons p
  rw [onHeader, foldl_filter_pieces onHeaderName_nil, values_other _ hn, hh]

theorem headers_other {K : Bytes} {hs : List CutHeader} (hne : ∀ h ∈ hs, h.name.flatten ≠ [])
    (hK : ∀ h ∈ hs, ∀ d ∈ h.name, d ≠ K) (p : HttpParser) :
    (hs.foldl onHeader p).headers[K]? = p.headers[K]? := by
  induction hs generalizing p with
  | nil => rfl
  | cons h hs ih =>
    rw [List.foldl_cons, ih (fun x hx => hne x (List.mem_cons_of_mem _ hx))
      fun x hx => hK x (List.mem_cons_of_mem _ hx)]
    exact onHeader_other p (hne h (by simp)) (hK h (by simp))

/-! ## A header in pieces -/

theorem values_unpaired {pieces : List Bytes} (hne : ∀ d ∈ pieces, d ≠ []) :
    ∀ {p : HttpParser}, p.headerState = .None ∨ p.headerState = .HasVaule →
      (pieces.foldl onHeaderValue p).headers = p.headers := by
  induction pieces with
  | nil => exact fun _ => rfl
  | cons d ds ih =>
    intro p hs
    have hlen : ¬ d.length ≤ 0 := by simpa using hne d (by simp)
    have hd : p.onHeaderValue d = { p with headerValue := d, headerState := .HasVaule } := by
      unfold onHeaderValue
      rw [if_neg hlen]
      rcases hs with hs | hs <;> rw [hs] <;> rfl
    rw [List.foldl_cons, hd]
    exact ih (fun x hx => hne x (List.mem_cons_of_mem _ hx)) (.inr rfl)

theorem piece_ne_flatten {pieces : List Bytes} (hne : ∀ d ∈ pieces, d ≠ [])
    (hlen : pieces.length ≠ 1) {d : Bytes} (hd : d ∈ pieces) : d ≠ pieces.flatten := by
  intro he
  obtain ⟨as, bs, rfl⟩ := List.append_of_mem hd
  have hl := congrArg List.length he
  simp only [List.flatten_append, List.flatten_cons, List.length_append] at hl
  have hnil : ∀ xs : List Bytes, (∀ x ∈ xs, x ∈ as ++ d :: bs) →
      xs.flatten.length = 0 → xs = [] := by
    intro xs hsub h0
    rw [List.length_eq_zero_iff, List.flatten_eq_nil_iff] at h0
    rw [List.eq_nil_iff_forall_not_mem]
    exact fun x hx => hne x (hsub x hx) (h0 x hx)
  have ha := hnil as (fun x hx => by simp [hx]) (by omega)
  have hb := hnil bs (fun x hx => by simp [hx]) (by omega)
  subst ha hb
  exact hlen rfl

theorem onHeader_cut {p : HttpParser} {h : CutHeader} (hs : p.headerState = .None)
    (hne : h.name.flatten ≠ []) (hw : ¬ Whole h.shape)
    (hnew : p.headers[h.name.flatten]? = none) :
    (p.onHeader h).headers[h.name.flatten]? ≠ some h.value.flatten := by
  by_cases hname : ((h.name.map List.length).filter (· ≠ 0)).length = 1
  · -- the name is whole, and the value has no piece or more than one
    have hvalue : (h.value.filter (· ≠ [])).length ≠ 1 := by
      rw [length_filter_pieces]
      exact fun hv => hw ⟨hname, hv⟩
    have hvne : ∀ d ∈ h.value.filter (· ≠ []), d ≠ [] := fun d hd => by
      simpa using (List.mem_filter.mp hd).2
    obtain ⟨-, hnf⟩ := pieces_of_whole hname
    rw [onHeader, foldl_filter_pieces onHeaderName_nil, foldl_filter_pieces onHeaderValue_nil, hnf,
      List.foldl_cons, List.foldl_nil, onHeaderName_ne hne hs, ← flatten_filter_pieces h.value]
    generalize h.value.filter (· ≠ []) = vs at hvalue hvne
    match vs with
    | [] => simp [hnew]
    | [v] => exact absurd rfl hvalue
    | v :: w :: vs =>
      rw [List.foldl_cons, onHeaderValue_hasName (hvne v (by simp)) rfl,
        values_unpaired (fun x hx => hvne x (List.mem_cons_of_mem _ hx)) (.inl rfl)]
      have hw : w ≠ [] := hvne w (by simp)
      simp [hw]
  · -- no piece of the name is the whole name
    rw [onHeader_other p hne, hnew]
    · simp
    · intro d hd
      by_cases hd0 : d = []
      · exact fun he => hne (he ▸ hd0)
      · rw [← flatten_filter_pieces]
        refine piece_ne_flatten (fun x hx => by simpa using (List.mem_filter.mp hx).2) ?_
          (List.mem_filter.mpr ⟨hd, by simpa using hd0⟩)
        rw [length_filter_pieces]
        exact hname

end HttpParser

/-! ## All header lists of one shape -/

/-- A header of the given shape, made of one byte. -/
def CutHeader.fill (c : UInt8) (shape : List Nat × List Nat) : CutHeader :=
  ⟨shape.1.map (List.replicate · c), shape.2.map (List.replicate · c)⟩

theorem CutHeader.shape_fill (c : UInt8) (shape : List Nat × List Nat) :
    (CutHeader.fill c shape).shape = shape := by
  simp [CutHeader.fill, CutHeader.shape, List.map_map, Function.comp_def]

theorem CutHeader.mem_fill {c x : UInt8} {shape : List Nat × List Nat}
    (hx : x ∈ (CutHeader.fill c shape).name.flatten) : x = c := by
  obtain ⟨d, hd, hx⟩ := List.mem_flatten.mp hx
  obtain ⟨n, -, rfl⟩ := List.mem_map.mp hd
  exact List.eq_of_mem_replicate hx

theorem CutHeader.fill_name_ne_nil {c : UInt8} {shape : List Nat × List Nat}
    (h : shape.1.sum ≠ 0) : (CutHeader.fill c shape).name.flatten ≠ [] := by
  rw [Ne, ← List.length_eq_zero_iff, List.length_flatten]
  have hs := congrArg Prod.fst (CutHeader.shape_fill c shape)
  rw [show (CutHeader.fill c shape).name.map List.length = shape.1 from hs]
  exact h

theorem CutHeader.ne_fill_name {c c' : UInt8} (hc : c ≠ c') {shape shape' : List Nat × List Nat}
    (h : shape'.1.sum ≠ 0) {d : Bytes}
    (hd : ∀ x ∈ d, x ∈ (CutHeader.fill c shape).name.flatten) :
    d ≠ (CutHeader.fill c' shape').name.flatten := by
  rintro rfl
  obtain ⟨x, hx⟩ := List.exists_mem_of_ne_nil _ (CutHeader.fill_name_ne_nil (c := c') h)
  exact hc ((CutHeader.mem_fill (hd x hx)).symm.trans (CutHeader.mem_fill hx))

theorem sent_other {K : Bytes} {hs : List CutHeader} (hK : ∀ h ∈ hs, h.name.flatten ≠ K)
    (m : HeaderMap) :
    (hs.foldl (fun m h => m.insert h.name.flatten h.value.flatten) m)[K]? = m[K]? := by
  induction hs generalizing m with
  | nil => rfl
  | cons h hs ih =>
    rw [List.foldl_cons, ih fun x hx => hK x (List.mem_cons_of_mem _ hx),
      Std.ExtTreeMap.getElem?_insert, if_neg]
    simpa using hK h (by simp)

theorem decodedHeaders_eq (hs : List CutHeader) :
    decodedHeaders hs = (hs.foldl HttpParser.onHeader {}).headers := by
  rw [decodedHeaders, HttpParser.onCallbacks_headers]

/-- The first header that does not come whole is lost or wrong, when its name is its own. -/
theorem exists_misdecoded {good rest : List (List Nat × List Nat)} {bad : List Nat × List Nat}
    (hc : ∀ s ∈ good ++ bad :: rest, Contract s) (hgood : ∀ s ∈ good, Whole s)
    (hbad : ¬ Whole bad) :
    ∃ hs : List CutHeader, hs.map CutHeader.shape = good ++ bad :: rest ∧
      decodedHeaders hs ≠ sentHeaders hs := by
  have hsum : ∀ s ∈ good ++ bad :: rest, s.1.sum ≠ 0 := fun s hs => (hc s hs).1
  have hne : ∀ ss : List (List Nat × List Nat), (∀ s ∈ ss, s ∈ good ++ bad :: rest) →
      ∀ h ∈ ss.map (CutHeader.fill 97), h.name.flatten ≠ [] := by
    intro ss hsub h hh
    obtain ⟨s, hs, rfl⟩ := List.mem_map.mp hh
    exact CutHeader.fill_name_ne_nil (hsum s (hsub s hs))
  have hother : ∀ ss : List (List Nat × List Nat), ∀ h ∈ ss.map (CutHeader.fill 97), ∀ d : Bytes,
      (∀ x ∈ d, x ∈ h.name.flatten) → d ≠ (CutHeader.fill 98 bad).name.flatten := by
    intro ss h hh d hd
    obtain ⟨s, -, rfl⟩ := List.mem_map.mp hh
    exact CutHeader.ne_fill_name (by decide) (hsum bad (by simp)) hd
  have hpiece : ∀ ss : List (List Nat × List Nat), ∀ h ∈ ss.map (CutHeader.fill 97),
      ∀ d ∈ h.name, d ≠ (CutHeader.fill 98 bad).name.flatten := fun ss h hh d hd =>
    hother ss h hh d fun x hx => List.mem_flatten.mpr ⟨d, hd, hx⟩
  refine ⟨good.map (CutHeader.fill 97) ++ CutHeader.fill 98 bad :: rest.map (CutHeader.fill 97),
    by simp [Function.comp_def, CutHeader.shape_fill], fun heq => ?_⟩
  -- the entry of the bad header, as decoded and as sent
  have hat := congrArg (fun m => m[(CutHeader.fill 98 bad).name.flatten]?) heq
  simp only [decodedHeaders_eq, sentHeaders, List.foldl_append, List.foldl_cons] at hat
  rw [HttpParser.headers_other (hne rest fun s hs => by simp [hs]) (hpiece rest),
    sent_other fun h hh => hother rest h hh _ fun x hx => hx,
    Std.ExtTreeMap.getElem?_insert_self] at hat
  refine HttpParser.onHeader_cut ?_ (CutHeader.fill_name_ne_nil (hsum bad (by simp))) ?_ ?_ hat
  · refine (HttpParser.headers_whole (fun h hh => ?_) rfl).1
    obtain ⟨s, hs, rfl⟩ := List.mem_map.mp hh
    rw [CutHeader.shape_fill]
    exact hgood s hs
  · rw [CutHeader.shape_fill]
    exact hbad
  · rw [HttpParser.headers_other (hne good fun s hs => by simp [hs]) (hpiece good)]
    simp

/-- **Headers in pieces.** For every way of cutting names and values into pieces that the library
may choose, all header lists cut so are decoded as they were sent, if and only if each name and each
value comes in exactly one non-empty piece. -/
theorem headers_decode_iff (shapes : List (List Nat × List Nat))
    (hc : ∀ s ∈ shapes, Contract s) :
    (∀ hs : List CutHeader, hs.map CutHeader.shape = shapes → decodedHeaders hs = sentHeaders hs) ↔
      ∀ s ∈ shapes, Whole s := by
  constructor
  · intro hall
    by_contra hnot
    -- the first header that does not come whole
    have hdrop : shapes.dropWhile (fun s => decide (Whole s)) ≠ [] := by
      rw [Ne, List.dropWhile_eq_nil_iff]
      simpa using hnot
    obtain ⟨bad, rest, hrest⟩ := List.exists_cons_of_ne_nil hdrop
    have hsplit := List.takeWhile_append_dropWhile (p := fun s => decide (Whole s)) (l := shapes)
    rw [hrest] at hsplit
    have hbad : ¬ Whole bad := by
      have := List.head_dropWhile_not (fun s => decide (Whole s)) hdrop
      simpa [hrest] using this
    obtain ⟨hs, hshape, hne⟩ := exists_misdecoded (hsplit ▸ hc)
      (fun s hs => by simpa using List.mem_takeWhile_imp hs) hbad
    exact hne (hall hs (hshape.trans hsplit))
  · intro hw hs hshape
    rw [decodedHeaders_eq, sentHeaders]
    refine (HttpParser.headers_whole (fun h hh => hw _ ?_) rfl).2
    rw [← hshape]
    exact List.mem_map_of_mem hh

/-- The header `a: b` in one piece each, and an empty piece. -/
theorem headers_decode_two_pieces :
    decodedHeaders [⟨[[97]], [[], [98]]⟩] = sentHeaders [⟨[[97]], [[], [98]]⟩] :=
  (headers_decode_iff [([1], [0, 1])] (by simp [Contract])).mpr (by simp [Whole])
    [⟨[[97]], [[], [98]]⟩] rfl

/-- A read boundary inside the name `Host`. -/
theorem header_name_cut :
    Contract (CutHeader.shape ⟨[bytesOf "Ho", bytesOf "st"], [bytesOf "x"]⟩) ∧
    (decodedHeaders [⟨[bytesOf "Ho", bytesOf "st"], [bytesOf "x"]⟩])[bytesOf "Host"]? = none ∧
    (sentHeaders [⟨[bytesOf "Ho", bytesOf "st"], [bytesOf "x"]⟩])[bytesOf "Host"]? =
      some (bytesOf "x") ∧
    decodedHeaders [⟨[bytesOf "Ho", bytesOf "st"], [bytesOf "x"]⟩] ≠
      sentHeaders [⟨[bytesOf "Ho", bytesOf "st"], [bytesOf "x"]⟩] := by
  have hdec : (decodedHeaders
      [⟨[bytesOf "Ho", bytesOf "st"], [bytesOf "x"]⟩])[bytesOf "Host"]? = none := by decide +kernel
  have hsent : (sentHeaders [⟨[bytesOf "Ho", bytesOf "st"], [bytesOf "x"]⟩])[bytesOf "Host"]? =
      some (bytesOf "x") := by decide +kernel
  refine ⟨by simp [Contract, CutHeader.shape, bytesOf], hdec, hsent, fun he => ?_⟩
  rw [he, hsent] at hdec
  cases hdec

end Http
end CoSocket
