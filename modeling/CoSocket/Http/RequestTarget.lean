import CoSocket.Base.UrlCodec
import CoSocket.Lib.Pairs
import CoSocket.Http.HttpEncoder
import CoSocket.Http.HttpParser

/-!
# Http.RequestTarget

The url and the parameters of a request, from `HttpEncoder` over the request line to `HttpParser`.

`GetRequestString` writes keys and values as they are, while `ParseUrlAndParam` decodes the target
before it looks for the delimiters. `requestTarget_read_iff` says which parameters come through all
the same.
-/

namespace CoSocket
namespace Http

open Base

/-! ## The parameters that are read -/

namespace HttpParser

theorem value_eq (s : Bytes) (offset : Nat) :
    (if offset < s.length then getStringBefore (ascii '&') s offset else []) =
      (s.drop offset).takeWhile (· ≠ ascii '&') := by
  by_cases h : offset < s.length
  · rw [if_pos h, getStringBefore]
  · rw [if_neg h, List.drop_eq_nil_of_le (by omega), List.takeWhile_nil]

theorem drop_offset (s : Bytes) (offset n : Nat) :
    s.drop (if offset < s.length then offset + n + 1 else offset) =
      (s.drop offset).drop (n + 1) := by
  by_cases h : offset < s.length
  · rw [if_pos h, List.drop_drop, Nat.add_assoc]
  · rw [if_neg h, List.drop_eq_nil_of_le (by omega), List.drop_nil]

theorem insertMany_pairOf (parameters : Parameters) (key value : Bytes) :
    parameters.insertMany (Pairs.pairOf key value) =
      if key ≠ [] then parameters.insert key value
      else if value ≠ [] then parameters.insert value []
      else parameters := by
  rw [Pairs.pairOf]
  split
  · rfl
  · split <;> rfl

theorem parseParams_eq_read (s : Bytes) :
    ∀ {rounds offset : Nat} {parameters : Parameters}, s.length - offset ≤ rounds →
      parseParams s rounds offset parameters =
        parameters.insertMany (Pairs.read (ascii '=') (ascii '&') (s.drop offset)) := by
  intro rounds
  induction rounds with
  | zero =>
    intro offset parameters h
    rw [parseParams_end (by omega), List.drop_eq_nil_of_le (by omega), Pairs.read_nil,
      Std.ExtTreeMap.insertMany_nil]
  | succ rounds ih =>
    intro offset parameters h
    by_cases hlt : offset < s.length
    · have hne : s.drop offset ≠ [] := by
        rw [Ne, List.drop_eq_nil_iff]
        omega
      have hrounds : ∀ n m, s.length - (if offset + n + 1 < s.length then offset + n + 1 + m + 1
          else offset + n + 1) ≤ rounds := by
        intro n m
        split <;> omega
      rw [parseParams, if_pos hlt]
      simp only [value_eq]
      rw [ih (hrounds _ _), drop_offset, ← insertMany_pairOf, ← Std.ExtTreeMap.insertMany_append,
        Pairs.read_ne_nil hne, getStringBefore]
      simp only [List.drop_drop, Nat.add_assoc]
    · rw [parseParams_end (by omega), List.drop_eq_nil_of_le (by omega), Pairs.read_nil,
        Std.ExtTreeMap.insertMany_nil]

theorem foldl_onUrl (pieces : List Bytes) (p : HttpParser) :
    pieces.foldl onUrl p = { p with urlAndParams := p.urlAndParams ++ pieces.flatten } := by
  induction pieces generalizing p with
  | nil => simp
  | cons data pieces ih =>
    have hdata : p.onUrl data = { p with urlAndParams := p.urlAndParams ++ data } := by
      cases data with
      | nil => simp [onUrl]
      | cons b data => rfl
    rw [List.foldl_cons, ih, hdata, List.flatten_cons, List.append_assoc]

/-- What is read where the decoded target has a question mark. -/
theorem parseUrlAndParam_query {p : HttpParser} {path q : Bytes}
    (h : urlDecode p.urlAndParams = path ++ ascii '?' :: q) (hmark : ascii '?' ∉ path) :
    p.parseUrlAndParam.url = path ∧
      p.parseUrlAndParam.parameters =
        p.parameters.insertMany (Pairs.read (ascii '=') (ascii '&') q) := by
  have hkey : getStringBefore (ascii '?') (path ++ ascii '?' :: q) 0 = path :=
    Pairs.takeWhile_ne_append hmark q
  have hdrop : (path ++ ascii '?' :: q).drop (path.length + 1) = q := by simp
  simp only [parseUrlAndParam, h, hkey]
  rw [parseParams_eq_read _ (by omega), hdrop]
  exact ⟨trivial, rfl⟩

theorem parseUrlAndParam_url {p : HttpParser} (hmark : ascii '?' ∉ urlDecode p.urlAndParams) :
    p.parseUrlAndParam.url = urlDecode p.urlAndParams ∧
      p.parseUrlAndParam.parameters = p.parameters := by
  have hkey : getStringBefore (ascii '?') (urlDecode p.urlAndParams) 0 =
      urlDecode p.urlAndParams := Pairs.takeWhile_ne_self hmark
  simp only [parseUrlAndParam, hkey]
  rw [parseParams_end (by omega)]
  exact ⟨trivial, rfl⟩

/-- An `HttpParser` that is given the target in pieces, at the end of the message. -/
def readTarget (pieces : List Bytes) : HttpParser := (pieces.foldl onUrl {}).parseUrlAndParam

end HttpParser

/-! ## The target -/

/-- The text of the parameters behind the question mark, as `GetRequestString` writes it. -/
abbrev query (ps : List (Bytes × Bytes)) : Bytes :=
  Pairs.written (ascii '=') (ascii '&') ps

theorem parameterString_eq (ps : List (Bytes × Bytes)) :
    HttpEncoder.parameterString ps =
      if ps = [] then [] else ascii '?' :: query ps := by
  cases ps with
  | nil => rfl
  | cons p ps =>
    have hq : bytesOf "?" = [ascii '?'] := by decide
    have ha : bytesOf "&" = [ascii '&'] := by decide
    have he : bytesOf "=" = [ascii '='] := by decide
    have htail : (ps.mapIdx fun _ h => ascii '&' :: (h.1 ++ ascii '=' :: h.2)) =
        ps.map fun h => ascii '&' :: (h.1 ++ ascii '=' :: h.2) := by
      apply List.ext_getElem
      · simp
      · intros
        simp
    rw [HttpEncoder.parameterString, List.mapIdx_cons, if_neg (List.cons_ne_nil p ps),
      List.flatten_cons]
    simp [Pairs.written, Pairs.text, hq, ha, he, htail, List.flatMap_def]

theorem readTarget_requestTarget {e : HttpEncoder} (hmark : ascii '?' ∉ e.url)
    (hpercent : ascii '%' ∉ e.url) (hplus : ascii '+' ∉ e.url) {pieces : List Bytes}
    (hpieces : pieces.flatten = e.requestTarget) :
    (HttpParser.readTarget pieces).url = e.url ∧
      (HttpParser.readTarget pieces).parameters =
        (∅ : Parameters).insertMany
          (Pairs.read (ascii '=') (ascii '&') (urlDecode (query e.parameters.toList))) := by
  have htarget : (pieces.foldl HttpParser.onUrl {}).urlAndParams = e.requestTarget := by
    rw [HttpParser.foldl_onUrl, hpieces]
    rfl
  have hempty : (pieces.foldl HttpParser.onUrl {}).parameters = ∅ := by
    rw [HttpParser.foldl_onUrl]
  have hdecode : urlDecode e.requestTarget =
      e.url ++ urlDecode (HttpEncoder.parameterString e.parameters.toList) :=
    urlDecode_append hpercent hplus _
  rw [parameterString_eq] at hdecode
  by_cases hps : e.parameters.toList = []
  · rw [if_pos hps, show urlDecode [] = [] from rfl, List.append_nil] at hdecode
    obtain ⟨hurl, hparams⟩ := HttpParser.parseUrlAndParam_url
      (p := pieces.foldl HttpParser.onUrl {}) (by rw [htarget, hdecode]; exact hmark)
    refine ⟨by rw [HttpParser.readTarget, hurl, htarget, hdecode], ?_⟩
    have hquery : urlDecode (query []) = [] := rfl
    rw [HttpParser.readTarget, hparams, hempty, hps, hquery, Pairs.read_nil,
      Std.ExtTreeMap.insertMany_nil]
  · have hquery : urlDecode (ascii '?' :: query e.parameters.toList) =
        ascii '?' :: urlDecode (query e.parameters.toList) :=
      urlDecode_append (s := [ascii '?']) (by decide) (by decide) _
    rw [if_neg hps, hquery] at hdecode
    obtain ⟨hurl, hparams⟩ := HttpParser.parseUrlAndParam_query
      (p := pieces.foldl HttpParser.onUrl {}) (by rw [htarget, hdecode]) hmark
    rw [hempty] at hparams
    exact ⟨hurl, hparams⟩

/-! ## Maps -/

theorem mem_of_getElem?_insertMany {ps : List (Bytes × Bytes)} {key value : Bytes}
    (h : ((∅ : Parameters).insertMany ps)[key]? = some value) : (key, value) ∈ ps := by
  rw [Std.ExtTreeMap.getElem?_insertMany_list, Std.ExtTreeMap.getElem?_empty, Option.or_none,
    List.findSomeRev?_eq_findSome?_reverse] at h
  obtain ⟨⟨k, v⟩, hp, hvalue⟩ := List.exists_of_findSome?_eq_some h
  dsimp only at hvalue
  by_cases hcmp : compare k key = .eq
  · rw [if_pos hcmp, Option.some_inj] at hvalue
    rw [← Std.LawfulEqCmp.eq_of_compare hcmp, ← hvalue]
    exact List.mem_reverse.mp hp
  · rw [if_neg hcmp] at hvalue
    exact absurd hvalue (by simp)

theorem exists_of_mem_insertMany {ps : List (Bytes × Bytes)} {key : Bytes}
    (h : key ∈ (∅ : Parameters).insertMany ps) : ∃ value, (key, value) ∈ ps := by
  obtain ⟨value, hvalue⟩ := Option.isSome_iff_exists.mp
    (Std.ExtTreeMap.mem_iff_isSome_getElem?.mp h)
  exact ⟨value, mem_of_getElem?_insertMany hvalue⟩

theorem insertMany_toList (m : Parameters) : (∅ : Parameters).insertMany m.toList = m := by
  apply Std.ExtTreeMap.ext_getElem?
  intro key
  apply Option.ext
  intro value
  constructor
  · intro h
    exact Std.ExtTreeMap.mem_toList_iff_getElem?_eq_some.mp (mem_of_getElem?_insertMany h)
  · intro h
    exact Std.ExtTreeMap.getElem?_insertMany_list_of_mem Std.ReflCmp.compare_self
      Std.ExtTreeMap.distinct_keys_toList (Std.ExtTreeMap.mem_toList_iff_getElem?_eq_some.mpr h)

theorem nodup_toList (m : Parameters) : m.toList.Nodup := by
  refine (Std.ExtTreeMap.distinct_keys_toList (t := m)).imp fun {p q} hcmp heq => hcmp ?_
  rw [heq]
  exact Std.ReflCmp.compare_self

/-! ## Which parameters are read as they were set -/

/-- The parameter has nothing in it that the reader takes for an escape or for a delimiter. -/
def PlainParameter (key value : Bytes) : Prop :=
  ascii '%' ∉ key ++ value ∧ ascii '+' ∉ key ++ value ∧ ascii '&' ∉ value ∧
    (ascii '=' ∉ key ∨ (∀ b ∈ key, b = ascii '=') ∧ value = [])

theorem plainParameter_iff {key value : Bytes} :
    PlainParameter key value ↔ (ascii '%' ∉ key ++ value ∧ ascii '+' ∉ key ++ value) ∧
      Pairs.Faithful (ascii '=') (ascii '&') (key, value) := by
  rw [PlainParameter, Pairs.Faithful, and_assoc]

section Read

variable {ps : List (Bytes × Bytes)}

theorem notMem_query {b : UInt8} (heq : b ≠ ascii '=') (hamp : b ≠ ascii '&')
    (h : ∀ p ∈ ps, b ∉ p.1 ++ p.2) : b ∉ query ps := by
  intro hmem
  rcases Pairs.mem_written hmem with hb | hb | ⟨p, hp, hb⟩
  · exact heq hb
  · exact hamp hb
  · exact h p hp (List.mem_append.mpr hb)

theorem percent_notMem_of_read (hnd : ps.Nodup)
    (hsub : ∀ p ∈ ps, p ∈ Pairs.read (ascii '=') (ascii '&') (urlDecode (query ps))) :
    ∀ p ∈ ps, ascii '%' ∉ p.1 ++ p.2 := by
  intro p hp hmem
  have hdecoded : ascii '%' ∈ urlDecode (query ps) :=
    Pairs.mem_of_mem_read (hsub p hp) (List.mem_append.mp hmem)
  have hlen := length_urlDecode_of_percent hdecoded
  have hwritten : (ps.map Pairs.weight).sum = (query ps).length + 1 :=
    Pairs.sum_weight_written (List.ne_nil_of_mem hp)
  have hread := Pairs.sum_weight_le_of_subset hnd hsub
  omega

theorem plain_of_read (hnd : ps.Nodup) (hkeys : ∀ p ∈ ps, p.1 ≠ [])
    (hsub : ∀ p ∈ ps, p ∈ Pairs.read (ascii '=') (ascii '&') (urlDecode (query ps))) :
    ∀ p ∈ ps, PlainParameter p.1 p.2 := by
  have hpercent := percent_notMem_of_read hnd hsub
  have hquery : ascii '%' ∉ query ps := notMem_query (by decide) (by decide) hpercent
  have hplus : ∀ p ∈ ps, ascii '+' ∉ p.1 ++ p.2 := by
    intro p hp hmem
    exact plus_notMem_urlDecode hquery
      (Pairs.mem_of_mem_read (hsub p hp) (List.mem_append.mp hmem))
  rw [urlDecode_plain hquery (notMem_query (by decide) (by decide) hplus)] at hsub
  intro p hp
  rw [plainParameter_iff]
  exact ⟨⟨hpercent p hp, hplus p hp⟩, Pairs.faithful_of_subset (by decide) hkeys hsub hp⟩

theorem read_of_plain (hkeys : ∀ p ∈ ps, p.1 ≠ []) (h : ∀ p ∈ ps, PlainParameter p.1 p.2) :
    Pairs.read (ascii '=') (ascii '&') (urlDecode (query ps)) = ps := by
  rw [urlDecode_plain (notMem_query (by decide) (by decide) fun p hp => (h p hp).1)
    (notMem_query (by decide) (by decide) fun p hp => (h p hp).2.1)]
  exact Pairs.read_written_self (by decide) hkeys fun p hp => (plainParameter_iff.mp (h p hp)).2

end Read

/-- The target is read as the url and the parameters that were set if and only if every parameter is
plain. -/
theorem requestTarget_read_iff (e : HttpEncoder) (hmark : ascii '?' ∉ e.url)
    (hpercent : ascii '%' ∉ e.url) (hplus : ascii '+' ∉ e.url)
    (hkeys : ∀ key ∈ e.parameters, key ≠ []) (target : Bytes)
    (htarget : e.getRequestString = e.method ++ bytesOf " " ++ target ++ bytesOf " HTTP/1.1" ++
      HttpEncoder.crlf ++ e.appendToStream)
    (pieces : List Bytes) (hpieces : pieces.flatten = target) :
    ((HttpParser.readTarget pieces).url = e.url ∧
      (HttpParser.readTarget pieces).parameters = e.parameters) ↔
    ∀ key value, e.parameters[key]? = some value → PlainParameter key value := by
  have htarget : target = e.requestTarget := by
    simpa [HttpEncoder.getRequestString] using htarget.symm
  subst htarget
  obtain ⟨hurl, hparams⟩ := readTarget_requestTarget hmark hpercent hplus hpieces
  have hkeys : ∀ p ∈ e.parameters.toList, p.1 ≠ [] := by
    intro p hp
    apply hkeys
    rw [Std.ExtTreeMap.mem_iff_isSome_getElem?,
      Std.ExtTreeMap.mem_toList_iff_getElem?_eq_some.mp hp]
    rfl
  rw [hurl, hparams]
  constructor
  · rintro ⟨-, hmap⟩ key value hvalue
    refine plain_of_read (nodup_toList e.parameters) hkeys ?_ (key, value)
      (Std.ExtTreeMap.mem_toList_iff_getElem?_eq_some.mpr hvalue)
    intro p hp
    apply mem_of_getElem?_insertMany
    rw [hmap]
    exact Std.ExtTreeMap.mem_toList_iff_getElem?_eq_some.mp hp
  · intro h
    refine ⟨rfl, ?_⟩
    rw [read_of_plain hkeys fun p hp => h p.1 p.2
      (Std.ExtTreeMap.mem_toList_iff_getElem?_eq_some.mp hp), insertMany_toList]

/-- The request of `example/http_server/HttpClient.cpp`. -/
theorem requestTarget_read_client :
    let e := (({ closeConnection := false, method := bytesOf "POST", url := bytesOf "/" } :
      HttpEncoder).addParameter (bytesOf "p1") (bytesOf "v1")).addParameter
        (bytesOf "p2") (bytesOf "v2")
    let pieces := [bytesOf "/?p1=v", bytesOf "1&p2=v2"]
    (HttpParser.readTarget pieces).url = e.url ∧
      (HttpParser.readTarget pieces).parameters = e.parameters := by
  intro e pieces
  have hset : e.parameters = (∅ : Parameters).insertMany
      [(bytesOf "p1", bytesOf "v1"), (bytesOf "p2", bytesOf "v2")] := rfl
  refine (requestTarget_read_iff e (by decide) (by decide) (by decide) ?_ e.requestTarget rfl pieces
    (by decide +kernel)).mpr ?_
  · intro key hkey
    rw [hset] at hkey
    obtain ⟨value, _ | ⟨_, _ | ⟨_, h⟩⟩⟩ := exists_of_mem_insertMany hkey
    · decide
    · decide
    · cases h
  · intro key value hvalue
    rw [hset] at hvalue
    obtain _ | ⟨_, _ | ⟨_, h⟩⟩ := mem_of_getElem?_insertMany hvalue
    · exact ⟨by decide, by decide, by decide, .inl (by decide)⟩
    · exact ⟨by decide, by decide, by decide, .inl (by decide)⟩
    · cases h

/-- A value with `&` in it is cut there. -/
theorem requestTarget_misread :
    let e := ({ closeConnection := false, method := bytesOf "GET", url := bytesOf "/search" } :
      HttpEncoder).addParameter (bytesOf "q") (bytesOf "a&b=c")
    let pieces := [bytesOf "/search?q=a&b=c"]
    e.getRequestString = e.method ++ bytesOf " " ++ pieces.flatten ++ bytesOf " HTTP/1.1" ++
      HttpEncoder.crlf ++ e.appendToStream ∧
    (∀ key ∈ e.parameters, key ≠ []) ∧
    e.parameters[bytesOf "q"]? = some (bytesOf "a&b=c") ∧
    (HttpParser.readTarget pieces).parameters[bytesOf "q"]? = some (bytesOf "a") ∧
    ¬ ((HttpParser.readTarget pieces).url = e.url ∧
      (HttpParser.readTarget pieces).parameters = e.parameters) := by
  intro e pieces
  have hset : e.parameters[bytesOf "q"]? = some (bytesOf "a&b=c") :=
    Std.ExtTreeMap.getElem?_insert_self
  have hread : (HttpParser.readTarget pieces).parameters[bytesOf "q"]? = some (bytesOf "a") := by
    decide +kernel
  refine ⟨by decide +kernel, ?_, hset, hread, ?_⟩
  · intro key hkey
    have hkey : key ∈ (∅ : Parameters).insertMany [(bytesOf "q", bytesOf "a&b=c")] := hkey
    obtain ⟨value, hmem⟩ := exists_of_mem_insertMany hkey
    cases List.mem_singleton.mp hmem
    decide
  · rintro ⟨-, hmap⟩
    rw [hmap, hset] at hread
    revert hread
    decide

end Http
end CoSocket
