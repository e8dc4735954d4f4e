import CoSocket.Lib.Items
import CoSocket.Http.RequestTarget

/-!
# Http.Query

What `ParseUrlAndParam` makes of an arbitrary request target, against the reference reading of one:
split at the raw delimiters first, and decode the pieces one by one.

`ParseUrlAndParam` decodes first, and looks for the end of a key before it looks for the end of an
item. `parseUrlAndParam_written` is the case where neither makes a difference, and
`readTarget_reference` says when the two readings agree.
-/

namespace CoSocket
namespace Http

open Base

/-! ## Targets without escapes -/

/-- The value of the last pair with the key. -/
def lastValue (ps : List (Bytes × Bytes)) (key : Bytes) : Option Bytes :=
  ps.reverse.findSome? fun q => if q.1 = key then some q.2 else none

theorem getElem?_insertMany_eq (ps : List (Bytes × Bytes)) (key : Bytes) :
    ((∅ : Parameters).insertMany ps)[key]? = lastValue ps key := by
  rw [Std.ExtTreeMap.getElem?_insertMany_list, Std.ExtTreeMap.getElem?_empty, Option.or_none,
    List.findSomeRev?_eq_findSome?_reverse, lastValue]
  congr 1
  funext ⟨k, v⟩
  simp only [Std.LawfulEqCmp.compare_eq_iff_eq]

/-- A target of a path and pairs, with no percent sign and no plus sign in it, no question mark in
the path, no `=` in a key and no `&` in a value, is read as the path and exactly these pairs; of a
key that comes more than once the last value counts. -/
theorem parseUrlAndParam_written {p : HttpParser} {path : Bytes} {ps : List (Bytes × Bytes)}
    (htarget : p.urlAndParams = path ++ ascii '?' :: query ps) (hempty : p.parameters = ∅)
    (hmark : ascii '?' ∉ path) (hkeys : ∀ q ∈ ps, q.1 ≠ [] ∧ ascii '=' ∉ q.1)
    (hvalues : ∀ q ∈ ps, ascii '&' ∉ q.2) (hpercent : ascii '%' ∉ p.urlAndParams)
    (hplus : ascii '+' ∉ p.urlAndParams) :
    p.parseUrlAndParam.url = path ∧
      ∀ key, p.parseUrlAndParam.parameters[key]? = lastValue ps key := by
  have hdecode : urlDecode p.urlAndParams = path ++ ascii '?' :: query ps := by
    rw [urlDecode_plain hpercent hplus, htarget]
  obtain ⟨hurl, hparams⟩ := HttpParser.parseUrlAndParam_query hdecode hmark
  refine ⟨hurl, fun key => ?_⟩
  have hread : Pairs.read (ascii '=') (ascii '&') (query ps) = ps :=
    Pairs.read_written_self (by decide) (fun q hq => (hkeys q hq).1) fun q hq =>
      ⟨hvalues q hq, .inl (hkeys q hq).2⟩
  rw [hparams, hempty, hread, getElem?_insertMany_eq]

/-- Two values for one key, one of them with `=` and `?` in it, and a value that is empty. -/
theorem parseUrlAndParam_repeated :
    let p : HttpParser := { urlAndParams := bytesOf "/a?x=1&y=&x=b=c?" }
    p.parseUrlAndParam.url = bytesOf "/a" ∧
      p.parseUrlAndParam.parameters[bytesOf "x"]? = some (bytesOf "b=c?") ∧
      p.parseUrlAndParam.parameters[bytesOf "y"]? = some [] ∧
      p.parseUrlAndParam.parameters[bytesOf "z"]? = none := by
  intro p
  have htarget : p.urlAndParams = bytesOf "/a" ++ ascii '?' :: query
      [(bytesOf "x", bytesOf "1"), (bytesOf "y", []), (bytesOf "x", bytesOf "b=c?")] := by
    decide +kernel
  obtain ⟨hurl, hparams⟩ := parseUrlAndParam_written htarget rfl (by decide) (by decide)
    (by decide) (by decide) (by decide)
  refine ⟨hurl, ?_, ?_, ?_⟩
  · rw [hparams]
    decide
  · rw [hparams]
    decide
  · rw [hparams]
    decide

/-! ## The reference reading -/

namespace Reference

/-- The raw text before the first question mark. -/
def path (target : Bytes) : Bytes := target.takeWhile (· ≠ ascii '?')

/-- The raw texts between the `&` behind it. -/
def items (target : Bytes) : List Bytes :=
  if ascii '?' ∈ target then (target.drop ((path target).length + 1)).splitOn (ascii '&') else []

/-- The raw key and value of an item; the value is missing when there is no `=`. -/
def splitItem (item : Bytes) : Bytes × Option Bytes :=
  let key := item.takeWhile (· ≠ ascii '=')
  if ascii '=' ∈ item then (key, some (item.drop (key.length + 1))) else (item, none)

/-- The items of the target, each part decoded by itself. -/
def decodedItems (target : Bytes) : List (Bytes × Option Bytes) :=
  (items target).map fun item =>
    (urlDecode (splitItem item).1, (splitItem item).2.map urlDecode)

def url (target : Bytes) : Bytes := urlDecode (path target)

def parameters (target : Bytes) : Parameters :=
  (∅ : Parameters).insertMany (((decodedItems target).map Pairs.itemPair).filter (·.1 ≠ []))

end Reference

/-- `UrlDecode` of the target is made up of `UrlDecode` of its pieces: no escape reaches over a
delimiter. -/
def Piecewise (target : Bytes) : Prop :=
  urlDecode target = Reference.url target ++
    if ascii '?' ∈ target then
      ascii '?' :: Pairs.joined (ascii '=') (ascii '&') (Reference.decodedItems target)
    else []

/-- Nothing in the target is taken for a delimiter that is none, and no delimiter is missed: no
escape reaches over one; none stands for a question mark in the path, for `&` in a value or for `=`
in a key; every item but the last has an `=`; and an item with an empty key has an empty value. -/
structure Separable (target : Bytes) : Prop where
  piecewise : Piecewise target
  path : ascii '?' ∉ Reference.url target
  items : Pairs.Distinct (ascii '=') (ascii '&') (Reference.decodedItems target)
  empty : ∀ i ∈ Reference.decodedItems target, i.1 = [] → i.2.getD [] = []

/-- `ParseUrlAndParam` of a target that has come in pieces agrees with the reference reading. -/
def ReadsAsReference (pieces : List Bytes) : Prop :=
  (HttpParser.readTarget pieces).url = Reference.url pieces.flatten ∧
    (HttpParser.readTarget pieces).parameters = Reference.parameters pieces.flatten

/-- No key is empty, and none comes twice. -/
def KeysOnce (target : Bytes) : Prop :=
  (∀ i ∈ Reference.decodedItems target, i.1 ≠ []) ∧
    ((Reference.decodedItems target).map Prod.fst).Nodup

namespace HttpParser

theorem readTarget_eq (pieces : List Bytes) :
    readTarget pieces = ({ urlAndParams := pieces.flatten } : HttpParser).parseUrlAndParam := by
  rw [readTarget, foldl_onUrl]
  rfl

theorem readTarget_query {pieces : List Bytes} {path q : Bytes}
    (h : urlDecode pieces.flatten = path ++ ascii '?' :: q) (hmark : ascii '?' ∉ path) :
    (readTarget pieces).url = path ∧
      (readTarget pieces).parameters =
        (∅ : Parameters).insertMany (Pairs.read (ascii '=') (ascii '&') q) := by
  rw [readTarget_eq]
  exact parseUrlAndParam_query h hmark

theorem readTarget_url {pieces : List Bytes} (hmark : ascii '?' ∉ urlDecode pieces.flatten) :
    (readTarget pieces).url = urlDecode pieces.flatten ∧ (readTarget pieces).parameters = ∅ := by
  rw [readTarget_eq]
  exact parseUrlAndParam_url hmark

theorem mark_notMem_url (pieces : List Bytes) : ascii '?' ∉ (readTarget pieces).url := by
  rw [readTarget_eq]
  exact Pairs.notMem_takeWhile_ne _ _

end HttpParser

theorem Reference.decodedItems_nil {target : Bytes} (h : ascii '?' ∉ target) :
    decodedItems target = [] := by
  rw [decodedItems, items, if_neg h]
  rfl

theorem flatMap_pairOf {is : List (Bytes × Option Bytes)}
    (h : ∀ i ∈ is, i.1 = [] → i.2.getD [] = []) :
    (is.flatMap fun i => Pairs.pairOf i.1 (i.2.getD [])) =
      (is.map Pairs.itemPair).filter (·.1 ≠ []) := by
  induction is with
  | nil => rfl
  | cons i is ih =>
    rw [List.flatMap_cons, List.map_cons, ih fun j hj => h j (List.mem_cons_of_mem _ hj)]
    by_cases hi : i.1 = []
    · rw [List.filter_cons_of_neg (by simp [Pairs.itemPair, hi]), hi, h i List.mem_cons_self hi]
      rfl
    · rw [List.filter_cons_of_pos (by simp [Pairs.itemPair, hi]), Pairs.pairOf_key hi]
      rfl

theorem readsAsReference_of_separable {pieces : List Bytes} (h : Separable pieces.flatten) :
    ReadsAsReference pieces := by
  have hdecode := h.piecewise
  rw [Piecewise] at hdecode
  by_cases hmark : ascii '?' ∈ pieces.flatten
  · rw [if_pos hmark] at hdecode
    obtain ⟨hurl, hparams⟩ := HttpParser.readTarget_query hdecode h.path
    refine ⟨hurl, ?_⟩
    rw [hparams, Pairs.read_joined (by decide) h.items h.empty, flatMap_pairOf h.empty]
    rfl
  · rw [if_neg hmark, List.append_nil] at hdecode
    obtain ⟨hurl, hparams⟩ := HttpParser.readTarget_url (by rw [hdecode]; exact h.path)
    refine ⟨hurl.trans hdecode, ?_⟩
    rw [hparams, Reference.parameters, Reference.decodedItems_nil hmark]
    rfl

theorem Reference.getElem?_parameters {target : Bytes} (h : KeysOnce target)
    {q : Bytes × Bytes} (hq : q ∈ (decodedItems target).map Pairs.itemPair) :
    (parameters target)[q.1]? = some q.2 := by
  have hall : ((decodedItems target).map Pairs.itemPair).filter (·.1 ≠ []) =
      (decodedItems target).map Pairs.itemPair := by
    rw [List.filter_eq_self]
    intro r hr
    obtain ⟨i, hi, rfl⟩ := List.mem_map.mp hr
    exact decide_eq_true (h.1 i hi)
  have hkeys : ((decodedItems target).map Pairs.itemPair).Pairwise
      fun a b => ¬ compare a.1 b.1 = .eq := by
    rw [List.pairwise_map]
    refine (List.pairwise_map.mp h.2).imp fun {i j} hne hcmp => hne ?_
    exact Std.LawfulEqCmp.eq_of_compare hcmp
  rw [parameters, hall]
  exact Std.ExtTreeMap.getElem?_insertMany_list_of_mem Std.ReflCmp.compare_self hkeys hq

theorem separable_of_readsAsReference {pieces : List Bytes} (hpiecewise : Piecewise pieces.flatten)
    (hkeys : KeysOnce pieces.flatten) (h : ReadsAsReference pieces) :
    Separable pieces.flatten := by
  have hpath : ascii '?' ∉ Reference.url pieces.flatten := by
    rw [← h.1]
    exact HttpParser.mark_notMem_url pieces
  refine ⟨hpiecewise, hpath, ?_, fun i hi hnil => absurd hnil (hkeys.1 i hi)⟩
  by_cases hmark : ascii '?' ∈ pieces.flatten
  · rw [Piecewise, if_pos hmark] at hpiecewise
    obtain ⟨-, hparams⟩ := HttpParser.readTarget_query hpiecewise hpath
    refine Pairs.distinct_of_subset (by decide) hkeys.1 ?_ ?_
    · refine List.Nodup.of_map Prod.fst ?_
      rw [List.map_map]
      exact hkeys.2
    · -- whatever the reference puts into the map has been read
      intro q hq
      apply mem_of_getElem?_insertMany
      rw [← hparams, h.2]
      exact Reference.getElem?_parameters hkeys hq
  · rw [Reference.decodedItems_nil hmark]
    exact ⟨by simp, by simp, by simp⟩

/-- **The reference reading of a query.** A separable target is read as the reference reads it. When
no escape reaches over a delimiter, no key is empty and none comes twice, so that no assignment of
the loop is hidden by a later one, no other target is. -/
theorem readTarget_reference (pieces : List Bytes) :
    (Separable pieces.flatten → ReadsAsReference pieces) ∧
      (Piecewise pieces.flatten → KeysOnce pieces.flatten →
        (ReadsAsReference pieces ↔ Separable pieces.flatten)) :=
  ⟨readsAsReference_of_separable, fun hpiecewise hkeys =>
    ⟨separable_of_readsAsReference hpiecewise hkeys, readsAsReference_of_separable⟩⟩

/-- Escapes in the path and in two values, the first of them cut in two. -/
def escapedItems : List Bytes := [bytesOf "/s%20x?q=a%2", bytesOf "0b&c=%41"]

theorem separable_escapedItems : Separable escapedItems.flatten := by
  have hitems : Reference.decodedItems escapedItems.flatten =
      [(bytesOf "q", some (bytesOf "a b")), (bytesOf "c", some (bytesOf "A"))] := by
    decide +kernel
  refine ⟨?_, by decide +kernel, ⟨by decide +kernel, ?_, by decide +kernel⟩, by decide +kernel⟩
  · unfold Piecewise
    decide +kernel
  · rw [hitems]
    intro i hi value hvalue
    simp only [List.mem_cons, List.not_mem_nil, or_false] at hi
    rcases hi with rfl | rfl
    · cases hvalue
      exact ⟨by decide, .inl (by decide)⟩
    · cases hvalue
      exact ⟨by decide, .inl (by decide)⟩

/-- Both parts for it: it is read as the reference reads it, as it should be. -/
theorem readTarget_reference_items :
    ReadsAsReference escapedItems ∧
      (HttpParser.readTarget escapedItems).url = bytesOf "/s x" ∧
      (HttpParser.readTarget escapedItems).parameters =
        (∅ : Parameters).insertMany [(bytesOf "q", bytesOf "a b"), (bytesOf "c", bytesOf "A")] ∧
      (ReadsAsReference escapedItems ↔ Separable escapedItems.flatten) := by
  obtain ⟨hread, hiff⟩ := readTarget_reference escapedItems
  have hpiecewise := separable_escapedItems.piecewise
  have hkeys : KeysOnce escapedItems.flatten := by
    unfold KeysOnce
    decide +kernel
  have hparams : Reference.parameters escapedItems.flatten =
      (∅ : Parameters).insertMany [(bytesOf "q", bytesOf "a b"), (bytesOf "c", bytesOf "A")] := by
    decide +kernel
  refine ⟨hread separable_escapedItems, ?_, ?_, hiff hpiecewise hkeys⟩
  · rw [(hread separable_escapedItems).1]
    decide +kernel
  · rw [(hread separable_escapedItems).2, hparams]

/-- An escaped `&` in a value ends the value. -/
theorem readTarget_escaped :
    Reference.parameters (bytesOf "/s?q=a%26b=c") =
      (∅ : Parameters).insert (bytesOf "q") (bytesOf "a&b=c") ∧
    (HttpParser.readTarget [bytesOf "/s?q=a%26b=c"]).parameters[bytesOf "q"]? =
      some (bytesOf "a") ∧
    ¬ ReadsAsReference [bytesOf "/s?q=a%26b=c"] := by
  have href : Reference.parameters (bytesOf "/s?q=a%26b=c") =
      (∅ : Parameters).insert (bytesOf "q") (bytesOf "a&b=c") := by
    decide +kernel
  have hread : (HttpParser.readTarget [bytesOf "/s?q=a%26b=c"]).parameters[bytesOf "q"]? =
      some (bytesOf "a") := by
    decide +kernel
  refine ⟨href, hread, fun h => ?_⟩
  have hparams : (HttpParser.readTarget [bytesOf "/s?q=a%26b=c"]).parameters =
      Reference.parameters (bytesOf "/s?q=a%26b=c") := h.2
  rw [hparams, href, Std.ExtTreeMap.getElem?_insert_self] at hread
  revert hread
  decide

-- The same value, hidden by later ones: the readings agree although the target is not separable.
example : (HttpParser.readTarget [bytesOf "/?a=%26b=1&a=2&b=1"]).parameters =
    Reference.parameters (bytesOf "/?a=%26b=1&a=2&b=1") := by decide +kernel

end Http
end CoSocket
