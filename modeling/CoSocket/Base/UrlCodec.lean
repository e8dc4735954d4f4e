import CoSocket.Base.Codec

/-!
# Base.UrlCodec

`UrlEncode` of `base/UrlCodec.cpp`, and that `UrlDecode` takes it back. The decoder reads one byte
or three; `urlDecode_encodeByte` says that it reads what the encoder wrote for one byte, whatever
comes behind it, and so stays in step with the encoder.
-/

namespace CoSocket
namespace Base

/-! ## The decoder -/

theorem urlDecode_append {s : Bytes} (hpercent : ascii '%' ∉ s) (hplus : ascii '+' ∉ s)
    (rest : Bytes) : urlDecode (s ++ rest) = s ++ urlDecode rest := by
  induction s with
  | nil => rfl
  | cons b s ih =>
    simp only [List.mem_cons, not_or] at hpercent hplus
    rw [List.cons_append, urlDecode.eq_def]
    simp only [if_neg (Ne.symm hplus.1), if_neg (Ne.symm hpercent.1)]
    rw [ih hpercent.2 hplus.2, List.cons_append]

theorem urlDecode_plain {s : Bytes} (hpercent : ascii '%' ∉ s) (hplus : ascii '+' ∉ s) :
    urlDecode s = s := by
  have h := urlDecode_append hpercent hplus []
  simpa [urlDecode] using h

theorem length_urlDecode_le (s : Bytes) : (urlDecode s).length ≤ s.length := by
  fun_induction urlDecode s <;> grind

theorem length_urlDecode_of_percent {s : Bytes} (h : ascii '%' ∈ urlDecode s) :
    (urlDecode s).length + 2 ≤ s.length := by
  fun_induction urlDecode s with
  | case1 => exact absurd h List.not_mem_nil
  | case2 rest ih =>
    have hrest := (List.mem_cons.mp h).resolve_left (by decide)
    simp only [List.length_cons]
    exact Nat.succ_le_succ (ih hrest)
  | case3 high low rest =>
    have hrest := length_urlDecode_le rest
    simp only [List.length_cons]
    omega
  | case4 _ rest _ ih =>
    have hrest := ih h
    simp only [List.length_cons]
    omega
  | case5 b rest _ hb ih =>
    have hrest := (List.mem_cons.mp h).resolve_left (Ne.symm hb)
    simp only [List.length_cons]
    exact Nat.succ_le_succ (ih hrest)

theorem plus_notMem_urlDecode {s : Bytes} (h : ascii '%' ∉ s) : ascii '+' ∉ urlDecode s := by
  induction s with
  | nil => exact List.not_mem_nil
  | cons b s ih =>
    simp only [List.mem_cons, not_or] at h
    rw [urlDecode.eq_def]
    simp only [if_neg (Ne.symm h.1)]
    by_cases hb : b = ascii '+'
    · rw [if_pos hb, List.mem_cons, not_or]
      exact ⟨by decide, ih h.2⟩
    · rw [if_neg hb, List.mem_cons, not_or]
      exact ⟨Ne.symm hb, ih h.2⟩

/-! ## The encoder -/

def toHex (x : UInt8) : UInt8 := if x > 9 then x + 55 else x + 48

/-- `isalnum` in the C locale. -/
def isAlnum (b : UInt8) : Bool :=
  (ascii '0' ≤ b && b ≤ ascii '9') || (ascii 'A' ≤ b && b ≤ ascii 'Z') ||
    (ascii 'a' ≤ b && b ≤ ascii 'z')

/-- The bytes that stand for themselves. -/
def isUnreserved (b : UInt8) : Bool :=
  isAlnum b || b = ascii '-' || b = ascii '_' || b = ascii '.' || b = ascii '~'

/-- One round of `UrlEncode`. -/
def urlEncodeByte (b : UInt8) : Bytes :=
  if isUnreserved b then [b]
  else if b = ascii ' ' then [ascii '+']
  else [ascii '%', toHex (b >>> 4), toHex (b % 16)]

def urlEncode (str : Bytes) : Bytes := str.flatMap urlEncodeByte

@[simp] theorem urlEncode_nil : urlEncode [] = [] := rfl

theorem urlEncode_cons (b : UInt8) (str : Bytes) :
    urlEncode (b :: str) = urlEncodeByte b ++ urlEncode str := rfl

/-! ## One byte -/

theorem fromHex_toHex : ∀ x : UInt8, x < 16 → fromHex (toHex x) = x := by decide +kernel

theorem shift_mul_add_mod (b : UInt8) :
    b >>> 4 < 16 ∧ b % 16 < 16 ∧ (b >>> 4) * 16 + b % 16 = b := by
  revert b
  decide +kernel

theorem isAlnum_toHex : ∀ x : UInt8, x < 16 → isAlnum (toHex x) = true := by decide +kernel

theorem ne_of_isUnreserved {b : UInt8} (h : isUnreserved b = true) :
    b ≠ ascii '+' ∧ b ≠ ascii '%' := by
  constructor
  · rintro rfl
    revert h
    decide
  · rintro rfl
    revert h
    decide

theorem urlDecode_encodeByte (b : UInt8) (rest : Bytes) :
    urlDecode (urlEncodeByte b ++ rest) = b :: urlDecode rest := by
  unfold urlEncodeByte
  split
  · rename_i hb
    obtain ⟨hplus, hpercent⟩ := ne_of_isUnreserved hb
    rw [urlDecode_append (by simpa using hpercent.symm) (by simpa using hplus.symm)]
    rfl
  · split
    · rename_i hb
      rw [hb, List.singleton_append, urlDecode.eq_def]
      rfl
    · obtain ⟨hhigh, hlow, hb⟩ := shift_mul_add_mod b
      have hpercent : ascii '%' ≠ ascii '+' := by decide
      simp only [List.cons_append, List.nil_append, urlDecode, hpercent, if_false, if_true,
        fromHex_toHex _ hhigh, fromHex_toHex _ hlow, hb]

/-- The characters of an encoded text. -/
def isEncodedChar (b : UInt8) : Bool := isUnreserved b || b = ascii '+' || b = ascii '%'

theorem isEncodedChar_of_isAlnum {b : UInt8} (h : isAlnum b = true) : isEncodedChar b = true := by
  simp [isEncodedChar, isUnreserved, h]

theorem isEncodedChar_encodeByte {b c : UInt8} (h : c ∈ urlEncodeByte b) :
    isEncodedChar c = true := by
  unfold urlEncodeByte at h
  split at h
  · rename_i hb
    cases List.mem_singleton.mp h
    simp [isEncodedChar, hb]
  · split at h
    · cases List.mem_singleton.mp h
      rfl
    · obtain ⟨hhigh, hlow, -⟩ := shift_mul_add_mod b
      simp only [List.mem_cons, List.not_mem_nil, or_false] at h
      rcases h with rfl | rfl | rfl
      · rfl
      · exact isEncodedChar_of_isAlnum (isAlnum_toHex _ hhigh)
      · exact isEncodedChar_of_isAlnum (isAlnum_toHex _ hlow)

/-! ## The round trip -/

theorem urlDecode_encode_append (str rest : Bytes) :
    urlDecode (urlEncode str ++ rest) = str ++ urlDecode rest := by
  induction str with
  | nil => rfl
  | cons b str ih =>
    rw [urlEncode_cons, List.append_assoc, urlDecode_encodeByte, ih, List.cons_append]

/-- **`UrlDecode` takes `UrlEncode` back**, for every byte string; and what `UrlEncode` writes are
letters, digits and `-`, `_`, `.`, `~`, `+`, `%`, none of which is a delimiter of a query. -/
theorem urlDecode_urlEncode (str : Bytes) :
    urlDecode (urlEncode str) = str ∧ (∀ b ∈ urlEncode str, isEncodedChar b = true) ∧
      ascii '?' ∉ urlEncode str ∧ ascii '&' ∉ urlEncode str ∧ ascii '=' ∉ urlEncode str := by
  have hchars : ∀ b ∈ urlEncode str, isEncodedChar b = true := by
    intro b hb
    obtain ⟨c, -, hc⟩ := List.mem_flatMap.mp hb
    exact isEncodedChar_encodeByte hc
  refine ⟨?_, hchars, fun h => ?_, fun h => ?_, fun h => ?_⟩
  · have h := urlDecode_encode_append str []
    rwa [List.append_nil, show urlDecode [] = [] from rfl, List.append_nil] at h
  · exact absurd (hchars _ h) (by decide)
  · exact absurd (hchars _ h) (by decide)
  · exact absurd (hchars _ h) (by decide)

example : urlEncode (bytesOf "a b&c=~/") = bytesOf "a+b%26c%3D~%2F" := by decide +kernel

end Base
end CoSocket
