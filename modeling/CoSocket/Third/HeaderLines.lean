import CoSocket.Third.Single
import CoSocket.Http.HttpEncoder

/-!
# Third.HeaderLines

What `AppendToStream` writes, read by `3rd/http-parser/http_parser.c`: the two lines that are always
there, the headers that were set, the end of the header and the body. The parser is followed through
them from behind the first line of a message, which may be that of a request or of a response
(`reads_message`).

Names that the parser looks for, and values that begin with a blank or hold an end of a line, are
left out (`Ordinary`): they may be read as something else, or not at all.
-/

namespace CoSocket
namespace Third

open Base Pieces

/-! ## Header lines -/

/-- The name up to here is spelled like the word, which is being compared with it. -/
def Partly (p : Parser) (word w : Bytes) : Prop := p.index + 1 = w.length ∧ w <+: word

/-- What the header state says about the name read so far, in lower case. -/
def Spelled (p : Parser) (w : Bytes) : Prop :=
  match p.headerState with
  | .general => True
  | .C => p.index = 0 ∧ w = bytesOf "c"
  | .CO => p.index = 1 ∧ w = bytesOf "co"
  | .CON => p.index = 2 ∧ w = bytesOf "con"
  | .matchingConnection => Partly p CONNECTION w
  | .matchingProxyConnection => Partly p PROXY_CONNECTION w
  | .matchingContentLength => Partly p CONTENT_LENGTH w
  | .matchingTransferEncoding => Partly p TRANSFER_ENCODING w
  | .matchingUpgrade => Partly p UPGRADE w
  | .connection => w = CONNECTION ∨ w = PROXY_CONNECTION
  | .transferEncoding => w = TRANSFER_ENCODING
  | .upgrade => w = UPGRADE
  | _ => False

def Parser.setHeader (p : Parser) (i : Nat) (h : HeaderStates) : Parser :=
  { p with index := i, headerState := h }

theorem matchWord_spelled {p : Parser} {word w : Bytes} (h : Partly p word w)
    (hword : word.length < 128) {c : UInt8} (hc : c ≠ 0) (now found lost : HeaderStates) :
    matchWord word (nextIndex p) c now found lost = lost ∨
      (matchWord word (nextIndex p) c now found lost = found ∧ w ++ [c] = word) ∨
      (matchWord word (nextIndex p) c now found lost = now ∧
        nextIndex p + 1 = (w ++ [c]).length ∧ w ++ [c] <+: word) := by
  obtain ⟨hindex, t, rfl⟩ := h
  have hi : nextIndex p = w.length := by
    rw [nextIndex, hindex]
    rw [List.length_append] at hword
    exact Nat.mod_eq_of_lt (by omega)
  have hat : charAt (w ++ t) w.length = (t ++ [0]).head? := by
    rw [charAt, List.append_assoc, List.getElem?_append_right (Nat.le_refl _), Nat.sub_self]
    cases t <;> rfl
  rw [hi, matchWord, hat]
  split
  · exact .inl rfl
  rename_i hnot
  obtain ⟨-, hhead⟩ := not_or.mp hnot
  rw [not_not] at hhead
  cases t with
  | nil => exact absurd (Option.some.inj hhead).symm hc
  | cons d t =>
    obtain rfl : d = c := Option.some.inj hhead
    have hsplit : w ++ d :: t = w ++ [d] ++ t := by simp
    split
    · rename_i hend
      have ht : t = [] := by
        rw [List.length_append, List.length_cons] at hend
        exact List.length_eq_zero_iff.mp (by omega)
      exact .inr (.inl ⟨rfl, by rw [hsplit, ht, List.append_nil]⟩)
    · exact .inr (.inr ⟨rfl, by simp, t, hsplit.symm⟩)

theorem spelled_headerFieldByte {p : Parser} {w : Bytes} (h : Spelled p w) {ch : UInt8}
    (hc : token ch ≠ 0) (hlen : w ++ [token ch] ≠ CONTENT_LENGTH) :
    ∃ i s, headerFieldByte p ch = .next (p.setHeader i s) [] ∧
      Spelled (p.setHeader i s) (w ++ [token ch]) := by
  have hspace : ch ≠ ascii ' ' := by
    rintro rfl
    exact hc (by decide)
  unfold Spelled at h
  unfold headerFieldByte
  cases hs : p.headerState <;> rw [hs] at h <;> dsimp only at h ⊢
  case general => exact ⟨p.index, .general, by rw [← hs]; rfl, trivial⟩
  case C =>
    obtain ⟨hi, rfl⟩ := h
    refine ⟨_, _, rfl, ?_⟩
    split
    · rename_i ho
      exact ⟨by simp [Parser.setHeader, nextIndex, hi], by rw [ho]; rfl⟩
    · trivial
  case CO =>
    obtain ⟨hi, rfl⟩ := h
    refine ⟨_, _, rfl, ?_⟩
    split
    · rename_i ho
      exact ⟨by simp [Parser.setHeader, nextIndex, hi], by rw [ho]; rfl⟩
    · trivial
  case CON =>
    obtain ⟨hi, rfl⟩ := h
    refine ⟨_, _, rfl, ?_⟩
    split
    · rename_i ho
      refine ⟨by simp [Parser.setHeader, nextIndex, hi]; rfl, ?_⟩
      rw [ho]
      decide
    split
    · rename_i ho
      refine ⟨by simp [Parser.setHeader, nextIndex, hi]; rfl, ?_⟩
      rw [ho]
      decide
    · trivial
  case matchingConnection =>
    refine ⟨_, _, rfl, ?_⟩
    rcases matchWord_spelled h (by decide) hc .matchingConnection .connection .general with
      heq | ⟨heq, hword⟩ | ⟨heq, hpart⟩ <;> rw [heq]
    · trivial
    · exact .inl hword
    · exact hpart
  case matchingProxyConnection =>
    refine ⟨_, _, rfl, ?_⟩
    rcases matchWord_spelled h (by decide) hc .matchingProxyConnection .connection .general with
      heq | ⟨heq, hword⟩ | ⟨heq, hpart⟩ <;> rw [heq]
    · trivial
    · exact .inr hword
    · exact hpart
  case matchingContentLength =>
    rcases matchWord_spelled h (by decide) hc .matchingContentLength .contentLength .general with
      heq | ⟨heq, hword⟩ | ⟨heq, hpart⟩
    · rw [heq]
      exact ⟨_, .general, rfl, trivial⟩
    · exact absurd hword hlen
    · rw [heq]
      exact ⟨_, .matchingContentLength, rfl, hpart⟩
  case matchingTransferEncoding =>
    refine ⟨_, _, rfl, ?_⟩
    rcases matchWord_spelled h (by decide) hc .matchingTransferEncoding .transferEncoding .general
      with heq | ⟨heq, hword⟩ | ⟨heq, hpart⟩ <;> rw [heq]
    · trivial
    · exact hword
    · exact hpart
  case matchingUpgrade =>
    refine ⟨_, _, rfl, ?_⟩
    rcases matchWord_spelled h (by decide) hc .matchingUpgrade .upgrade .general with
      heq | ⟨heq, hword⟩ | ⟨heq, hpart⟩ <;> rw [heq]
    · trivial
    · exact hword
    · exact hpart
  case connection | transferEncoding | upgrade =>
    exact ⟨p.index, .general, by rw [if_pos hspace]; rfl, trivial⟩

/-- A header whose name the parser does not look for, with a value. -/
structure Ordinary (h : Bytes × Bytes) : Prop where
  name_ne : h.1 ≠ []
  name_token : ∀ c ∈ h.1, token c ≠ 0
  name : h.1.map token ∉ [CONNECTION, PROXY_CONNECTION, TRANSFER_ENCODING, UPGRADE]
  name_length : ¬CONTENT_LENGTH <+: h.1.map token
  value_ne : h.2 ≠ []
  value_head : ∀ c ∈ h.2.head?, c ≠ ascii ' ' ∧ c ≠ 9
  value_char : ∀ c ∈ h.2, isHeaderChar c = true ∧ c ≠ CR ∧ c ≠ LF

def headerLine (h : Bytes × Bytes) : Bytes := h.1 ++ [ascii ':'] ++ (ascii ' ' :: (h.2 ++ [CR, LF]))

def headerEvents (h : Bytes × Bytes) : List Event :=
  [.data .headerField h.1, .data .headerValue h.2]

theorem reads_name {p : Parser} (hs : p.state = .headerField) (hup : p.upgrade = false) {w : Bytes}
    (h : Spelled p w) {name : Bytes} (hname : ∀ c ∈ name, token c ≠ 0)
    (hlen : ¬CONTENT_LENGTH <+: w ++ name.map token) :
    ∃ i s, Spelled (p.setHeader i s) (w ++ name.map token) ∧
      Reads p (name ++ [ascii ':']) { p.setHeader i s with state := .headerValueDiscardWs }
        [.data .headerField name] := by
  induction name generalizing p w with
  | nil =>
    have hb : byte p (ascii ':') =
        .next { p with state := .headerValueDiscardWs } [.data .headerField] := by
      unfold byte
      rw [hs]
      rfl
    refine ⟨p.index, p.headerState, by rw [List.map_nil, List.append_nil]; exact h, ?_⟩
    have hsingle := Reads.single (by simp [hs]) hb
    rw [hs] at hsingle
    exact hsingle
  | cons c name ih =>
    obtain ⟨hc, hname⟩ := List.forall_mem_cons.mp hname
    have hassoc : w ++ [token c] ++ name.map token = w ++ (c :: name).map token := by simp
    obtain ⟨i, s, hbyte, hspell⟩ := spelled_headerFieldByte h hc (by
      rintro heq
      rw [← hassoc, heq] at hlen
      exact hlen (List.prefix_append _ _))
    obtain ⟨i', s', hspell', hreads⟩ := ih (p := p.setHeader i s) hs hup hspell hname
      (by rw [hassoc]; exact hlen)
    rw [hassoc] at hspell'
    have hb : byte p c = .next (p.setHeader i s) [] := by
      unfold byte
      rw [hs]
      exact (if_pos hc).trans hbyte
    have hcons := Reads.cons (by simp [hs]) hb hup hreads
    rw [hs] at hcons
    exact ⟨i', s', hspell', hcons.congr (glue_data_append DataKind.headerField [c] name []).symm⟩

theorem reads_value {p : Parser} (hs : p.state = .headerValue) (hup : p.upgrade = false)
    (hgen : p.headerState = .general) {value : Bytes}
    (hvalue : ∀ c ∈ value, isHeaderChar c = true ∧ c ≠ CR ∧ c ≠ LF) :
    Reads p (value ++ [CR, LF]) { p with state := .headerValueLws } [.data .headerValue value] := by
  induction value with
  | nil =>
    have hcr : byte p CR = .next { p with state := .headerAlmostDone } [.data .headerValue] := by
      unfold byte
      rw [hs]
      rfl
    have hlf : byte { p with state := .headerAlmostDone } LF =
        .next { p with state := .headerValueLws } [] := rfl
    have hcons := Reads.cons (by simp [hs]) hcr hup (.single (fun h => by cases h) hlf)
    rw [hs] at hcons
    exact hcons
  | cons c value ih =>
    obtain ⟨⟨hchar, hcr, hlf⟩, hvalue⟩ := List.forall_mem_cons.mp hvalue
    have hb : byte p c = .next p [] := by
      unfold byte
      rw [hs]
      dsimp only
      rw [valueChar, if_neg hcr, if_neg hlf, hchar, if_neg (by decide), if_pos hgen]
    have hcons := Reads.cons (by simp [hs]) hb hup (ih hvalue)
    rw [hs] at hcons
    exact hcons.congr (glue_data_append DataKind.headerValue [c] value []).symm

/-- A line of the header begins; `q` is the parser with the flags of the line before. -/
def AtLine (p q : Parser) : Prop :=
  p.state = .headerFieldStart ∧ q = p ∨ p.state = .headerValueLws ∧ q = headerFlag p

theorem AtLine.byte {p q : Parser} (h : AtLine p q) {c : UInt8} (hc : c ≠ ascii ' ' ∧ c ≠ 9) :
    Third.byte p c = headerFieldStart { q with state := .headerFieldStart } c := by
  rcases h with ⟨hs, rfl⟩ | ⟨hs, rfl⟩
  · have hq : ({ q with state := .headerFieldStart } : Parser) = q := by rw [← hs]
    rw [hq]
    unfold Third.byte handle
    rw [hs]
  · unfold Third.byte handle
    rw [hs]
    exact if_neg (not_or.mpr hc)

theorem AtLine.ne {p q : Parser} (h : AtLine p q) : p.state ≠ .chunkSizeStart := by
  rcases h with ⟨hs, -⟩ | ⟨hs, -⟩ <;> simp [hs]

theorem AtLine.signals_mark {p q : Parser} (h : AtLine p q) (c : UInt8) :
    signals p.state [.mark .headerField] c = [.data .headerField [c]] := by
  rcases h with ⟨hs, -⟩ | ⟨hs, -⟩ <;> rw [hs] <;> rfl

theorem spelled_fieldStart (p : Parser) (c : UInt8) :
    Spelled (p.setHeader 0 (fieldStart c)) [c] := by
  unfold fieldStart
  repeat' split
  · rename_i h
    exact ⟨rfl, by rw [h]; rfl⟩
  · rename_i h
    exact ⟨rfl, by rw [h]; decide⟩
  · rename_i h
    exact ⟨rfl, by rw [h]; decide⟩
  · rename_i h
    exact ⟨rfl, by rw [h]; decide⟩
  · trivial

theorem headerValueStart_plain {p : Parser} {w : Bytes} (h : Spelled p w)
    (hw : w ∉ [CONNECTION, PROXY_CONNECTION, TRANSFER_ENCODING, UPGRADE]) (c : UInt8) :
    headerValueStart p c =
      .next { p.setHeader 0 .general with state := .headerValue } [.mark .headerValue] := by
  simp only [List.mem_cons, List.not_mem_nil, or_false, not_or] at hw
  obtain ⟨hconnection, hproxy, htransfer, hupgrade⟩ := hw
  unfold Spelled at h
  unfold headerValueStart
  cases hs : p.headerState <;> rw [hs] at h <;> dsimp only at h ⊢ <;> try rfl
  case connection => exact absurd h (not_or.mpr ⟨hconnection, hproxy⟩)
  case transferEncoding => exact absurd h htransfer
  case upgrade => exact absurd h hupgrade

theorem reads_header {p p₀ : Parser} (hline : AtLine p p₀) (hup : p₀.upgrade = false)
    {h : Bytes × Bytes} (hordinary : Ordinary h) :
    Reads p (headerLine h) { p₀.setHeader 0 .general with state := .headerValueLws }
      (headerEvents h) := by
  obtain ⟨name, value⟩ := h
  obtain ⟨hname_ne, hname, hword, hlength, hvalue_ne, hhead, hvalue⟩ := hordinary
  dsimp only at hname_ne hname hword hlength hvalue_ne hhead hvalue
  obtain ⟨c, name, rfl⟩ := List.exists_cons_of_ne_nil hname_ne
  obtain ⟨v, value, rfl⟩ := List.exists_cons_of_ne_nil hvalue_ne
  obtain ⟨hc, hname⟩ := List.forall_mem_cons.mp hname
  obtain ⟨⟨hchar, hcr, hlf⟩, hvalue⟩ := List.forall_mem_cons.mp hvalue
  -- the name
  have hcne : c ≠ CR ∧ c ≠ LF ∧ c ≠ ascii ' ' ∧ c ≠ 9 := by
    refine ⟨?_, ?_, ?_, ?_⟩ <;> (rintro rfl; exact hc (by decide))
  have hfirst : byte p c =
      .next { p₀.setHeader 0 (fieldStart (token c)) with state := .headerField }
        [.mark .headerField] := by
    rw [hline.byte hcne.2.2, headerFieldStart, if_neg hcne.1, if_neg hcne.2.1, if_neg hc]
    rfl
  obtain ⟨i, s, hspell, hreads⟩ := reads_name
    (p := { p₀.setHeader 0 (fieldStart (token c)) with state := .headerField }) rfl hup
    (w := [token c]) (spelled_fieldStart p₀ (token c)) hname hlength
  have hfield := Reads.cons hline.ne hfirst hup hreads
  rw [hline.signals_mark] at hfield
  replace hfield := hfield.congr (glue_data_append DataKind.headerField [c] name []).symm
  -- the value
  have hblank : byte { p₀.setHeader i s with state := .headerValueDiscardWs } (ascii ' ') =
      .next { p₀.setHeader i s with state := .headerValueDiscardWs } [] := rfl
  have hstart : byte { p₀.setHeader i s with state := .headerValueDiscardWs } v =
      .next { p₀.setHeader 0 .general with state := .headerValue } [.mark .headerValue] := by
    obtain ⟨hspace, htab⟩ := hhead v rfl
    have hplain := headerValueStart_plain
      (p := { p₀.setHeader i s with state := .headerValueDiscardWs }) hspell hword v
    refine Eq.trans ?_ hplain
    show headerValueDiscardWs _ v = _
    rw [headerValueDiscardWs, if_neg (not_or.mpr ⟨hspace, htab⟩), if_neg hcr, if_neg hlf]
  have hrest := reads_value (p := { p₀.setHeader 0 .general with state := .headerValue }) rfl hup
    rfl hvalue
  have htext := Reads.cons (fun h => by cases h) hstart hup hrest
  replace htext := htext.congr (glue_data_append DataKind.headerValue [v] value []).symm
  exact hfield.append hup (.cons (fun h => by cases h) hblank hup htext)

theorem reads_headers {p p₀ : Parser} (hline : AtLine p p₀) (hup : p₀.upgrade = false)
    {hs : List (Bytes × Bytes)} (hordinary : ∀ h ∈ hs, Ordinary h) :
    ∃ r i s t, AtLine r { p₀.setHeader i s with state := t } ∧
      Reads p (hs.flatMap headerLine) r (hs.flatMap headerEvents) := by
  induction hs generalizing p p₀ with
  | nil => exact ⟨p, p₀.index, p₀.headerState, p₀.state, hline, .nil p⟩
  | cons h hs ih =>
    obtain ⟨hh, hordinary⟩ := List.forall_mem_cons.mp hordinary
    obtain ⟨r, i, s, t, hline', hrest⟩ :=
      ih (p := { p₀.setHeader 0 .general with state := .headerValueLws }) (.inr ⟨rfl, rfl⟩) hup
        hordinary
    exact ⟨r, i, s, t, hline', (reads_header hline hup hh).append hup hrest⟩

/-! ## The lines that are always written -/

/-- What the first line of a message leaves in the parser. -/
structure FirstLine where
  type : ParserType
  method : Method := .delete
  statusCode : Nat := 0
  index : Nat := 0

/-- The parser behind the first line of a message. -/
def behindLine (l : FirstLine) : Parser where
  type := l.type
  state := .headerFieldStart
  index := l.index
  contentLength := ULLONG_MAX
  httpMajor := 1
  httpMinor := 1
  statusCode := l.statusCode
  method := l.method

/-- The parser in the header of a message with `n` bytes of content. -/
def headed (l : FirstLine) (n : Nat) (close : Bool) (i : Nat) (s : HeaderStates) (t : State) :
    Parser where
  type := l.type
  flags := { contentlength := true, connectionKeepAlive := !close, connectionClose := close }
  state := t
  headerState := s
  index := i
  contentLength := n
  httpMajor := 1
  httpMinor := 1
  statusCode := l.statusCode
  method := l.method

/-- The parser behind the name `Content-Length`. -/
def behindLength (l : FirstLine) : Parser :=
  { behindLine l with
    state := .headerValueDiscardWs, headerState := .contentLength, index := 13
    flags := { contentlength := true } }

/-- The parser inside this name. -/
def insideLength (l : FirstLine) (i : Nat) : Parser :=
  { behindLine l with state := .headerField, index := i, headerState := .matchingContentLength }

theorem reads_length (l : FirstLine) :
    Reads (behindLine l) (bytesOf "Content-Length: ") (behindLength l)
      [.data .headerField (bytesOf "Content-Length")] := by
  -- in short parts, as the terms of the machine double with each byte
  have hcont : Reads (behindLine l) (bytesOf "Cont") (insideLength l 3)
      [.data .headerField (bytesOf "Cont")] := by
    apply reads_of_steps
    rfl
  have hent : Reads (insideLength l 3) (bytesOf "ent") (insideLength l 6)
      [.data .headerField (bytesOf "ent")] := by
    apply reads_of_steps
    rfl
  have hlen : Reads (insideLength l 6) (bytesOf "-Len") (insideLength l 10)
      [.data .headerField (bytesOf "-Len")] := by
    apply reads_of_steps
    rfl
  have hgth : Reads (insideLength l 10) (bytesOf "gth: ") (behindLength l)
      [.data .headerField (bytesOf "gth")] := by
    apply reads_of_steps
    rfl
  exact (hcont.append rfl (hent.append rfl (hlen.append rfl hgth))).congr rfl

/-- The parser behind the content length. -/
def behindDigits (l : FirstLine) (n : Nat) : Parser :=
  { behindLength l with state := .headerValue, index := 0, contentLength := n }

def digitByte (d : Nat) : UInt8 := UInt8.ofNat (48 + d)

theorem decimal_of_lt {d : Nat} (h : d < 10) : Http.HttpEncoder.decimal d = [digitByte d] := by
  interval_cases d <;> decide

theorem decimal_of_ge {n : Nat} (h : 10 ≤ n) :
    Http.HttpEncoder.decimal n = Http.HttpEncoder.decimal (n / 10) ++ [digitByte (n % 10)] := by
  rw [← decimal_of_lt (Nat.mod_lt n (by decide))]
  simp only [Http.HttpEncoder.decimal, bytesOf, Nat.toString_eq_repr]
  rw [Nat.repr_of_ge h, Nat.repr_of_lt (Nat.mod_lt n (by decide))]
  simp

theorem digitByte_facts : ∀ d < 10, isNum (digitByte d) = true ∧ digit (digitByte d) = d ∧
    digitByte d ≠ ascii ' ' ∧ digitByte d ≠ 9 ∧ digitByte d ≠ CR ∧ digitByte d ≠ LF ∧
    isHeaderChar (digitByte d) = true := by
  decide

/-- A content length as it is written is the one that is read, if it is not near the largest one. -/
theorem reads_decimal (l : FirstLine) {n : Nat} (hn : n ≤ ULLONG_MAX - 10) :
    Reads (behindLength l) (Http.HttpEncoder.decimal n) (behindDigits l n)
      [.data .headerValue (Http.HttpEncoder.decimal n)] := by
  induction n using Nat.strongRecOn with
  | ind n ih =>
    by_cases hlt : n < 10
    · obtain ⟨hnum, hdigit, hspace, htab, hcr, hlf, -⟩ := digitByte_facts n hlt
      have hb : byte (behindLength l) (digitByte n) =
          .next (behindDigits l n) [.mark .headerValue] := by
        show headerValueDiscardWs (behindLength l) (digitByte n) = _
        rw [headerValueDiscardWs, if_neg (not_or.mpr ⟨hspace, htab⟩), if_neg hcr, if_neg hlf]
        show (if !isNum (digitByte n) then _ else _) = _
        rw [hnum, if_neg (by decide), hdigit]
        rfl
      rw [decimal_of_lt hlt]
      exact .single (fun h => by cases h) hb
    · have hge : 10 ≤ n := Nat.le_of_not_lt hlt
      obtain ⟨hnum, hdigit, hspace, -, hcr, hlf, hchar⟩ :=
        digitByte_facts (n % 10) (Nat.mod_lt n (by decide))
      have hrest := ih (n / 10) (by omega) (by omega)
      have hb : byte (behindDigits l (n / 10)) (digitByte (n % 10)) =
          .next (behindDigits l n) [] := by
        show valueChar (behindDigits l (n / 10)) (digitByte (n % 10)) = _
        rw [valueChar, if_neg hcr, if_neg hlf, hchar, if_neg (by decide),
          if_neg (fun h => by cases h)]
        show (if digitByte (n % 10) = ascii ' ' then _ else if !isNum (digitByte (n % 10)) then _
          else if (ULLONG_MAX - 10) / 10 < n / 10 then _ else _) = _
        rw [if_neg hspace, hnum, if_neg (by decide),
          if_neg (Nat.not_lt.mpr (Nat.div_le_div_right hn)), hdigit]
        show Step.next { behindDigits l (n / 10) with contentLength := n / 10 * 10 + n % 10 } [] = _
        rw [Nat.div_add_mod']
        rfl
      rw [decimal_of_ge hge]
      have hsingle := Reads.single (fun h => by cases h) hb
      exact (hrest.append rfl hsingle).congr
        (glue_data_append DataKind.headerValue _ [digitByte (n % 10)] []).symm

/-- The value of `Connection`. -/
def connectionValue (close : Bool) : Bytes := bytesOf (if close then "close" else "Keep-Alive")

/-- The parser behind the line for `Connection`. -/
def behindConnection (l : FirstLine) (n : Nat) (close : Bool) : Parser :=
  { behindDigits l n with
    state := .headerValueLws
    index := if close then 4 else 9
    headerState := if close then .connectionClose else .connectionKeepAlive }

theorem reads_connection (l : FirstLine) (n : Nat) (close : Bool) :
    Reads (behindDigits l n)
      (bytesOf "\r\nConnection: " ++ connectionValue close ++ [CR, LF])
      (behindConnection l n close)
      [.data .headerValue [], .data .headerField (bytesOf "Connection"),
        .data .headerValue (connectionValue close)] := by
  apply reads_of_steps
  cases close <;> rfl

/-! ## The end of the header, and the body -/

/-- The state behind a message. -/
def FirstLine.endState (l : FirstLine) (close : Bool) : State :=
  if close then .dead else if l.type = .request then .startReq else .startRes

theorem byte_cr {p : Parser} {l : FirstLine} {n : Nat} {close : Bool} {i : Nat} {s : HeaderStates}
    {t : State} (h : AtLine p (headed l n close i s t)) :
    byte p CR = .next (headed l n close i s .headersAlmostDone) [] := by
  rw [h.byte (by decide), headerFieldStart, if_pos rfl]
  rfl

theorem AtLine.signals_nil {p q : Parser} (h : AtLine p q) (c : UInt8) :
    signals p.state [] c = [] := by
  rcases h with ⟨hs, -⟩ | ⟨hs, -⟩ <;> rw [hs] <;> rfl

section End

variable {p : Parser} {l : FirstLine} {n i : Nat} {close : Bool} {s : HeaderStates} {t : State}

theorem headersAlmostDone_headed (hm : l.method ≠ .connect) :
    headersAlmostDone (headed l n close i s .headersAlmostDone) LF =
      (headersDone (headed l n close i s .headersDone) LF).after [.note .headersComplete] := by
  have hupgrade : (false && false || decide (l.method = .connect)) = false := by simp [hm]
  rw [headersAlmostDone, if_neg (by decide), if_neg (fun h => by cases h),
    if_neg (fun h => by cases h.1)]
  show (headersDone { headed l n close i s .headersDone with
    upgrade := false && false || decide (l.method = .connect) } LF).after _ = _
  rw [hupgrade]
  rfl

theorem newMessage_headed : newMessage (headed l 0 close i s t) = l.endState close := by
  have hends : messageNeedsEof (headed l 0 close i s t) = false := by
    unfold messageNeedsEof
    split
    · rfl
    split
    · rfl
    · exact if_pos (.inr (show 0 ≠ ULLONG_MAX by decide))
  have hversion : (headed l 0 close i s t).httpMajor > 0 ∧ (headed l 0 close i s t).httpMinor > 0 :=
    ⟨Nat.one_pos, Nat.one_pos⟩
  rw [newMessage, shouldKeepAlive, if_pos hversion, hends]
  cases close <;> rfl

theorem reads_end_empty (h : AtLine p (headed l 0 close i s t)) (hm : l.method ≠ .connect) :
    Reads p [CR, LF] (headed l 0 close i s (l.endState close))
      [.note .headersComplete, .note (.messageComplete l.method l.statusCode)] := by
  have hlf : byte (headed l 0 close i s .headersAlmostDone) LF =
      .next (headed l 0 close i s (l.endState close))
        [.note .headersComplete, .note (.messageComplete l.method l.statusCode)] := by
    show headersAlmostDone (headed l 0 close i s .headersAlmostDone) LF = _
    rw [headersAlmostDone_headed hm]
    show (complete (headed l 0 close i s .headersDone) .next).after [.note .headersComplete] = _
    rw [complete, newMessage_headed]
    rfl
  have hcons := Reads.cons h.ne (byte_cr h) rfl (.single (fun h => by cases h) hlf)
  rw [h.signals_nil] at hcons
  exact hcons

theorem reads_end_body (h : AtLine p (headed l n close i s t)) (hm : l.method ≠ .connect)
    (hn : n ≠ 0) (hmax : n ≠ ULLONG_MAX) :
    Reads p [CR, LF] (headed l n close i s .bodyIdentity) [.note .headersComplete] := by
  have hlf : byte (headed l n close i s .headersAlmostDone) LF =
      .next (headed l n close i s .bodyIdentity) [.note .headersComplete] := by
    show headersAlmostDone (headed l n close i s .headersAlmostDone) LF = _
    rw [headersAlmostDone_headed hm]
    show ((if n = 0 then complete (headed l n close i s .headersDone) .next
      else if n ≠ ULLONG_MAX then .next (headed l n close i s .bodyIdentity) []
      else _ : Step).after [.note .headersComplete]) = _
    rw [if_neg hn, if_pos hmax]
    rfl
  have hcons := Reads.cons h.ne (byte_cr h) rfl (.single (fun h => by cases h) hlf)
  rw [h.signals_nil] at hcons
  exact hcons

theorem reads_body {body : Bytes} (hbody : body ≠ []) :
    ReadsIn 0 (headed l body.length close i s .bodyIdentity) body
      (headed l 0 close i s (l.endState close))
      [.data .body body, .note (.messageComplete l.method l.statusCode)] := by
  induction body with
  | nil => exact absurd rfl hbody
  | cons c body ih =>
    cases body with
    | nil =>
      have hb : byte (headed l 1 close i s .bodyIdentity) c =
          .next (headed l 0 close i s (l.endState close))
            [.mark .body, .dataThrough .body c,
              .note (.messageComplete l.method l.statusCode)] := by
        show bodyByte (headed l 1 close i s .bodyIdentity) c = _
        rw [bodyByte_last rfl, messageDone]
        show (complete (headed l 0 close i s .messageDone) .next).after _ = _
        rw [complete, newMessage_headed]
        rfl
      exact ReadsIn.single (fun h => by cases h) hb
    | cons c' body =>
      have hb : byte (headed l (c :: c' :: body).length close i s .bodyIdentity) c =
          .next (headed l (c' :: body).length close i s .bodyIdentity) [.mark .body] :=
        bodyByte_more (p := headed l (c :: c' :: body).length close i s .bodyIdentity)
          (Nat.succ_ne_zero body.length) c
      have hfirst := ReadsIn.single (fun h => by cases h) hb
      refine (hfirst.append rfl (ih (List.cons_ne_nil _ _))).congr ?_
      exact (glue_data_append DataKind.body [c] (c' :: body) _).symm

end End

theorem AtLine.upgrade {p q : Parser} (h : AtLine p q) : q.upgrade = p.upgrade := by
  rcases h with ⟨-, rfl⟩ | ⟨-, rfl⟩
  · rfl
  · unfold headerFlag
    split <;> rfl

/-! ## All of it -/

open Http (HttpEncoder)

def dataEvents (k : DataKind) (xs : Bytes) : List Event := if xs = [] then [] else [.data k xs]

/-- The header lines that `AppendToStream` writes. -/
def fieldLines (e : HttpEncoder) : Bytes :=
  bytesOf "Content-Length: " ++ (HttpEncoder.decimal e.body.length ++
    (bytesOf "\r\nConnection: " ++ connectionValue e.closeConnection ++ [CR, LF])) ++
    e.headers.toList.flatMap headerLine

/-- The header with its last line. -/
def writtenHeader (e : HttpEncoder) : Bytes := fieldLines e ++ [CR, LF]

/-- The headers in these lines. -/
def writtenFields (e : HttpEncoder) : List (Bytes × Bytes) :=
  (bytesOf "Content-Length", HttpEncoder.decimal e.body.length) ::
    (bytesOf "Connection", connectionValue e.closeConnection) :: e.headers.toList

/-- The callbacks behind those for the first line, with all the data in one piece. -/
def writtenEvents (l : FirstLine) (e : HttpEncoder) : List Event :=
  (writtenFields e).flatMap headerEvents ++ .note .headersComplete ::
    (dataEvents .body e.body ++ [.note (.messageComplete l.method l.statusCode)])

theorem appendToStream_eq (e : HttpEncoder) : e.appendToStream = writtenHeader e ++ e.body := by
  have hcrlf : HttpEncoder.crlf = [CR, LF] := by decide
  have hcolon : bytesOf ": " = [ascii ':', ascii ' '] := by decide
  have hconnection : [CR, LF] ++ (if e.closeConnection then bytesOf "Connection: close"
      else bytesOf "Connection: Keep-Alive") =
        bytesOf "\r\nConnection: " ++ connectionValue e.closeConnection := by
    cases e.closeConnection <;> decide
  have hline : (fun h : Bytes × Bytes => h.1 ++ bytesOf ": " ++ h.2 ++ HttpEncoder.crlf) =
      headerLine := by
    funext h
    simp [headerLine, hcolon, hcrlf]
  rw [HttpEncoder.appendToStream, hline, hcrlf, writtenHeader, fieldLines, ← hconnection]
  simp only [List.append_assoc, List.cons_append, List.nil_append]

section Written

variable {l : FirstLine} {e : HttpEncoder}

theorem reads_fields (hheaders : ∀ h ∈ e.headers.toList, Ordinary h)
    (hbody : e.body.length ≤ ULLONG_MAX - 10) :
    ∃ r i s t, AtLine r (headed l e.body.length e.closeConnection i s t) ∧
      Reads (behindLine l) (fieldLines e) r ((writtenFields e).flatMap headerEvents) := by
  have hline : AtLine (behindConnection l e.body.length e.closeConnection)
      (headed l e.body.length e.closeConnection (if e.closeConnection then 4 else 9)
        (if e.closeConnection then .connectionClose else .connectionKeepAlive)
        .headerValueLws) := by
    refine .inr ⟨rfl, ?_⟩
    cases e.closeConnection <;> rfl
  obtain ⟨r, i, s, t, hend, hordinary⟩ := reads_headers hline rfl hheaders
  have hvalues := ((reads_decimal l hbody).append rfl
    (reads_connection l e.body.length e.closeConnection)).congr
      (glue_data_append DataKind.headerValue _ [] _).symm
  rw [List.append_nil] at hvalues
  exact ⟨r, i, s, t, hend, ((reads_length l).append rfl hvalues).append rfl hordinary⟩

/-- The last line of the header, and the body. -/
theorem reads_end {p : Parser} {close : Bool} {i : Nat} {s : HeaderStates} {t : State}
    (hm : l.method ≠ .connect) {body : Bytes} (hbody : body.length < ULLONG_MAX)
    (h : AtLine p (headed l body.length close i s t)) :
    ReadsIn (2 * [CR, LF].length) p ([CR, LF] ++ body) (headed l 0 close i s (l.endState close))
      (.note .headersComplete ::
        (dataEvents .body body ++ [.note (.messageComplete l.method l.statusCode)])) := by
  unfold dataEvents
  by_cases hempty : body = []
  · rw [hempty] at h
    rw [if_pos hempty, hempty]
    exact reads_end_empty h hm
  · have hlast := reads_end_body h hm (fun hz => hempty (List.length_eq_zero_iff.mp hz))
      (Nat.ne_of_lt hbody)
    rw [if_neg hempty]
    have hall := ReadsIn.append hlast rfl (reads_body hempty)
    exact hall

/-- The header and the body that `AppendToStream` writes. -/
theorem reads_appendToStream (hm : l.method ≠ .connect)
    (hheaders : ∀ h ∈ e.headers.toList, Ordinary h) (hbody : e.body.length ≤ ULLONG_MAX - 10) :
    ∃ q, q.state = l.endState e.closeConnection ∧
      ReadsIn (2 * (writtenHeader e).length) (behindLine l) e.appendToStream q
        (writtenEvents l e) := by
  obtain ⟨r, i, s, t, hend, hfields⟩ := reads_fields (l := l) hheaders hbody
  have hlast := reads_end hm (Nat.lt_of_le_of_lt hbody (by decide)) hend
  have hall := ReadsIn.append hfields hend.upgrade.symm hlast
  refine ⟨headed l 0 e.closeConnection i s (l.endState e.closeConnection), rfl, ?_⟩
  rw [appendToStream_eq, writtenHeader, List.length_append, Nat.mul_add,
    List.append_assoc _ [CR, LF] e.body]
  exact hall

/-- A part of the body. -/
theorem reads_part {n i : Nat} {close : Bool} {s : HeaderStates} (bs : Bytes) :
    ReadsIn 0 (headed l (bs.length + (n + 1)) close i s .bodyIdentity) bs
      (headed l (n + 1) close i s .bodyIdentity) (bs.map fun c => .data .body [c]) := by
  induction bs with
  | nil =>
    rw [List.length_nil, Nat.zero_add]
    exact Reads.nil _
  | cons c bs ih =>
    have hlength : (c :: bs).length + (n + 1) = bs.length + (n + 1) + 1 := by
      rw [List.length_cons]
      omega
    have hb : byte (headed l ((c :: bs).length + (n + 1)) close i s .bodyIdentity) c =
        .next (headed l (bs.length + (n + 1)) close i s .bodyIdentity) [.mark .body] := by
      rw [hlength]
      exact bodyByte_more (p := headed l (bs.length + (n + 1) + 1) close i s .bodyIdentity)
        (Nat.succ_ne_zero _) c
    exact (ReadsIn.single (fun h => by cases h) hb).append rfl ih

/-- All but the last byte of them, which do not end the message. -/
theorem reads_early (hm : l.method ≠ .connect) (hheaders : ∀ h ∈ e.headers.toList, Ordinary h)
    (hbody : e.body.length ≤ ULLONG_MAX - 10) :
    ∃ bs c q evs, e.appendToStream = bs ++ [c] ∧
      ReadsIn (2 * (writtenHeader e).length) (behindLine l) bs q evs ∧
      ∀ m n, .note (.messageComplete m n) ∉ evs := by
  obtain ⟨r, i, s, t, hend, hfields⟩ := reads_fields (l := l) hheaders hbody
  have hnone : ∀ m n, .note (.messageComplete m n) ∉ (writtenFields e).flatMap headerEvents := by
    intro m n
    simp [headerEvents]
  have hlength : (writtenHeader e).length = (fieldLines e).length + 2 := by
    rw [writtenHeader, List.length_append]
    rfl
  rw [appendToStream_eq]
  rcases List.eq_nil_or_concat e.body with hempty | ⟨bs, c, hbs⟩
  · have hcr := hfields.append hend.upgrade.symm (.single hend.ne (byte_cr hend))
    rw [hend.signals_nil, List.append_nil] at hcr
    refine ⟨_, LF, _, _, ?_, ReadsIn.mono hcr ?_, hnone⟩
    · rw [writtenHeader, hempty]
      simp
    · rw [hlength, List.length_append, List.length_singleton]
      omega
  · have hn : e.body.length = bs.length + (0 + 1) := by
      rw [hbs]
      simp
    have hne : e.body.length ≠ 0 := by omega
    have hmax : e.body.length ≠ ULLONG_MAX := by
      intro heq
      rw [heq] at hbody
      exact absurd hbody (by decide)
    have hhead := hfields.append hend.upgrade.symm (reads_end_body hend hm hne hmax)
    rw [← writtenHeader, hn] at hhead
    have hall := ReadsIn.append hhead rfl (reads_part bs)
    refine ⟨_, c, _, _, ?_, hall, ?_⟩
    · rw [hbs]
      simp
    · intro m n
      simp [hnone m n]

/-! ## Behind a first line -/

variable {p : Parser} {line : Bytes} {evs : List Event}

theorem length_message (line : Bytes) (e : HttpEncoder) :
    (line ++ e.appendToStream).length - e.body.length =
      line.length + (writtenHeader e).length := by
  rw [appendToStream_eq, List.length_append, List.length_append]
  omega

/-- **A message that `HttpEncoder` writes**, whatever its first line. -/
theorem reads_message (hline : Reads p line (behindLine l) evs) (hm : l.method ≠ .connect)
    (hheaders : ∀ h ∈ e.headers.toList, Ordinary h) (hbody : e.body.length ≤ ULLONG_MAX - 10) :
    ∃ q, q.state = l.endState e.closeConnection ∧
      ReadsIn (2 * ((line ++ e.appendToStream).length - e.body.length)) p
        (line ++ e.appendToStream) q (evs ++ writtenEvents l e) := by
  obtain ⟨q, hstate, hstream⟩ := reads_appendToStream hm hheaders hbody
  have hall := ReadsIn.append hline rfl hstream
  rw [← Nat.mul_add, ← length_message] at hall
  exact ⟨q, hstate, hall⟩

theorem reads_message_early (hline : Reads p line (behindLine l) evs)
    (hnone : ∀ m n, .note (.messageComplete m n) ∉ evs) (hm : l.method ≠ .connect)
    (hheaders : ∀ h ∈ e.headers.toList, Ordinary h) (hbody : e.body.length ≤ ULLONG_MAX - 10) :
    ∃ bs c q evs', line ++ e.appendToStream = bs ++ [c] ∧
      ReadsIn (2 * ((line ++ e.appendToStream).length - e.body.length)) p bs q evs' ∧
      ∀ m n, .note (.messageComplete m n) ∉ evs' := by
  obtain ⟨bs, c, q, evs', hsplit, hearly, hnone'⟩ := reads_early hm hheaders hbody
  have hall := ReadsIn.append hline rfl hearly
  rw [← Nat.mul_add, ← length_message] at hall
  refine ⟨_, c, q, _, ?_, hall, fun m n hmem => ?_⟩
  · rw [hsplit, List.append_assoc]
  · rcases List.mem_append.mp hmem with hmem | hmem
    · exact hnone m n hmem
    · exact hnone' m n hmem

end Written

theorem push_headerValue (v : Bytes) (hs : List (Bytes × Bytes)) (note : Note) (evs : List Event) :
    push (.data .headerValue v) (hs.flatMap headerEvents ++ .note note :: evs) =
      .data .headerValue v :: (hs.flatMap headerEvents ++ .note note :: evs) := by
  cases hs <;> rfl

theorem glue_headers (hs : List (Bytes × Bytes)) {note : Note} {evs : List Event}
    (h : glue (.note note :: evs) = .note note :: evs) :
    glue (hs.flatMap headerEvents ++ .note note :: evs) =
      hs.flatMap headerEvents ++ .note note :: evs := by
  induction hs with
  | nil => exact h
  | cons header hs ih =>
    show push (.data .headerField header.1) (push (.data .headerValue header.2)
      (glue (hs.flatMap headerEvents ++ .note note :: evs))) = _
    rw [ih, push_headerValue]
    rfl

theorem glue_writtenEvents (l : FirstLine) (e : HttpEncoder) :
    glue (writtenEvents l e) = writtenEvents l e := by
  refine glue_headers _ ?_
  unfold dataEvents
  split <;> rfl

end Third
end CoSocket
