import CoSocket.Lib.Lines
import CoSocket.Http.HttpEncoder

/-!
# Http.Head

The head of a message that `HttpEncoder` writes, read back as a receiver reads it: lines up to the
first empty one, each with a name before a colon, and the rest as the body.

`AppendToStream` writes `Content-Length` and `Connection` of its own and then the headers that were
set, from a map that tells apart names in different cases. `framed_iff` says when the result has
every name once: when no header that was set is called like one of the two and no two of them are
called alike. The answer to a handshake is not of that kind, for it sets `Connection`.
-/

namespace CoSocket
namespace Http

open Base

/-! ## Setters -/

/-- A call of one of the functions that fill an `HttpEncoder`. -/
inductive Setter where
  | setStatusCode (code : StatusCode)
  | setStatusMessage (message : Bytes)
  | setCloseConnection (on : Bool)
  | setContentType (contentType : Bytes)
  | addHeader (key value : Bytes)
  | setBody (body : Bytes)
  | setMethod (method : Bytes)
  | setUrl (url : Bytes)
  | addParameter (key value : Bytes)
deriving DecidableEq, Repr

namespace HttpEncoder

def apply (e : HttpEncoder) : Setter → HttpEncoder
  | .setStatusCode code => { e with statusCode := code }
  | .setStatusMessage message => { e with statusMessage := message }
  | .setCloseConnection on => { e with closeConnection := on }
  | .setContentType contentType => e.setContentType contentType
  | .addHeader key value => e.addHeader key value
  | .setBody body => { e with body }
  | .setMethod method => { e with method }
  | .setUrl url => { e with url }
  | .addParameter key value => e.addParameter key value

/-- `HttpEncoder(close)` after the calls. -/
def built (close : Bool) (setters : List Setter) : HttpEncoder :=
  setters.foldl apply { closeConnection := close }

end HttpEncoder

namespace Setter

/-- The header a call sets. -/
def header? : Setter → Option (Bytes × Bytes)
  | .addHeader key value => some (key, value)
  | .setContentType contentType => some (bytesOf "Content-Type", contentType)
  | _ => none

end Setter

/-- The names of the headers that the calls set. -/
def headerNames (setters : List Setter) : List Bytes :=
  (setters.filterMap Setter.header?).map Prod.fst

/-- The value that the last call with this name gave. -/
def givenValue (setters : List Setter) (key : Bytes) : Option Bytes :=
  ((setters.filterMap Setter.header?).reverse.find? (·.1 = key)).map Prod.snd

/-! ## What the calls are given -/

/-- The bytes of which the names of headers are made. -/
def isTchar (b : UInt8) : Bool :=
  (ascii '0' ≤ b && b ≤ ascii '9') || (ascii 'A' ≤ b && b ≤ ascii 'Z') ||
    (ascii 'a' ≤ b && b ≤ ascii 'z') || (bytesOf "!#$%&'*+-.^_`|~").contains b

def IsToken (name : Bytes) : Prop := name ≠ [] ∧ ∀ b ∈ name, isTchar b = true

def NoLineBreak (s : Bytes) : Prop := ascii '\r' ∉ s ∧ ascii '\n' ∉ s

/-- The names are tokens, and nothing that ends up in the head has a line break in it. -/
def Setter.Clean : Setter → Prop
  | .setStatusMessage message => NoLineBreak message
  | .setContentType contentType => NoLineBreak contentType
  | .addHeader key value => IsToken key ∧ NoLineBreak value
  | .setMethod method => NoLineBreak method
  | .setUrl url => NoLineBreak url
  | _ => True

/-! ## How the head is read -/

/-- Letters in lower case. -/
def lower (s : Bytes) : Bytes := s.map fun b => if ascii 'A' ≤ b ∧ b ≤ ascii 'Z' then b + 32 else b

/-- The name on a line of the head. -/
def fieldName (line : Bytes) : Bytes := line.takeWhile (· ≠ ascii ':')

/-- The value on a line of the head, behind the colon and the space. -/
def fieldValue (line : Bytes) : Bytes := line.drop ((fieldName line).length + 2)

/-- The bytes are a head with each name once, in whatever case, with the headers that were given and
with one `Content-Length`, that of the body; then an empty line; and then the body. -/
def Framed (setters : List Setter) (body bytes : Bytes) : Prop :=
  ∃ lines, Lines.readHead (ascii '\r') (ascii '\n') [] bytes = some (lines, body) ∧
    (lines.map fun line => lower (fieldName line)).Nodup ∧
    (∀ key value, givenValue setters key = some value →
      ∃ line ∈ lines, fieldName line = key ∧ fieldValue line = value) ∧
    (lines.filter fun line => lower (fieldName line) = bytesOf "content-length").map fieldValue =
      [HttpEncoder.decimal body.length]

/-! ## The headers that were set -/

theorem built_snoc (close : Bool) (setters : List Setter) (setter : Setter) :
    HttpEncoder.built close (setters ++ [setter]) =
      (HttpEncoder.built close setters).apply setter := by
  simp [HttpEncoder.built]

theorem headers_apply (e : HttpEncoder) (setter : Setter) :
    (e.apply setter).headers =
      match setter.header? with
      | some h => e.headers.insert h.1 h.2
      | none => e.headers := by
  cases setter <;> rfl

theorem givenValue_snoc (setters : List Setter) (setter : Setter) (key : Bytes) :
    givenValue (setters ++ [setter]) key =
      match setter.header? with
      | some h => if h.1 = key then some h.2 else givenValue setters key
      | none => givenValue setters key := by
  cases hh : setter.header? with
  | none => simp [givenValue, hh]
  | some h =>
    by_cases hk : h.1 = key
    · simp [givenValue, hh, hk]
    · simp [givenValue, hh, hk]

theorem getElem?_headers (close : Bool) (setters : List Setter) (key : Bytes) :
    (HttpEncoder.built close setters).headers[key]? = givenValue setters key := by
  induction setters using List.reverseRecOn with
  | nil => simp [HttpEncoder.built, givenValue]
  | append_singleton setters setter ih =>
    rw [built_snoc, headers_apply, givenValue_snoc]
    cases setter.header? with
    | none => exact ih
    | some h =>
      simp only [Std.ExtTreeMap.getElem?_insert, Std.LawfulEqCmp.compare_eq_iff_eq, ih]

theorem mem_headerNames_iff (setters : List Setter) (key : Bytes) :
    key ∈ headerNames setters ↔ ∃ value, givenValue setters key = some value := by
  simp only [headerNames, givenValue, List.mem_map, Option.map_eq_some_iff]
  constructor
  · rintro ⟨h, hmem, rfl⟩
    have hsome : ((setters.filterMap Setter.header?).reverse.find? (·.1 = h.1)).isSome := by
      rw [List.find?_isSome]
      exact ⟨h, List.mem_reverse.mpr hmem, by simp⟩
    obtain ⟨h', hfind⟩ := Option.isSome_iff_exists.mp hsome
    exact ⟨h'.2, h', hfind, rfl⟩
  · rintro ⟨value, h, hfind, -⟩
    refine ⟨h, List.mem_reverse.mp (List.mem_of_find?_eq_some hfind), ?_⟩
    simpa using List.find?_some hfind

theorem isToken_contentType : IsToken (bytesOf "Content-Type") :=
  ⟨by decide, by decide +kernel⟩
theorem isToken_contentLength : IsToken (bytesOf "Content-Length") :=
  ⟨by decide, by decide +kernel⟩
theorem isToken_connection : IsToken (bytesOf "Connection") :=
  ⟨by decide, by decide +kernel⟩

theorem header_clean {close : Bool} {setters : List Setter} (hclean : ∀ s ∈ setters, s.Clean)
    {h : Bytes × Bytes} (hh : h ∈ (HttpEncoder.built close setters).headers.toList) :
    IsToken h.1 ∧ NoLineBreak h.2 := by
  rw [show h = (h.1, h.2) from rfl, Std.ExtTreeMap.mem_toList_iff_getElem?_eq_some,
    getElem?_headers, givenValue, Option.map_eq_some_iff] at hh
  obtain ⟨h', hfind, hval⟩ := hh
  have hmem := List.mem_reverse.mp (List.mem_of_find?_eq_some hfind)
  have hkey : h'.1 = h.1 := by simpa using List.find?_some hfind
  obtain ⟨setter, hset, hhead⟩ := List.mem_filterMap.mp hmem
  have hc := hclean setter hset
  cases setter with
  | addHeader key value =>
    cases hhead
    exact ⟨hkey ▸ hc.1, hval ▸ hc.2⟩
  | setContentType contentType =>
    cases hhead
    exact ⟨hkey ▸ isToken_contentType, hval ▸ hc⟩
  | _ => cases hhead

/-! ## The lines of the head -/

namespace HttpEncoder

/-- The fields of the head, in the order in which they are written. -/
def fields (e : HttpEncoder) : List (Bytes × Bytes) :=
  (bytesOf "Content-Length", decimal e.body.length) ::
    (bytesOf "Connection", bytesOf (if e.closeConnection then "close" else "Keep-Alive")) ::
    e.headers.toList

/-- The line of a field. -/
def fieldLine (h : Bytes × Bytes) : Bytes := h.1 ++ bytesOf ": " ++ h.2

theorem appendToStream_eq (e : HttpEncoder) :
    e.appendToStream = Lines.written (ascii '\r') (ascii '\n') (e.fields.map fieldLine) ++
      ascii '\r' :: ascii '\n' :: e.body := by
  have hcrlf : crlf = [ascii '\r', ascii '\n'] := by decide
  have hlen : bytesOf "Content-Length: " = bytesOf "Content-Length" ++ bytesOf ": " := by decide
  have hconn : (if e.closeConnection then bytesOf "Connection: close"
      else bytesOf "Connection: Keep-Alive") = bytesOf "Connection" ++ bytesOf ": " ++
        bytesOf (if e.closeConnection then "close" else "Keep-Alive") := by
    split
    · decide
    · decide
  rw [appendToStream, hlen, hconn, hcrlf]
  simp [Lines.written, fields, fieldLine, List.flatMap_map]

end HttpEncoder

section Fields

variable {h : Bytes × Bytes}

theorem IsToken.not_mem {name : Bytes} (ht : IsToken name) {b : UInt8} (hb : isTchar b = false) :
    b ∉ name := by
  intro hmem
  rw [ht.2 b hmem] at hb
  cases hb

theorem fieldName_fieldLine (ht : IsToken h.1) : fieldName (HttpEncoder.fieldLine h) = h.1 := by
  have hcolon : ascii ':' ∉ h.1 := ht.not_mem (by decide)
  have hsep : bytesOf ": " = [ascii ':', ascii ' '] := by decide
  unfold fieldName HttpEncoder.fieldLine
  rw [hsep, List.append_assoc, List.takeWhile_append_of_pos]
  · simp
  · intro b hb
    have hne : b ≠ ascii ':' := fun hc => hcolon (hc ▸ hb)
    exact decide_eq_true hne

theorem fieldValue_fieldLine (ht : IsToken h.1) : fieldValue (HttpEncoder.fieldLine h) = h.2 := by
  rw [fieldValue, fieldName_fieldLine ht, HttpEncoder.fieldLine,
    show h.1.length + 2 = (h.1 ++ bytesOf ": ").length by simp [bytesOf], List.drop_left]

theorem fieldLine_clean (ht : IsToken h.1) (hv : NoLineBreak h.2) :
    ascii '\r' ∉ HttpEncoder.fieldLine h ∧ HttpEncoder.fieldLine h ≠ [] := by
  have hcr : ascii '\r' ∉ h.1 := ht.not_mem (by decide)
  have hsep : ascii '\r' ∉ bytesOf ": " := by decide
  constructor
  · simp only [HttpEncoder.fieldLine, List.mem_append, not_or]
    exact ⟨⟨hcr, hsep⟩, hv.1⟩
  · simp [HttpEncoder.fieldLine, ht.1]

end Fields

theorem mem_decimal {n : Nat} {b : UInt8} (h : b ∈ HttpEncoder.decimal n) :
    48 ≤ b.toNat ∧ b.toNat ≤ 57 := by
  obtain ⟨c, hc, rfl⟩ := List.mem_map.mp h
  have hdigit : c.isDigit = true := by
    rw [show toString n = String.ofList (Nat.toDigits 10 n) from rfl, String.toList_ofList] at hc
    exact Nat.isDigit_of_mem_toDigits (by decide) (by decide) hc
  simp only [Char.isDigit, Bool.and_eq_true, decide_eq_true_eq, ge_iff_le] at hdigit
  obtain ⟨hlo, hhi⟩ := hdigit
  rw [UInt32.le_iff_toNat_le] at hlo hhi
  change 48 ≤ c.toNat at hlo
  change c.toNat ≤ 57 at hhi
  rw [UInt8.toNat_ofNat']
  omega

theorem noLineBreak_decimal (n : Nat) : NoLineBreak (HttpEncoder.decimal n) := by
  constructor
  · intro h
    have := mem_decimal h
    revert this
    decide
  · intro h
    have := mem_decimal h
    revert this
    decide

section Framing

variable {close : Bool} {setters : List Setter}

theorem fields_clean (hclean : ∀ s ∈ setters, s.Clean) {h : Bytes × Bytes}
    (hh : h ∈ (HttpEncoder.built close setters).fields) : IsToken h.1 ∧ NoLineBreak h.2 := by
  simp only [HttpEncoder.fields, List.mem_cons] at hh
  rcases hh with rfl | rfl | hh
  · exact ⟨isToken_contentLength, noLineBreak_decimal _⟩
  · refine ⟨isToken_connection, ?_⟩
    show NoLineBreak (bytesOf _)
    split
    · exact ⟨by decide, by decide⟩
    · exact ⟨by decide, by decide⟩
  · exact header_clean hclean hh

theorem readHead_appendToStream (hclean : ∀ s ∈ setters, s.Clean) :
    Lines.readHead (ascii '\r') (ascii '\n') [] (HttpEncoder.built close setters).appendToStream =
      some ((HttpEncoder.built close setters).fields.map HttpEncoder.fieldLine,
        (HttpEncoder.built close setters).body) := by
  have hline : ∀ line ∈ (HttpEncoder.built close setters).fields.map HttpEncoder.fieldLine,
      ascii '\r' ∉ line ∧ line ≠ [] := by
    intro line hmem
    obtain ⟨h, hh, rfl⟩ := List.mem_map.mp hmem
    obtain ⟨ht, hv⟩ := fields_clean hclean hh
    exact fieldLine_clean ht hv
  rw [HttpEncoder.appendToStream_eq]
  exact Lines.readHead_lines (fun l hl => (hline l hl).1) (fun l hl => (hline l hl).2) _

theorem map_fieldName (hclean : ∀ s ∈ setters, s.Clean) (f : Bytes → Bytes) :
    ((HttpEncoder.built close setters).fields.map HttpEncoder.fieldLine).map
        (fun line => f (fieldName line)) =
      (HttpEncoder.built close setters).fields.map fun h => f h.1 := by
  rw [List.map_map]
  apply List.map_congr_left
  intro h hh
  simp only [Function.comp_apply, fieldName_fieldLine (fields_clean hclean hh).1]

/-- No header is set under the name of one that is written anyway, and none under two names that
differ only in case. -/
def Separate (setters : List Setter) : Prop :=
  (∀ key ∈ headerNames setters,
    lower key ≠ bytesOf "content-length" ∧ lower key ≠ bytesOf "connection") ∧
  ∀ key ∈ headerNames setters, ∀ key' ∈ headerNames setters, lower key = lower key' → key = key'

theorem mem_keys_iff {key : Bytes} :
    (∃ h ∈ (HttpEncoder.built close setters).headers.toList, h.1 = key) ↔
      key ∈ headerNames setters := by
  rw [mem_headerNames_iff]
  constructor
  · rintro ⟨h, hh, rfl⟩
    rw [show h = (h.1, h.2) from rfl, Std.ExtTreeMap.mem_toList_iff_getElem?_eq_some,
      getElem?_headers] at hh
    exact ⟨h.2, hh⟩
  · rintro ⟨value, hv⟩
    refine ⟨(key, value), ?_, rfl⟩
    rw [Std.ExtTreeMap.mem_toList_iff_getElem?_eq_some, getElem?_headers, hv]

/-- The names in the head are different from each other, in whatever case, exactly when those that
were set are separate. -/
theorem nodup_fields_iff :
    ((HttpEncoder.built close setters).fields.map fun h => lower h.1).Nodup ↔ Separate setters := by
  have hlen : lower (bytesOf "Content-Length") = bytesOf "content-length" := by decide +kernel
  have hconn : lower (bytesOf "Connection") = bytesOf "connection" := by decide +kernel
  have hne : bytesOf "content-length" ≠ bytesOf "connection" := by decide +kernel
  have hmap : ∀ name, name ∈ (HttpEncoder.built close setters).headers.toList.map
      (fun h => lower h.1) ↔ ∃ key ∈ headerNames setters, lower key = name := by
    intro name
    simp only [List.mem_map]
    constructor
    · rintro ⟨h, hh, rfl⟩
      exact ⟨h.1, mem_keys_iff.mp ⟨h, hh, rfl⟩, rfl⟩
    · rintro ⟨key, hk, rfl⟩
      obtain ⟨h, hh, rfl⟩ := mem_keys_iff.mpr hk
      exact ⟨h, hh, rfl⟩
  simp only [HttpEncoder.fields, List.map_cons, List.nodup_cons, List.mem_cons, not_or, hlen, hconn,
    hmap]
  constructor
  · rintro ⟨⟨-, hnl⟩, hnc, hnd⟩
    refine ⟨fun key hk => ⟨fun he => hnl ⟨key, hk, he⟩, fun he => hnc ⟨key, hk, he⟩⟩, ?_⟩
    intro key hk key' hk' he
    obtain ⟨h, hh, rfl⟩ := mem_keys_iff.mpr hk
    obtain ⟨h', hh', rfl⟩ := mem_keys_iff.mpr hk'
    rw [List.inj_on_of_nodup_map hnd hh hh' he]
  · rintro ⟨hown, hcase⟩
    refine ⟨⟨hne, ?_⟩, ?_, ?_⟩
    · rintro ⟨key, hk, he⟩
      exact (hown key hk).1 he
    · rintro ⟨key, hk, he⟩
      exact (hown key hk).2 he
    · -- the keys of the map are different, and so are they in lower case
      have hpair := (HttpEncoder.built close setters).headers.distinct_keys_toList
      rw [List.Nodup, List.pairwise_map]
      refine hpair.imp_of_mem fun {h h'} hh hh' hcmp he => hcmp ?_
      rw [Std.LawfulEqCmp.compare_eq_iff_eq]
      exact hcase _ (mem_keys_iff.mp ⟨h, hh, rfl⟩) _ (mem_keys_iff.mp ⟨h', hh', rfl⟩) he

/-- The fields that are read as `Content-Length`: the one that is written anyway, and those that
were set under that name. -/
theorem contentLengths (hclean : ∀ s ∈ setters, s.Clean) (hsep : Separate setters) :
    (((HttpEncoder.built close setters).fields.map HttpEncoder.fieldLine).filter
        fun line => lower (fieldName line) = bytesOf "content-length").map fieldValue =
      [HttpEncoder.decimal (HttpEncoder.built close setters).body.length] := by
  have hlen : lower (bytesOf "Content-Length") = bytesOf "content-length" := by decide +kernel
  have hconn : ¬ lower (bytesOf "Connection") = bytesOf "content-length" := by decide +kernel
  have hrest : (HttpEncoder.built close setters).headers.toList.filter
      (fun h => lower h.1 = bytesOf "content-length") = [] := by
    rw [List.filter_eq_nil_iff]
    intro h hh
    simpa using (hsep.1 h.1 (mem_keys_iff.mp ⟨h, hh, rfl⟩)).1
  have hfields : (HttpEncoder.built close setters).fields.filter
      (fun h => lower h.1 = bytesOf "content-length") =
        [(bytesOf "Content-Length",
          HttpEncoder.decimal (HttpEncoder.built close setters).body.length)] := by
    rw [HttpEncoder.fields, List.filter_cons_of_pos (by simpa using hlen),
      List.filter_cons_of_neg (by simpa using hconn), hrest]
  rw [List.filter_map, List.map_map]
  rw [List.filter_congr (q := fun h => lower h.1 = bytesOf "content-length")
    fun h hh => by
      simp only [Function.comp_apply, fieldName_fieldLine (fields_clean hclean hh).1]]
  rw [hfields, List.map_cons, List.map_nil, Function.comp_apply,
    fieldValue_fieldLine isToken_contentLength]

/-- **The head of a message.** After any sequence of setters, with tokens for the names of headers
and no line break in what is written, the head that `AppendToStream` writes is well formed if and
only if no header was set under the name of one of the two that are written anyway, and no two
headers under names that differ only in case. -/
theorem framed_iff (close : Bool) (setters : List Setter) (hclean : ∀ s ∈ setters, s.Clean) :
    Framed setters (HttpEncoder.built close setters).body
      (HttpEncoder.built close setters).appendToStream ↔ Separate setters := by
  have hread : Lines.readHead (ascii '\r') (ascii '\n') []
      (HttpEncoder.built close setters).appendToStream = _ := readHead_appendToStream hclean
  constructor
  · rintro ⟨lines, hlines, hnd, -⟩
    cases hlines.symm.trans hread
    rw [map_fieldName hclean lower] at hnd
    exact nodup_fields_iff.mp hnd
  · intro hsep
    refine ⟨_, hread, ?_, fun key value hgiven => ?_, contentLengths hclean hsep⟩
    · rw [map_fieldName hclean lower]
      exact nodup_fields_iff.mpr hsep
    · have hmem : (key, value) ∈ (HttpEncoder.built close setters).fields := by
        refine List.mem_cons_of_mem _ (List.mem_cons_of_mem _ ?_)
        rw [Std.ExtTreeMap.mem_toList_iff_getElem?_eq_some, getElem?_headers, hgiven]
      have ht := (fields_clean hclean hmem).1
      exact ⟨_, List.mem_map_of_mem hmem, fieldName_fieldLine ht, fieldValue_fieldLine ht⟩

end Framing

/-- An answer with a type and a body. -/
def okSetters : List Setter :=
  [.setStatusCode .StatusCode_200Ok, .setStatusMessage (bytesOf "OK"),
    .setContentType (bytesOf "text/plain"), .addHeader (bytesOf "Server") (bytesOf "CoSocket"),
    .setBody (bytesOf "hello\r\n\r\n")]

theorem framed_ok :
    Framed okSetters (bytesOf "hello\r\n\r\n")
      (HttpEncoder.built false okSetters).appendToStream := by
  refine (framed_iff false okSetters ?_).mpr ⟨by decide +kernel, by decide +kernel⟩
  intro s hs
  simp only [okSetters, List.mem_cons, List.not_mem_nil, or_false] at hs
  rcases hs with rfl | rfl | rfl | rfl | rfl
  · trivial
  · exact ⟨by decide, by decide⟩
  · exact ⟨by decide, by decide⟩
  · exact ⟨⟨by decide, by decide +kernel⟩, by decide, by decide⟩
  · trivial

/-- The setters that `ResponseWebSocketHandshake` calls. -/
def handshakeSetters (accept : Bytes) : List Setter :=
  [.setStatusCode .StatusCode_101WebSocket, .setStatusMessage (bytesOf "Switching Protocols"),
    .addHeader (bytesOf "Upgrade") (bytesOf "websocket"),
    .addHeader (bytesOf "Connection") (bytesOf "Upgrade"),
    .addHeader (bytesOf "Sec-WebSocket-Accept") accept]

theorem handshakeSetters_clean {accept : Bytes} (h : NoLineBreak accept) :
    ∀ s ∈ handshakeSetters accept, s.Clean := by
  intro s hs
  simp only [handshakeSetters, List.mem_cons, List.not_mem_nil, or_false] at hs
  rcases hs with rfl | rfl | rfl | rfl | rfl
  · trivial
  · exact ⟨by decide, by decide⟩
  · exact ⟨⟨by decide, by decide +kernel⟩, by decide, by decide⟩
  · exact ⟨isToken_connection, by decide, by decide⟩
  · exact ⟨⟨by decide, by decide +kernel⟩, h⟩

/-- The answer to a handshake has `Connection` twice, once with `Keep-Alive`. -/
theorem framed_not_handshake :
    (∀ sha1 key, ∃ accept, responseWebSocketHandshake sha1 { closeConnection := false } key =
      HttpEncoder.built false (handshakeSetters accept)) ∧
    (∀ s ∈ handshakeSetters (bytesOf "s3pPLMBiTxaQ9kYGzzhZRbK+xOo="), s.Clean) ∧
    ¬ Framed (handshakeSetters (bytesOf "s3pPLMBiTxaQ9kYGzzhZRbK+xOo="))
      (HttpEncoder.built false (handshakeSetters (bytesOf "s3pPLMBiTxaQ9kYGzzhZRbK+xOo="))).body
      (HttpEncoder.built false
        (handshakeSetters (bytesOf "s3pPLMBiTxaQ9kYGzzhZRbK+xOo="))).appendToStream := by
  have hclean : ∀ s ∈ handshakeSetters (bytesOf "s3pPLMBiTxaQ9kYGzzhZRbK+xOo="), s.Clean :=
    handshakeSetters_clean ⟨by decide, by decide⟩
  refine ⟨fun sha1 key => ⟨_, rfl⟩, hclean, ?_⟩
  rintro ⟨lines, hlines, hnd, -⟩
  cases hlines.symm.trans (readHead_appendToStream hclean)
  rw [map_fieldName hclean lower, nodup_fields_iff] at hnd
  exact (hnd.1 (bytesOf "Connection") (by decide)).2 (by decide +kernel)

end Http
end CoSocket
