import CoSocket.Lib.Calls
import CoSocket.Http.WebSocketBounds

/-!
# Http.ParserCalls

A `WebSocketParser` under any sequence of calls of `Parse` and `Reset`, whatever they return and
whatever bytes they get.

`Checked` is the code of the parser once more, with everything it takes for granted as a check: that
the difference in `HaveBytes` is not negative, that what it reads lies in the cache, that the offset
stays there, and that `ProcessPayload` has a key of four bytes. `calls_never_fault` says that no
check ever fails, by the invariant `Safe`: the code with and without checks does the same.

`reset_like_new` is about what `Reset` leaves behind. The opcode and the key of the last frame are
still there, and `Alike` is the relation between such a parser and a new one: they differ in nothing
else, and not even in these two once the header of a frame has been read.
-/

namespace CoSocket
namespace Http

open Base Calls

namespace WebSocketParser

inductive Call where
  | parse (data : Bytes)
  | reset
deriving DecidableEq, Repr

/-- What the caller can see of a call: the value `Parse` returns, and what `IsComplete` and
`GetPayLoad` return afterwards. -/
structure Seen where
  result : Option Bool
  complete : Bool
  payload : Bytes
deriving DecidableEq, Repr

def seen (result : Option Bool) (p : WebSocketParser) : Seen × WebSocketParser :=
  (⟨result, p.complete, p.payload⟩, p)

def call (p : WebSocketParser) : Call → Seen × WebSocketParser
  | .parse data => seen (some (p.parse data).1) (p.parse data).2
  | .reset => seen none p.reset

/-! ## Inside the header -/

/-- Behind the payload length, where the key is read. -/
theorem payloadLen_inside {p q : WebSocketParser} {b₀ b₁ : UInt8} {tail : Bytes} {ok : Bool}
    (hc : p.inputCache = b₀ :: b₁ :: tail) (hq : (p.headerStart b₀ b₁).parsePayloadLen = (ok, q)) :
    q.offset ≤ q.inputCache.length := by
  obtain ⟨hoff, -, -⟩ := parsePayloadLen_offset (headerStart_inside hc)
  obtain ⟨hsame, -⟩ := parsePayloadLen_sameCache (p.headerStart b₀ b₁)
  rw [hq] at hoff hsame
  rw [hsame]
  exact hoff

/-! ## The code with its checks -/

inductive Fault where
  /-- `m_inputCache.size() - m_offset` is negative. -/
  | negative
  /-- A read at `GetDataPtr()` goes beyond the cache. -/
  | outside
  /-- `m_offset` is moved beyond the cache. -/
  | beyond
  /-- `ProcessPayload` is entered with a key that has not four bytes. -/
  | key
  /-- `i % m_maskKey.size()` divides by zero. -/
  | division
deriving DecidableEq, Repr

namespace Checked

def haveBytes (p : WebSocketParser) (len : Nat) : Except Fault Bool := do
  require (p.offset ≤ p.inputCache.length) .negative
  return p.haveBytes len

/-- `*GetDataPtr()` -/
def dataByte (p : WebSocketParser) : Except Fault UInt8 := do
  require (p.offset < p.inputCache.length) .outside
  return p.dataByte

/-- The `n` bytes at `GetDataPtr()`. -/
def data (p : WebSocketParser) (n : Nat) : Except Fault Bytes := do
  require (p.offset + n ≤ p.inputCache.length) .outside
  return p.data n

/-- `m_offset += n` -/
def advance (p : WebSocketParser) (n : Nat) : Except Fault WebSocketParser := do
  require (p.offset + n ≤ p.inputCache.length) .beyond
  return { p with offset := p.offset + n }

def parsePayloadLen (p : WebSocketParser) : Except Fault (Bool × WebSocketParser) := do
  if p.payloadLen = 126 then
    if ← haveBytes p 2 then
      let bytes ← data p 2
      return (true, ← advance { p with payloadLen := ntohs (load bytes) } 2)
    else return (false, p)
  else if p.payloadLen = 127 then
    if ← haveBytes p 8 then
      let bytes ← data p 8
      return (true, ← advance { p with payloadLen := ntohll (load bytes) } 8)
    else return (false, p)
  else return (true, p)

def parseMaskKey (p : WebSocketParser) (mask : Bool) : Except Fault (Bool × WebSocketParser) := do
  let p := { p with maskKey := [] }
  if mask then
    if ← haveBytes p 4 then
      let bytes ← data p 4
      return (true, ← advance { p with maskKey := p.maskKey ++ bytes } 4)
    else return (false, p)
  else return (true, p)

def parseHeader (p : WebSocketParser) : Except Fault (Bool × WebSocketParser) := do
  let p := { p with offset := 0 }
  if !(← haveBytes p 1) then return (false, p)
  else
    let p := { p with opCode := (0x0F &&& (← dataByte p)).toNat }
    let p := { p with fin := 0x80 &&& (← dataByte p) != 0 }
    let p ← advance p 1
    if !(← haveBytes p 1) then return (false, p)
    else
      let mask := 0x80 &&& (← dataByte p) != 0
      let p := { p with payloadLen := (0x7F &&& (← dataByte p)).toNat }
      let p ← advance p 1
      match ← parsePayloadLen p with
      | (false, p) => return (false, p)
      | (true, p) => parseMaskKey p mask

/-- `m_maskKey[i % m_maskKey.size()]` -/
def keyByte (p : WebSocketParser) (i : Nat) : Except Fault UInt8 := do
  require (p.maskKey.length ≠ 0) .division
  return p.maskKey.getD (i % p.maskKey.length) 0

/-- The loop of `ProcessPayload`, from index `i` on, with `n` bytes to go. -/
def unmask (p : WebSocketParser) (i : Nat) : Nat → Except Fault WebSocketParser
  | 0 => return p
  | n + 1 => do
    let byte ← dataByte p
    let key ← keyByte p i
    let p ← advance { p with payload := p.payload ++ [byte ^^^ key] } 1
    unmask p (i + 1) n

def processPayload (p : WebSocketParser) : Except Fault WebSocketParser := do
  require (p.maskKey.length = 4) .key
  if !(← haveBytes p p.payloadLen) then return p
  else
    let p ← unmask p 0 p.payloadLen
    return { p with complete := p.fin }.resetCurrentFrame

def collect (p : WebSocketParser) (data : Bytes) : Except Fault WebSocketParser := do
  let p := { p with inputCache := p.inputCache ++ data }
  if !p.headerComplete then
    let (headerComplete, p) ← parseHeader p
    return { p with headerComplete }
  else return p

def parse (p : WebSocketParser) (data : Bytes) : Except Fault (Bool × WebSocketParser) := do
  if data.isEmpty then return (true, p)
  else
    let p ← collect p data
    if !p.headerComplete then return (true, p)
    else if !p.isValidFrame then return (false, p)
    else return (true, ← processPayload p)

def call (p : WebSocketParser) : Call → Except Fault (Seen × WebSocketParser)
  | .parse data => do
    let (result, p) ← parse p data
    return seen (some result) p
  | .reset => return seen none p.reset

/-! ## The checks hold

One lemma for each function: with the offset in the cache it returns what the function without
checks returns. -/

theorem haveBytes_ok {p : WebSocketParser} (h : p.offset ≤ p.inputCache.length) (len : Nat) :
    haveBytes p len = .ok (p.haveBytes len) := by
  rw [haveBytes, require_of h]
  rfl

theorem dataByte_ok {p : WebSocketParser} (h : p.offset < p.inputCache.length) :
    dataByte p = .ok p.dataByte := by
  rw [dataByte, require_of h]
  rfl

theorem data_ok {p : WebSocketParser} {n : Nat} (h : p.offset + n ≤ p.inputCache.length) :
    data p n = .ok (p.data n) := by
  rw [data, require_of h]
  rfl

theorem advance_ok {p : WebSocketParser} {n : Nat} (h : p.offset + n ≤ p.inputCache.length) :
    advance p n = .ok { p with offset := p.offset + n } := by
  rw [advance, require_of h]
  rfl

theorem keyByte_ok {p : WebSocketParser} (h : p.maskKey.length = 4) (i : Nat) :
    keyByte p i = .ok (p.maskKey.getD (i % p.maskKey.length) 0) := by
  rw [keyByte, require_of (by rw [h]; decide)]
  rfl

theorem field_ok {p : WebSocketParser} {n : Nat} {write : Bytes → WebSocketParser}
    (h : p.offset ≤ p.inputCache.length)
    (hw : ∀ bytes, (write bytes).offset = p.offset ∧ (write bytes).inputCache = p.inputCache) :
    (do
      if ← haveBytes p n then
        let bytes ← data p n
        return (true, ← advance (write bytes) n)
      else return (false, p) : Except Fault (Bool × WebSocketParser)) =
    .ok (if p.haveBytes n then (true, { write (p.data n) with offset := p.offset + n })
      else (false, p)) := by
  obtain ⟨hoff, hcache⟩ := hw (p.data n)
  simp only [haveBytes_ok h, ok_bind]
  split
  · rename_i hb
    have hin : p.offset + n ≤ p.inputCache.length := (haveBytes_iff h).mp hb
    rw [data_ok hin, ok_bind, advance_ok (by rw [hoff, hcache]; exact hin), hoff]
    rfl
  · rfl

theorem parsePayloadLen_ok {p : WebSocketParser} (h : p.offset ≤ p.inputCache.length) :
    parsePayloadLen p = .ok p.parsePayloadLen := by
  unfold parsePayloadLen WebSocketParser.parsePayloadLen
  split
  · exact field_ok h fun _ => ⟨rfl, rfl⟩
  · split
    · exact field_ok h fun _ => ⟨rfl, rfl⟩
    · rfl

theorem parseMaskKey_ok {p : WebSocketParser} (h : p.offset ≤ p.inputCache.length) (mask : Bool) :
    parseMaskKey p mask = .ok (p.parseMaskKey mask) := by
  unfold parseMaskKey WebSocketParser.parseMaskKey
  dsimp only
  split
  · exact field_ok (p := { p with maskKey := [] }) h fun _ => ⟨rfl, rfl⟩
  · rfl

theorem parseHeader_start {p : WebSocketParser} {b₀ b₁ : UInt8} {tail : Bytes}
    (hc : p.inputCache = b₀ :: b₁ :: tail) :
    parseHeader p = (do
      match ← parsePayloadLen (p.headerStart b₀ b₁) with
      | (false, p) => return (false, p)
      | (true, p) => parseMaskKey p (0x80 &&& b₁ != 0)) := by
  simp [parseHeader, haveBytes, dataByte, advance, WebSocketParser.haveBytes,
    WebSocketParser.available, WebSocketParser.dataByte, headerStart, hc]

theorem parseHeader_ok (p : WebSocketParser) : parseHeader p = .ok p.parseHeader := by
  match hc : p.inputCache with
  | [] =>
    rw [parseHeader_nil hc]
    simp [parseHeader, haveBytes, WebSocketParser.haveBytes, available, hc]
    rfl
  | [b₀] =>
    rw [parseHeader_singleton hc]
    simp [parseHeader, haveBytes, WebSocketParser.haveBytes, available, dataByte,
      WebSocketParser.dataByte, advance, hc]
  | b₀ :: b₁ :: tail =>
    rw [parseHeader_start hc, parsePayloadLen_ok (headerStart_inside hc), ok_bind,
      parseHeader_cons_cons hc]
    rcases hq : (p.headerStart b₀ b₁).parsePayloadLen with ⟨ok, q⟩
    cases ok with
    | false => rfl
    | true => exact parseMaskKey_ok (payloadLen_inside hc hq) _

theorem unmask_ok {p : WebSocketParser} (hkey : p.maskKey.length = 4) {n : Nat}
    (h : p.offset + n ≤ p.inputCache.length) (i : Nat) : unmask p i n = .ok (p.unmask i n) := by
  induction n generalizing p i with
  | zero => rfl
  | succ n ih =>
    have hread : p.offset < p.inputCache.length := by omega
    have hrest : p.offset + 1 + n ≤ p.inputCache.length := by omega
    rw [unmask, dataByte_ok hread, ok_bind, keyByte_ok hkey, ok_bind, advance_ok hread, ok_bind]
    apply ih
    · exact hkey
    · exact hrest

theorem processPayload_ok {p : WebSocketParser} (hkey : p.maskKey.length = 4)
    (h : p.offset ≤ p.inputCache.length) : processPayload p = .ok p.processPayload := by
  unfold processPayload WebSocketParser.processPayload
  rw [require_of hkey, ok_bind, haveBytes_ok h, ok_bind]
  split
  · rfl
  · rename_i hb
    have hin : p.offset + p.payloadLen ≤ p.inputCache.length :=
      (haveBytes_iff h).mp (by simpa using hb)
    rw [unmask_ok hkey hin]
    rfl

theorem collect_ok (p : WebSocketParser) (data : Bytes) :
    collect p data = .ok (p.collect data) := by
  unfold collect WebSocketParser.collect
  dsimp only
  split
  · rw [parseHeader_ok, ok_bind]
    rfl
  · rfl

end Checked

/-! ## The invariant -/

/-- Between two calls, whatever the last one has returned: the offset is in the cache, and behind a
complete header the key is either missing or there as a whole. -/
structure Safe (p : WebSocketParser) : Prop where
  inside : p.offset ≤ p.inputCache.length
  key : p.headerComplete = true → p.maskKey = [] ∨ p.maskKey.length = 4

theorem safe_of_start {p : WebSocketParser} (hoff : p.offset = 0)
    (hh : p.headerComplete = false) : Safe p where
  inside := by
    rw [hoff]
    exact Nat.zero_le _
  key h := by
    rw [hh] at h
    cases h

theorem parseMaskKey_key {p : WebSocketParser} (h : p.offset ≤ p.inputCache.length) (mask : Bool) :
    (p.parseMaskKey mask).2.maskKey = [] ∨ (p.parseMaskKey mask).2.maskKey.length = 4 := by
  unfold parseMaskKey
  dsimp only
  split
  · split
    · rename_i hb
      rw [haveBytes_iff (p := { p with maskKey := [] }) h] at hb
      right
      rw [List.nil_append, data, List.length_take, List.length_drop]
      dsimp only at hb ⊢
      omega
    · exact .inl rfl
  · exact .inl rfl

theorem parseHeader_key {p : WebSocketParser} (h : p.parseHeader.1 = true) :
    p.parseHeader.2.maskKey = [] ∨ p.parseHeader.2.maskKey.length = 4 := by
  match hc : p.inputCache with
  | [] =>
    rw [parseHeader_nil hc] at h
    cases h
  | [b₀] =>
    rw [parseHeader_singleton hc] at h
    cases h
  | b₀ :: b₁ :: tail =>
    rw [parseHeader_cons_cons hc] at h ⊢
    rcases hq : (p.headerStart b₀ b₁).parsePayloadLen with ⟨ok, q⟩
    rw [hq] at h
    cases ok with
    | false => cases h
    | true => exact parseMaskKey_key (payloadLen_inside hc hq) _

theorem Safe.collect {p : WebSocketParser} (h : Safe p) (data : Bytes) : Safe (p.collect data) := by
  cases hh : p.headerComplete with
  | true =>
    rw [collect_of_complete hh]
    refine ⟨?_, fun _ => h.key hh⟩
    rw [List.length_append]
    exact Nat.le_add_right_of_le h.inside
  | false =>
    rw [collect_of_incomplete hh]
    obtain ⟨hin, -, -⟩ := parseHeader_offset { p with inputCache := p.inputCache ++ data }
    obtain ⟨hsame, -⟩ := parseHeader_sameCache { p with inputCache := p.inputCache ++ data }
    refine ⟨?_, parseHeader_key⟩
    dsimp only at hsame ⊢
    rw [hsame]
    exact hin

theorem Safe.key_of_valid {p : WebSocketParser} (h : Safe p) (hh : p.headerComplete = true)
    (hv : p.isValidFrame = true) : p.maskKey.length = 4 := by
  refine (h.key hh).resolve_left fun hnil => ?_
  rw [isValidFrame, hnil] at hv
  cases hv

theorem Safe.processPayload {p : WebSocketParser} (h : Safe p) : Safe p.processPayload := by
  unfold WebSocketParser.processPayload
  split
  · exact h
  · exact safe_of_start rfl rfl

theorem Safe.parse {p : WebSocketParser} (h : Safe p) (data : Bytes) : Safe (p.parse data).2 := by
  unfold WebSocketParser.parse
  dsimp only
  split
  · exact h
  split
  · exact h.collect data
  split
  · exact h.collect data
  · exact (h.collect data).processPayload

theorem Safe.call {p : WebSocketParser} (h : Safe p) (c : Call) : Safe (p.call c).2 := by
  cases c with
  | parse data => exact h.parse data
  | reset => exact safe_of_start rfl rfl

theorem Checked.parse_ok {p : WebSocketParser} (h : Safe p) (data : Bytes) :
    Checked.parse p data = .ok (p.parse data) := by
  have hsafe := h.collect data
  unfold Checked.parse WebSocketParser.parse
  split
  · rfl
  rw [collect_ok, ok_bind]
  dsimp only
  split
  · rfl
  rename_i hh
  split
  · rfl
  rename_i hv
  simp only [Bool.not_eq_true', Bool.not_eq_false] at hh hv
  rw [processPayload_ok (hsafe.key_of_valid hh hv) hsafe.inside]
  rfl

theorem Checked.call_ok {p : WebSocketParser} (h : Safe p) (c : Call) :
    Checked.call p c = .ok (p.call c) := by
  cases c with
  | parse data =>
    rw [Checked.call, parse_ok h]
    rfl
  | reset => rfl

end WebSocketParser

open WebSocketParser in
/-- **No fault.** For every sequence of calls of `Parse` and `Reset`, with any bytes and whatever
the calls return, no check of the code fails: the offset never leaves the cache, `HaveBytes` never
subtracts it from a smaller size, no byte outside the cache is read, and `ProcessPayload` is only
entered with a key of four bytes. -/
theorem calls_never_fault (calls : List Call) :
    run Checked.call {} calls =
        .ok (answers WebSocketParser.call {} calls, after WebSocketParser.call {} calls) ∧
      (after WebSocketParser.call {} calls).offset ≤
        (after WebSocketParser.call {} calls).inputCache.length := by
  have hcheck : ∀ p c, Safe p → Checked.call p c = .ok (p.call c) := fun _ c h =>
    Checked.call_ok h c
  have hcall : ∀ p c, Safe p → Safe (p.call c).2 := fun _ c h => h.call c
  have hinit : Safe {} := safe_of_start rfl rfl
  exact ⟨run_eq_ok hcheck hcall hinit calls, (after_invariant hcall hinit calls).inside⟩

-- The checks can fail: here the key has one byte, in a state that no sequence of calls leads to.
example : WebSocketParser.Checked.parse
    { headerComplete := true, opCode := 1, maskKey := [7] } [0] = .error .key := rfl

/-! ## After `Reset` -/

namespace WebSocketParser

/-- The parser with the opcode and the key of another frame. -/
def withFrame (p : WebSocketParser) (opCode : Nat) (maskKey : Bytes) : WebSocketParser :=
  { p with opCode, maskKey }

/-- `q` is `p` but for an opcode and a key that nothing reads any more: they count only behind a
complete header. -/
structure Alike (p q : WebSocketParser) : Prop where
  stale : ∃ opCode maskKey, q = p.withFrame opCode maskKey
  header : p.headerComplete = true → q = p

theorem Alike.complete {p q : WebSocketParser} (h : Alike p q) : q.complete = p.complete := by
  obtain ⟨-, -, rfl⟩ := h.stale
  rfl

theorem Alike.payload {p q : WebSocketParser} (h : Alike p q) : q.payload = p.payload := by
  obtain ⟨-, -, rfl⟩ := h.stale
  rfl

theorem Alike.headerComplete {p q : WebSocketParser} (h : Alike p q) :
    q.headerComplete = p.headerComplete := by
  obtain ⟨-, -, rfl⟩ := h.stale
  rfl

theorem Alike.refl (p : WebSocketParser) : Alike p p := ⟨⟨p.opCode, p.maskKey, rfl⟩, fun _ => rfl⟩

theorem alike_reset {p q : WebSocketParser} : Alike p.reset q.reset where
  stale := ⟨q.opCode, q.maskKey, rfl⟩
  header h := by cases h

theorem parsePayloadLen_maskKey (p : WebSocketParser) (maskKey : Bytes) :
    parsePayloadLen { p with maskKey } =
      (p.parsePayloadLen.1, { p.parsePayloadLen.2 with maskKey }) := by
  have hb : ∀ len, haveBytes { p with maskKey } len = p.haveBytes len := fun _ => rfl
  unfold parsePayloadLen
  simp only [hb]
  split
  · split <;> rfl
  split
  · split <;> rfl
  · rfl

/-- `ParseHeader` overwrites the opcode with the first byte, and the key before it returns
`true`. -/
theorem parseHeader_withFrame (p : WebSocketParser) (opCode : Nat) (maskKey : Bytes) :
    (p.withFrame opCode maskKey).parseHeader.1 = p.parseHeader.1 ∧
      (∃ opCode' maskKey', (p.withFrame opCode maskKey).parseHeader.2 =
        p.parseHeader.2.withFrame opCode' maskKey') ∧
      (p.parseHeader.1 = true → (p.withFrame opCode maskKey).parseHeader.2 = p.parseHeader.2) := by
  have hsame : (p.withFrame opCode maskKey).inputCache = p.inputCache := rfl
  match hc : p.inputCache with
  | [] =>
    rw [parseHeader_nil hc, parseHeader_nil (hsame.trans hc)]
    exact ⟨rfl, ⟨opCode, maskKey, rfl⟩, fun h => by cases h⟩
  | [b₀] =>
    rw [parseHeader_singleton hc, parseHeader_singleton (hsame.trans hc)]
    exact ⟨rfl, ⟨_, maskKey, rfl⟩, fun h => by cases h⟩
  | b₀ :: b₁ :: tail =>
    have hstart : (p.withFrame opCode maskKey).headerStart b₀ b₁ =
        { p.headerStart b₀ b₁ with maskKey } := rfl
    rw [parseHeader_cons_cons hc, parseHeader_cons_cons (hsame.trans hc), hstart,
      parsePayloadLen_maskKey]
    rcases (p.headerStart b₀ b₁).parsePayloadLen with ⟨ok, q⟩
    cases ok with
    | false => exact ⟨rfl, ⟨q.opCode, maskKey, rfl⟩, fun h => by cases h⟩
    | true => exact ⟨rfl, ⟨_, _, rfl⟩, fun _ => rfl⟩

theorem Alike.collect {p q : WebSocketParser} (h : Alike p q) (data : Bytes) :
    Alike (p.collect data) (q.collect data) := by
  cases hh : p.headerComplete with
  | true =>
    rw [h.header hh]
    exact Alike.refl _
  | false =>
    have hh' : q.headerComplete = false := h.headerComplete.trans hh
    obtain ⟨opCode, maskKey, rfl⟩ := h.stale
    obtain ⟨hok, ⟨opCode', maskKey', hrest⟩, htrue⟩ :=
      parseHeader_withFrame { p with inputCache := p.inputCache ++ data } opCode maskKey
    have hcol : (p.withFrame opCode maskKey).collect data =
        { (withFrame { p with inputCache := p.inputCache ++ data }
            opCode maskKey).parseHeader.2 with
          headerComplete := (withFrame { p with inputCache := p.inputCache ++ data }
            opCode maskKey).parseHeader.1 } := collect_of_incomplete hh' data
    rw [collect_of_incomplete hh, hcol, hok]
    refine ⟨⟨opCode', maskKey', ?_⟩, fun ht => ?_⟩
    · rw [hrest]
      rfl
    · rw [htrue ht]

/-- A parser with a complete header is the same on both sides, so the rest of `Parse` is too. -/
theorem Alike.parse {p q : WebSocketParser} (h : Alike p q) (data : Bytes) :
    (q.parse data).1 = (p.parse data).1 ∧ Alike (p.parse data).2 (q.parse data).2 := by
  have hcollect := h.collect data
  unfold WebSocketParser.parse
  cases data.isEmpty with
  | true => exact ⟨rfl, h⟩
  | false =>
    cases hh : (p.collect data).headerComplete with
    | true =>
      rw [hcollect.header hh]
      exact ⟨rfl, Alike.refl _⟩
    | false =>
      have hh' := hcollect.headerComplete.trans hh
      simp only [hh, hh', Bool.false_eq_true, if_false, Bool.not_false, if_true]
      exact ⟨trivial, hcollect⟩

theorem bisimulation_alike : Bisimulation call call Alike where
  answer := by
    intro p q c h
    cases c with
    | parse data =>
      obtain ⟨hok, hnext⟩ := h.parse data
      simp only [call, seen, hok, hnext.complete, hnext.payload]
    | reset => rfl
  next := by
    intro p q c h
    cases c with
    | parse data => exact (h.parse data).2
    | reset => exact alike_reset

/-- A parser that has been used for some calls, and then `Reset`. -/
def resetAfter (history : List Call) : WebSocketParser := after call {} (history ++ [.reset])

theorem resetAfter_eq (history : List Call) :
    resetAfter history = (after call {} history).reset := by
  simp only [resetAfter, after_append, after_cons, after_nil]
  rfl

end WebSocketParser

open WebSocketParser in
/-- **A reset parser is like a new one.** After any calls and a `Reset` no message is complete and
the payload is empty, and every sequence of further calls returns what it returns on a new parser:
the results of `Parse`, and after each call whether a message is complete and its payload. The
opcode and the key are still those that the calls before have left. -/
theorem reset_like_new (history later : List Call) :
    answers WebSocketParser.call (resetAfter history) later =
        answers WebSocketParser.call {} later ∧
      (resetAfter history).complete = false ∧ (resetAfter history).payload = [] ∧
      (resetAfter history).opCode = (after WebSocketParser.call {} history).opCode ∧
      (resetAfter history).maskKey = (after WebSocketParser.call {} history).maskKey := by
  rw [resetAfter_eq]
  exact ⟨bisimulation_alike.answers_eq (alike_reset (q := {})) later, rfl, rfl, rfl, rfl⟩

end Http
end CoSocket
