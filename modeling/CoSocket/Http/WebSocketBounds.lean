import CoSocket.Http.WebSocketFrames

/-!
# Http.WebSocketBounds

`WebSocketParser` on arbitrary bytes: how much it collects. `IsValidFrame` adds the declared length
to the size of the payload so far in 64 bits, so that a length just below `2 ^ 64` passes for a
small one, and the parser waits for bytes without a bound.

`bounded_iff` is about every sequence of chunks: the sizes stay within the limit if and only if no
frame passes `IsValidFrame` with a sum that does not fit in 64 bits.
-/

namespace CoSocket
namespace Http

open Base

namespace WebSocketParser

/-- The longest header: two bytes, eight of an extended length, and the key. -/
def kMaxHeader : Nat := 14

/-! ## The header of arbitrary bytes -/

theorem field_offset {p q : WebSocketParser} {n k : Nat} (h : p.offset ≤ p.inputCache.length)
    (hn : n ≤ k) (hq : q.offset = p.offset + n) {r : Bool × WebSocketParser}
    (hr : r = if p.haveBytes n then (true, q) else (false, p)) :
    r.2.offset ≤ p.inputCache.length ∧ r.2.offset ≤ p.offset + k ∧
      (r.1 = false → p.inputCache.length < p.offset + k) := by
  subst hr
  split
  · rename_i hlen
    rw [haveBytes_iff h] at hlen
    exact ⟨by dsimp only; omega, by dsimp only; omega, fun hf => by cases hf⟩
  · rename_i hlen
    rw [haveBytes_iff h] at hlen
    exact ⟨h, by dsimp only; omega, fun _ => by omega⟩

theorem parsePayloadLen_offset {p : WebSocketParser} (h : p.offset ≤ p.inputCache.length) :
    p.parsePayloadLen.2.offset ≤ p.inputCache.length ∧
      p.parsePayloadLen.2.offset ≤ p.offset + 8 ∧
      (p.parsePayloadLen.1 = false → p.inputCache.length < p.offset + 8) := by
  unfold parsePayloadLen
  split
  · exact field_offset h (by omega) rfl rfl
  · split
    · exact field_offset h (by omega) rfl rfl
    · exact ⟨h, by dsimp only; omega, fun hf => by cases hf⟩

theorem parseMaskKey_offset {p : WebSocketParser} (h : p.offset ≤ p.inputCache.length)
    (mask : Bool) :
    (p.parseMaskKey mask).2.offset ≤ p.inputCache.length ∧
      (p.parseMaskKey mask).2.offset ≤ p.offset + 4 ∧
      ((p.parseMaskKey mask).1 = false → p.inputCache.length < p.offset + 4) := by
  unfold parseMaskKey
  dsimp only
  split
  · exact field_offset (p := { p with maskKey := [] }) h (Nat.le_refl 4) rfl rfl
  · exact ⟨h, by dsimp only; omega, fun hf => by cases hf⟩

/-- The offset stays inside the cache and behind at most one header, and a header that is not
complete is shorter than the longest one. -/
theorem parseHeader_offset (p : WebSocketParser) :
    p.parseHeader.2.offset ≤ p.inputCache.length ∧ p.parseHeader.2.offset ≤ kMaxHeader ∧
      (p.parseHeader.1 = false → p.inputCache.length < kMaxHeader) := by
  match hc : p.inputCache with
  | [] => simp [parseHeader_nil hc, kMaxHeader]
  | [b₀] => simp [parseHeader_singleton hc, kMaxHeader]
  | b₀ :: b₁ :: tail =>
    have hcache : (p.headerStart b₀ b₁).inputCache = b₀ :: b₁ :: tail := hc
    have htwo : (p.headerStart b₀ b₁).offset = 2 := rfl
    obtain ⟨hoff, hlen, hshort⟩ := parsePayloadLen_offset (headerStart_inside hc)
    obtain ⟨hsame, -⟩ := parsePayloadLen_sameCache (p.headerStart b₀ b₁)
    rw [parseHeader_cons_cons hc]
    rcases hq : (p.headerStart b₀ b₁).parsePayloadLen with ⟨ok, q⟩
    rw [hq, hcache] at hoff hshort
    rw [hq, htwo] at hlen
    rw [hq, hcache] at hsame
    dsimp only at hoff hlen hshort hsame
    cases ok with
    | false => exact ⟨hoff, by unfold kMaxHeader; dsimp only; omega, fun _ => by
        have := hshort rfl
        rw [htwo] at this
        unfold kMaxHeader
        omega⟩
    | true =>
      obtain ⟨hoff', hlen', hshort'⟩ := parseMaskKey_offset (p := q) (by rw [hsame]; exact hoff)
        (0x80 &&& b₁ != 0)
      rw [hsame] at hoff' hshort'
      refine ⟨hoff', by unfold kMaxHeader; dsimp only; omega, fun hf => ?_⟩
      have := hshort' hf
      unfold kMaxHeader
      omega

/-! ## One call of `Parse` -/

/-- The sizes are within the limit: of the message as declared, and of the cache, where the last
chunk had `chunk` bytes. -/
structure Bounded (chunk : Nat) (p : WebSocketParser) : Prop where
  declared : p.headerComplete = true → p.payload.length + p.payloadLen ≤ kMaxLength
  cache : p.inputCache.length ≤ kMaxHeader + kMaxLength + chunk

/-- `IsValidFrame` passes a frame whose size does not fit in 64 bits. -/
def wraps (p : WebSocketParser) (data : Bytes) : Bool :=
  !data.isEmpty && (p.collect data).headerComplete && (p.collect data).isValidFrame &&
    decide (2 ^ 64 ≤ (p.collect data).payload.length + (p.collect data).payloadLen)

/-- What a parser holds between two calls: a part of a header, or a header and a part of the
payload. -/
structure Waiting (p : WebSocketParser) : Prop where
  header : p.headerComplete = false → p.inputCache.length < kMaxHeader
  payload : p.headerComplete = true →
    p.payload.length + p.payloadLen ≤ kMaxLength ∧ p.offset ≤ kMaxHeader ∧
      p.offset ≤ p.inputCache.length ∧ p.inputCache.length < p.offset + p.payloadLen

theorem Waiting.length_le {p : WebSocketParser} (h : Waiting p) :
    p.inputCache.length ≤ kMaxHeader + kMaxLength := by
  cases hh : p.headerComplete with
  | false =>
    have := h.header hh
    omega
  | true =>
    obtain ⟨h1, h2, -, h4⟩ := h.payload hh
    omega

theorem waiting_of_empty {p : WebSocketParser} (hc : p.inputCache = [])
    (hh : p.headerComplete = false) : Waiting p where
  header _ := by rw [hc]; decide
  payload h := by rw [hh] at h; cases h

theorem length_collect (p : WebSocketParser) (data : Bytes) :
    (p.collect data).inputCache.length = p.inputCache.length + data.length := by
  cases hh : p.headerComplete with
  | false =>
    rw [collect_of_incomplete hh, ← List.length_append]
    exact congrArg List.length (parseHeader_sameCache _).1
  | true => rw [collect_of_complete hh, List.length_append]

theorem collect_header {p : WebSocketParser} (h : Waiting p) (data : Bytes) :
    ((p.collect data).headerComplete = false → (p.collect data).inputCache.length < kMaxHeader) ∧
      ((p.collect data).headerComplete = true →
        (p.collect data).offset ≤ kMaxHeader ∧
          (p.collect data).offset ≤ (p.collect data).inputCache.length) := by
  cases hh : p.headerComplete with
  | true =>
    obtain ⟨-, hmax, hin, -⟩ := h.payload hh
    rw [collect_of_complete hh]
    refine ⟨fun hf => ?_, fun _ => ⟨hmax, ?_⟩⟩
    · rw [hh] at hf
      cases hf
    · rw [List.length_append]
      exact Nat.le_add_right_of_le hin
  | false =>
    obtain ⟨hin, hmax, hshort⟩ := parseHeader_offset { p with inputCache := p.inputCache ++ data }
    obtain ⟨hsame, -⟩ := parseHeader_sameCache { p with inputCache := p.inputCache ++ data }
    rw [collect_of_incomplete hh]
    dsimp only at hsame ⊢
    rw [hsame]
    exact ⟨hshort, fun _ => ⟨hmax, hin⟩⟩

theorem le_of_isValidFrame {p : WebSocketParser} (h : p.isValidFrame = true)
    (hlt : p.payload.length + p.payloadLen < 2 ^ 64) :
    p.payload.length + p.payloadLen ≤ kMaxLength := by
  unfold isValidFrame at h
  rw [Nat.mod_eq_of_lt hlt] at h
  split at h
  · cases h
  split at h
  · cases h
  simpa using h

theorem parse_bounded {p : WebSocketParser} {data : Bytes} (h : Waiting p)
    (hok : (p.parse data).1 = true) (hw : p.wraps data = false) :
    Waiting (p.parse data).2 ∧ (data ≠ [] → Bounded data.length (p.collect data)) := by
  unfold parse at hok ⊢
  cases hne : data.isEmpty with
  | true =>
    rw [List.isEmpty_iff] at hne
    exact ⟨h, fun hd => absurd hne hd⟩
  | false =>
    obtain ⟨hshort, hhead⟩ := collect_header h data
    have hlen : (p.collect data).inputCache.length ≤ kMaxHeader + kMaxLength + data.length := by
      have := h.length_le
      rw [length_collect]
      omega
    simp only [hne, Bool.false_eq_true, if_false] at hok ⊢
    cases hh : (p.collect data).headerComplete with
    | false =>
      simp only [Bool.not_false, if_true]
      have hnot : ¬ (p.collect data).headerComplete = true := by simp [hh]
      exact ⟨⟨hshort, fun hf => absurd hf hnot⟩, fun _ => ⟨fun hf => absurd hf hnot, hlen⟩⟩
    | true =>
      cases hv : (p.collect data).isValidFrame with
      | false => simp [hh, hv] at hok
      | true =>
        have hlt : (p.collect data).payload.length + (p.collect data).payloadLen < 2 ^ 64 := by
          simpa [wraps, hne, hh, hv] using hw
        have hle := le_of_isValidFrame hv hlt
        obtain ⟨hmax, hin⟩ := hhead hh
        refine ⟨?_, fun _ => ⟨fun _ => hle, hlen⟩⟩
        simp only [Bool.not_true, Bool.false_eq_true, if_false]
        unfold processPayload
        split
        · rename_i hmore
          have hnot : ¬ (p.collect data).headerComplete = false := by simp [hh]
          refine ⟨fun hf => absurd hf hnot, fun _ => ⟨hle, hmax, hin, ?_⟩⟩
          rw [Bool.not_eq_true', ← Bool.not_eq_true, haveBytes_iff hin] at hmore
          omega
        · exact waiting_of_empty rfl rfl

theorem wraps_parse {p : WebSocketParser} {data : Bytes} (h : p.wraps data = true) :
    (p.parse data).1 = true ∧ data ≠ [] ∧ ¬ Bounded data.length (p.collect data) := by
  simp only [wraps, Bool.and_eq_true, Bool.not_eq_true', decide_eq_true_eq] at h
  obtain ⟨⟨⟨hne, hh⟩, hv⟩, hle⟩ := h
  refine ⟨by simp [parse, hne, hh, hv], by simpa using hne, fun hb => ?_⟩
  have := hb.declared hh
  have hmax : kMaxLength < 2 ^ 64 := by decide
  omega

end WebSocketParser

/-! ## Every sequence of chunks -/

namespace Session

open WebSocketParser

theorem receive_waiting {s : Session} {c : Bytes} (h : Waiting s.parser)
    (hw : s.parser.wraps c = false) (hf : (s.receive c).failed = false) :
    Waiting (s.receive c).parser := by
  unfold receive at hf ⊢
  split at hf
  · rename_i hfailed
    rw [if_pos hfailed]
    exact h
  rename_i hfailed
  rw [if_neg hfailed]
  have hparse := @parse_bounded s.parser c h
  rcases hq : s.parser.parse c with ⟨ok, q⟩
  rw [hq] at hf hparse
  cases ok with
  | false => cases hf
  | true =>
    obtain ⟨hwait, -⟩ := hparse rfl hw
    dsimp only
    split
    · exact waiting_of_empty rfl rfl
    · exact hwait

theorem failed_receive (s : Session) (c : Bytes) :
    (s.receive c).failed = false ↔ s.failed = false ∧ (s.parser.parse c).1 = true := by
  unfold receive
  cases hf : s.failed with
  | true => simp [hf]
  | false =>
    rcases hq : s.parser.parse c with ⟨ok, q⟩
    cases ok with
    | false => simp
    | true => cases hc : q.complete <;> simp [hc]

theorem feed_snoc (s : Session) (cs : List Bytes) (c : Bytes) :
    s.feed (cs ++ [c]) = (s.feed cs).receive c := feed_append s cs [c]

theorem feed_waiting {cs : List Bytes} :
    (∀ pre c, pre ++ [c] <+: cs → (feed {} pre).failed = false →
      (feed {} pre).parser.wraps c = false) →
    (feed {} cs).failed = false → Waiting (feed {} cs).parser := by
  induction cs using List.reverseRecOn with
  | nil =>
    intro _ _
    exact waiting_of_empty rfl rfl
  | append_singleton cs c ih =>
    intro hw hf
    rw [feed_snoc] at hf ⊢
    obtain ⟨hf', -⟩ := (failed_receive _ _).mp hf
    have hwait := ih (fun pre d hp => hw pre d (hp.trans (List.prefix_append _ _))) hf'
    exact receive_waiting hwait (hw cs c List.prefix_rfl hf') hf

end Session

open WebSocketParser in
/-- **Sizes.** For every sequence of chunks, each call of `Parse` that returns `true` after calls
that did keeps the declared size of the message and the cache within their limits, while it runs and
after it, if and only if none of these calls accepts a frame whose size does not fit in 64 bits. -/
theorem bounded_iff (chunks : List Bytes) :
    (∀ pre c, pre ++ [c] <+: chunks → (Session.feed {} (pre ++ [c])).failed = false →
      (c ≠ [] → Bounded c.length ((Session.feed {} pre).parser.collect c)) ∧
        Bounded c.length (Session.feed {} (pre ++ [c])).parser) ↔
    ∀ pre c, pre ++ [c] <+: chunks → (Session.feed {} pre).failed = false →
      (Session.feed {} pre).parser.wraps c = false := by
  constructor
  · intro hb pre c hp hf
    by_contra hw
    rw [Bool.not_eq_false] at hw
    obtain ⟨hok, hne, hnot⟩ := wraps_parse hw
    have hf' : (Session.feed {} (pre ++ [c])).failed = false := by
      rw [Session.feed_snoc, Session.failed_receive]
      exact ⟨hf, hok⟩
    exact hnot ((hb pre c hp hf').1 hne)
  · intro hw pre c hp hf
    have hw' : ∀ pre' d, pre' ++ [d] <+: pre ++ [c] → (Session.feed {} pre').failed = false →
        (Session.feed {} pre').parser.wraps d = false := fun pre' d hp' => hw pre' d (hp'.trans hp)
    have hafter := Session.feed_waiting hw' hf
    rw [Session.feed_snoc, Session.failed_receive] at hf
    have hbefore := Session.feed_waiting
      (fun pre' d hp' => hw' pre' d (hp'.trans (List.prefix_append _ _))) hf.1
    refine ⟨(parse_bounded hbefore hf.2 (hw pre c hp hf.1)).2, ?_, ?_⟩
    · intro hh
      exact (hafter.payload hh).1
    · exact Nat.le_add_right_of_le hafter.length_le

/-- A fragment of one byte, and the header of a frame that declares `2 ^ 64 - 1` bytes. -/
def wrappingChunks : List Bytes :=
  [[0x01, 0x81, 1, 2, 3, 4, 0x60],
    [0x80, 0xFF, 0xFF, 0xFF, 0xFF, 0xFF, 0xFF, 0xFF, 0xFF, 0xFF, 1, 2, 3, 4]]

/-- Both are accepted, and the parser waits for the `2 ^ 64 - 1` bytes. -/
theorem declared_wraps :
    (Session.feed {} wrappingChunks).failed = false ∧
    (Session.feed {} wrappingChunks).parser.headerComplete = true ∧
    (Session.feed {} wrappingChunks).parser.payload.length = 1 ∧
    (Session.feed {} wrappingChunks).parser.payloadLen = 18446744073709551615 := by
  decide +kernel

end Http
end CoSocket
