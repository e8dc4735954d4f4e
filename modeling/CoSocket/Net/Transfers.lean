import CoSocket.Lib.Loop
import CoSocket.Net.TimedOut

/-!
# Net.Transfers

`ReadFull` and `WriteAll` of `net/CoSocket.cpp`, the loops that call `Read` and `Write` until a
whole buffer has been transferred, and the codes that end them early.

A loop is given what its calls return: `ret i n` is the result of the `i`-th call when it asks for
`n` bytes. No buffer has `2^63` bytes or more, so that no count is negative as a `ssize_t` and the
unsigned offsets of the loops are plain numbers here.
-/

namespace CoSocket
namespace Net

open Base Lts Loop

/-! ## The loops -/

/-- What the calls of one loop return; a count is within the size the call asks for. -/
structure Outcomes where
  ret : Nat → Nat → Ret
  within : ∀ i n k, ret i n = .ok k → k ≤ n

/-- `Write` of something accepts a byte at least, or fails. -/
structure WriteOutcomes extends Outcomes where
  accepts : ∀ i n, 0 < n → ret i n ≠ .ok 0

/-- The state of `WriteAll`: the calls it has made, `writeBytes`, and what the kernel has been
given by them. -/
structure Sending where
  calls : Nat := 0
  writeBytes : Nat := 0
  sent : List UInt8 := []
deriving DecidableEq, Repr

/-- One round of the loop of `WriteAll`. -/
def writeRound (ret : Nat → Nat → Ret) (buffer : List UInt8) (size : Nat) (t : Sending) :
    Round Sending (Ret × Sending) :=
  if t.writeBytes < size then
    match ret t.calls (size - t.writeBytes) with
    | .ok n =>
      .again
        { calls := t.calls + 1
          writeBytes := t.writeBytes + n
          sent := t.sent ++ (buffer.drop t.writeBytes).take n }
    | .err e => .leave (.err e, { t with calls := t.calls + 1 })
    | .etime => .leave (.etime, { t with calls := t.calls + 1 })
  else .leave (.ok t.writeBytes, t)

/-- `WriteAll` -/
def writeAll (ret : Nat → Nat → Ret) (buffer : List UInt8) (size fuel : Nat) :
    Option (Ret × Sending) :=
  loop (writeRound ret buffer size) fuel {}

/-- The state of `ReadFull`: the calls it has made, the position of the kernel in the stream,
`readBytes` and the buffer. -/
structure Reading where
  calls : Nat := 0
  pos : Nat
  readBytes : Nat := 0
  buffer : List UInt8
deriving DecidableEq, Repr

/-- The buffer after `bytes` have been stored at `offset`. -/
def storeAt (buffer : List UInt8) (offset : Nat) (bytes : List UInt8) : List UInt8 :=
  buffer.take offset ++ bytes ++ buffer.drop (offset + bytes.length)

/-- The `n` bytes of the stream from `pos` on. -/
def received (stream : Nat → UInt8) (pos n : Nat) : List UInt8 :=
  (List.range n).map fun i => stream (pos + i)

/-- One round of the loop of `ReadFull`. -/
def readRound (ret : Nat → Nat → Ret) (stream : Nat → UInt8) (size : Nat) (t : Reading) :
    Round Reading (Ret × Reading) :=
  if t.readBytes < size then
    match ret t.calls (size - t.readBytes) with
    | .ok n =>
      if n = 0 then .leave (.ok t.readBytes, { t with calls := t.calls + 1 })
      else
        .again
          { calls := t.calls + 1
            pos := t.pos + n
            readBytes := t.readBytes + n
            buffer := storeAt t.buffer t.readBytes (received stream t.pos n) }
    | .err e => .leave (.err e, { t with calls := t.calls + 1 })
    | .etime => .leave (.etime, { t with calls := t.calls + 1 })
  else .leave (.ok t.readBytes, t)

/-- `ReadFull`, with the kernel at `pos` in the stream. -/
def readFull (ret : Nat → Nat → Ret) (stream : Nat → UInt8) (pos : Nat) (buffer : List UInt8)
    (size fuel : Nat) : Option (Ret × Reading) :=
  loop (readRound ret stream size) fuel { pos, buffer }

/-! ## One round -/

theorem writeRound_cases (ret : Nat → Nat → Ret) (buffer : List UInt8) (size : Nat) (t : Sending) :
    (∃ n, t.writeBytes < size ∧ ret t.calls (size - t.writeBytes) = .ok n ∧
      writeRound ret buffer size t = .again
        { calls := t.calls + 1
          writeBytes := t.writeBytes + n
          sent := t.sent ++ (buffer.drop t.writeBytes).take n }) ∨
    (∃ r, t.writeBytes < size ∧ ret t.calls (size - t.writeBytes) = r ∧ (∀ n, r ≠ .ok n) ∧
      writeRound ret buffer size t = .leave (r, { t with calls := t.calls + 1 })) ∨
    size ≤ t.writeBytes ∧ writeRound ret buffer size t = .leave (.ok t.writeBytes, t) := by
  by_cases hlt : t.writeBytes < size
  · cases hr : ret t.calls (size - t.writeBytes) with
    | ok n => exact .inl ⟨n, hlt, rfl, by simp only [writeRound, hlt, if_true, hr]⟩
    | err e =>
      exact .inr (.inl ⟨.err e, hlt, rfl, by simp, by simp only [writeRound, hlt, if_true, hr]⟩)
    | etime =>
      exact .inr (.inl ⟨.etime, hlt, rfl, by simp, by simp only [writeRound, hlt, if_true, hr]⟩)
  · exact .inr (.inr ⟨Nat.not_lt.mp hlt, by simp only [writeRound, hlt, if_false]⟩)

theorem readRound_cases (ret : Nat → Nat → Ret) (stream : Nat → UInt8) (size : Nat) (t : Reading) :
    (∃ n, t.readBytes < size ∧ ret t.calls (size - t.readBytes) = .ok n ∧ n ≠ 0 ∧
      readRound ret stream size t = .again
        { calls := t.calls + 1
          pos := t.pos + n
          readBytes := t.readBytes + n
          buffer := storeAt t.buffer t.readBytes (received stream t.pos n) }) ∨
    (t.readBytes < size ∧ ret t.calls (size - t.readBytes) = .ok 0 ∧
      readRound ret stream size t = .leave (.ok t.readBytes, { t with calls := t.calls + 1 })) ∨
    (∃ r, t.readBytes < size ∧ ret t.calls (size - t.readBytes) = r ∧ (∀ n, r ≠ .ok n) ∧
      readRound ret stream size t = .leave (r, { t with calls := t.calls + 1 })) ∨
    size ≤ t.readBytes ∧ readRound ret stream size t = .leave (.ok t.readBytes, t) := by
  by_cases hlt : t.readBytes < size
  · cases hr : ret t.calls (size - t.readBytes) with
    | ok n =>
      by_cases hn : n = 0
      · subst hn
        exact .inr (.inl ⟨hlt, rfl, by simp only [readRound, hlt, if_true, hr]⟩)
      · exact .inl ⟨n, hlt, rfl, hn, by simp only [readRound, hlt, if_true, hr, hn, if_false]⟩
    | err e =>
      exact .inr (.inr (.inl
        ⟨.err e, hlt, rfl, by simp, by simp only [readRound, hlt, if_true, hr]⟩))
    | etime =>
      exact .inr (.inr (.inl
        ⟨.etime, hlt, rfl, by simp, by simp only [readRound, hlt, if_true, hr]⟩))
  · exact .inr (.inr (.inr ⟨Nat.not_lt.mp hlt, by simp only [readRound, hlt, if_false]⟩))

/-! ## The counts -/

/-- The first calls of a loop return the counts `ns`, each of them asked for what is left of `size`
behind the counts before it. -/
def Returns (ret : Nat → Nat → Ret) (size : Nat) (ns : List Nat) : Prop :=
  ∀ i n, ns[i]? = some n → ret i (size - (ns.take i).sum) = .ok n

theorem Returns.nil (ret : Nat → Nat → Ret) (size : Nat) : Returns ret size [] := by
  intro i n h
  simp at h

theorem Returns.snoc {ret : Nat → Nat → Ret} {size n : Nat} {ns : List Nat}
    (h : Returns ret size ns) (hn : ret ns.length (size - ns.sum) = .ok n) :
    Returns ret size (ns ++ [n]) := by
  intro i k hi
  rcases Nat.lt_trichotomy i ns.length with hlt | rfl | hgt
  · rw [List.getElem?_append_left hlt] at hi
    rw [List.take_append_of_le_length hlt.le]
    exact h i k hi
  · rw [List.getElem?_concat_length] at hi
    cases hi
    rw [List.take_left]
    exact hn
  · rw [List.getElem?_eq_none (by simpa using hgt)] at hi
    cases hi

/-! ## What is sent -/

/-- What `WriteAll` has done with `bytes` when it returns `r`, if its calls that accept something
return the counts `ns`: it has given the kernel as many of the first bytes as these, all of them
exactly if it returns their number, and otherwise `r` is the error of one more call. -/
structure Handed (ret : Nat → Nat → Ret) (bytes : List UInt8) (ns : List Nat) (r : Ret)
    (t : Sending) : Prop where
  counts : Returns ret bytes.length ns
  inOrder : t.sent <+: bytes
  total : t.sent.length = ns.sum
  all_iff : r = .ok bytes.length ↔ t.sent = bytes
  done : r = .ok bytes.length → t.calls = ns.length
  failed : r ≠ .ok bytes.length →
    (∀ n, r ≠ .ok n) ∧ t.calls = ns.length + 1 ∧ ret ns.length (bytes.length - ns.sum) = r

/-- Between two rounds of `WriteAll` the first `writeBytes` bytes have been given to the kernel. -/
structure SentSoFar (ret : Nat → Nat → Ret) (buffer : List UInt8) (size : Nat) (t : Sending) :
    Prop where
  le : t.writeBytes ≤ size
  sent : t.sent = buffer.take t.writeBytes
  counts : ∃ ns, Returns ret size ns ∧ t.calls = ns.length ∧ t.writeBytes = ns.sum

theorem sent_again {o : WriteOutcomes} {buffer : List UInt8} {size : Nat} {t t' : Sending}
    (h : SentSoFar o.ret buffer size t) (hb : writeRound o.ret buffer size t = .again t') :
    SentSoFar o.ret buffer size t' ∧ size - t'.writeBytes < size - t.writeBytes := by
  obtain ⟨n, hlt, hr, hagain⟩ | ⟨r, -, -, -, hleave⟩ | ⟨-, hleave⟩ :=
    writeRound_cases o.ret buffer size t
  · cases hagain.symm.trans hb
    have hle : n ≤ size - t.writeBytes := o.within _ _ _ hr
    have hpos : n ≠ 0 := by
      rintro rfl
      exact o.accepts _ _ (Nat.sub_pos_of_lt hlt) hr
    obtain ⟨ns, hns, hcalls, hsum⟩ := h.counts
    rw [hcalls, hsum] at hr
    refine ⟨⟨?_, ?_, ns ++ [n], hns.snoc hr, ?_, ?_⟩, ?_⟩
    · simp only
      omega
    · simp only [h.sent, List.take_add]
    · simp [hcalls]
    · simp [hsum]
    · simp only
      omega
  · cases hleave.symm.trans hb
  · cases hleave.symm.trans hb

theorem handed_of_leave {o : WriteOutcomes} {buffer : List UInt8} {size : Nat} {t : Sending}
    {r : Ret × Sending} (hsize : size ≤ buffer.length) (h : SentSoFar o.ret buffer size t)
    (hb : writeRound o.ret buffer size t = .leave r) :
    ∃ ns, Handed o.ret (buffer.take size) ns r.1 r.2 := by
  have hlen : (buffer.take size).length = size := List.length_take_of_le hsize
  have hbegins : t.sent <+: buffer.take size := by
    rw [h.sent]
    exact List.take_prefix_take_left h.le
  have hsent : t.sent.length = t.writeBytes := by
    rw [h.sent, List.length_take_of_le (Nat.le_trans h.le hsize)]
  obtain ⟨ns, hns, hcalls, hsum⟩ := h.counts
  rw [← hlen] at hns
  obtain ⟨n, -, -, hagain⟩ | ⟨r', hlt, hr, hne, hleave⟩ | ⟨hle, hleave⟩ :=
    writeRound_cases o.ret buffer size t
  · cases hagain.symm.trans hb
  · cases hleave.symm.trans hb
    rw [hcalls, hsum] at hr
    refine ⟨ns, hns, hbegins, hsent.trans hsum, ⟨fun he => absurd he (hne _), fun he => ?_⟩,
      fun he => absurd he (hne _), fun _ => ⟨hne, congrArg (· + 1) hcalls, ?_⟩⟩
    · -- a failed call leaves something to write
      have hl : t.sent.length = size := (congrArg List.length he).trans hlen
      omega
    · rw [hlen]
      exact hr
  · cases hleave.symm.trans hb
    have heq : t.writeBytes = size := Nat.le_antisymm h.le hle
    refine ⟨ns, hns, hbegins, hsent.trans hsum, ⟨fun _ => ?_, fun _ => ?_⟩, fun _ => hcalls,
      fun hne => absurd ?_ hne⟩
    · simp only [h.sent, heq]
    · simp only [heq, hlen]
    · simp only [heq, hlen]

/-! ## What is received -/

/-- What `ReadFull` has done when it returns `r`, if its calls that find something return the counts
`ns`: the buffer starts with as many of the bytes that come next in the stream, nothing behind them
has changed, and `r` is their number unless one more call failed; a number below `size` means that
one more call found the end of the stream. -/
structure Filled (ret : Nat → Nat → Ret) (stream : Nat → UInt8) (pos : Nat) (buffer : List UInt8)
    (size : Nat) (ns : List Nat) (r : Ret) (t : Reading) : Prop where
  counts : Returns ret size ns
  found : ∀ n ∈ ns, n ≠ 0
  total : t.readBytes = ns.sum
  within : t.readBytes ≤ size
  consumed : t.pos = pos + t.readBytes
  inOrder : t.buffer = received stream pos t.readBytes ++ buffer.drop t.readBytes
  count : ∀ n, r = .ok n → n = t.readBytes
  full : r = .ok size → t.calls = ns.length
  short : ∀ n, r = .ok n → n < size → t.calls = ns.length + 1 ∧ ret ns.length (size - n) = .ok 0
  failed : (∀ n, r ≠ .ok n) → t.calls = ns.length + 1 ∧ ret ns.length (size - t.readBytes) = r

/-- Between two rounds of `ReadFull` the first `readBytes` bytes of the buffer are filled. -/
structure ReadSoFar (ret : Nat → Nat → Ret) (stream : Nat → UInt8) (pos : Nat)
    (buffer : List UInt8) (size : Nat) (t : Reading) : Prop where
  le : t.readBytes ≤ size
  consumed : t.pos = pos + t.readBytes
  buffer : t.buffer = received stream pos t.readBytes ++ buffer.drop t.readBytes
  counts : ∃ ns, Returns ret size ns ∧ (∀ n ∈ ns, n ≠ 0) ∧ t.calls = ns.length ∧
    t.readBytes = ns.sum

@[simp] theorem length_received (stream : Nat → UInt8) (pos n : Nat) :
    (received stream pos n).length = n := by
  simp [received]

theorem received_add (stream : Nat → UInt8) (pos m n : Nat) :
    received stream pos (m + n) = received stream pos m ++ received stream (pos + m) n := by
  simp only [received, List.range_add, List.map_append, List.map_map]
  congr 1
  refine List.map_congr_left fun i _ => ?_
  simp only [Function.comp_apply, Nat.add_assoc]

theorem storeAt_received (stream : Nat → UInt8) (pos m n : Nat) (buffer : List UInt8) :
    storeAt (received stream pos m ++ buffer.drop m) m (received stream (pos + m) n) =
      received stream pos (m + n) ++ buffer.drop (m + n) := by
  have htake : (received stream pos m ++ buffer.drop m).take m = received stream pos m :=
    List.take_left' (length_received stream pos m)
  have hdrop : (received stream pos m ++ buffer.drop m).drop (m + n) = buffer.drop (m + n) := by
    rw [List.drop_append, length_received, List.drop_eq_nil_of_le (by simp), List.nil_append,
      Nat.add_sub_cancel_left, List.drop_drop]
  rw [storeAt, length_received, htake, hdrop, received_add]

theorem read_again {o : Outcomes} {stream : Nat → UInt8} {pos size : Nat} {buffer : List UInt8}
    {t t' : Reading} (h : ReadSoFar o.ret stream pos buffer size t)
    (hb : readRound o.ret stream size t = .again t') :
    ReadSoFar o.ret stream pos buffer size t' ∧ size - t'.readBytes < size - t.readBytes := by
  obtain ⟨n, hlt, hr, hn, hagain⟩ | ⟨-, -, hleave⟩ | ⟨r, -, -, -, hleave⟩ | ⟨-, hleave⟩ :=
    readRound_cases o.ret stream size t
  · cases hagain.symm.trans hb
    have hle : n ≤ size - t.readBytes := o.within _ _ _ hr
    obtain ⟨ns, hns, hfound, hcalls, hsum⟩ := h.counts
    rw [hcalls, hsum] at hr
    refine ⟨⟨?_, ?_, ?_, ns ++ [n], hns.snoc hr, ?_, ?_, ?_⟩, ?_⟩
    · simp only
      omega
    · simp only [h.consumed, Nat.add_assoc]
    · simp only [h.buffer, h.consumed]
      exact storeAt_received stream pos t.readBytes n buffer
    · intro k hk
      rcases List.mem_append.mp hk with hk | hk
      · exact hfound k hk
      · rwa [List.mem_singleton.mp hk]
    · simp [hcalls]
    · simp [hsum]
    · simp only
      omega
  · cases hleave.symm.trans hb
  · cases hleave.symm.trans hb
  · cases hleave.symm.trans hb

theorem filled_of_leave {o : Outcomes} {stream : Nat → UInt8} {pos size : Nat}
    {buffer : List UInt8} {t : Reading} {r : Ret × Reading}
    (h : ReadSoFar o.ret stream pos buffer size t) (hb : readRound o.ret stream size t = .leave r) :
    ∃ ns, Filled o.ret stream pos buffer size ns r.1 r.2 := by
  obtain ⟨ns, hns, hfound, hcalls, hsum⟩ := h.counts
  have hmore : t.calls + 1 = ns.length + 1 := congrArg (· + 1) hcalls
  obtain ⟨n, -, -, -, hagain⟩ | ⟨hlt, hr, hleave⟩ | ⟨r', hlt, hr, hne, hleave⟩ | ⟨hle, hleave⟩ :=
    readRound_cases o.ret stream size t
  · cases hagain.symm.trans hb
  · -- the end of the stream
    cases hleave.symm.trans hb
    rw [hcalls] at hr
    refine ⟨ns, hns, hfound, hsum, h.le, h.consumed, h.buffer, ?_, ?_, ?_,
      fun hne => absurd rfl (hne _)⟩
    · rintro n ⟨⟩
      rfl
    · intro hfull
      exact absurd (Ret.ok.inj hfull) hlt.ne
    · rintro n ⟨⟩ -
      exact ⟨hmore, hr⟩
  · cases hleave.symm.trans hb
    rw [hcalls] at hr
    exact ⟨ns, hns, hfound, hsum, h.le, h.consumed, h.buffer, fun n he => absurd he (hne n),
      fun he => absurd he (hne _), fun n he => absurd he (hne n), fun _ => ⟨hmore, hr⟩⟩
  · -- the buffer is full
    cases hleave.symm.trans hb
    refine ⟨ns, hns, hfound, hsum, h.le, h.consumed, h.buffer, ?_, fun _ => hcalls, ?_,
      fun hne => absurd rfl (hne _)⟩
    · rintro n ⟨⟩
      rfl
    · rintro n ⟨⟩ hlt
      exact absurd hlt (Nat.not_lt.mpr hle)

/-- **`WriteAll` and `ReadFull`.** Whatever the calls of `Write` return, `WriteAll` ends and has
given the kernel the bytes of the buffer from the first one on, each once and in order and as many
as the calls accepted, all of them exactly if it returns `size`; whatever the calls of `Read`
return, `ReadFull` ends with the buffer filled from its beginning by the bytes that come next in the
stream, as many as the calls found, and returns their number or the error of the last call. -/
theorem transfers_exact {buffer : List UInt8} {size : Nat} (hsize : size ≤ buffer.length) :
    (∀ o : WriteOutcomes, ∃ r t ns,
      (∀ fuel, size < fuel → writeAll o.ret buffer size fuel = some (r, t)) ∧
      Handed o.ret (buffer.take size) ns r t) ∧
    ∀ (o : Outcomes) (stream : Nat → UInt8) (pos : Nat), ∃ r t ns,
      (∀ fuel, size < fuel → readFull o.ret stream pos buffer size fuel = some (r, t)) ∧
      Filled o.ret stream pos buffer size ns r t := by
  constructor
  · intro o
    obtain ⟨⟨r, t⟩, ⟨ns, hpost⟩, hends⟩ := loop_ends (writeRound o.ret buffer size)
      (fun _ _ h hb => sent_again h hb) (fun _ _ h hb => handed_of_leave hsize h hb)
      (s := {}) ⟨Nat.zero_le _, rfl, [], .nil _ _, rfl, rfl⟩
    exact ⟨r, t, ns, hends, hpost⟩
  · intro o stream pos
    obtain ⟨⟨r, t⟩, ⟨ns, hpost⟩, hends⟩ := loop_ends (readRound o.ret stream size)
      (fun _ _ h hb => read_again h hb) (fun _ _ h hb => filled_of_leave h hb)
      (s := { pos, buffer }) ⟨Nat.zero_le _, rfl, rfl, [], .nil _ _, by simp, rfl, rfl⟩
    exact ⟨r, t, ns, hends, hpost⟩

/-- Calls that transfer two bytes at most. -/
def twoAtATime : WriteOutcomes where
  ret _ n := .ok (min n 2)
  within i n k h := by
    cases h
    exact Nat.min_le_left n 2
  accepts i n hn h := by
    have h0 : min n 2 = 0 := Ret.ok.inj h
    omega

theorem transfers_exact_twoAtATime :
    writeAll twoAtATime.ret [1, 2, 3, 4, 5] 3 4 = some (.ok 3, ⟨2, 3, [1, 2, 3]⟩) ∧
    (∃ ns, Handed twoAtATime.ret [1, 2, 3] ns (.ok 3) ⟨2, 3, [1, 2, 3]⟩) ∧
    readFull twoAtATime.ret UInt8.ofNat 7 [1, 2, 3, 4, 5] 3 4 =
      some (.ok 3, ⟨2, 10, 3, [7, 8, 9, 4, 5]⟩) ∧
    ∃ ns, Filled twoAtATime.ret UInt8.ofNat 7 [1, 2, 3, 4, 5] 3 ns (.ok 3)
      ⟨2, 10, 3, [7, 8, 9, 4, 5]⟩ := by
  have hwrite : writeAll twoAtATime.ret [1, 2, 3, 4, 5] 3 4 =
      some (.ok 3, ⟨2, 3, [1, 2, 3]⟩) := by
    decide
  have hread : readFull twoAtATime.ret UInt8.ofNat 7 [1, 2, 3, 4, 5] 3 4 =
      some (.ok 3, ⟨2, 10, 3, [7, 8, 9, 4, 5]⟩) := by
    decide
  have hsize : 3 ≤ ([1, 2, 3, 4, 5] : List UInt8).length := by decide
  obtain ⟨hsend, hreceive⟩ := transfers_exact hsize
  obtain ⟨r, t, ns, hends, hhanded⟩ := hsend twoAtATime
  cases (hends 4 (by decide)).symm.trans hwrite
  obtain ⟨r', t', ns', hends', hfilled⟩ := hreceive twoAtATime.toOutcomes UInt8.ofNat 7
  cases (hends' 4 (by decide)).symm.trans hread
  exact ⟨hwrite, ⟨ns, hhanded⟩, hread, ns', hfilled⟩

/-! ## The second attempt -/

/-- A code on which the first attempt of `Read`, `Write` and `Accept` waits. -/
def SysRet.transient : SysRet → Bool
  | .err e => e ∈ [.EAGAIN, .EWOULDBLOCK, .EINTR]
  | .ok _ => false

/-- The same code as a value returned. -/
def Ret.transient : Ret → Bool
  | .err e => e ∈ [.EAGAIN, .EWOULDBLOCK, .EINTR]
  | _ => false

/-- `Read`, `Write` or `Accept` makes its second attempt in this step, and it fails with a code on
which the first one waits. -/
def St.failsAgain (s : St) : Act → Bool
  | .io call sys =>
    call.kind ≠ .connect && s.rejects call sys && !s.handlingTimeout && sys.retry.transient
  | .wake retry =>
    match s.resumedIn with
    | some (.io call _) => call.kind ≠ .connect && !s.handlingTimeout && retry.transient
    | _ => false
  | _ => false

theorem IoKind.first_transient {k : IoKind} {r : SysRet} {ret : Ret} (hk : k ≠ .connect)
    (h : k.spec.first r = some ret) : ret.transient = false := by
  cases r with
  | ok n =>
    cases k with
    | connect => exact absurd rfl hk
    | accept | read | write =>
      cases h
      rfl
  | err e =>
    cases k with
    | connect => exact absurd rfl hk
    | accept | read | write =>
      simp only [IoKind.spec, acceptSpec, readSpec, writeSpec, CallSpec.onErrors] at h
      split at h
      · cases h
      · rename_i he
        cases h
        simp only [List.mem_cons, List.not_mem_nil, or_false, not_or] at he
        simp [Ret.transient, he]

theorem IoKind.retry_transient {k : IoKind} (hk : k ≠ .connect) (r : SysRet) :
    (k.spec.retry r).transient = r.transient := by
  cases k with
  | connect => exact absurd rfl hk
  | accept | read | write => cases r <;> rfl

/-- A call that does not wait returns what its first attempt gives, or 0 with nothing to write. -/
theorem St.ioCall_of_not_blocks {s : St} {call : IoCall} {sys : Sys}
    (hb : call.blocks sys = false) :
    ∃ ret, s.ioCall call sys = .ok (s, some ret) ∧
      (ret = .ok 0 ∨ call.kind.spec.first sys.first = some ret) := by
  rcases ioCall_eq s call sys with ⟨he, -⟩ | ⟨he, hne⟩
  · exact ⟨.ok 0, he, .inl rfl⟩
  · cases hf : call.kind.spec.first sys.first with
    | some ret => exact ⟨ret, by rw [he, blockingCall, hf], .inr rfl⟩
    | none =>
      rw [IoCall.blocks_iff.mpr ⟨hne, hf⟩] at hb
      cases hb

/-- A call that has been resumed returns what its second attempt gives, unless a timeout is being
handled. -/
theorem returned_resumed {s s' : St} {call : IoCall} {reg : Nat} {retry : SysRet}
    (hin : s.resumedIn = some (.io call reg)) (h : s.step (.wake retry) = .next s') :
    s.returned (.wake retry) =
      some (call, if s.handlingTimeout then .etime else call.kind.spec.retry retry) := by
  obtain ⟨-, c, hc, -⟩ := St.resumedIn_some hin
  simp only [St.step, hin] at h
  split at h
  · simp only [St.returned, hin]
    split at h
    · cases h
    · rename_i s₁ ret hcall
      rw [hcall]
      rw [St.wakeCall, St.leaveCall_eq hc] at hcall
      obtain ⟨hret, -⟩ := St.finishCall_ok hcall
      rw [hret]
  · cases h

theorem transient_second {s : St} {k : IoKind} (hk : k ≠ .connect) (r : SysRet) :
    (if s.handlingTimeout then Ret.etime else k.spec.retry r).transient =
      (!s.handlingTimeout && r.transient) := by
  cases s.handlingTimeout with
  | true => rfl
  | false => exact IoKind.retry_transient hk r

theorem returned_suspended {s s' : St} {call : IoCall} {sys : Sys}
    (h : s.step (.io call sys) = .next s') (hb : call.blocks sys = true)
    (hrej : ¬ s.rejects call sys = true) : s.returned (.io call sys) = none := by
  obtain ⟨-, c, hc, -⟩ := St.inUser_iff.mp (inUser_of_step_io h)
  simp only [St.returned]
  split
  · rename_i s₁ ret hio
    generalize hr : some ret = r at hio
    cases St.ioCall_ok hc hio with
    | returned hb' =>
      rw [hb] at hb'
      cases hb'
    | rejected _ hslot => exact absurd (St.rejects_iff.mpr ⟨hb, hslot⟩) hrej
    | suspended => cases hr
  · rfl

theorem returned_transient {s s' : St} {a : Act} {call : IoCall} {ret : Ret}
    (h : s.step a = .next s') (hret : s.returned a = some (call, ret))
    (hk : call.kind ≠ .connect) : ret.transient = s.failsAgain a := by
  cases a with
  | io call' sys =>
    by_cases hrej : s.rejects call' sys = true
    · rw [returned_rejected hrej h] at hret
      cases hret
      simp [St.failsAgain, hrej, hk, transient_second hk]
    · have hfail : s.failsAgain (.io call' sys) = false := by simp [St.failsAgain, hrej]
      rw [hfail]
      cases hb : call'.blocks sys with
      | true =>
        rw [returned_suspended h hb hrej] at hret
        cases hret
      | false =>
        obtain ⟨ret', hio, hfirst⟩ := St.ioCall_of_not_blocks (s := s) hb
        simp only [St.returned, hio] at hret
        cases hret
        rcases hfirst with rfl | hfirst
        · rfl
        · exact IoKind.first_transient hk hfirst
  | wake retry =>
    cases hin : s.resumedIn with
    | none => simp [St.returned, hin] at hret
    | some w =>
      cases w with
      | condition condition => simp [St.returned, hin] at hret
      | io call' reg =>
        rw [returned_resumed hin h] at hret
        cases hret
        simp [St.failsAgain, hin, hk, transient_second hk]
  | _ => cases hret

theorem exists_returned {s s' : St} {a : Act} (h : s.step a = .next s')
    (hfail : s.failsAgain a = true) :
    ∃ call ret, s.returned a = some (call, ret) ∧ call.kind ≠ .connect := by
  cases a with
  | io call sys =>
    simp only [St.failsAgain, Bool.and_eq_true, decide_eq_true_eq] at hfail
    obtain ⟨⟨⟨hk, hrej⟩, -⟩, -⟩ := hfail
    exact ⟨_, _, returned_rejected hrej h, hk⟩
  | wake retry =>
    simp only [St.failsAgain] at hfail
    split at hfail
    · rename_i call reg hin
      simp only [Bool.and_eq_true, decide_eq_true_eq] at hfail
      exact ⟨_, _, returned_resumed hin h, hfail.1.1⟩
    · cases hfail
  | _ => cases hfail

theorem readFull_error {ret : Nat → Nat → Ret} {stream : Nat → UInt8} {pos : Nat}
    {buffer : List UInt8} {size fuel : Nat} {r : Ret} {t : Reading}
    (h : readFull ret stream pos buffer size fuel = some (r, t)) :
    (∃ n, r = .ok n) ∨ ∃ i n, ret i n = r ∧ ∀ k, r ≠ .ok k := by
  refine loop_result
    (Q := fun r => (∃ n, r.1 = .ok n) ∨ ∃ i n, ret i n = r.1 ∧ ∀ k, r.1 ≠ .ok k)
    (fun t r hb => ?_) h
  obtain ⟨n, -, -, -, hagain⟩ | ⟨-, -, hleave⟩ | ⟨r', -, hr, hne, hleave⟩ | ⟨-, hleave⟩ :=
    readRound_cases ret stream size t
  · cases hagain.symm.trans hb
  · cases hleave.symm.trans hb
    exact .inl ⟨_, rfl⟩
  · cases hleave.symm.trans hb
    exact .inr ⟨_, _, hr, hne⟩
  · cases hleave.symm.trans hb
    exact .inl ⟨_, rfl⟩

theorem writeAll_error {ret : Nat → Nat → Ret} {buffer : List UInt8} {size fuel : Nat} {r : Ret}
    {t : Sending} (h : writeAll ret buffer size fuel = some (r, t)) :
    (∃ n, r = .ok n) ∨ ∃ i n, ret i n = r ∧ ∀ k, r ≠ .ok k := by
  refine loop_result
    (Q := fun r => (∃ n, r.1 = .ok n) ∨ ∃ i n, ret i n = r.1 ∧ ∀ k, r.1 ≠ .ok k)
    (fun t r hb => ?_) h
  obtain ⟨n, -, -, hagain⟩ | ⟨r', -, hr, hne, hleave⟩ | ⟨-, hleave⟩ :=
    writeRound_cases ret buffer size t
  · cases hagain.symm.trans hb
  · cases hleave.symm.trans hb
    exact .inr ⟨_, _, hr, hne⟩
  · cases hleave.symm.trans hb
    exact .inl ⟨_, rfl⟩

/-- A call of this kind returns `r` in a step of the run. -/
def ReturnedIn (s₀ : St) (acts : List Act) (kind : IoKind) (r : Ret) : Prop :=
  ∃ pre a s call, pre ++ [a] <+: acts ∧ exec St.step s₀ pre = .next s ∧
    s.returned a = some (call, r) ∧ call.kind = kind

/-- The calls of a loop fail only as calls of this kind do in the run. -/
def FailsAsIn (s₀ : St) (acts : List Act) (kind : IoKind) (ret : Nat → Nat → Ret) : Prop :=
  ∀ i n, (∀ k, ret i n ≠ .ok k) → ReturnedIn s₀ acts kind (ret i n)

/-- **No code to wait on is returned.** In every run, no `Read`, `Write` or `Accept` returns
`-EAGAIN`, `-EWOULDBLOCK` or `-EINTR` and no `ReadFull` or `WriteAll` over such calls gives up with
one of them, if and only if no second attempt of the run fails with one of them: its error is handed
on as it is. -/
theorem no_transient_iff {isOpen : Std.ExtTreeSet Int} {acts : List Act} {s' : St}
    (h : exec St.step (St.init isOpen) acts = .next s') :
    ((∀ kind r, kind ≠ .connect → ReturnedIn (St.init isOpen) acts kind r →
        r.transient = false) ∧
      (∀ ret, FailsAsIn (St.init isOpen) acts .read ret →
        ∀ stream pos buffer size fuel r t,
          readFull ret stream pos buffer size fuel = some (r, t) → r.transient = false) ∧
      ∀ ret, FailsAsIn (St.init isOpen) acts .write ret →
        ∀ buffer size fuel r t, writeAll ret buffer size fuel = some (r, t) →
          r.transient = false) ↔
    Along St.step (St.init isOpen) (fun s a => s.failsAgain a = false) acts := by
  constructor
  · rintro ⟨hcalls, -, -⟩ pre a s hp hpre
    obtain ⟨s₁, s₂, hpre', hs⟩ := exec_prefix h hp
    cases hpre.symm.trans hpre'
    by_contra hfail
    rw [Bool.not_eq_false] at hfail
    obtain ⟨call, ret, hret, hk⟩ := exists_returned hs hfail
    have hr := hcalls call.kind ret hk ⟨pre, a, s, call, hp, hpre, hret, rfl⟩
    rw [returned_transient hs hret hk, hfail] at hr
    cases hr
  · intro hal
    have hcalls : ∀ kind r, kind ≠ .connect → ReturnedIn (St.init isOpen) acts kind r →
        r.transient = false := by
      rintro kind r hk ⟨pre, a, s, call, hp, hpre, hret, rfl⟩
      obtain ⟨s₁, s₂, hpre', hs⟩ := exec_prefix h hp
      cases hpre.symm.trans hpre'
      rw [returned_transient hs hret hk]
      exact hal pre a s hp hpre
    refine ⟨hcalls, ?_, ?_⟩
    · intro ret hfails stream pos buffer size fuel r t hrun
      rcases readFull_error hrun with ⟨n, rfl⟩ | ⟨i, n, rfl, hne⟩
      · rfl
      · exact hcalls .read _ (by decide) (hfails i n hne)
    · intro ret hfails buffer size fuel r t hrun
      rcases writeAll_error hrun with ⟨n, rfl⟩ | ⟨i, n, rfl, hne⟩
      · rfl
      · exact hcalls .write _ (by decide) (hfails i n hne)

/-- Coroutine 0 waits for data on descriptor 5, and is resumed by an event. -/
def readableActs : List Act :=
  [.newCoroutine 0 0, .io ⟨.read, 5, 0, 8⟩ noData, .run, .sched {}, .sched {},
    .sched { batch := [(5, EPOLLIN)] }, .sched {}]

theorem no_transient_readable :
    (St.after [5] readableActs).returned (.wake (.ok 8)) = some (⟨.read, 5, 0, 8⟩, .ok 8) ∧
    ∀ kind r, kind ≠ .connect →
      ReturnedIn (St.initWith [5]) (readableActs ++ [.wake (.ok 8)]) kind r →
        r.transient = false := by
  have hrun : exec St.step (St.initWith [5]) (readableActs ++ [.wake (.ok 8)]) = _ :=
    exec_after (by decide)
  refine ⟨by decide, ((no_transient_iff hrun).mpr ?_).1⟩
  have hcheck : Along St.step (St.initWith [5]) (fun s a => (!s.failsAgain a) = true)
      (readableActs ++ [.wake (.ok 8)]) := along_of_checkAlong (by decide)
  intro pre a s hp hpre
  have hs : (!s.failsAgain a) = true := hcheck pre a s hp hpre
  rwa [Bool.not_eq_true'] at hs

/-- The event was spurious: the second attempt finds nothing to read either. -/
theorem spurious_event_returned :
    (exec St.step (St.initWith [5]) (readableActs ++ [.wake (.err .EAGAIN)])).isNext = true ∧
    ReturnedIn (St.initWith [5]) (readableActs ++ [.wake (.err .EAGAIN)]) .read
      (.err .EAGAIN) ∧
    ¬ ∀ kind r, kind ≠ .connect →
      ReturnedIn (St.initWith [5]) (readableActs ++ [.wake (.err .EAGAIN)]) kind r →
        r.transient = false := by
  have hret : ReturnedIn (St.initWith [5]) (readableActs ++ [.wake (.err .EAGAIN)]) .read
      (.err .EAGAIN) :=
    ⟨readableActs, _, St.after [5] readableActs, ⟨.read, 5, 0, 8⟩, List.prefix_rfl,
      exec_after (by decide), by decide, rfl⟩
  refine ⟨by decide, hret, fun hcalls => ?_⟩
  cases hcalls .read _ (by decide) hret

end Net
end CoSocket
