import CoSocket.Lib.Lts

/-!
# Net.TcpServer

The master of `net/TcpServer.cpp`: `ListenAndFork` and the rounds of `MonitorSlavesLoop`, which
start slave processes and count them in `m_numSlaveRunning`. The answers of `listen`, `fork` and
`waitpid` are inputs; a child process is not followed further, since `SlaveRun` does not return.
`slaves` are the processes that have been forked and not reaped, which the code knows only as a
number.

The number is right as long as every fork is counted once and every reaped slave once. Three things
upset it: the ids the caller passes to `ListenAndFork` are counted as if they had just been forked,
and both a `waitpid` that fails and one that reaps another child of the process count as a slave
that ended. `slaves_counted_iff` says nothing else does.
-/

namespace CoSocket
namespace Net

open Lts

/-- What `fork` returns to the master. -/
inductive ForkRet where
  | child (pid : Int)
  | failure
deriving DecidableEq, Repr

/-- What `waitpid(-1, 0, WNOHANG)` returns: 0, the pid of a child that ended, or -1. -/
inductive WaitRet where
  | none
  | exited (pid : Int)
  | failure
deriving DecidableEq, Repr

/-- The value of an `int` that is assigned `n`. -/
def toInt (n : Int) : Int := n.bmod (2 ^ 32)

theorem toInt_eq {n : Int} (h₀ : -2 ^ 31 ≤ n) (h₁ : n < 2 ^ 31) : toInt n = n :=
  Int.bmod_eq_of_le (by omega) (by omega)

structure TcpServer where
  numSlaveExpected : Int := 0
  numSlaveRunning : Int := 0
  slaves : List Int := []
deriving DecidableEq, Repr

namespace TcpServer

/-- `Listen`, with the values `listen` returns for the descriptors. -/
def listen (rets : List Int) : Bool := rets.all fun ret => !(ret < 0)

/-- One round of the loop of `ForkSlaves`. -/
def forkSlave (forks : Nat → ForkRet) (x : TcpServer × List Int) (i : Nat) :
    TcpServer × List Int :=
  match forks i with
  | .child pid => ({ x.1 with slaves := x.1.slaves ++ [pid] }, x.2 ++ [pid])
  | .failure => x

/-- `ForkSlaves`; `forks i` is what the `i`-th `fork` returns. -/
def forkSlaves (s : TcpServer) (numSlaves : Int) (childIds : List Int) (forks : Nat → ForkRet) :
    Bool × TcpServer :=
  let (s, childIds) := (List.range numSlaves.toNat).foldl (forkSlave forks) (s, childIds)
  (!childIds.isEmpty, { s with numSlaveRunning := toInt (s.numSlaveRunning + childIds.length) })

/-- `ListenAndFork` -/
def listenAndFork (s : TcpServer) (numSlaves : Int) (childIds : List Int) (rets : List Int)
    (forks : Nat → ForkRet) : Bool × TcpServer :=
  if !listen rets then (false, s)
  else
    let numSlaves := if numSlaves < 1 then 1 else numSlaves
    { s with numSlaveExpected := numSlaves }.forkSlaves numSlaves childIds forks

/-- The first half of a round of `MonitorSlavesLoop`: the slaves that are missing are forked. -/
def refill (s : TcpServer) (forks : Nat → ForkRet) : TcpServer :=
  let numSlaveNeedStart := toInt (s.numSlaveExpected - s.numSlaveRunning)
  if numSlaveNeedStart > 0 then (s.forkSlaves numSlaveNeedStart [] forks).2 else s

/-- What the system answers in one round of `MonitorSlavesLoop`. -/
structure Round where
  forks : Nat → ForkRet
  waited : WaitRet

/-- One round of `MonitorSlavesLoop`. The process may have children that are no slaves. -/
def monitorSlaves (s : TcpServer) (r : Round) : Outcome TcpServer Empty :=
  let s := s.refill r.forks
  match r.waited with
  | .none => .next s
  | .exited pid =>
    .next { s with
      numSlaveRunning := toInt (s.numSlaveRunning - 1)
      slaves := s.slaves.erase pid }
  | .failure => .next { s with numSlaveRunning := toInt (s.numSlaveRunning - 1) }

/-- `waitpid` does not fail in the round, and reaps nothing but a slave. -/
def ReapsSlaves (s : TcpServer) (r : Round) : Prop :=
  match r.waited with
  | .none => True
  | .exited pid => pid ∈ (s.refill r.forks).slaves
  | .failure => False

instance decidableReapsSlaves (s : TcpServer) : (r : Round) → Decidable (s.ReapsSlaves r)
  | ⟨_, .none⟩ => .isTrue trivial
  | ⟨forks, .exited pid⟩ => inferInstanceAs (Decidable (pid ∈ (s.refill forks).slaves))
  | ⟨_, .failure⟩ => .isFalse id

/-- The counter is the number of slaves, and there are no more than expected. -/
structure Balanced (s : TcpServer) : Prop where
  counted : s.numSlaveRunning = s.slaves.length
  bounded : (s.slaves.length : Int) ≤ s.numSlaveExpected

/-! ## Forking -/

theorem foldl_forkSlave (forks : Nat → ForkRet) (s : TcpServer) (childIds : List Int) (n : Nat) :
    ∃ pids : List Int, pids.length ≤ n ∧
      (List.range n).foldl (forkSlave forks) (s, childIds) =
        ({ s with slaves := s.slaves ++ pids }, childIds ++ pids) := by
  induction n with
  | zero => exact ⟨[], Nat.le_refl 0, by simp⟩
  | succ n ih =>
    obtain ⟨pids, hlen, heq⟩ := ih
    rw [List.range_succ, List.foldl_append, heq]
    cases hf : forks n with
    | child pid =>
      refine ⟨pids ++ [pid], by simpa using hlen, ?_⟩
      simp [forkSlave, hf]
    | failure =>
      refine ⟨pids, Nat.le_succ_of_le hlen, ?_⟩
      simp [forkSlave, hf]

theorem forkSlaves_spec (s : TcpServer) (numSlaves : Int) (childIds : List Int)
    (forks : Nat → ForkRet) :
    ∃ pids : List Int, pids.length ≤ numSlaves.toNat ∧
      (s.forkSlaves numSlaves childIds forks).2 =
        { s with
          numSlaveRunning := toInt (s.numSlaveRunning + (childIds.length + pids.length))
          slaves := s.slaves ++ pids } := by
  obtain ⟨pids, hlen, heq⟩ := foldl_forkSlave forks s childIds numSlaves.toNat
  refine ⟨pids, hlen, ?_⟩
  simp only [forkSlaves, heq, List.length_append, Nat.cast_add]

theorem toInt_add_eq_iff {n : Nat} {k : Int} (h₀ : 0 ≤ k) (h₁ : k < 2 ^ 31) :
    toInt (n + k) = k ↔ 2 ^ 32 ∣ n := by
  rw [toInt, Int.bmod_def]
  omega

theorem balanced_listenAndFork_iff {numSlaves : Int} (hn : numSlaves < 2 ^ 31)
    (childIds rets : List Int) (forks : Nat → ForkRet) :
    (listenAndFork {} numSlaves childIds rets forks).2.Balanced ↔
      (listen rets = true → 2 ^ 32 ∣ childIds.length) := by
  unfold listenAndFork
  cases hl : listen rets with
  | false => exact iff_of_true ⟨rfl, le_rfl⟩ (by simp)
  | true =>
    simp only [Bool.not_true, Bool.false_eq_true, if_false, forall_const]
    generalize hN : (if numSlaves < 1 then 1 else numSlaves) = N
    have hN₀ : 1 ≤ N ∧ N < 2 ^ 31 := by
      subst hN
      split <;> omega
    obtain ⟨pids, hlen, heq⟩ := forkSlaves_spec { numSlaveExpected := N } N childIds forks
    rw [heq]
    have hp : (pids.length : Int) ≤ N := by omega
    have hiff := toInt_add_eq_iff (n := childIds.length) (Int.natCast_nonneg pids.length)
      (by omega)
    constructor
    · intro h
      have hc := h.counted
      simp only [Int.zero_add, List.nil_append] at hc
      exact hiff.mp hc
    · intro hdvd
      refine ⟨?_, by simpa using hp⟩
      simp only [Int.zero_add, List.nil_append]
      exact hiff.mpr hdvd

theorem listenAndFork_expected_lt {numSlaves : Int} (hn : numSlaves < 2 ^ 31)
    (childIds rets : List Int) (forks : Nat → ForkRet) :
    (listenAndFork {} numSlaves childIds rets forks).2.numSlaveExpected < 2 ^ 31 := by
  unfold listenAndFork
  split
  · exact show (0 : Int) < 2 ^ 31 by decide
  · obtain ⟨pids, -, heq⟩ := forkSlaves_spec
      { numSlaveExpected := if numSlaves < 1 then 1 else numSlaves }
      (if numSlaves < 1 then 1 else numSlaves) childIds forks
    simp only [heq]
    split <;> omega

/-! ## Monitoring -/

theorem refill_expected (s : TcpServer) (forks : Nat → ForkRet) :
    (s.refill forks).numSlaveExpected = s.numSlaveExpected := by
  unfold refill
  simp only
  split
  · obtain ⟨pids, -, heq⟩ := forkSlaves_spec s (toInt (s.numSlaveExpected - s.numSlaveRunning)) []
      forks
    rw [heq]
  · rfl

theorem Balanced.refill {s : TcpServer} (h : s.Balanced) (hexp : s.numSlaveExpected < 2 ^ 31)
    (forks : Nat → ForkRet) : (s.refill forks).Balanced := by
  have hcount := h.counted
  have hbound := h.bounded
  unfold TcpServer.refill
  simp only
  split
  · rename_i hneed
    obtain ⟨pids, hlen, heq⟩ := forkSlaves_spec s
      (toInt (s.numSlaveExpected - s.numSlaveRunning)) [] forks
    rw [toInt_eq (by omega) (by omega)] at hlen hneed heq
    rw [toInt_eq (by omega) (by omega), heq]
    have hp : (pids.length : Int) ≤ s.numSlaveExpected - s.numSlaveRunning := by omega
    refine ⟨?_, ?_⟩
    · simp only [List.length_nil, List.length_append, Nat.cast_zero, Nat.cast_add, Int.zero_add]
      rw [toInt_eq (by omega) (by omega), hcount]
    · simp only [List.length_append, Nat.cast_add]
      omega
  · exact h

theorem monitorSlaves_expected {s s' : TcpServer} {r : Round} (hs : s.monitorSlaves r = .next s') :
    s'.numSlaveExpected = s.numSlaveExpected := by
  have hexp := s.refill_expected r.forks
  unfold monitorSlaves at hs
  simp only at hs
  split at hs <;> cases hs <;> exact hexp

theorem not_balanced_down {s s' : TcpServer} (h : s.Balanced) (hexp : s.numSlaveExpected < 2 ^ 31)
    (hrunning : s'.numSlaveRunning = toInt (s.numSlaveRunning - 1)) (hslaves : s'.slaves = s.slaves) :
    ¬ s'.Balanced := by
  intro hbal
  have hc := h.counted
  have hle := h.bounded
  have hcount := hbal.counted
  rw [hrunning, hslaves, toInt_eq (by omega) (by omega)] at hcount
  omega

/-- A round leaves the counter right if and only if it reaps nothing but a slave. -/
theorem balanced_monitorSlaves_iff {s s' : TcpServer} {r : Round} (h : s.Balanced)
    (hexp : s.numSlaveExpected < 2 ^ 31) (hs : s.monitorSlaves r = .next s') :
    s'.Balanced ↔ s.ReapsSlaves r := by
  have hb := h.refill hexp r.forks
  have hc := hb.counted
  have hle := hb.bounded
  have hexp' := s.refill_expected r.forks
  have hlt : (s.refill r.forks).numSlaveExpected < 2 ^ 31 := by rwa [hexp']
  rw [hexp'] at hle
  unfold monitorSlaves at hs
  simp only at hs
  unfold ReapsSlaves
  split at hs
  · cases hs
    exact iff_of_true hb trivial
  · rename_i pid _
    cases hs
    by_cases hmem : pid ∈ (s.refill r.forks).slaves
    · have hlen := List.length_erase_of_mem hmem
      have hpos := List.length_pos_of_mem hmem
      refine iff_of_true ⟨?_, ?_⟩ hmem
      · simp only [hlen]
        rw [toInt_eq (by omega) (by omega)]
        omega
      · simp only [hlen, hexp']
        omega
    · -- another child of the process
      exact iff_of_false (not_balanced_down hb hlt rfl (List.erase_of_not_mem hmem)) hmem
  · cases hs
    exact iff_of_false (not_balanced_down hb hlt rfl rfl) id

theorem exec_expected {s₀ s : TcpServer} {rounds : List Round}
    (h : exec monitorSlaves s₀ rounds = .next s) : s.numSlaveExpected = s₀.numSlaveExpected :=
  exec_induction (I := fun _ s => s.numSlaveExpected = s₀.numSlaveExpected) rfl
    (fun _ _ _ _ _ ih hs => (monitorSlaves_expected hs).trans ih) h

/-- Every state of a run is balanced if and only if the first one is and only slaves are reaped. -/
theorem balanced_run_iff {s₀ s' : TcpServer} {rounds : List Round}
    (hexp : s₀.numSlaveExpected < 2 ^ 31) (h : exec monitorSlaves s₀ rounds = .next s') :
    (∀ pre s, pre <+: rounds → exec monitorSlaves s₀ pre = .next s → s.Balanced) ↔
      s₀.Balanced ∧ Along monitorSlaves s₀ ReapsSlaves rounds := by
  constructor
  · intro hall
    refine ⟨hall [] s₀ List.nil_prefix rfl, fun pre r s hp hpre => ?_⟩
    obtain ⟨s₁, s₂, hpre', hs⟩ := exec_prefix h hp
    cases hpre.symm.trans hpre'
    have hb₁ := hall pre _ ((List.prefix_append _ _).trans hp) hpre
    have hb₂ := hall _ s₂ hp (exec_snoc_eq_next.mpr ⟨_, hpre, hs⟩)
    exact (balanced_monitorSlaves_iff hb₁ (exec_expected hpre ▸ hexp) hs).mp hb₂
  · rintro ⟨hb, hreaps⟩ pre s hp hpre
    refine exec_induction (I := fun pre s => pre <+: rounds → s.Balanced)
      (fun _ => hb) ?_ hpre hp
    intro pre r s s' hpre ih hs hp
    have hbal := ih ((List.prefix_append _ _).trans hp)
    exact (balanced_monitorSlaves_iff hbal (exec_expected hpre ▸ hexp) hs).mpr
      (hreaps pre r s hp hpre)

/-- **Counting the slaves.** In every state of the master, after `ListenAndFork` and after each
round of `MonitorSlavesLoop`, the counter is the number of slaves forked and not reaped and there
are no more of them than expected, if and only if no `waitpid` of the run fails or reaps a child
that is no slave and, unless `Listen` fails, the list passed to `ListenAndFork` has a multiple of
`2 ^ 32` entries. -/
theorem slaves_counted_iff (numSlaves : Int) (hn : numSlaves < 2 ^ 31) (childIds rets : List Int)
    (forks : Nat → ForkRet) (rounds : List Round) (s' : TcpServer)
    (h : exec monitorSlaves (listenAndFork {} numSlaves childIds rets forks).2 rounds = .next s') :
    (∀ pre s, pre <+: rounds →
      exec monitorSlaves (listenAndFork {} numSlaves childIds rets forks).2 pre = .next s →
      s.Balanced) ↔
    (listen rets = true → 2 ^ 32 ∣ childIds.length) ∧
      Along monitorSlaves (listenAndFork {} numSlaves childIds rets forks).2 ReapsSlaves rounds := by
  rw [balanced_run_iff (listenAndFork_expected_lt hn childIds rets forks) h,
    balanced_listenAndFork_iff hn]

/-- Forks that all succeed, with pids from `pid` on. -/
def forksFrom (pid : Int) (i : Nat) : ForkRet := .child (pid + i)

/-- Two slaves, of which one ends and is replaced. -/
theorem slaves_counted_restart :
    exec monitorSlaves (listenAndFork {} 2 [] [0] (forksFrom 100)).2
      [⟨forksFrom 0, .exited 100⟩, ⟨forksFrom 200, .none⟩] =
        .next ⟨2, 2, [101, 200]⟩ ∧
    (⟨2, 2, [101, 200]⟩ : TcpServer).Balanced := by
  have hrun : exec monitorSlaves (listenAndFork {} 2 [] [0] (forksFrom 100)).2
      [⟨forksFrom 0, .exited 100⟩, ⟨forksFrom 200, .none⟩] = .next ⟨2, 2, [101, 200]⟩ := by rfl
  have hcheck : checkAlong monitorSlaves (fun s r => decide (s.ReapsSlaves r))
      (listenAndFork {} 2 [] [0] (forksFrom 100)).2
      [⟨forksFrom 0, .exited 100⟩, ⟨forksFrom 200, .none⟩] = true := by decide
  refine ⟨hrun, (slaves_counted_iff 2 (by decide) [] [0] (forksFrom 100) _ _ hrun).mpr
    ⟨fun _ => by decide, fun pre r s hp hpre => ?_⟩ _ _ List.prefix_rfl hrun⟩
  exact of_decide_eq_true (along_of_checkAlong hcheck pre r s hp hpre)

/-- A child that the process had before is counted as a slave that ended. -/
example : monitorSlaves ⟨1, 1, [100]⟩ ⟨forksFrom 200, .exited 7⟩ = .next ⟨1, 0, [100]⟩ := rfl

/-- No `fork` succeeds at first, so `waitpid` finds no child and fails: the counter is -1, and the
next round starts two slaves where one is expected. -/
theorem slaves_counted_twice :
    exec monitorSlaves (listenAndFork {} 1 [] [0] fun _ => .failure).2
      [⟨fun _ => .failure, .failure⟩] = .next ⟨1, -1, []⟩ ∧
    ¬ (⟨1, -1, []⟩ : TcpServer).Balanced ∧
    exec monitorSlaves (listenAndFork {} 1 [] [0] fun _ => .failure).2
      [⟨fun _ => .failure, .failure⟩, ⟨forksFrom 100, .none⟩] = .next ⟨1, 1, [100, 101]⟩ ∧
    ¬ (⟨1, 1, [100, 101]⟩ : TcpServer).Balanced := by
  refine ⟨rfl, fun h => ?_, rfl, fun h => ?_⟩
  · exact absurd h.counted (by decide)
  · exact absurd h.counted (by decide)

end TcpServer

end Net
end CoSocket
