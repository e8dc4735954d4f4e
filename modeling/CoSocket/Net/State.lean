import CoSocket.Net.TimeoutSet
import CoSocket.Net.Epoller

/-!
# Net.State

The state of one `CoSocket` (`net/CoSocket.h`), of the coroutine library under it
(`3rd/coroutine/coroutine.c`) and of the kernel, and where the main loop is.

A coroutine is known here by what its saved stack holds at a yield: the blocking call it is in
(`Wait`). Of the library only its contract is used: a live id is in `co`, and `coroutine_new`
returns an id that is not. `registrations` counts the waits registered so far, so that each wait
has a number of its own; no code reads it.

`FdWatcher` is addressed by direction in the lemmas (`Dir`, `slot`); the code addresses it by
event mask, and `Dir.mask` is the mask of a direction.
-/

namespace CoSocket
namespace Net

open Base

/-! ## Descriptors and calls -/

structure FdWatcher where
  readCoId : Int := -1
  writeCoId : Int := -1
deriving DecidableEq, Repr

namespace FdWatcher

def hasReadCoroutine (w : FdWatcher) : Bool := w.readCoId ≠ -1

def hasWriteCoroutine (w : FdWatcher) : Bool := w.writeCoId ≠ -1

def setReadCoId (w : FdWatcher) (coId : Int) : FdWatcher :=
  if w.readCoId ≠ -1 then w else { w with readCoId := coId }

def setWriteCoId (w : FdWatcher) (coId : Int) : FdWatcher :=
  if w.writeCoId ≠ -1 then w else { w with writeCoId := coId }

def resetReadCoId (w : FdWatcher) : FdWatcher := { w with readCoId := -1 }

def resetWriteCoId (w : FdWatcher) : FdWatcher := { w with writeCoId := -1 }

end FdWatcher

/-- The two directions of a descriptor. -/
inductive Dir where
  | read
  | write
deriving DecidableEq, Repr

def Dir.mask : Dir → UInt32
  | .read => EPOLLIN
  | .write => EPOLLOUT

namespace FdWatcher

def slot (w : FdWatcher) : Dir → Int
  | .read => w.readCoId
  | .write => w.writeCoId

def setSlot (w : FdWatcher) (d : Dir) (coId : Int) : FdWatcher :=
  match d with
  | .read => { w with readCoId := coId }
  | .write => { w with writeCoId := coId }

/-- The events the registered coroutines wait for. -/
def events (w : FdWatcher) : UInt32 :=
  (if w.hasReadCoroutine then EPOLLIN else 0) ||| (if w.hasWriteCoroutine then EPOLLOUT else 0)

theorem slot_setSlot (w : FdWatcher) (d d' : Dir) (coId : Int) :
    (w.setSlot d coId).slot d' = if d = d' then coId else w.slot d' := by
  cases d <;> cases d' <;> rfl

theorem events_and_not_mask (w : FdWatcher) (d : Dir) :
    w.events &&& ~~~d.mask = (w.setSlot d (-1)).events := by
  obtain ⟨r, wr⟩ := w
  cases d <;> simp only [events, hasReadCoroutine, hasWriteCoroutine, setSlot, Dir.mask] <;>
    by_cases hr : r = -1 <;> by_cases hw : wr = -1 <;> simp [hr, hw] <;> decide

theorem events_and_mask (w : FdWatcher) (d : Dir) :
    w.events &&& d.mask = if w.slot d = -1 then 0 else d.mask := by
  obtain ⟨r, wr⟩ := w
  cases d <;> simp only [events, hasReadCoroutine, hasWriteCoroutine, slot, Dir.mask] <;>
    by_cases hr : r = -1 <;> by_cases hw : wr = -1 <;> simp [hr, hw] <;> decide

theorem events_eq_zero_iff (w : FdWatcher) :
    w.events = 0 ↔ w.readCoId = -1 ∧ w.writeCoId = -1 := by
  obtain ⟨r, wr⟩ := w
  simp only [events, hasReadCoroutine, hasWriteCoroutine]
  by_cases hr : r = -1 <;> by_cases hw : wr = -1 <;> simp [hr, hw] <;> decide

end FdWatcher

inductive IoKind where
  | connect
  | accept
  | read
  | write
deriving DecidableEq, Repr

/-- The direction the call waits for. -/
def IoKind.dir : IoKind → Dir
  | .connect | .write => .write
  | .accept | .read => .read

/-- A call of `Connect`, `Accept`, `Read` or `Write`. `size` is the size of the buffer of the last
two; a null buffer counts as an empty one. -/
structure IoCall where
  kind : IoKind
  fd : Int
  timeoutMs : Int
  size : Nat := 1
deriving DecidableEq, Repr

/-- The blocking call a coroutine is in; `registration` numbers the wait of an `IoCall`. -/
inductive Wait where
  | io (call : IoCall) (registration : Nat)
  | condition (condition : Nat)
deriving DecidableEq, Repr

/-! ## Coroutines -/

/-- A function object handed to `NewCoroutine`. -/
abbrev CoFunction := Nat

inductive Status where
  | COROUTINE_READY
  | COROUTINE_RUNNING
  | COROUTINE_SUSPEND
deriving DecidableEq, Repr

/-- `wait` is the call whose frame is on top of the coroutine's stack, if it is in one. -/
structure Coroutine where
  func : CoFunction
  status : Status := .COROUTINE_READY
  wait : Option Wait := none
deriving DecidableEq, Repr

/-! ## The whole state -/

/-- Where the main context is: in the program's own code before `Run`, or at one of the points of
`Run` where it goes on next. `batch` and `eventOut` are inside one `Poll`: the events still to be
handled, and the second half of `EventHandler`; `since` is the number of waits registered when
`epoll_wait` returned. -/
inductive Pc where
  | main
  | newCoFunc (it : Nat)
  | waitResume (it : Nat)
  | poll
  | batch (since : Nat) (rest : List (Int × UInt32))
  | eventOut (since : Nat) (fd : Int) (events : UInt32) (rest : List (Int × UInt32))
  | timeout (now : Timestamp)
deriving DecidableEq, Repr

structure St where
  conditionCounter : Nat := 0
  conditionMap : Std.ExtTreeMap Int (Std.ExtTreeSet Int) := ∅
  waitResumeList : List Int := []
  handlingTimeout : Bool := false
  coFuncList : List CoFunction := []
  timeoutSet : TimeoutSet := {}
  coIdMap : Std.ExtTreeMap Int FdWatcher := ∅
  co : Std.ExtTreeMap Int Coroutine := ∅
  running : Int := -1
  kernel : Kernel := {}
  pc : Pc := .main
  registrations : Nat := 0

/-- Why the process stops: one of the two `abort()` calls after a failed `Update`, the one of
`GetCondition`, or an assertion of the coroutine library. -/
inductive Trap where
  | addEvent
  | deleteEvent
  | conditionOverflow
  | assertion
deriving DecidableEq, Repr

/-- The key of a condition in `m_conditionMap`, whose key type is `int`. -/
def conditionKey (condition : Nat) : Int :=
  if condition % 2 ^ 32 < 2 ^ 31 then (condition % 2 ^ 32 : Nat)
  else (condition % 2 ^ 32 : Nat) - 2 ^ 32

namespace St

/-- `m_coIdMap[fd]` -/
def watcher (s : St) (fd : Int) : FdWatcher := s.coIdMap.getD fd {}

def setWatcher (s : St) (fd : Int) (w : FdWatcher) : St :=
  { s with coIdMap := s.coIdMap.insert fd w }

/-- `m_conditionMap[key]` -/
def waiters (s : St) (key : Int) : Std.ExtTreeSet Int := s.conditionMap.getD key ∅

def slot (s : St) (fd : Int) (d : Dir) : Int := (s.watcher fd).slot d

def setSlot (s : St) (fd : Int) (d : Dir) (coId : Int) : St :=
  s.setWatcher fd ((s.watcher fd).setSlot d coId)

/-- The coroutine is in the blocking call `w`: suspended in it, or resumed and not yet back in its
own code. -/
def InCall (s : St) (id : Int) (w : Wait) : Prop := ∃ c, s.co[id]? = some c ∧ c.wait = some w

/-- The coroutine is suspended in the blocking call `w`. -/
def Suspended (s : St) (id : Int) (w : Wait) : Prop :=
  ∃ c, s.co[id]? = some c ∧ c.status = .COROUTINE_SUSPEND ∧ c.wait = some w

/-- The running coroutine executes its own code, not the rest of a blocking call. -/
def inUser (s : St) : Bool :=
  match s.co[s.running]? with
  | some c => s.running ≠ -1 && c.wait = none
  | none => false

/-- The main context executes the program's own code. -/
def inMain (s : St) : Bool := s.running = -1 && s.pc = .main

/-- The entries of `m_waitResumeList` that the drain has passed. -/
def passed (s : St) : Nat :=
  match s.pc with
  | .waitResume it => it
  | _ => 0

/-- The entries of `m_waitResumeList` still to be resumed. -/
def pending (s : St) : List Int := s.waitResumeList.drop s.passed

theorem watcher_setWatcher (s : St) (fd fd' : Int) (w : FdWatcher) :
    (s.setWatcher fd w).watcher fd' = if fd = fd' then w else s.watcher fd' := by
  simp [watcher, setWatcher, Std.ExtTreeMap.getD_insert]

theorem slot_setSlot (s : St) (fd fd' : Int) (d d' : Dir) (coId : Int) :
    (s.setSlot fd d coId).slot fd' d' = if fd = fd' ∧ d = d' then coId else s.slot fd' d' := by
  simp only [slot, setSlot, watcher_setWatcher]
  by_cases hf : fd = fd'
  · subst hf
    simp [FdWatcher.slot_setSlot]
  · simp [hf]

theorem Suspended.inCall {s : St} {id : Int} {w : Wait} (h : s.Suspended id w) : s.InCall id w := by
  obtain ⟨c, hc, -, hw⟩ := h
  exact ⟨c, hc, hw⟩

theorem InCall.unique {s : St} {id : Int} {w w' : Wait} (h : s.InCall id w) (h' : s.InCall id w') :
    w = w' := by
  obtain ⟨c, hc, hw⟩ := h
  obtain ⟨c', hc', hw'⟩ := h'
  rw [hc] at hc'
  cases hc'
  rw [hw] at hw'
  exact Option.some.inj hw'

end St

end Net
end CoSocket
