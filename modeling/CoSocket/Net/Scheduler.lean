import CoSocket.Lib.Lts
import CoSocket.Net.State

/-!
# Net.Scheduler

The functions of `net/CoSocket.cpp`, and the system they make up as a step function.

A coroutine is an arbitrary program, so its steps are the calls it may make, in any order, with
any answers from the kernel (`Act`); between two of them only its own memory changes. A blocking
call is one step up to its yield or its return, and, when it did yield, one more step (`wake`) from
the point where `coroutine_resume` continues it. The main context is `Run` (`loopCode`), cut at the
points where it calls `coroutine_resume`; `resumes` is the id it passes there.

`Connect`, `Accept`, `Read` and `Write` share one body (`blockingCall`) and differ in the errors on
which they wait (`CallSpec`); `Write` also returns at once when there is nothing to write.
-/

namespace CoSocket
namespace Net

open Base Lts

/-! ## The coroutine library -/

namespace St

/-- `coroutine_new`, with the id it picked. -/
def coroutineNew (s : St) (id : Int) (func : CoFunction) : St :=
  { s with co := s.co.insert id { func } }

/-- `coroutine_resume`, up to the switch into the coroutine. -/
def coroutineResume (s : St) (id : Int) : Outcome St Trap :=
  if s.running ≠ -1 ∨ id < 0 then .trapped .assertion
  else
    match s.co[id]? with
    | none => .next s
    | some c =>
      match c.status with
      | .COROUTINE_READY | .COROUTINE_SUSPEND =>
        .next { s with
          running := id
          co := s.co.insert id { c with status := .COROUTINE_RUNNING } }
      | .COROUTINE_RUNNING => .trapped .assertion

/-- `coroutine_yield` of the running coroutine, inside the call `w`. -/
def coroutineYield (s : St) (w : Wait) : St :=
  match s.co[s.running]? with
  | none => s
  | some c =>
    { s with
      running := -1
      co := s.co.insert s.running { c with status := .COROUTINE_SUSPEND, wait := some w } }

/-- The end of `mainfunc`: the coroutine function has returned. -/
def coroutineExit (s : St) : St := { s with running := -1, co := s.co.erase s.running }

/-- The running coroutine is back in its own code. -/
def leaveCall (s : St) : St :=
  match s.co[s.running]? with
  | none => s
  | some c => { s with co := s.co.insert s.running { c with wait := none } }

/-! ## Registering a wait -/

/-- `SaveToCoIdMap`, with its return value. -/
def saveToCoIdMap (s : St) (fd : Int) (events : UInt32) : Bool × St :=
  if hasEvent events EPOLLIN && (s.watcher fd).hasReadCoroutine then (false, s)
  else
    let s :=
      if hasEvent events EPOLLIN then s.setWatcher fd ((s.watcher fd).setReadCoId s.running) else s
    if hasEvent events EPOLLOUT && (s.watcher fd).hasWriteCoroutine then (false, s)
    else
      (true, if hasEvent events EPOLLOUT then
        s.setWatcher fd ((s.watcher fd).setWriteCoId s.running) else s)

/-- `ResetInCoIdMap` -/
def resetInCoIdMap (s : St) (fd : Int) (events : UInt32) : St :=
  let s := if hasEvent events EPOLLIN then s.setWatcher fd (s.watcher fd).resetReadCoId else s
  if hasEvent events EPOLLOUT then s.setWatcher fd (s.watcher fd).resetWriteCoId else s

/-- `GetEvents` -/
def getEvents (s : St) (fd : Int) : UInt32 := (s.watcher fd).events

/-- `AddEventAndYield`: `false` is the return value -1 of a rejected wait, `true` means that the
coroutine is suspended (and will see the return value 0 when it is resumed). -/
def addEventAndYield (s : St) (call : IoCall) (events : UInt32) : Except Trap (Bool × St) :=
  match s.saveToCoIdMap call.fd events with
  | (false, s) => .ok (false, s)
  | (true, s) =>
    match s.kernel.update call.fd (s.getEvents call.fd) with
    | .error _ => .error .addEvent
    | .ok kernel =>
      let s := { s with kernel, registrations := s.registrations + 1 }
      .ok (true, s.coroutineYield (.io call (s.registrations - 1)))

/-- `DeleteEvent` -/
def deleteEvent (s : St) (fd : Int) (events : UInt32) : Except Trap St :=
  let newEvents := s.getEvents fd &&& ~~~events
  match s.kernel.update fd newEvents with
  | .error _ => .error .deleteEvent
  | .ok kernel => .ok ({ s with kernel }.resetInCoIdMap fd events)

end St

/-! ## The blocking calls -/

/-- The result of a system call. -/
inductive SysRet where
  | ok (n : Nat)
  | err (e : Errno)
deriving DecidableEq, Repr

/-- What `Connect`, `Accept`, `Read` and `Write` return: a result, `-errno` or `-ETIME`. -/
inductive Ret where
  | ok (n : Nat)
  | err (e : Errno)
  | etime
deriving DecidableEq, Repr

/-- What one of the calls does with its system call: the value it returns after the first attempt
(`none` when it goes on to wait), and after the attempt that follows the wait. -/
structure CallSpec where
  events : UInt32
  first : SysRet → Option Ret
  retry : SysRet → Ret

/-- A call that waits on the errors in `wait` and hands every other result on. -/
def CallSpec.onErrors (events : UInt32) (wait : List Errno) : CallSpec where
  events := events
  first
    | .ok n => some (.ok n)
    | .err e => if e ∈ wait then none else some (.err e)
  retry
    | .ok n => .ok n
    | .err e => .err e

/-- `Connect`: an established connection counts as success, and the attempt after the wait asks
for the socket's pending error. -/
def connectSpec : CallSpec where
  events := EPOLLOUT
  first
    | .ok _ => some (.ok 0)
    | .err e =>
      if e = .EISCONN then some (.ok 0)
      else if e ∈ [.EAGAIN, .EINPROGRESS, .EINTR] then none
      else some (.err e)
  retry
    | .ok _ => .ok 0
    | .err e => .err e

def acceptSpec : CallSpec :=
  .onErrors EPOLLIN [.EAGAIN, .EWOULDBLOCK, .ECONNABORTED, .EINTR, .ETIMEDOUT]

def readSpec : CallSpec := .onErrors EPOLLIN [.EAGAIN, .EWOULDBLOCK, .EINTR]

def writeSpec : CallSpec := .onErrors EPOLLOUT [.EAGAIN, .EWOULDBLOCK, .EINTR]

def IoKind.spec : IoKind → CallSpec
  | .connect => connectSpec
  | .accept => acceptSpec
  | .read => readSpec
  | .write => writeSpec

/-- What the system answers during one call: the clock reading of its timeout entry and the results
of its two system calls. -/
structure Sys where
  now : Timestamp
  first : SysRet
  retry : SysRet
deriving DecidableEq, Repr

namespace St

/-- The constructor of `SetTimeoutGuard`. -/
def setTimeout (s : St) (timeoutMs : Int) (now : Timestamp) : St :=
  if timeoutMs > 0 then { s with timeoutSet := s.timeoutSet.insert s.running timeoutMs now }
  else s

/-- The destructor of `SetTimeoutGuard`. -/
def unsetTimeout (s : St) (timeoutMs : Int) : St :=
  if timeoutMs > 0 then { s with timeoutSet := s.timeoutSet.delete s.running } else s

/-- The rest of a blocking call after `AddEventAndYield`: the second attempt unless a timeout is
being handled, `DeleteEvent`, and the destructor of the guard. -/
def finishCall (spec : CallSpec) (s : St) (call : IoCall) (retry : SysRet) :
    Except Trap (St × Ret) :=
  let ret := if !s.handlingTimeout then spec.retry retry else .etime
  match s.deleteEvent call.fd spec.events with
  | .error t => .error t
  | .ok s => .ok (s.unsetTimeout call.timeoutMs, ret)

/-- The body shared by the four calls. `none` in place of a return value means that the coroutine
is suspended. -/
def blockingCall (spec : CallSpec) (s : St) (call : IoCall) (sys : Sys) :
    Except Trap (St × Option Ret) :=
  match spec.first sys.first with
  | some ret => .ok (s, some ret)
  | none =>
    match (s.setTimeout call.timeoutMs sys.now).addEventAndYield call spec.events with
    | .error t => .error t
    | .ok (true, s) => .ok (s, none)
    | .ok (false, s) =>
      match s.finishCall spec call sys.retry with
      | .error t => .error t
      | .ok (s, ret) => .ok (s, some ret)

def connect (s : St) (call : IoCall) (sys : Sys) : Except Trap (St × Option Ret) :=
  s.blockingCall connectSpec call sys

def accept (s : St) (call : IoCall) (sys : Sys) : Except Trap (St × Option Ret) :=
  s.blockingCall acceptSpec call sys

def read (s : St) (call : IoCall) (sys : Sys) : Except Trap (St × Option Ret) :=
  s.blockingCall readSpec call sys

def write (s : St) (call : IoCall) (sys : Sys) : Except Trap (St × Option Ret) :=
  if call.size = 0 then .ok (s, some (.ok 0)) else s.blockingCall writeSpec call sys

def ioCall (s : St) (call : IoCall) (sys : Sys) : Except Trap (St × Option Ret) :=
  match call.kind with
  | .connect => s.connect call sys
  | .accept => s.accept call sys
  | .read => s.read call sys
  | .write => s.write call sys

/-! ## Conditions and new coroutines -/

/-- `GetCondition`, without the value it returns. -/
def getCondition (s : St) : Outcome St Trap :=
  if s.conditionCounter = 0xFFFFFFFFFFFFFFFF then .trapped .conditionOverflow
  else .next { s with conditionCounter := s.conditionCounter + 1 }

def setWaiters (s : St) (key : Int) (list : Std.ExtTreeSet Int) : St :=
  { s with conditionMap := s.conditionMap.insert key list }

/-- `ConditionWait`, up to its yield. -/
def conditionWait (s : St) (condition : Nat) : St :=
  let key := conditionKey condition
  (s.setWaiters key ((s.waiters key).insert s.running)).coroutineYield (.condition condition)

/-- `ConditionNotify` -/
def conditionNotify (s : St) (condition : Nat) : St :=
  let key := conditionKey condition
  let list := s.waiters key
  { s.setWaiters key ∅ with waitResumeList := s.waitResumeList ++ list.toList }

/-- An id `coroutine_new` may return. -/
def freeId (s : St) (id : Int) : Bool := 0 ≤ id && !s.co.contains id

/-! ## The main loop -/

end St

/-- Why the main loop resumes a coroutine. -/
inductive Why where
  | start
  | event (fd : Int) (d : Dir)
  | notified
  | timeout (now : Timestamp)
deriving DecidableEq, Repr

/-- What the library, the kernel and the clock contribute to one piece of the main loop. -/
structure Env where
  id : Int := 0
  batch : List (Int × UInt32) := []
  now : Timestamp := ⟨0, 0⟩
deriving DecidableEq, Repr

/-- `EventHandler` resumes the coroutine of a direction on its own event and on errors. -/
def wakes (events : UInt32) (d : Dir) : Bool :=
  hasEvent events EPOLLERR || hasEvent events EPOLLHUP || hasEvent events d.mask

namespace St

/-- The coroutine of direction `d` that `EventHandler` resumes, if any. -/
def eventTarget (s : St) (fd : Int) (events : UInt32) (d : Dir) : Option (Int × Why) :=
  if wakes events d && s.slot fd d ≠ -1 then some (s.slot fd d, .event fd d) else none

/-- The main loop from one call of `coroutine_resume` to the next: the state in which it makes the
call, and the id it passes; `none` in place of the id when it gets to the next point of `Run`
without a call. -/
def loopCode (s : St) (env : Env) : Option (St × Option (Int × Why)) :=
  match s.pc with
  | .main => none
  | .newCoFunc it =>
    -- `RunNewCoFunc`
    match s.coFuncList[it]? with
    | some func =>
      if s.freeId env.id then
        some ({ s.coroutineNew env.id func with pc := .newCoFunc (it + 1) }, some (env.id, .start))
      else none
    | none => some ({ s with coFuncList := [], pc := .waitResume 0 }, none)
  | .waitResume it =>
    -- `RunWaitResumeCo`
    match s.waitResumeList[it]? with
    | some coId => some ({ s with pc := .waitResume (it + 1) }, some (coId, .notified))
    | none => some ({ s with waitResumeList := [], pc := .poll }, none)
  | .poll =>
    -- `epoll_wait` returns
    some ({ s with pc := .batch s.registrations env.batch }, none)
  | .batch _ [] =>
    -- `Poll` returns, and `RunTimeoutCo` starts
    some ({ s with handlingTimeout := true, pc := .timeout env.now }, none)
  | .batch since ((fd, events) :: rest) =>
    -- `EventHandler`, the check and the first half
    let fdWatcher := s.watcher fd
    if !fdWatcher.hasReadCoroutine && !fdWatcher.hasWriteCoroutine then
      some ({ s with pc := .batch since rest }, none)
    else
      some ({ s with pc := .eventOut since fd events rest }, s.eventTarget fd events .read)
  | .eventOut since fd events rest =>
    -- `EventHandler`, the second half
    some ({ s with pc := .batch since rest }, s.eventTarget fd events .write)
  | .timeout now =>
    -- `RunTimeoutCo`
    let coId := s.timeoutSet.getExpired now
    if coId = -1 then some ({ s with handlingTimeout := false, pc := .newCoFunc 0 }, none)
    else some (s, some (coId, .timeout now))

end St

/-! ## The system -/

inductive Act where
  | io (call : IoCall) (sys : Sys)
  | wake (retry : SysRet)
  | conditionWait (condition : Nat)
  | conditionNotify (condition : Nat)
  | getCondition
  | newCoroutine (func : CoFunction) (id : Int)
  | finish
  | openFd (fd : Int)
  | closeFd (fd : Int)
  | run
  | sched (env : Env)
deriving Repr

namespace St

/-- System calls on a descriptor that is not open fail with `EBADF`. -/
def sysOk (s : St) (fd : Int) (ret : SysRet) : Bool :=
  s.kernel.isOpen.contains fd || ret = .err .EBADF

/-- The blocking call the running coroutine has been resumed in. -/
def resumedIn (s : St) : Option Wait :=
  if s.running = -1 then none else s.co[s.running]?.bind (·.wait)

/-- A successful `accept` opens the descriptor it returns. -/
def settle (s : St) (call : IoCall) (ret : Option Ret) : Outcome St Trap :=
  match call.kind, ret with
  | .accept, some (.ok n) =>
    if s.kernel.isOpen.contains n then .disabled
    else .next { s with kernel := s.kernel.openFd n }
  | _, _ => .next s

/-- The rest of a resumed call. -/
def wakeCall (s : St) (call : IoCall) (retry : SysRet) : Except Trap (St × Ret) :=
  s.leaveCall.finishCall call.kind.spec call retry

def step (s : St) : Act → Outcome St Trap
  | .io call sys =>
    if s.inUser && s.sysOk call.fd sys.first && s.sysOk call.fd sys.retry then
      match s.ioCall call sys with
      | .error t => .trapped t
      | .ok (s', ret) => s'.settle call ret
    else .disabled
  | .wake retry =>
    match s.resumedIn with
    | none => .disabled
    | some (.condition _) => .next s.leaveCall
    | some (.io call _) =>
      if s.sysOk call.fd retry then
        match s.wakeCall call retry with
        | .error t => .trapped t
        | .ok (s', ret) => s'.settle call (some ret)
      else .disabled
  | .conditionWait condition => if s.inUser then .next (s.conditionWait condition) else .disabled
  | .conditionNotify condition =>
    if s.inUser || s.inMain then .next (s.conditionNotify condition) else .disabled
  | .getCondition => if s.inUser || s.inMain then s.getCondition else .disabled
  | .newCoroutine func id =>
    if s.inUser then .next { s with coFuncList := s.coFuncList ++ [func] }
    else if s.inMain && s.freeId id then (s.coroutineNew id func).coroutineResume id
    else .disabled
  | .finish => if s.inUser then .next s.coroutineExit else .disabled
  | .openFd fd =>
    if (s.inUser || s.inMain) && 0 ≤ fd && !s.kernel.isOpen.contains fd then
      .next { s with kernel := s.kernel.openFd fd }
    else .disabled
  | .closeFd fd =>
    if s.inUser || s.inMain then .next { s with kernel := s.kernel.closeFd fd } else .disabled
  | .run => if s.inMain then .next { s with pc := .newCoFunc 0 } else .disabled
  | .sched env =>
    if s.running = -1 then
      match s.loopCode env with
      | none => .disabled
      | some (s', none) => .next s'
      | some (s', some (id, _)) => s'.coroutineResume id
    else .disabled

/-- The `coroutine_resume` the main loop makes in this step. -/
def resumes (s : St) : Act → Option (Int × Why)
  | .sched env => if s.running = -1 then (s.loopCode env).bind (·.2) else none
  | _ => none

/-- The value a blocking call returns in this step. -/
def returned (s : St) : Act → Option (IoCall × Ret)
  | .io call sys =>
    match s.ioCall call sys with
    | .ok (_, some ret) => some (call, ret)
    | _ => none
  | .wake retry =>
    match s.resumedIn with
    | some (.io call _) =>
      match s.wakeCall call retry with
      | .ok (_, ret) => some (call, ret)
      | .error _ => none
    | _ => none
  | _ => none

/-- A new `CoSocket`, in a process with the given descriptors open. -/
def init (isOpen : Std.ExtTreeSet Int) : St := { kernel := { isOpen } }

end St

/-- The states of all runs. -/
def Reachable (s : St) : Prop := ∃ isOpen, Reach St.step Any (St.init isOpen) s

/-- A new `CoSocket`, in a process with the descriptors `fds` open. -/
def St.initWith (fds : List Int) : St := St.init (.ofList fds)

/-- The state after the actions, from a new `CoSocket`. -/
def St.after (fds : List Int) (acts : List Act) : St :=
  (exec St.step (St.initWith fds) acts).stateD {}

theorem exec_after {fds : List Int} {acts : List Act}
    (h : (exec St.step (St.initWith fds) acts).isNext = true) :
    exec St.step (St.initWith fds) acts = .next (St.after fds acts) :=
  Outcome.eq_next_of_isNext h {}

theorem reachable_after {fds : List Int} {acts : List Act}
    (h : (exec St.step (St.initWith fds) acts).isNext = true) : Reachable (St.after fds acts) :=
  ⟨_, reach_of_exec (exec_after h)⟩

theorem step_after {fds : List Int} {acts : List Act} {a : Act}
    (h : (exec St.step (St.initWith fds) acts).isNext = true)
    (ha : (exec St.step (St.initWith fds) (acts ++ [a])).isNext = true) :
    (St.after fds acts).step a = .next (St.after fds (acts ++ [a])) := by
  rw [← exec_snoc (exec_after h) a]
  exact exec_after ha

end Net
end CoSocket
