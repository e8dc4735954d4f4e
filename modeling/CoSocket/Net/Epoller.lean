import Mathlib

/-!
# Net.Epoller

`net/Epoller.cpp` and the part of the kernel it talks to: the open descriptors, and the epoll set
as a finite map from descriptors to interest masks.

`epoll_ctl` fails with `EBADF` on a descriptor that is not open, with `EEXIST` when it adds one
that is present and with `ENOENT` when it changes or deletes one that is absent. Closing a
descriptor also removes it from the epoll set. `update_eq_ok` is what `Update` does on an open
descriptor: it always succeeds, and the mask it is given is the interest afterwards.
-/

namespace CoSocket
namespace Net

/-- The errors the code names, and the others. `EWOULDBLOCK` is `EAGAIN`. `ETIME` is not among
them: the system calls made here do not report it, the code makes it up itself (`Ret.etime`). -/
inductive Errno where
  | ENOENT
  | EINTR
  | EBADF
  | EAGAIN
  | EEXIST
  | ECONNABORTED
  | EISCONN
  | ETIMEDOUT
  | EINPROGRESS
  | other (code : Nat)
deriving DecidableEq, Repr

abbrev Errno.EWOULDBLOCK : Errno := .EAGAIN

def EPOLLIN : UInt32 := 0x001
def EPOLLOUT : UInt32 := 0x004
def EPOLLERR : UInt32 := 0x008
def EPOLLHUP : UInt32 := 0x010

/-- `events & mask` in a condition. -/
def hasEvent (events mask : UInt32) : Bool := events &&& mask != 0

inductive EpollOp where
  | EPOLL_CTL_ADD
  | EPOLL_CTL_MOD
  | EPOLL_CTL_DEL
deriving DecidableEq, Repr

structure Kernel where
  isOpen : Std.ExtTreeSet Int := ∅
  interest : Std.ExtTreeMap Int UInt32 := ∅

namespace Kernel

def epollCtl (k : Kernel) (operation : EpollOp) (fd : Int) (events : UInt32) :
    Except Errno Kernel :=
  if k.isOpen.contains fd then
    match operation with
    | .EPOLL_CTL_ADD =>
      if k.interest.contains fd then .error .EEXIST
      else .ok { k with interest := k.interest.insert fd events }
    | .EPOLL_CTL_MOD =>
      if k.interest.contains fd then .ok { k with interest := k.interest.insert fd events }
      else .error .ENOENT
    | .EPOLL_CTL_DEL =>
      if k.interest.contains fd then .ok { k with interest := k.interest.erase fd }
      else .error .ENOENT
  else .error .EBADF

/-- `Epoller::Update`; `ok` is the return value 0. -/
def update (k : Kernel) (fd : Int) (events : UInt32) : Except Errno Kernel :=
  let operation : EpollOp := if events = 0 then .EPOLL_CTL_DEL else .EPOLL_CTL_ADD
  match k.epollCtl operation fd events with
  | .ok k' => .ok k'
  | .error ret =>
    if ret = .ENOENT ∧ operation = .EPOLL_CTL_DEL then .ok k
    else if ret = .EEXIST ∧ operation = .EPOLL_CTL_ADD then k.epollCtl .EPOLL_CTL_MOD fd events
    else .error ret

def openFd (k : Kernel) (fd : Int) : Kernel := { k with isOpen := k.isOpen.insert fd }

def closeFd (k : Kernel) (fd : Int) : Kernel :=
  { isOpen := k.isOpen.erase fd, interest := k.interest.erase fd }

@[simp] theorem openFd_interest (k : Kernel) (fd : Int) : (k.openFd fd).interest = k.interest := rfl

theorem mem_openFd {k : Kernel} {fd fd' : Int} :
    fd' ∈ (k.openFd fd).isOpen ↔ fd = fd' ∨ fd' ∈ k.isOpen := by
  simp [openFd, Std.ExtTreeSet.mem_insert]

theorem mem_closeFd {k : Kernel} {fd fd' : Int} :
    fd' ∈ (k.closeFd fd).isOpen ↔ fd ≠ fd' ∧ fd' ∈ k.isOpen := by
  simp [closeFd, Std.ExtTreeSet.mem_erase]

theorem closeFd_interest (k : Kernel) (fd fd' : Int) :
    (k.closeFd fd).interest[fd']? = if fd = fd' then none else k.interest[fd']? := by
  simp [closeFd, Std.ExtTreeMap.getElem?_erase]

/-- On an open descriptor `Update` succeeds, leaves the open descriptors alone and sets the
interest of `fd`, and only it, to the mask; a zero mask leaves no entry. -/
theorem update_eq_ok {k : Kernel} {fd : Int} (hopen : fd ∈ k.isOpen) (events : UInt32) :
    ∃ k', k.update fd events = .ok k' ∧ k'.isOpen = k.isOpen ∧
      ∀ fd', k'.interest[fd']? =
        if fd = fd' then (if events = 0 then none else some events) else k.interest[fd']? := by
  have ho : k.isOpen.contains fd = true := Std.ExtTreeSet.contains_iff_mem.mpr hopen
  have hins : ∀ fd', (k.interest.insert fd events)[fd']? =
      if fd = fd' then some events else k.interest[fd']? := by
    simp [Std.ExtTreeMap.getElem?_insert]
  by_cases he : events = 0
  · cases hc : k.interest.contains fd with
    | true =>
      refine ⟨{ k with interest := k.interest.erase fd }, by simp [update, epollCtl, ho, hc, he],
        rfl, fun fd' => ?_⟩
      simp [Std.ExtTreeMap.getElem?_erase, he]
    | false =>
      refine ⟨k, by simp [update, epollCtl, ho, hc, he], rfl, fun fd' => ?_⟩
      split
      · rename_i h
        subst h
        simp [Std.ExtTreeMap.getElem?_eq_none_of_contains_eq_false hc]
      · rfl
  · refine ⟨{ k with interest := k.interest.insert fd events }, ?_, rfl, fun fd' => ?_⟩
    · cases hc : k.interest.contains fd <;> simp [update, epollCtl, ho, hc, he]
    · simp [hins, he]

theorem update_closed {k : Kernel} {fd : Int} (hclosed : fd ∉ k.isOpen) (events : UInt32) :
    k.update fd events = .error .EBADF := by
  have ho : k.isOpen.contains fd = false := by
    rw [Bool.eq_false_iff]
    exact fun h => hclosed (Std.ExtTreeSet.contains_iff_mem.mp h)
  simp [update, epollCtl, ho]

theorem update_isOk_iff {k : Kernel} {fd : Int} {events : UInt32} :
    (∃ k', k.update fd events = .ok k') ↔ fd ∈ k.isOpen := by
  constructor
  · rintro ⟨k', hk⟩
    by_contra hc
    rw [update_closed hc] at hk
    cases hk
  · intro ho
    obtain ⟨k', hk, -⟩ := update_eq_ok ho events
    exact ⟨k', hk⟩

end Kernel

end Net
end CoSocket
