import DwcPcie.Linked.Chains
import DwcPcie.ListHead

/-! The lists of `list.h` with a single pointer in the head. What `pprev` points to is
the pointer `first` of a head or `next` of a node. It is named by the head or node it
is in, and both pointers are `next` here. -/
namespace DwcPcie.Hlist
open ListHead Linked Linked.Links

variable {ι : Type} [DecidableEq ι]

def initHlistHead (ptr : ι) (h : Links ι) : Links ι := h.setNext ptr none

def initHlistNode (n : ι) (h : Links ι) : Links ι := (h.setNext n none).setPrev n none

def hlistUnhashed (n : ι) (h : Links ι) : Bool := (h.prev n).isNone

def hlistEmpty (head : ι) (h : Links ι) : Bool := (h.next head).isNone

/-- `if (next) next->pprev = pprev;` -/
def setPprev (next : Option ι) (pprev : ι) (h : Links ι) : Links ι :=
  match next with
  | none => h
  | some next => h.setPrev next (some pprev)

def internalHlistDel (n : ι) (h : Links ι) : Option (Links ι) := do
  let next := h.next n
  let pprev ← h.prev n
  let h := h.setNext pprev next
  return setPprev next pprev h

def hlistDel (n : ι) (h : Links ι) : Option (Links ι) := do
  let h ← internalHlistDel n h
  return (h.setNext n listPoison).setPrev n listPoison

def hlistDelInit (n : ι) (h : Links ι) : Option (Links ι) := do
  if !hlistUnhashed n h then
    let h ← internalHlistDel n h
    return initHlistNode n h
  else
    return h

def hlistAddHead (n head : ι) (h : Links ι) : Links ι :=
  let first := h.next head
  let h := h.setNext n first
  let h := setPprev first n h
  let h := h.setNext head (some n)
  h.setPrev n (some head)

def hlistAddBefore (n next : ι) (h : Links ι) : Option (Links ι) := do
  let h := h.setPrev n (h.prev next)
  let h := h.setNext n (some next)
  let h := h.setPrev next (some n)
  let pprev ← h.prev n
  return h.setNext pprev (some n)

/-- The new node is `next`. -/
def hlistAddAfter (n next : ι) (h : Links ι) : Links ι :=
  let h := h.setNext next (h.next n)
  let h := h.setNext n (some next)
  let h := h.setPrev next (some n)
  setPprev (h.next next) next h

def hlistAddFake (n : ι) (h : Links ι) : Links ι := h.setPrev n (some n)

def hlistMoveList (old new : ι) (h : Links ι) : Links ι :=
  let h := h.setNext new (h.next old)
  let h := setPprev (h.next new) new h
  h.setNext old none

theorem internalHlistDel_eq {n pprev : ι} {h : Links ι} (hprev : h.prev n = some pprev) :
    internalHlistDel n h = some (attach pprev (h.next n) h) := by
  cases hnext : h.next n <;> simp [internalHlistDel, setPprev, attach, join, hprev, hnext]

/-- `hlist_del` works on the fake node, as its comment says, where no node follows it. -/
theorem hlistDel_hlistAddFake {n : ι} {h : Links ι} (hn : h.next n = none) :
    hlistDel n (hlistAddFake n h) = some (initHlistNode n h) := by
  have hprev : (hlistAddFake n h).prev n = some n := by simp [hlistAddFake]
  have hnext : (hlistAddFake n h).next n = none := by simpa [hlistAddFake] using hn
  rw [hlistDel, internalHlistDel_eq hprev, hnext]
  simp [attach, hlistAddFake, initHlistNode, listPoison, setNext, setPrev]

theorem hlistAddHead_eq (n head : ι) (h : Links ι) :
    hlistAddHead n head h = join head n (attach n (h.next head) h) := by
  cases hfirst : h.next head <;>
    simp [hlistAddHead, setPprev, attach, join, hfirst, setNext, setPrev]

theorem hlistAddBefore_eq {n next pprev : ι} {h : Links ι} (hne : n ≠ next)
    (hprev : h.prev next = some pprev) :
    hlistAddBefore n next h = some (join pprev n (join n next h)) := by
  simp [hlistAddBefore, hprev, join, setNext, setPrev, Function.update_comm hne]

theorem hlistAddAfter_eq {n next : ι} {h : Links ι} (hne : n ≠ next)
    (hnext : h.next n ≠ some next) :
    hlistAddAfter n next h = join n next (attach next (h.next n) h) := by
  cases hq : h.next n with
  | none => simp [hlistAddAfter, setPprev, attach, join, hq, hne.symm, setNext, setPrev]
  | some q =>
    have hqn : q ≠ next := fun heq => hnext (heq ▸ hq)
    simp [hlistAddAfter, setPprev, attach, join, hq, hne.symm, setNext, setPrev,
      Function.update_comm hqn]

theorem hlistMoveList_eq (old new : ι) (h : Links ι) :
    hlistMoveList old new h = (attach new (h.next old) h).setNext old none := by
  cases hfirst : h.next old <;>
    simp [hlistMoveList, setPprev, attach, join, hfirst, setNext, setPrev]

end DwcPcie.Hlist
