import DwcPcie.Linked.Surgery

/-! The circular lists of `list.h`. A `struct list_head` is a node with its two
pointers; a step through a null pointer has no result. The functions whose names
start with two underscores are the `internal` ones here. -/
namespace DwcPcie.ListHead
open Linked

variable {ι : Type} [DecidableEq ι]

/-- `LIST_POISON1` and `LIST_POISON2` are null. -/
def listPoison : Option ι := none

def initListHead (list : ι) (h : Links ι) : Links ι :=
  (h.setNext list (some list)).setPrev list (some list)

def internalListAdd (new prev next : ι) (h : Links ι) : Links ι :=
  (((h.setPrev next (some new)).setNext new (some next)).setPrev new (some prev)).setNext prev
    (some new)

def listAdd (new head : ι) (h : Links ι) : Option (Links ι) := do
  let next ← h.next head
  return internalListAdd new head next h

def listAddTail (new head : ι) (h : Links ι) : Option (Links ι) := do
  let prev ← h.prev head
  return internalListAdd new prev head h

def internalListDel (prev next : ι) (h : Links ι) : Links ι :=
  (h.setPrev next (some prev)).setNext prev (some next)

def internalListDelEntry (entry : ι) (h : Links ι) : Option (Links ι) := do
  let prev ← h.prev entry
  let next ← h.next entry
  return internalListDel prev next h

def listDel (entry : ι) (h : Links ι) : Option (Links ι) := do
  let prev ← h.prev entry
  let next ← h.next entry
  return ((internalListDel prev next h).setNext entry listPoison).setPrev entry listPoison

def listReplace (old new : ι) (h : Links ι) : Option (Links ι) := do
  let h := h.setNext new (h.next old)
  let next ← h.next new
  let h := h.setPrev next (some new)
  let h := h.setPrev new (h.prev old)
  let prev ← h.prev new
  return h.setNext prev (some new)

def listReplaceInit (old new : ι) (h : Links ι) : Option (Links ι) := do
  let h ← listReplace old new h
  return initListHead old h

def listDelInit (entry : ι) (h : Links ι) : Option (Links ι) := do
  let h ← internalListDelEntry entry h
  return initListHead entry h

def listMove (list head : ι) (h : Links ι) : Option (Links ι) := do
  let h ← internalListDelEntry list h
  listAdd list head h

def listMoveTail (list head : ι) (h : Links ι) : Option (Links ι) := do
  let h ← internalListDelEntry list h
  listAddTail list head h

def listIsLast (list head : ι) (h : Links ι) : Bool := h.next list = some head

def listEmpty (head : ι) (h : Links ι) : Bool := h.next head = some head

def listEmptyCareful (head : ι) (h : Links ι) : Bool :=
  let next := h.next head
  next = some head && next = h.prev head

def listRotateLeft (head : ι) (h : Links ι) : Option (Links ι) := do
  if !listEmpty head h then
    let first ← h.next head
    listMoveTail first head h
  else
    return h

def listIsSingular (head : ι) (h : Links ι) : Bool :=
  !listEmpty head h && h.next head = h.prev head

def internalListCutPosition (list head entry : ι) (h : Links ι) : Option (Links ι) := do
  let newFirst := h.next entry
  let h := h.setNext list (h.next head)
  let first ← h.next list
  let h := h.setPrev first (some list)
  let h := h.setPrev list (some entry)
  let h := h.setNext entry (some list)
  let h := h.setNext head newFirst
  let newFirst ← newFirst
  return h.setPrev newFirst (some head)

def listCutPosition (list head entry : ι) (h : Links ι) : Option (Links ι) :=
  if listEmpty head h then
    some h
  else if listIsSingular head h && (h.next head ≠ some entry && head ≠ entry) then
    some h
  else if entry = head then
    some (initListHead list h)
  else
    internalListCutPosition list head entry h

def internalListSplice (list prev next : ι) (h : Links ι) : Option (Links ι) := do
  let first := h.next list
  let last := h.prev list
  let first ← first
  let h := h.setPrev first (some prev)
  let h := h.setNext prev (some first)
  let last ← last
  let h := h.setNext last (some next)
  return h.setPrev next (some last)

def listSplice (list head : ι) (h : Links ι) : Option (Links ι) := do
  if !listEmpty list h then
    let next ← h.next head
    internalListSplice list head next h
  else
    return h

def listSpliceTail (list head : ι) (h : Links ι) : Option (Links ι) := do
  if !listEmpty list h then
    let prev ← h.prev head
    internalListSplice list prev head h
  else
    return h

def listSpliceInit (list head : ι) (h : Links ι) : Option (Links ι) := do
  if !listEmpty list h then
    let next ← h.next head
    let h ← internalListSplice list head next h
    return initListHead list h
  else
    return h

def listSpliceTailInit (list head : ι) (h : Links ι) : Option (Links ι) := do
  if !listEmpty list h then
    let prev ← h.prev head
    let h ← internalListSplice list prev head h
    return initListHead list h
  else
    return h

/-! The stores of each function are joins of the nodes it takes from memory. -/

theorem listAdd_eq {head next : ι} {h : Links ι} (new : ι) (hnext : h.next head = some next) :
    listAdd new head h = some (Links.join head new (Links.join new next h)) := by
  rw [listAdd, hnext]
  rfl

theorem listAddTail_eq {head prev : ι} {h : Links ι} (new : ι) (hprev : h.prev head = some prev) :
    listAddTail new head h = some (Links.join prev new (Links.join new head h)) := by
  rw [listAddTail, hprev]
  rfl

theorem internalListDelEntry_eq {entry prev next : ι} {h : Links ι}
    (hprev : h.prev entry = some prev) (hnext : h.next entry = some next) :
    internalListDelEntry entry h = some (Links.join prev next h) := by
  rw [internalListDelEntry, hprev, hnext]
  rfl

theorem listDel_eq (entry : ι) (h : Links ι) :
    listDel entry h = (internalListDelEntry entry h).map fun h =>
      (h.setNext entry listPoison).setPrev entry listPoison := by
  cases hprev : h.prev entry <;> cases hnext : h.next entry <;>
    simp [listDel, internalListDelEntry, hprev, hnext]

theorem internalListSplice_eq {list prev next first last : ι} {h : Links ι}
    (hfirst : h.next list = some first) (hlast : h.prev list = some last) :
    internalListSplice list prev next h =
      some (Links.join last next (Links.join prev first h)) := by
  simp [internalListSplice, hfirst, hlast, Links.join, Links.setNext, Links.setPrev]

theorem listSpliceInit_eq {list head : ι} {h : Links ι} (hlist : listEmpty list h = false) :
    listSpliceInit list head h =
      (listSplice list head h).bind fun h => some (initListHead list h) := by
  cases hnext : h.next head <;> simp [listSpliceInit, listSplice, hlist, hnext]

theorem listSpliceTailInit_eq {list head : ι} {h : Links ι} (hlist : listEmpty list h = false) :
    listSpliceTailInit list head h =
      (listSpliceTail list head h).bind fun h => some (initListHead list h) := by
  cases hprev : h.prev head <;> simp [listSpliceTailInit, listSpliceTail, hlist, hprev]

theorem internalListCutPosition_eq {list head entry first newFirst : ι} {h : Links ι}
    (hfirst : h.next head = some first) (hnew : h.next entry = some newFirst) :
    internalListCutPosition list head entry h =
      some (Links.join head newFirst (Links.join entry list (Links.join list first h))) := by
  simp [internalListCutPosition, hfirst, hnew, Links.join, Links.setNext, Links.setPrev]

theorem listReplace_eq {old new prev next : ι} {h : Links ι} (hprev : h.prev old = some prev)
    (hnext : h.next old = some next) (hold : next ≠ old) :
    listReplace old new h = some (Links.join prev new (Links.join new next h)) := by
  simp [listReplace, hprev, hnext, hold.symm, Links.join, Links.setNext, Links.setPrev]

/-- Where the old head is linked to itself, the first store already changes the
pointer that the second load reads. -/
theorem listReplace_eq_of_empty {old new : ι} {h : Links ι} (hnext : h.next old = some old) :
    listReplace old new h = some (Links.join new new (h.setPrev old (some new))) := by
  simp [listReplace, hnext, Links.join, Links.setNext, Links.setPrev]

end DwcPcie.ListHead
