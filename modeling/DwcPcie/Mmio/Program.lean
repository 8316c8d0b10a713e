import Mathlib.Logic.Function.Basic

/-! Driver code as a tree of bus transactions. A read hands the fetched word to
the rest of the program, so the tree branches on what the hardware answers. The
store behind the bus is a function of cells; `cell` says which cell a
transaction address selects, so one program can be run on several buses. -/
namespace Mmio

inductive Program (Addr Word α : Type) where
  | done (value : α)
  | read (addr : Addr) (next : Word → Program Addr Word α)
  | write (addr : Addr) (value : Word) (next : Program Addr Word α)

/-- One write of a run, with the store it was issued in. -/
structure WriteEvent (Addr Word Cell : Type) where
  before : Cell → Word
  addr : Addr
  value : Word

variable {Addr Word Cell α β γ ι : Type}

namespace Program

def bind : Program Addr Word α → (α → Program Addr Word β) → Program Addr Word β
  | .done value, f => f value
  | .read addr next, f => .read addr fun word => (next word).bind f
  | .write addr value next, f => .write addr value (next.bind f)

instance : Monad (Program Addr Word) where
  pure := .done
  bind := bind

@[simp] theorem done_bind (value : α) (f : α → Program Addr Word β) :
    (.done value : Program Addr Word α) >>= f = f value := rfl

@[simp] theorem read_bind (addr : Addr) (next : Word → Program Addr Word α)
    (f : α → Program Addr Word β) :
    .read addr next >>= f = .read addr fun word => next word >>= f := rfl

theorem bind_done (program : Program Addr Word α) : program.bind .done = program := by
  induction program with
  | done value => rfl
  | read addr next ih => simp only [bind, ih]
  | write addr value next ih => simp only [bind, ih]

theorem bind_assoc (program : Program Addr Word α) (f : α → Program Addr Word β)
    (g : β → Program Addr Word γ) :
    (program.bind f).bind g = program.bind fun value => (f value).bind g := by
  induction program with
  | done value => rfl
  | read addr next ih => simp only [bind, ih]
  | write addr value next ih => simp only [bind, ih]

instance : LawfulMonad (Program Addr Word) :=
  LawfulMonad.mk' _ bind_done (fun _ _ => rfl) bind_assoc

def fetch (addr : Addr) : Program Addr Word Word := .read addr .done

def put (addr : Addr) (value : Word) : Program Addr Word Unit := .write addr value (.done ())

variable [DecidableEq Cell] (cell : Addr → Cell)

/-- The value a run returns. -/
def eval : Program Addr Word α → (Cell → Word) → α
  | .done value, _ => value
  | .read addr next, store => (next (store (cell addr))).eval store
  | .write addr value next, store => next.eval (Function.update store (cell addr) value)

/-- The store a run leaves behind. -/
def exec : Program Addr Word α → (Cell → Word) → Cell → Word
  | .done _, store => store
  | .read addr next, store => (next (store (cell addr))).exec store
  | .write addr value next, store => next.exec (Function.update store (cell addr) value)

def writes : Program Addr Word α → (Cell → Word) → List (WriteEvent Addr Word Cell)
  | .done _, _ => []
  | .read addr next, store => (next (store (cell addr))).writes store
  | .write addr value next, store =>
      ⟨store, addr, value⟩ :: next.writes (Function.update store (cell addr) value)

def accesses : Program Addr Word α → (Cell → Word) → List Addr
  | .done _, _ => []
  | .read addr next, store => addr :: (next (store (cell addr))).accesses store
  | .write addr value next, store =>
      addr :: next.accesses (Function.update store (cell addr) value)

theorem eval_bind (program : Program Addr Word α) (f : α → Program Addr Word β)
    (store : Cell → Word) :
    (program >>= f).eval cell store =
      (f (program.eval cell store)).eval cell (program.exec cell store) := by
  induction program generalizing store with
  | done value => rfl
  | read addr next ih => exact ih _ _
  | write addr value next ih => exact ih _

theorem exec_bind (program : Program Addr Word α) (f : α → Program Addr Word β)
    (store : Cell → Word) :
    (program >>= f).exec cell store =
      (f (program.eval cell store)).exec cell (program.exec cell store) := by
  induction program generalizing store with
  | done value => rfl
  | read addr next ih => exact ih _ _
  | write addr value next ih => exact ih _

theorem writes_bind (program : Program Addr Word α) (f : α → Program Addr Word β)
    (store : Cell → Word) :
    (program >>= f).writes cell store = program.writes cell store ++
      (f (program.eval cell store)).writes cell (program.exec cell store) := by
  induction program generalizing store with
  | done value => rfl
  | read addr next ih => exact ih _ _
  | write addr value next ih => exact congrArg _ (ih _)

theorem exec_forM (body : ι → Program Addr Word PUnit) (items : List ι) (store : Cell → Word) :
    (forM items body).exec cell store =
      items.foldl (fun store item => (body item).exec cell store) store := by
  induction items generalizing store with
  | nil => rfl
  | cons item items ih =>
    rw [List.forM_cons, exec_bind, ih, List.foldl_cons]

theorem writes_forM_put (addr : ι → Addr) (value : ι → Word) (items : List ι)
    (store : Cell → Word) :
    ((forM items fun i => (put (addr i) (value i) : Program Addr Word PUnit)).writes cell store).map
        (fun e => (e.addr, e.value)) = items.map fun i => (addr i, value i) := by
  induction items generalizing store with
  | nil => rfl
  | cons i items ih =>
    rw [List.forM_cons, writes_bind, List.map_append, ih]
    rfl

end Program

def WriteEvent.after [DecidableEq Cell] (cell : Addr → Cell)
    (event : WriteEvent Addr Word Cell) : Cell → Word :=
  Function.update event.before (cell event.addr) event.value

theorem WriteEvent.after_eq [DecidableEq Cell] {cell : Addr → Cell}
    {event : WriteEvent Addr Word Cell} {c : Cell} (h : cell event.addr = c) :
    event.after cell c = event.value := by
  rw [after, h, Function.update_self]

theorem WriteEvent.after_of_ne [DecidableEq Cell] {cell : Addr → Cell}
    {event : WriteEvent Addr Word Cell} {c : Cell} (h : cell event.addr ≠ c) :
    event.after cell c = event.before c :=
  Function.update_of_ne (Ne.symm h) _ _

end Mmio
