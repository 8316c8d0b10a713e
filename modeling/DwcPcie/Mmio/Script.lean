import DwcPcie.Mmio.Polling
import DwcPcie.Mmio.Update

/-! Straight-line register code on hardware of any kind. Each step writes a word
whole, or merges bits into the word it has just read from the same address; so
what the code does is known whatever the hardware answers. -/
namespace Mmio

inductive Transaction (Addr Word : Type) where
  | read (addr : Addr) (answer : Word)
  | write (addr : Addr) (value : Word)
deriving DecidableEq

variable {Addr Word Cell α β : Type} {w : Nat}

def Transaction.addr : Transaction Addr Word → Addr
  | .read addr _ => addr
  | .write addr _ => addr

def Transaction.IsRead : Transaction Addr Word → Prop
  | .read _ _ => True
  | .write _ _ => False

namespace Program

/-- The transactions of a run whose next read is number `k`. -/
def transcript (answers : Nat → Addr → Word) :
    Program Addr Word α → Nat → List (Transaction Addr Word)
  | .done _, _ => []
  | .read addr next, k =>
      .read addr (answers k addr) :: (next (answers k addr)).transcript answers (k + 1)
  | .write addr value next, k => .write addr value :: next.transcript answers k

/-- Whatever is answered, every transaction is of the given kind. -/
def Emits (P : Transaction Addr Word → Prop) : Program Addr Word α → Prop
  | .done _ => True
  | .read addr next => ∀ word, P (.read addr word) ∧ (next word).Emits P
  | .write addr value next => P (.write addr value) ∧ next.Emits P

def ReadOnly (program : Program Addr Word α) : Prop := program.Emits Transaction.IsRead

section Emits
variable {P Q : Transaction Addr Word → Prop}

theorem Emits.mono {program : Program Addr Word α} (h : program.Emits P) (hPQ : ∀ t, P t → Q t) :
    program.Emits Q := by
  induction program with
  | done value => trivial
  | read addr next ih => exact fun word => ⟨hPQ _ (h word).1, ih word (h word).2⟩
  | write addr value next ih => exact ⟨hPQ _ h.1, ih h.2⟩

theorem Emits.bind {program : Program Addr Word α} {f : α → Program Addr Word β}
    (h : program.Emits P) (hf : ∀ value, (f value).Emits P) : (program >>= f).Emits P := by
  induction program with
  | done value => exact hf value
  | read addr next ih => exact fun word => ⟨(h word).1, ih word (h word).2⟩
  | write addr value next ih => exact ⟨h.1, ih h.2⟩

theorem Emits.forM {ι : Type} {body : ι → Program Addr Word PUnit} {items : List ι}
    (h : ∀ i ∈ items, (body i).Emits P) : (forM items body).Emits P := by
  induction items with
  | nil => trivial
  | cons i items ih =>
    rw [List.forM_cons]
    exact (h i List.mem_cons_self).bind fun _ => ih fun j hj => h j (List.mem_cons_of_mem _ hj)

theorem Emits.pollWhile {addr : Addr} (h : ∀ word, P (.read addr word)) (again : Word → Bool)
    (fuel : Nat) : (pollWhile addr again fuel).Emits P := by
  induction fuel with
  | zero => trivial
  | succ fuel ih =>
    have hfetch : (fetch addr : Program Addr Word Word).Emits P := fun word => ⟨h word, trivial⟩
    refine hfetch.bind fun word => ?_
    cases again word with
    | false => trivial
    | true => exact ih

theorem Emits.transcript {program : Program Addr Word α} (h : program.Emits P)
    (answers : Nat → Addr → Word) (k : Nat) : ∀ t ∈ program.transcript answers k, P t := by
  induction program generalizing k with
  | done value => exact fun t ht => absurd ht List.not_mem_nil
  | read addr next ih =>
    intro t ht
    rcases List.mem_cons.mp ht with rfl | ht
    · exact (h _).1
    · exact ih _ (h _).2 _ t ht
  | write addr value next ih =>
    intro t ht
    rcases List.mem_cons.mp ht with rfl | ht
    · exact h.1
    · exact ih h.2 _ t ht

end Emits

theorem ReadOnly.performs [DecidableEq Cell] (cell : Addr → Cell)
    {program : Program Addr (BitVec w) α} (h : program.ReadOnly) : Performs cell program [] := by
  induction program with
  | done value => exact .done value
  | read addr next ih =>
    exact ⟨fun store => (ih _ (h _).2).exec store, fun store => (ih _ (h _).2).writes store⟩
  | write addr value next ih => exact h.1.elim

end Program

/-- A step of straight-line code: a plain write where nothing of the old word is
kept, and else a read-modify-write. -/
def Update.step (u : Update Addr w) : Program Addr (BitVec w) PUnit :=
  if u.mask.keep = 0 then Program.put u.addr u.mask.set
  else Program.fetch u.addr >>= fun word => Program.put u.addr (u.mask.apply word)

def script (updates : List (Update Addr w)) : Program Addr (BitVec w) PUnit :=
  forM updates Update.step

theorem script_cons (u : Update Addr w) (updates : List (Update Addr w)) :
    script (u :: updates) = u.step >>= fun _ => script updates := List.forM_cons

theorem script_singleton (u : Update Addr w) : script [u] = u.step := by
  rw [script_cons]
  exact Program.bind_done _

theorem script_append (first second : List (Update Addr w)) :
    script (first ++ second) = script first >>= fun _ => script second := List.forM_append

theorem Update.step_const (addr : Addr) (value : BitVec w) :
    (⟨addr, .const value⟩ : Update Addr w).step = Program.put addr value := if_pos rfl

theorem Update.step_merge (u : Update Addr w) (h : u.mask.keep ≠ 0) :
    u.step = Program.fetch u.addr >>= fun word => Program.put u.addr (u.mask.apply word) :=
  if_neg h

theorem Update.step_performs [DecidableEq Cell] (cell : Addr → Cell) (u : Update Addr w) :
    Performs cell u.step [u] := by
  by_cases h : u.mask.keep = 0
  · obtain ⟨addr, keep, set⟩ := u
    obtain rfl : keep = 0 := h
    rw [show (⟨addr, ⟨0, set⟩⟩ : Update Addr w) = ⟨addr, .const set⟩ from rfl, step_const]
    exact .put addr set
  · rw [u.step_merge h]
    exact .modify u.addr _ u.mask fun _ => rfl

theorem script_performs [DecidableEq Cell] (cell : Addr → Cell) (updates : List (Update Addr w)) :
    Performs cell (script updates) updates := by
  have h : Performs cell (script updates) (updates.flatMap fun u => [u]) :=
    .forM Update.step (fun u => [u]) (Update.step_performs cell) updates
  rwa [List.flatMap_singleton'] at h

/-! ## Programs that are straight-line code -/

def Scripted (program : Program Addr (BitVec w) PUnit) (updates : List (Update Addr w)) : Prop :=
  program = script updates

namespace Scripted

theorem put (addr : Addr) (value : BitVec w) :
    Scripted (Program.put addr value) [⟨addr, .const value⟩] := by
  rw [Scripted, script_singleton, Update.step_const]

theorem modify (addr : Addr) (f : BitVec w → BitVec w) (mask : MaskedWord w)
    (hkeep : mask.keep ≠ 0) (h : ∀ word, f word = mask.apply word) :
    Scripted (Program.fetch addr >>= fun word => Program.put addr (f word)) [⟨addr, mask⟩] := by
  rw [Scripted, script_singleton, Update.step_merge ⟨addr, mask⟩ hkeep, funext h]

theorem bind {program : Program Addr (BitVec w) PUnit} {rest : Program Addr (BitVec w) PUnit}
    {first second : List (Update Addr w)} (hfirst : Scripted program first)
    (hrest : Scripted rest second) : Scripted (program >>= fun _ => rest) (first ++ second) := by
  rw [Scripted, hfirst, hrest, script_append]

theorem put_bind (addr : Addr) (value : BitVec w) {rest : Program Addr (BitVec w) PUnit}
    {updates : List (Update Addr w)} (hrest : Scripted rest updates) :
    Scripted (Program.put addr value >>= fun _ => rest) (⟨addr, .const value⟩ :: updates) :=
  (put addr value).bind hrest

theorem modify_bind (addr : Addr) (f : BitVec w → BitVec w) (mask : MaskedWord w)
    {rest : Program Addr (BitVec w) PUnit} {updates : List (Update Addr w)}
    (hkeep : mask.keep ≠ 0) (h : ∀ word, f word = mask.apply word)
    (hrest : Scripted rest updates) :
    Scripted (Program.fetch addr >>= fun word => Program.put addr (f word) >>= fun _ => rest)
      (⟨addr, mask⟩ :: updates) :=
  (modify addr f mask hkeep h).bind hrest

variable {program : Program Addr (BitVec w) PUnit} {updates : List (Update Addr w)}

theorem performs [DecidableEq Cell] (cell : Addr → Cell) (h : Scripted program updates) :
    Performs cell program updates := by
  rw [h]
  exact script_performs cell updates

theorem emits (h : Scripted program updates) :
    program.Emits fun t => t.addr ∈ updates.map Update.addr := by
  rw [h]
  induction updates generalizing program with
  | nil => trivial
  | cons u updates ih =>
    rw [script_cons]
    refine Program.Emits.bind ?_ fun _ => (ih rfl).mono fun t ht => List.mem_cons_of_mem _ ht
    have hu : u.addr ∈ (u :: updates).map Update.addr := List.mem_cons_self
    by_cases hkeep : u.mask.keep = 0
    · rw [Update.step, if_pos hkeep]
      exact ⟨hu, trivial⟩
    · rw [u.step_merge hkeep]
      exact fun word => ⟨hu, hu, trivial⟩

end Scripted

/-! ## Merging on hardware that changes by itself -/

/-- Every write of the transcript is the write of a step: it stores the word of a
plain write, or merges the bits of its step into the answer to the read directly
before it. -/
def Merges (updates : List (Update Addr w)) (ts : List (Transaction Addr (BitVec w))) : Prop :=
  ∀ before addr value behind, ts = before ++ .write addr value :: behind →
    ∃ u ∈ updates, u.addr = addr ∧ (u.mask = .const value ∨
      ∃ word, before.getLast? = some (.read addr word) ∧ value = u.mask.apply word)

theorem Merges.behind {updates : List (Update Addr w)} {ts : List (Transaction Addr (BitVec w))}
    (h : Merges updates ts) (u : Update Addr w) (front : List (Transaction Addr (BitVec w)))
    {before behind : List (Transaction Addr (BitVec w))} {addr : Addr} {value : BitVec w}
    (heq : ts = before ++ .write addr value :: behind) :
    ∃ v ∈ u :: updates, v.addr = addr ∧ (v.mask = .const value ∨
      ∃ word, (front ++ before).getLast? = some (.read addr word) ∧ value = v.mask.apply word) := by
  obtain ⟨v, hv, haddr, hwrite⟩ := h before addr value behind heq
  refine ⟨v, List.mem_cons_of_mem _ hv, haddr, hwrite.imp id ?_⟩
  rintro ⟨word, hlast, hvalue⟩
  refine ⟨word, ?_, hvalue⟩
  rw [List.getLast?_append, hlast]
  rfl

end Mmio
