import DwcPcie.Mmio.Update
import Mathlib.Data.List.Forall2

/-! The same registers behind two buses. If the buses keep the registers apart in
the same way, the same updates made on both leave the same words in them, write
by write. -/
namespace Mmio

variable {Addr Addr' Cell Cell' Reg : Type} {w : Nat}

/-- Registers at their addresses on the two buses. -/
structure Wiring (cell : Addr → Cell) (cell' : Addr' → Cell') (Reg : Type) where
  place : Reg → Addr
  place' : Reg → Addr'
  apart : ∀ r q, cell (place r) = cell (place q) ↔ cell' (place' r) = cell' (place' q)

namespace Wiring

variable {cell : Addr → Cell} {cell' : Addr' → Cell'} (wiring : Wiring cell cell' Reg)

def Agree (store : Cell → BitVec w) (store' : Cell' → BitVec w) : Prop :=
  ∀ r, store (cell (wiring.place r)) = store' (cell' (wiring.place' r))

def SameUpdate (u : Update Addr w) (u' : Update Addr' w) : Prop :=
  ∃ r, u.addr = wiring.place r ∧ u'.addr = wiring.place' r ∧ u.mask = u'.mask

structure SameWrite (e : WriteEvent Addr (BitVec w) Cell)
    (e' : WriteEvent Addr' (BitVec w) Cell') : Prop where
  addr : ∃ r, e.addr = wiring.place r ∧ e'.addr = wiring.place' r
  value : e.value = e'.value
  before : wiring.Agree e.before e'.before

theorem sameUpdate_map {ι : Type} {items : List ι} {f : ι → Update Addr w} {f' : ι → Update Addr' w}
    (h : ∀ i ∈ items, wiring.SameUpdate (f i) (f' i)) :
    List.Forall₂ wiring.SameUpdate (items.map f) (items.map f') := by
  rw [List.forall₂_map_left_iff, List.forall₂_map_right_iff, List.forall₂_same]
  exact h

variable {wiring} [DecidableEq Cell] [DecidableEq Cell'] {store : Cell → BitVec w}
  {store' : Cell' → BitVec w}

theorem Agree.act (h : wiring.Agree store store') {u : Update Addr w} {u' : Update Addr' w}
    (hu : wiring.SameUpdate u u') : wiring.Agree (u.act cell store) (u'.act cell' store') := by
  obtain ⟨q, haddr, haddr', hmask⟩ := hu
  intro r
  rw [Update.act, Update.act, haddr, haddr', hmask, h q]
  by_cases hr : cell (wiring.place r) = cell (wiring.place q)
  · rw [hr, (wiring.apart r q).mp hr, Function.update_self, Function.update_self]
  · rw [Function.update_of_ne hr, Function.update_of_ne fun h => hr ((wiring.apart r q).mpr h), h r]

theorem Agree.perform {updates : List (Update Addr w)} {updates' : List (Update Addr' w)}
    (hupdates : List.Forall₂ wiring.SameUpdate updates updates')
    (h : wiring.Agree store store') :
    wiring.Agree (perform cell updates store) (perform cell' updates' store') := by
  induction hupdates generalizing store store' with
  | nil => exact h
  | cons hu hrest ih => exact ih (h.act hu)

theorem Agree.updateWrites {updates : List (Update Addr w)} {updates' : List (Update Addr' w)}
    (hupdates : List.Forall₂ wiring.SameUpdate updates updates')
    (h : wiring.Agree store store') : List.Forall₂ wiring.SameWrite
      (updateWrites cell updates store) (updateWrites cell' updates' store') := by
  induction hupdates generalizing store store' with
  | nil => exact .nil
  | @cons u u' updates updates' hu hrest ih =>
    refine .cons ⟨?_, ?_, h⟩ (ih (h.act hu))
    · obtain ⟨r, haddr, haddr', -⟩ := hu
      exact ⟨r, haddr, haddr'⟩
    · obtain ⟨r, haddr, haddr', hmask⟩ := hu
      change u.mask.apply _ = u'.mask.apply _
      rw [haddr, haddr', hmask, h r]

end Wiring
end Mmio
