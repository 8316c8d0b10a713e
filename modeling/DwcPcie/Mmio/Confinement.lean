import DwcPcie.Mmio.Update

/-! Writes that stay where they belong. A write names the part of the store it is
meant for and may be turned away; what it does to the rest of the store is the
question, for every value it can be given. -/
namespace Mmio

variable {Addr Cell V α : Type} {w : Nat} [DecidableEq Cell]

/-- At most one cell changes, and only one of the space; a program that is not to
be accepted changes nothing. -/
structure Confined (cell : Addr → Cell) (accepted : Prop) (space : Cell → Prop)
    (program : Program Addr (BitVec w) α) (store : Cell → BitVec w) : Prop where
  single : ∀ a b, program.exec cell store a ≠ store a → program.exec cell store b ≠ store b →
    a = b
  inside : ∀ a, program.exec cell store a ≠ store a → space a
  rejected : ¬ accepted → program.exec cell store = store

variable {cell : Addr → Cell} {accepted : Prop} {space : Cell → Prop}

theorem confined_pure (value : α) (store : Cell → BitVec w) :
    Confined cell accepted space (pure value : Program Addr (BitVec w) α) store :=
  ⟨fun _ _ h => absurd rfl h, fun _ h => absurd rfl h, fun _ => rfl⟩

section Family
variable {write : V → Program Addr (BitVec w) α} {target : Addr} {mask : V → MaskedWord w}
  (hwrite : ∀ v, Performs cell (write v) [⟨target, mask v⟩])
include hwrite

theorem exec_target (v : V) (store : Cell → BitVec w) : (write v).exec cell store =
    Function.update store (cell target) ((mask v).apply (store (cell target))) :=
  (hwrite v).exec store

private theorem eq_target_of_changed (v : V) {store : Cell → BitVec w} {a : Cell}
    (ha : (write v).exec cell store a ≠ store a) : a = cell target := by
  by_contra hne
  rw [exec_target hwrite, Function.update_of_ne hne] at ha
  exact ha rfl

theorem confined_updates_iff {v : V} {word : BitVec w} (hshows : (mask v).apply word ≠ word) :
    (∀ v store, Confined cell accepted space (write v) store) ↔
      accepted ∧ space (cell target) := by
  constructor
  · intro h
    have hconfined := h v fun _ => word
    have hchanges : (write v).exec cell (fun _ => word) (cell target) ≠ word := by
      rw [exec_target hwrite, Function.update_self]
      exact hshows
    refine ⟨?_, hconfined.inside (cell target) hchanges⟩
    by_contra hrejected
    exact hchanges (congrFun (hconfined.rejected hrejected) (cell target))
  · rintro ⟨haccepted, hspace⟩ v store
    refine ⟨fun a b ha hb => ?_, fun a ha => ?_, fun h => absurd haccepted h⟩
    · rw [eq_target_of_changed hwrite v ha, eq_target_of_changed hwrite v hb]
    · rw [eq_target_of_changed hwrite v ha]
      exact hspace

end Family
end Mmio
