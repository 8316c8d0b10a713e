import DwcPcie.Mmio.Field
import DwcPcie.Registers

/-! The update of one register field: clear the bits of the mask, then set the
prepared value. The mask is built in 64 bits, the register has 32; within the
register this is storing into a bit field. -/
namespace DwcPcie.FieldUpdate
open Glue Registers Mmio

/-- `w &= ~GENMASK(h, l); w |= FIELD_PREP(GENMASK(h, l), v)` -/
def fieldUpdate (h l : Nat) (w : U32) (v : U64) : U32 :=
  orAssign (andAssign w (~~~genmask h l)) (fieldPrep (genmask h l) v)

theorem link_fields (w : U32) (n : U64) :
    orAssign (andAssign w (~~~portLinkModeMask)) (portLinkMode n) = fieldUpdate 21 16 w n ∧
    orAssign (andAssign w (~~~portLogicLinkWidthMask)) (portLogicLinkWidth n) =
      fieldUpdate 12 8 w n ∧
    orAssign (andAssign w (~~~portLinkNumMask)) (portLinkNum n) = fieldUpdate 7 0 w n ∧
    orAssign (andAssign w (~~~rateShadowSelMask)) (rateShadowSel n) = fieldUpdate 25 24 w n :=
  ⟨rfl, rfl, rfl, rfl⟩

section Mask
variable {h l : Nat}

theorem not_zero : ~~~(0 : U64) = BitVec.allOnes 64 := by decide

private theorem genmask_low (l : Nat) :
    ~~~(0 : U64) - ((1 : U64) <<< l) + 1 = BitVec.allOnes 64 <<< l := by
  have hones : -(1 : U64) = BitVec.allOnes 64 := BitVec.neg_one_eq_allOnes
  calc ~~~(0 : U64) - ((1 : U64) <<< l) + 1
      = -((1 : U64) <<< l) := by
        rw [not_zero, BitVec.allOnes_sub_eq_not]
        exact (BitVec.neg_eq_not_add _).symm
    _ = BitVec.allOnes 64 <<< l := by rw [← hones, BitVec.shiftLeft_neg]

theorem getLsbD_genmask (hh : h ≤ 31) (l i : Nat) :
    (genmask h l).getLsbD i = decide (l ≤ i ∧ i ≤ h) := by
  unfold genmask bitsPerLong
  rw [genmask_low, BitVec.getLsbD_and, BitVec.getLsbD_shiftLeft, BitVec.getLsbD_allOnes,
    BitVec.getLsbD_ushiftRight, not_zero, BitVec.getLsbD_allOnes]
  by_cases hin : l ≤ i ∧ i ≤ h
  · simp [hin, show i < 64 by omega, show ¬ i < l by omega, show i - l < 64 by omega,
      show 64 - 1 - h + i < 64 by omega]
  · rcases Nat.lt_or_ge i l with hlow | hlow
    · simp [hlow, show ¬ l ≤ i by omega]
    · simp [hin, show ¬ 64 - 1 - h + i < 64 by omega]

private theorem bfShf_genmask (hl : l ≤ h) (hh : h ≤ 31) : bfShf (genmask h l) = l := by
  have hfirst : ((List.range 64).find? fun i => (genmask h l).getLsbD i) = some l := by
    rw [List.find?_range_eq_some]
    refine ⟨?_, List.mem_range.mpr (by omega), fun i hi => ?_⟩
    · rw [getLsbD_genmask hh]
      simp [hl]
    · rw [getLsbD_genmask hh]
      simp [show ¬ l ≤ i by omega]
  unfold bfShf ffsll
  rw [hfirst]
  rfl

theorem fieldUpdate_eq_field (hl : l ≤ h) (hh : h ≤ 31) (w : U32) (v : U64) :
    fieldUpdate h l w v = (MaskedWord.field l (h - l + 1) (v.setWidth 32)).apply w := by
  have hlen (i : Nat) : (l ≤ i ∧ i < l + (h - l + 1)) ↔ (l ≤ i ∧ i ≤ h) := by omega
  unfold fieldUpdate fieldPrep
  rw [andAssign_eq, orAssign_eq, bfShf_genmask hl hh]
  apply BitVec.eq_of_getLsbD_eq
  intro i hi
  rw [getLsbD_field hi]
  simp only [BitVec.getLsbD_or, BitVec.getLsbD_and, BitVec.getLsbD_setWidth, BitVec.getLsbD_not,
    BitVec.getLsbD_shiftLeft, getLsbD_genmask hh, hlen, hi, show i < 64 by omega,
    show i - l < 32 by omega, decide_true, Bool.true_and]
  by_cases hin : l ≤ i ∧ i ≤ h
  · simp [hin, show ¬ i < l by omega]
  · simp [hin]

end Mask

/-- For every field of a 32-bit register: the mask has exactly the field's bits,
the update stores the value there and nowhere else, updates of disjoint fields
commute, and the last update of a field stays. -/
theorem fieldUpdate_exact (h l : Nat) (hl : l ≤ h) (hh : h ≤ 31) :
    (∀ i, (genmask h l).getLsbD i = decide (l ≤ i ∧ i ≤ h)) ∧
    (∀ (w : U32) (v : U64),
      (fieldUpdate h l w v >>> l).toNat % 2 ^ (h - l + 1) = v.toNat % 2 ^ (h - l + 1) ∧
      ∀ i, ¬ (l ≤ i ∧ i ≤ h) → (fieldUpdate h l w v).getLsbD i = w.getLsbD i) ∧
    (∀ h' l', l' ≤ h' → h' ≤ 31 → (∀ i, ¬ ((l ≤ i ∧ i ≤ h) ∧ l' ≤ i ∧ i ≤ h')) →
      ∀ (w : U32) (v v' : U64), fieldUpdate h l (fieldUpdate h' l' w v') v =
        fieldUpdate h' l' (fieldUpdate h l w v) v') ∧
    ∀ (w : U32) (v v' : U64),
      fieldUpdate h l (fieldUpdate h l w v') v = fieldUpdate h l w v := by
  have hlen (i : Nat) : (l ≤ i ∧ i < l + (h - l + 1)) ↔ (l ≤ i ∧ i ≤ h) := by omega
  refine ⟨getLsbD_genmask hh l, fun w v => ⟨?_, fun i hi => ?_⟩, ?_, fun w v v' => ?_⟩
  · have hfield : (fieldUpdate h l w v).extractLsb' l (h - l + 1) =
        (v.setWidth 32).extractLsb' 0 (h - l + 1) := by
      rw [fieldUpdate_eq_field hl hh]
      exact extractLsb'_field (by omega)
    have hnat := congrArg BitVec.toNat hfield
    rw [BitVec.extractLsb'_toNat, BitVec.extractLsb'_toNat, BitVec.toNat_setWidth] at hnat
    rw [BitVec.toNat_ushiftRight, hnat, Nat.shiftRight_zero]
    exact Nat.mod_mod_of_dvd _ (Nat.pow_dvd_pow 2 (by omega))
  · rw [fieldUpdate_eq_field hl hh]
    exact getLsbD_field_of_notMem fun hin => hi ((hlen i).mp hin)
  · intro h' l' hl' hh' disjoint w v v'
    simp only [fieldUpdate_eq_field hl hh, fieldUpdate_eq_field hl' hh']
    apply field_comm
    intro i hi
    exact disjoint i (by omega)
  · simp only [fieldUpdate_eq_field hl hh, field_field]

theorem fieldUpdate_exact_link_mode :
    (∀ i, (genmask 21 16).getLsbD i = decide (16 ≤ i ∧ i ≤ 21)) ∧
    (∀ (w : U32) (v : U64),
      (fieldUpdate 21 16 w v >>> 16).toNat % 2 ^ (21 - 16 + 1) = v.toNat % 2 ^ (21 - 16 + 1) ∧
      ∀ i, ¬ (16 ≤ i ∧ i ≤ 21) → (fieldUpdate 21 16 w v).getLsbD i = w.getLsbD i) ∧
    (∀ h' l', l' ≤ h' → h' ≤ 31 → (∀ i, ¬ ((16 ≤ i ∧ i ≤ 21) ∧ l' ≤ i ∧ i ≤ h')) →
      ∀ (w : U32) (v v' : U64), fieldUpdate 21 16 (fieldUpdate h' l' w v') v =
        fieldUpdate h' l' (fieldUpdate 21 16 w v) v') ∧
    ∀ (w : U32) (v v' : U64),
      fieldUpdate 21 16 (fieldUpdate 21 16 w v') v = fieldUpdate 21 16 w v :=
  fieldUpdate_exact 21 16 (by decide) (by decide)

end DwcPcie.FieldUpdate
