import DwcPcie.Mmio.MaskedWord

/-! Bit fields of a word. Storing a value into a field replaces its bits by the
low bits of the value; the fields of a register are stored independently. -/
namespace Mmio

variable {w : Nat}

def fieldBits (w start len : Nat) : BitVec w := (BitVec.allOnes len).setWidth w <<< start

/-- Store the low bits of a value into a field. -/
def MaskedWord.field (start len : Nat) (value : BitVec w) : MaskedWord w :=
  ⟨~~~fieldBits w start len, (value.setWidth len).setWidth w <<< start⟩

section Bits
variable {start len : Nat} {value word : BitVec w}

private theorem getLsbD_fieldBits {i : Nat} (hi : i < w) :
    (fieldBits w start len).getLsbD i = decide (start ≤ i ∧ i < start + len) := by
  unfold fieldBits
  rw [BitVec.getLsbD_shiftLeft, BitVec.getLsbD_setWidth, BitVec.getLsbD_allOnes]
  by_cases hlow : i < start
  · simp [hi, hlow, show ¬ start ≤ i by omega]
  · have hiff : i - start < len ↔ i < start + len := by omega
    simp [hi, hlow, hiff, show start ≤ i by omega, show i - start < w by omega]

theorem getLsbD_field {i : Nat} (hi : i < w) :
    ((MaskedWord.field start len value).apply word).getLsbD i =
      if start ≤ i ∧ i < start + len then value.getLsbD (i - start) else word.getLsbD i := by
  rw [MaskedWord.getLsbD_apply]
  unfold MaskedWord.field
  simp only [BitVec.getLsbD_not, BitVec.getLsbD_shiftLeft, BitVec.getLsbD_setWidth,
    getLsbD_fieldBits hi, hi, decide_true, Bool.true_and]
  by_cases hin : start ≤ i ∧ i < start + len
  · simp [hin, show ¬ i < start by omega, show i - start < w by omega,
      show i - start < len by omega]
  · rcases Nat.lt_or_ge i start with hlow | hlow
    · simp [hin, hlow]
    · simp [hin, show ¬ i - start < len by omega]

theorem getLsbD_field_of_notMem {i : Nat} (hi : ¬ (start ≤ i ∧ i < start + len)) :
    ((MaskedWord.field start len value).apply word).getLsbD i = word.getLsbD i := by
  by_cases hw : i < w
  · rw [getLsbD_field hw, if_neg hi]
  · rw [BitVec.getLsbD_of_ge _ _ (by omega), BitVec.getLsbD_of_ge _ _ (by omega)]

theorem extractLsb'_field (h : start + len ≤ w) :
    ((MaskedWord.field start len value).apply word).extractLsb' start len =
      value.extractLsb' 0 len := by
  apply BitVec.eq_of_getLsbD_eq
  intro i hi
  have hin : start ≤ start + i ∧ start + i < start + len := by omega
  rw [BitVec.getLsbD_extractLsb', BitVec.getLsbD_extractLsb', getLsbD_field (by omega),
    if_pos hin, Nat.add_sub_cancel_left, Nat.zero_add]

theorem field_field (value' : BitVec w) :
    (MaskedWord.field start len value).apply ((MaskedWord.field start len value').apply word) =
      (MaskedWord.field start len value).apply word := by
  apply BitVec.eq_of_getLsbD_eq
  intro i hi
  rw [getLsbD_field hi, getLsbD_field hi, getLsbD_field hi]
  by_cases hin : start ≤ i ∧ i < start + len
  · rw [if_pos hin, if_pos hin]
  · rw [if_neg hin, if_neg hin, if_neg hin]

theorem field_comm {start' len' : Nat} (value' : BitVec w)
    (disjoint : ∀ i, ¬ ((start ≤ i ∧ i < start + len) ∧ start' ≤ i ∧ i < start' + len')) :
    (MaskedWord.field start len value).apply ((MaskedWord.field start' len' value').apply word) =
      (MaskedWord.field start' len' value').apply
        ((MaskedWord.field start len value).apply word) := by
  apply BitVec.eq_of_getLsbD_eq
  intro i hi
  rw [getLsbD_field hi, getLsbD_field hi, getLsbD_field hi, getLsbD_field hi]
  by_cases hin : start ≤ i ∧ i < start + len
  · have hout : ¬ (start' ≤ i ∧ i < start' + len') := fun h => disjoint i ⟨hin, h⟩
    rw [if_pos hin, if_neg hout, if_pos hin]
  · rw [if_neg hin, if_neg hin]

end Bits
end Mmio
