import DwcPcie.Mmio.Field

/-! Bytes inside a bus word. Lane `i` holds bits `8*i` to `8*i+7`, so a run of
lanes read little-endian is a shifted part of the word. -/
namespace Mmio

variable {w : Nat}

def lane (word : BitVec w) (i : Nat) : BitVec 8 := word.extractLsb' (8 * i) 8

/-- The little-endian value of the first bytes. -/
def littleEndian (w : Nat) (bytes : Nat → BitVec 8) : Nat → BitVec w
  | 0 => 0
  | count + 1 => littleEndian w bytes count ||| (bytes count).setWidth w <<< (8 * count)

/-- Replace `count` lanes from `start` on by the low bytes of the value. -/
def laneMask (start count : Nat) (value : BitVec w) : MaskedWord w :=
  ⟨~~~((BitVec.allOnes (8 * count)).setWidth w <<< (8 * start)),
    (value.setWidth (8 * count)).setWidth w <<< (8 * start)⟩

theorem getLsbD_lane (word : BitVec w) (i bit : Nat) :
    (lane word i).getLsbD bit = (decide (bit < 8) && word.getLsbD (8 * i + bit)) := by
  simp [lane]

theorem getLsbD_littleEndian (bytes : Nat → BitVec 8) (count bit : Nat) :
    (littleEndian w bytes count).getLsbD bit =
      (decide (bit < w) && decide (bit < 8 * count) && (bytes (bit / 8)).getLsbD (bit % 8)) := by
  induction count with
  | zero => simp [littleEndian]
  | succ count ih =>
    rw [littleEndian, BitVec.getLsbD_or, ih, BitVec.getLsbD_shiftLeft, BitVec.getLsbD_setWidth]
    by_cases hlow : bit < 8 * count
    · simp [hlow, show bit < 8 * (count + 1) by omega]
    · by_cases hhigh : bit < 8 * (count + 1)
      · have hdiv : bit / 8 = count := by omega
        have hmod : bit % 8 = bit - 8 * count := by omega
        by_cases hw : bit < w
        · simp [hlow, hhigh, hdiv, hmod, hw, show bit - 8 * count < w by omega]
        · simp [hw]
      · have hzero : (bytes count).getLsbD (bit - 8 * count) = false :=
          BitVec.getLsbD_of_ge _ _ (by omega)
        simp [hlow, hhigh, hzero]

theorem littleEndian_congr {bytes bytes' : Nat → BitVec 8} {count : Nat}
    (h : ∀ i < count, bytes i = bytes' i) :
    littleEndian w bytes count = littleEndian w bytes' count := by
  induction count with
  | zero => rfl
  | succ count ih =>
    rw [littleEndian, littleEndian, ih fun i hi => h i (by omega), h count (by omega)]

theorem littleEndian_lane (word : BitVec w) (start count : Nat) :
    littleEndian w (fun i => lane word (start + i)) count =
      ((word >>> (8 * start)).setWidth (8 * count)).setWidth w := by
  apply BitVec.eq_of_getLsbD_eq
  intro bit hbit
  have hsum : 8 * (start + bit / 8) + bit % 8 = 8 * start + bit := by omega
  simp only [getLsbD_littleEndian, getLsbD_lane, hsum, BitVec.getLsbD_setWidth,
    BitVec.getLsbD_ushiftRight, hbit, decide_true, Bool.true_and,
    Nat.mod_lt bit (show 0 < 8 by decide)]

theorem littleEndian_lanes (word : BitVec w) (count : Nat) (h : w = 8 * count) :
    littleEndian w (lane word) count = word := by
  have hlanes := littleEndian_lane word 0 count
  subst h
  simpa using hlanes

theorem laneMask_eq_field (start count : Nat) (value : BitVec w) :
    laneMask start count value = MaskedWord.field (8 * start) (8 * count) value := rfl

theorem lane_laneMask (start count : Nat) (value word : BitVec w) (i : Nat)
    (hi : 8 * (i + 1) ≤ w) :
    lane ((laneMask start count value).apply word) i =
      if start ≤ i ∧ i < start + count then lane value (i - start) else lane word i := by
  apply BitVec.eq_of_getLsbD_eq
  intro bit hbit
  rw [laneMask_eq_field, getLsbD_lane, getLsbD_field (by omega)]
  by_cases hin : start ≤ i ∧ i < start + count
  · have hfield : 8 * start ≤ 8 * i + bit ∧ 8 * i + bit < 8 * start + 8 * count := by omega
    have hbits : 8 * i + bit - 8 * start = 8 * (i - start) + bit := by omega
    rw [if_pos hin, if_pos hfield, getLsbD_lane, hbits]
  · have hfield : ¬ (8 * start ≤ 8 * i + bit ∧ 8 * i + bit < 8 * start + 8 * count) := by omega
    rw [if_neg hin, if_neg hfield, getLsbD_lane]

end Mmio
