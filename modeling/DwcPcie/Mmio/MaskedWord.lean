import Mathlib.Data.BitVec

/-! Masked updates of one word: keep some of the old bits, then set some. Every
read-modify-write of a control register has this form, and so has every chain
of them, which is why a chain may be repeated without a further effect. -/
namespace Mmio

@[ext] structure MaskedWord (w : Nat) where
  keep : BitVec w
  set : BitVec w
deriving DecidableEq

namespace MaskedWord

variable {w : Nat}

def apply (m : MaskedWord w) (word : BitVec w) : BitVec w := (word &&& m.keep) ||| m.set

def id : MaskedWord w := ⟨BitVec.allOnes w, 0⟩

def const (value : BitVec w) : MaskedWord w := ⟨0, value⟩

def orWith (bits : BitVec w) : MaskedWord w := ⟨BitVec.allOnes w, bits⟩

def andWith (bits : BitVec w) : MaskedWord w := ⟨bits, 0⟩

def andThen (first second : MaskedWord w) : MaskedWord w :=
  ⟨first.keep &&& second.keep, (first.set &&& second.keep) ||| second.set⟩

@[simp] theorem apply_id (word : BitVec w) : id.apply word = word := by
  simp [id, apply]

@[simp] theorem apply_const (value word : BitVec w) : (const value).apply word = value := by
  simp [const, apply]

theorem apply_orWith (bits word : BitVec w) : (orWith bits).apply word = word ||| bits := by
  simp [orWith, apply]

theorem apply_andWith (bits word : BitVec w) : (andWith bits).apply word = word &&& bits := by
  simp [andWith, apply]

theorem apply_andThen (first second : MaskedWord w) (word : BitVec w) :
    (first.andThen second).apply word = second.apply (first.apply word) := by
  simp only [apply, andThen, BitVec.and_or_distrib_right, BitVec.and_assoc, BitVec.or_assoc]

theorem getLsbD_apply (m : MaskedWord w) (word : BitVec w) (i : Nat) :
    (m.apply word).getLsbD i = (word.getLsbD i && m.keep.getLsbD i || m.set.getLsbD i) := by
  simp [apply]

/-- A masked update only depends on the old word through the bits it keeps, so
repeating it changes nothing. -/
theorem apply_idem (m : MaskedWord w) (word : BitVec w) :
    m.apply (m.apply word) = m.apply word := by
  apply BitVec.eq_of_getLsbD_eq
  intro i _
  rw [getLsbD_apply, getLsbD_apply]
  cases word.getLsbD i <;> cases m.keep.getLsbD i <;> cases m.set.getLsbD i <;> rfl

/-- The update leaves every bit outside the given ones alone. -/
def Within (bits : BitVec w) (m : MaskedWord w) : Prop :=
  m.keep ||| bits = BitVec.allOnes w ∧ m.set ||| bits = bits

instance (bits : BitVec w) (m : MaskedWord w) : Decidable (m.Within bits) :=
  inferInstanceAs (Decidable (_ ∧ _))

theorem Within.getLsbD_apply {bits : BitVec w} {m : MaskedWord w} (h : m.Within bits)
    (word : BitVec w) {i : Nat} (hi : bits.getLsbD i = false) :
    (m.apply word).getLsbD i = word.getLsbD i := by
  by_cases hw : i < w
  · have hkeep := congrArg (BitVec.getLsbD · i) h.1
    have hset := congrArg (BitVec.getLsbD · i) h.2
    simp only [BitVec.getLsbD_or, BitVec.getLsbD_allOnes, hi, hw, decide_true,
      Bool.or_false] at hkeep hset
    rw [MaskedWord.getLsbD_apply, hkeep, hset, Bool.and_true, Bool.or_false]
  · rw [BitVec.getLsbD_of_ge _ _ (by omega), BitVec.getLsbD_of_ge _ _ (by omega)]

/-- The update keeps bit `i` as it is or makes it `b`. -/
def Leans (m : MaskedWord w) (i : Nat) (b : Bool) : Prop :=
  (∀ word, (m.apply word).getLsbD i = word.getLsbD i) ∨ ∀ word, (m.apply word).getLsbD i = b

theorem leans_set (m : MaskedWord w) (i : Nat) : m.Leans i (m.set.getLsbD i) := by
  unfold Leans
  simp only [getLsbD_apply]
  cases m.keep.getLsbD i <;> cases m.set.getLsbD i <;> simp

theorem leans_of_bits {m : MaskedWord w} {i : Nat} {b : Bool} (h : m.set.getLsbD i = b ∨
    m.keep.getLsbD i = true ∧ m.set.getLsbD i = false) : m.Leans i b := by
  rcases h with rfl | ⟨hkeep, hset⟩
  · exact m.leans_set i
  · refine .inl fun word => ?_
    rw [getLsbD_apply, hkeep, hset, Bool.and_true, Bool.or_false]

theorem extractLsb'_apply_of_cleared (m : MaskedWord w) (word : BitVec w) (start len : Nat)
    (h : m.keep.extractLsb' start len = 0) :
    (m.apply word).extractLsb' start len = m.set.extractLsb' start len := by
  rw [apply, BitVec.extractLsb'_or, BitVec.extractLsb'_and, h]
  simp

theorem extractLsb'_apply_of_set (m : MaskedWord w) (word : BitVec w) (start len : Nat)
    (h : m.set.extractLsb' start len = BitVec.allOnes len) :
    (m.apply word).extractLsb' start len = BitVec.allOnes len := by
  rw [apply, BitVec.extractLsb'_or, h, BitVec.or_allOnes]

theorem extractLsb'_apply_of_kept (m : MaskedWord w) (word : BitVec w) (start len : Nat)
    (hkeep : m.keep.extractLsb' start len = BitVec.allOnes len)
    (hset : m.set.extractLsb' start len = 0) :
    (m.apply word).extractLsb' start len = word.extractLsb' start len := by
  rw [apply, BitVec.extractLsb'_or, BitVec.extractLsb'_and, hkeep, hset]
  simp

end MaskedWord
end Mmio
