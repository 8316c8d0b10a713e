import Mathlib.Data.BitVec

/-! Address windows with priorities. A table sends an address through the first
enabled window around it. Limits are inclusive, so that a window can reach the
top of the address space. -/
namespace Mmio

structure Window (w : Nat) (Attr : Type) where
  base : BitVec w
  limit : BitVec w
  target : BitVec w
  attr : Attr
  enabled : Bool
deriving DecidableEq

variable {w : Nat} {Attr : Type}

namespace Window

def Matches (win : Window w Attr) (a : BitVec w) : Prop :=
  win.enabled = true ∧ win.base ≤ a ∧ a ≤ win.limit

instance (win : Window w Attr) (a : BitVec w) : Decidable (win.Matches a) :=
  inferInstanceAs (Decidable (_ ∧ _))

def image (win : Window w Attr) (a : BitVec w) : BitVec w := win.target + (a - win.base)

/-- The enabled window over `size` addresses from a base on. -/
def ofSize (base size target : BitVec w) (attr : Attr) : Window w Attr :=
  ⟨base, base + size - 1, target, attr, true⟩

end Window

/-- The `size` addresses from a base on, counted without wrapping. -/
def Span (base size a : BitVec w) : Prop :=
  base.toNat ≤ a.toNat ∧ a.toNat < base.toNat + size.toNat

instance (base size a : BitVec w) : Decidable (Span base size a) :=
  inferInstanceAs (Decidable (_ ∧ _))

/-- The inclusive limit is one below the end of the span, unless the span is the
empty one at address 0. -/
private theorem limit_toNat {base size : BitVec w} (hpos : 1 ≤ base.toNat + size.toNat)
    (hfit : base.toNat + size.toNat ≤ 2 ^ w) :
    (base + size - 1).toNat = base.toNat + size.toNat - 1 := by
  have hbase := base.isLt
  have hsize := size.isLt
  have hone : (1 : BitVec w).toNat = 1 := by
    change (BitVec.ofNat w 1).toNat = 1
    rw [BitVec.toNat_ofNat, Nat.mod_eq_of_lt (by omega)]
  rw [BitVec.toNat_sub, BitVec.toNat_add, hone]
  rcases Nat.lt_or_ge (base.toNat + size.toNat) (2 ^ w) with h | h
  · have hsum : 2 ^ w - 1 + (base.toNat + size.toNat) =
        base.toNat + size.toNat - 1 + 2 ^ w := by omega
    rw [Nat.mod_eq_of_lt h, hsum, Nat.add_mod_right, Nat.mod_eq_of_lt (by omega)]
  · have htop : base.toNat + size.toNat = 2 ^ w := by omega
    rw [htop, Nat.mod_self, Nat.add_zero, Nat.mod_eq_of_lt (by omega)]

private theorem Window.ofSize_zero_matches (target : BitVec w) (attr : Attr) (a : BitVec w) :
    (ofSize 0 0 target attr).Matches a := by
  have hzero : (0 : BitVec w).toNat = 0 := by
    change (BitVec.ofNat w 0).toNat = 0
    rw [BitVec.toNat_ofNat, Nat.zero_mod]
  have hlimit : (0 + 0 - 1 : BitVec w) = BitVec.allOnes w := by
    rw [← BitVec.neg_one_eq_allOnes]
    simp
  refine ⟨rfl, ?_, ?_⟩
  · change (0 : BitVec w) ≤ a
    rw [BitVec.le_def, hzero]
    exact Nat.zero_le _
  · change a ≤ 0 + 0 - 1
    rw [hlimit, BitVec.le_def, BitVec.toNat_allOnes]
    have ha := a.isLt
    omega

theorem Window.ofSize_exact_iff {base size : BitVec w} (target : BitVec w) (attr : Attr)
    (hfit : base.toNat + size.toNat ≤ 2 ^ w) :
    (∀ a, (ofSize base size target attr).Matches a ↔ Span base size a) ↔
      ¬ (base = 0 ∧ size = 0) := by
  constructor
  · rintro h ⟨rfl, rfl⟩
    have hspan : Span 0 0 (0 : BitVec w) := (h 0).mp (ofSize_zero_matches target attr 0)
    exact absurd hspan.2 (by simp)
  · intro h a
    have hpos : 1 ≤ base.toNat + size.toNat := by
      by_contra hzero
      exact h ⟨BitVec.eq_of_toNat_eq (by simp; omega), BitVec.eq_of_toNat_eq (by simp; omega)⟩
    have hlimit := limit_toNat hpos hfit
    simp only [Matches, ofSize, Span, BitVec.le_def, hlimit, true_and]
    omega

theorem Window.ofSize_matches_iff {base size : BitVec w} (target : BitVec w) (attr : Attr)
    (hsize : 1 ≤ size.toNat) (hfit : base.toNat + size.toNat ≤ 2 ^ w) (a : BitVec w) :
    (ofSize base size target attr).Matches a ↔ Span base size a := by
  have hnonempty : ¬ (base = 0 ∧ size = 0) := by
    rintro ⟨-, rfl⟩
    simp at hsize
  exact (ofSize_exact_iff target attr hfit).mpr hnonempty a

/-- The lowest window that matches decides. -/
def translate (table : Nat → Window w Attr) (count : Nat) (a : BitVec w) :
    Option (Attr × BitVec w) :=
  ((List.range count).find? fun r => (table r).Matches a).map fun r =>
    ((table r).attr, (table r).image a)

section Translate
variable {table : Nat → Window w Attr} {count : Nat} {a : BitVec w}

theorem translate_eq_some {r : Nat} (hr : r < count) (hmatch : (table r).Matches a)
    (hfirst : ∀ i < r, ¬ (table i).Matches a) :
    translate table count a = some ((table r).attr, (table r).image a) := by
  have hfind : ((List.range count).find? fun r => (table r).Matches a) = some r := by
    rw [List.find?_range_eq_some]
    exact ⟨decide_eq_true hmatch, List.mem_range.mpr hr, fun i hi => by simp [hfirst i hi]⟩
  unfold translate
  rw [hfind, Option.map_some]

theorem translate_eq_none (h : ∀ r < count, ¬ (table r).Matches a) :
    translate table count a = none := by
  have hfind : ((List.range count).find? fun r => (table r).Matches a) = none := by
    rw [List.find?_range_eq_none]
    exact fun r hr => by simp [h r hr]
  unfold translate
  rw [hfind, Option.map_none]

theorem translate_congr {table' : Nat → Window w Attr} (h : ∀ r < count, table r = table' r) :
    translate table count a = translate table' count a := by
  by_cases hmatch : ∃ r, r < count ∧ (table r).Matches a
  · obtain ⟨hlt, hfind⟩ := Nat.find_spec hmatch
    have hmin : ∀ i < Nat.find hmatch, ¬ (table i).Matches a := fun i hi hi' =>
      Nat.find_min hmatch hi ⟨Nat.lt_trans hi hlt, hi'⟩
    rw [translate_eq_some hlt hfind hmin, h _ hlt]
    refine (translate_eq_some hlt (h _ hlt ▸ hfind) fun i hi => ?_).symm
    rw [← h i (Nat.lt_trans hi hlt)]
    exact hmin i hi
  · rw [translate_eq_none fun r hr hr' => hmatch ⟨r, hr, hr'⟩]
    refine (translate_eq_none fun r hr hr' => hmatch ⟨r, hr, ?_⟩).symm
    rwa [h r hr]

/-- A table that holds only the first windows of another one translates like that
one, or not at all. -/
theorem translate_of_prefix {whole : Nat → Window w Attr} {n : Nat}
    (hfirst : ∀ r < n, r < count → table r = whole r)
    (hrest : ∀ r, n ≤ r → r < count → (table r).enabled = false) :
    translate table count a = none ∨ translate table count a = translate whole count a := by
  by_cases hmatch : ∃ r, r < count ∧ (table r).Matches a
  · have hnat := Nat.find_spec hmatch
    have hmin : ∀ i < Nat.find hmatch, ¬ (table i).Matches a := fun i hi h =>
      Nat.find_min hmatch hi ⟨Nat.lt_trans hi hnat.1, h⟩
    have hlt : Nat.find hmatch < n := by
      by_contra hge
      have hdisabled := hrest _ (Nat.le_of_not_lt hge) hnat.1
      exact Bool.false_ne_true (hdisabled.symm.trans hnat.2.1)
    have hsame : ∀ i ≤ Nat.find hmatch, table i = whole i := fun i hi =>
      hfirst i (Nat.lt_of_le_of_lt hi hlt) (Nat.lt_of_le_of_lt hi hnat.1)
    right
    rw [translate_eq_some hnat.1 hnat.2 hmin, translate_eq_some hnat.1
      (hsame _ (Nat.le_refl _) ▸ hnat.2) fun i hi => hsame i (Nat.le_of_lt hi) ▸ hmin i hi,
      hsame _ (Nat.le_refl _)]
  · left
    exact translate_eq_none fun r hr h => hmatch ⟨r, hr, h⟩

end Translate
end Mmio
