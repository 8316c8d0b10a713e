import Mathlib.Data.Nat.Find
import Mathlib.Order.WellFounded

/-! Samples of a counter that wraps. The samples of a free-running counter move
up by at least one tick and by at most `step`; whether they can miss a range at
the top of the period, or all the periods to come, is a matter of its width. -/
namespace Mmio

/-- Each sample is later than the one before, by at most `step` ticks. -/
def Samples (step : Nat) (x : Nat → Nat) : Prop := ∀ k, x k < x (k + 1) ∧ x (k + 1) ≤ x k + step

section Samples
variable {step bound period : Nat} {x : Nat → Nat}

theorem Samples.strictMono (h : Samples step x) : StrictMono x :=
  strictMono_nat_of_lt_succ fun k => (h k).1

theorem Samples.reaches (h : Samples step x) {target : Nat} (hstart : x 0 < target) :
    ∃ k, (∀ j ≤ k, x j < target) ∧ target ≤ x (k + 1) ∧ x (k + 1) < target + step := by
  have hreach : ∃ k, target ≤ x k := ⟨target, h.strictMono.le_apply⟩
  obtain ⟨k, hk⟩ : ∃ k, Nat.find hreach = k + 1 :=
    Nat.exists_eq_succ_of_ne_zero fun hzero => by
      have := Nat.find_spec hreach
      rw [hzero] at this
      omega
  have hbefore : ∀ j ≤ k, x j < target := fun j hj =>
    Nat.lt_of_not_le (Nat.find_min hreach (by omega))
  have hat : target ≤ x (k + 1) := hk ▸ Nat.find_spec hreach
  have hstep := (h k).2
  have hlast := hbefore k (Nat.le_refl k)
  exact ⟨k, hbefore, hat, by omega⟩

theorem Samples.meets_top (h : Samples step x) (hperiod : 0 < period)
    (hroom : bound + step ≤ period) : ∃ n, 1 ≤ n ∧ bound ≤ x n % period := by
  -- They run into the top of the next period.
  have hstart : x 0 < period * (x 0 / period + 1) + bound := by
    have := Nat.lt_mul_div_succ (x 0) hperiod
    omega
  obtain ⟨k, -, hat, hover⟩ := h.reaches hstart
  obtain ⟨r, hr⟩ := Nat.exists_eq_add_of_le (Nat.le_trans (Nat.le_add_right _ bound) hat)
  refine ⟨k + 1, Nat.le_add_left 1 k, ?_⟩
  rw [hr, Nat.mul_add_mod, Nat.mod_eq_of_lt (by omega)]
  omega

/-- The next sample that is below the bound in its period: one tick later, or
else at the start of the next period. -/
def nextBelow (bound period x : Nat) : Nat :=
  if (x + 1) % period < bound then x + 1 else period * (x / period + 1)

private theorem nextBelow_mod (hbound : 0 < bound) (x : Nat) :
    nextBelow bound period x % period < bound := by
  unfold nextBelow
  split
  · assumption
  · rwa [Nat.mul_mod_right]

private theorem nextBelow_step (hperiod : 0 < period) (hbound : bound ≤ period)
    (hroom : period < bound + step) (x : Nat) :
    x < nextBelow bound period x ∧ nextBelow bound period x ≤ x + step := by
  unfold nextBelow
  split
  · omega
  · rename_i hge
    have hlt := Nat.mod_lt x hperiod
    have hdiv := Nat.div_add_mod x period
    rw [Nat.mul_add, Nat.mul_one]
    have hlate : period ≤ x % period + step := by
      rcases Nat.lt_or_ge (x % period + 1) period with hinside | hlast
      · rw [← Nat.mod_add_mod, Nat.mod_eq_of_lt hinside] at hge
        omega
      · omega
    omega

theorem exists_samples_below (step : Nat) (hperiod : 0 < period) (hpos : 0 < bound)
    (hbound : bound ≤ period) (hroom : period < bound + step) (start : Nat) :
    ∃ x, Samples step x ∧ x 0 = start ∧ ∀ k, 1 ≤ k → x k % period < bound := by
  refine ⟨fun k => (nextBelow bound period)^[k] start, fun k => ?_, rfl, fun k hk => ?_⟩
  · simp only [Function.iterate_succ_apply']
    exact nextBelow_step hperiod hbound hroom _
  · obtain ⟨k, rfl⟩ := Nat.exists_eq_add_of_le' hk
    simp only [Function.iterate_succ_apply']
    exact nextBelow_mod hpos _

/-- Samples of a counter reach the top of a period sooner or later exactly if it is
as wide as a step. -/
theorem samples_meet_top_iff (hperiod : 0 < period) (hbound : bound ≤ period)
    (hstep : step ≤ period) (start : Nat) :
    (∀ x, Samples step x → x 0 = start → ∃ n, 1 ≤ n ∧ bound ≤ x n % period) ↔
      bound + step ≤ period := by
  constructor
  · intro h
    by_contra hroom
    obtain ⟨x, hx, hstart, hbelow⟩ :=
      exists_samples_below step hperiod (by omega) hbound (by omega) start
    obtain ⟨n, hn, hge⟩ := h x hx hstart
    have := hbelow n hn
    omega
  · exact fun hroom x hx _ => hx.meets_top hperiod hroom

end Samples
end Mmio
