import DwcPcie.Duowen
import DwcPcie.Mmio.Counter
import DwcPcie.Mmio.Script

/-! Busy waiting in an IPBENCH build. The deadline and the samples of the
free-running 32-bit counter wrap independently, so the loop ends on time only if
no sample up to the deadline is on the other side of the wrap. -/
namespace DwcPcie.Delay
open Glue Platform Duowen Mmio

section Wait
variable (build : Build)

def getCounter : Bus U32 := readApb build 0xf0000000 8

/-- The `do` loop, with fuel for so many polls. The result is false if the fuel
is used up before the loop ends. -/
def udelayLoop (next : U32) : Nat → Bus Bool
  | 0 => pure false
  | fuel + 1 => do
      let current ← getCounter build
      if current < next then udelayLoop next fuel else pure true

def udelay (fuel : Nat) (time : U32) : Bus Bool := do
  let current ← getCounter build
  let next := current + time * 125
  udelayLoop build next fuel

def counterAddr : BusAddr :=
  ⟨if build.ipbench then .apb 8 else .mmio, 0xf0000000⟩

theorem getCounter_eq : getCounter build = .fetch (counterAddr build) := by
  unfold getCounter readApb counterAddr
  cases build.ipbench <;> rfl

theorem udelayLoop_eq (next : U32) (fuel : Nat) :
    udelayLoop build next fuel = .pollWhile (counterAddr build) (fun current => current < next)
      fuel := by
  induction fuel with
  | zero => rfl
  | succ fuel ih =>
    unfold udelayLoop Program.pollWhile
    simp only [getCounter_eq, ih, decide_eq_true_eq]
    rfl

theorem udelay_emits (fuel : Nat) (time : U32) :
    (udelay build fuel time).Emits fun t => ∃ word, t = .read (counterAddr build) word := by
  unfold udelay
  rw [getCounter_eq]
  refine .bind (fun word => ⟨⟨word, rfl⟩, trivial⟩) fun current => ?_
  rw [udelayLoop_eq]
  exact .pollWhile (fun word => ⟨word, rfl⟩) _ fuel

theorem udelay_readOnly (fuel : Nat) (time : U32) : (udelay build fuel time).ReadOnly := by
  refine (udelay_emits build fuel time).mono ?_
  rintro t ⟨word, rfl⟩
  trivial

/-- On a counter that stands still a wait ends with its first poll or never. -/
theorem udelay_still (fuel : Nat) (time : U32) (s : Store) :
    (udelay build (fuel + 1) time).eval Decoder.plain.cell s = true ↔
      s (counterAddr build) + time * 125 ≤ s (counterAddr build) := by
  rw [udelay, getCounter_eq, Program.eval_bind, udelayLoop_eq, Program.pollWhile_still]
  change (!decide (s (counterAddr build) < s (counterAddr build) + time * 125)) = true ↔ _
  rw [Bool.not_eq_true', decide_eq_false_iff_not, BitVec.not_lt]

theorem udelay_answered (answers : Nat → BusAddr → U32) (fuel : Nat) (time : U32) :
    (udelay build fuel time).answered answers 0 =
      (Program.pollWhile (counterAddr build)
        (fun current => current < answers 0 (counterAddr build) + time * 125) fuel).answered
          answers 1 := by
  unfold udelay
  rw [getCounter_eq, Program.answered_bind, Program.answered_fetch, udelayLoop_eq]

end Wait

/-- A sample is below the wrapped deadline exactly if fewer ticks have elapsed,
as long as it is on the deadline's side of the wrap; on the other side the
comparison comes out the other way. -/
private theorem wrapped_lt_iff {c e t : Nat} (hc : c < 2 ^ 32) (he : e < 2 ^ 32) (ht : t < 2 ^ 32) :
    (c + e) % 2 ^ 32 < (c + t) % 2 ^ 32 ↔
      (e < t ↔ (2 ^ 32 ≤ c + e ↔ 2 ^ 32 ≤ c + t)) := by
  omega

private theorem sample_lt_deadline_iff {time : U32} (htime : time.toNat * 125 < 2 ^ 32) (c0 : U32)
    {e : Nat} (he : e < 2 ^ 32) :
    BitVec.ofNat 32 (c0.toNat + e) < c0 + time * 125 ↔ (e < time.toNat * 125 ↔
      (2 ^ 32 ≤ c0.toNat + e ↔ 2 ^ 32 ≤ c0.toNat + time.toNat * 125)) := by
  have hticks : (125 : U32).toNat = 125 := rfl
  rw [BitVec.lt_def, BitVec.toNat_ofNat, BitVec.toNat_add, BitVec.toNat_mul, hticks,
    Nat.mod_eq_of_lt htime]
  exact wrapped_lt_iff c0.isLt he htime

/-- The counter starts at `c0`, and sample `k` shows it `e k` ticks later. Where
`K` is the first sample with the time elapsed, the wait ends with that sample
exactly if every sample up to it is on the deadline's side of the wrap. -/
theorem udelay_exact_iff (build : Build) (time c0 : U32) (e : Nat → Nat) (K : Nat)
    (answers : Nat → BusAddr → U32)
    (hcounter : ∀ k, answers k (counterAddr build) = BitVec.ofNat 32 (c0.toNat + e k))
    (hstart : e 0 = 0) (htime : time.toNat * 125 < 2 ^ 32) (hK : 1 ≤ K)
    (hbefore : ∀ k, 1 ≤ k → k < K → e k < time.toNat * 125)
    (helapsed : time.toNat * 125 ≤ e K) (hperiod : e K < 2 ^ 32) :
    (∀ fuel, K ≤ fuel → (udelay build fuel time).answered answers 0 = (true, K + 1)) ↔
      ∀ k, 1 ≤ k → k ≤ K →
        (2 ^ 32 ≤ c0.toNat + e k ↔ 2 ^ 32 ≤ c0.toNat + time.toNat * 125) := by
  have hfirst : answers 0 (counterAddr build) = c0 := by
    rw [hcounter, hstart, Nat.add_zero, BitVec.ofNat_toNat, BitVec.setWidth_eq]
  have hagain (k : Nat) (hk : e k < 2 ^ 32) :
      answers k (counterAddr build) < c0 + time * 125 ↔ (e k < time.toNat * 125 ↔
        (2 ^ 32 ≤ c0.toNat + e k ↔ 2 ^ 32 ≤ c0.toNat + time.toNat * 125)) := by
    rw [hcounter]
    exact sample_lt_deadline_iff htime c0 hk
  -- Read 0 sets the deadline, so poll number `j` is read `1 + j`.
  obtain ⟨n, rfl⟩ := Nat.exists_eq_add_of_le hK
  have hloop : (∀ fuel, 1 + n ≤ fuel →
        (udelay build fuel time).answered answers 0 = (true, 1 + n + 1)) ↔
      (∀ j < n, answers (1 + j) (counterAddr build) < c0 + time * 125) ∧
        ¬ answers (1 + n) (counterAddr build) < c0 + time * 125 := by
    have hends := Program.pollWhile_ends_iff answers (counterAddr build)
      (fun current => current < c0 + time * 125) 1 n
    simp only [decide_eq_true_eq, decide_eq_false_iff_not] at hends
    have hfuel (fuel : Nat) : 1 + n ≤ fuel ↔ n < fuel := by omega
    simp only [udelay_answered, hfirst, hfuel]
    exact hends
  rw [hloop, hagain (1 + n) hperiod]
  constructor
  · rintro ⟨hgoes, hends⟩ k hk hle
    by_cases hlast : k = 1 + n
    · subst hlast
      omega
    · obtain ⟨j, rfl⟩ := Nat.exists_eq_add_of_le hk
      have hj := hbefore (1 + j) hk (by omega)
      exact ((hagain (1 + j) (by omega)).mp (hgoes j (by omega))).mp hj
  · intro hside
    refine ⟨fun j hj => ?_, ?_⟩
    · have hlt := hbefore (1 + j) (by omega) (by omega)
      exact (hagain (1 + j) (by omega)).mpr
        ⟨fun _ => hside (1 + j) (by omega) (by omega), fun _ => hlt⟩
    · have hlast := hside (1 + n) hK (Nat.le_refl _)
      omega

theorem udelay_exact_iff_wrapped :
    let build : Build := ⟨true, false, 3, 0⟩
    let e : Nat → Nat := fun k => 130 * k
    (∀ fuel, 1 ≤ fuel → (udelay build fuel 1).answered
        (fun k _ => BitVec.ofNat 32 ((0xfffffff0 : U32).toNat + e k)) 0 = (true, 1 + 1)) ↔
      ∀ k, 1 ≤ k → k ≤ 1 → (2 ^ 32 ≤ (0xfffffff0 : U32).toNat + e k ↔
        2 ^ 32 ≤ (0xfffffff0 : U32).toNat + (1 : U32).toNat * 125) := by
  intro build e
  exact udelay_exact_iff build 1 0xfffffff0 e 1 _ (fun _ => rfl) rfl (by decide) (Nat.le_refl _)
    (fun k hk hlt => absurd hlt (by omega)) (by decide) (by decide)

/-- A wait of 1000 ticks that starts just below the wrap is over at the first
poll, one tick later. -/
theorem udelay_returns_early :
    let build : Build := ⟨true, false, 3, 0⟩
    let e : Nat → Nat := fun k => k
    (udelay build 1000 8).answered
        (fun k _ => BitVec.ofNat 32 ((0xffffff00 : U32).toNat + e k)) 0 = (true, 2) ∧
      e 1 < (8 : U32).toNat * 125 := by
  decide

/-! ## Whether a wait ends -/

section Ends
variable {build : Build} {time c0 : U32} {step : Nat} {x : Nat → Nat}
  {answers : Nat → BusAddr → U32}
  (hcounter : ∀ k, answers k (counterAddr build) = BitVec.ofNat 32 (x k))
  (hstart : x 0 = c0.toNat)
include hcounter hstart

theorem udelay_again (k : Nat) :
    answers k (counterAddr build) < answers 0 (counterAddr build) + time * 125 ↔
      x k % 2 ^ 32 < (c0 + time * 125).toNat := by
  have hfirst : answers 0 (counterAddr build) = c0 := by
    rw [hcounter, hstart, BitVec.ofNat_toNat, BitVec.setWidth_eq]
  rw [hfirst, hcounter, BitVec.lt_def, BitVec.toNat_ofNat]

theorem udelay_ends {n : Nat} (hn : 1 ≤ n) (hbefore : ∀ k, 1 ≤ k → k < n →
      x k % 2 ^ 32 < (c0 + time * 125).toNat)
    (hat : (c0 + time * 125).toNat ≤ x n % 2 ^ 32) {fuel : Nat} (hfuel : n ≤ fuel) :
    (udelay build fuel time).answered answers 0 = (true, n + 1) := by
  obtain ⟨m, rfl⟩ := Nat.exists_eq_add_of_le hn
  rw [udelay_answered]
  refine Program.pollWhile_eq answers _ _ (fun j hj => ?_) ?_ (by omega)
  · exact decide_eq_true ((udelay_again hcounter hstart _).mpr
      (hbefore (1 + j) (by omega) (by omega)))
  · refine decide_eq_false fun h => ?_
    have := (udelay_again hcounter hstart _).mp h
    omega

theorem udelay_ends_iff_sample :
    (∃ fuel m, (udelay build fuel time).answered answers 0 = (true, m)) ↔
      ∃ n, 1 ≤ n ∧ (c0 + time * 125).toNat ≤ x n % 2 ^ 32 := by
  constructor
  · rintro ⟨fuel, m, h⟩
    rw [udelay_answered] at h
    obtain ⟨n, -, -, hdone⟩ := Program.pollWhile_ended answers _ _ h
    refine ⟨1 + n, Nat.le_add_right 1 n, Nat.le_of_not_lt fun hlt => ?_⟩
    exact of_decide_eq_false hdone ((udelay_again hcounter hstart _).mpr hlt)
  · intro h
    obtain ⟨hn, hat⟩ := Nat.find_spec h
    refine ⟨_, _, udelay_ends hcounter hstart hn (fun k hk hlt => ?_) hat (Nat.le_refl _)⟩
    by_contra hge
    exact Nat.find_min h hlt ⟨hk, by omega⟩

end Ends

/-- Every wait on a counter that moves up by at most `step` between polls ends,
exactly if the wrapped deadline lies at least so far below the wrap; nearer to
it there is such a counter that the loop polls for ever. -/
theorem udelay_ends_iff (build : Build) (time c0 : U32) {step : Nat} (hstep : step ≤ 2 ^ 32) :
    (∀ x answers, Samples step x → x 0 = c0.toNat →
        (∀ k, answers k (counterAddr build) = BitVec.ofNat 32 (x k)) →
      ∃ fuel m, (udelay build fuel time).answered answers 0 = (true, m)) ↔
      (c0 + time * 125).toNat + step ≤ 2 ^ 32 := by
  have hbound := (c0 + time * 125).isLt
  rw [← samples_meet_top_iff (by decide) (Nat.le_of_lt hbound) hstep c0.toNat]
  constructor
  · intro h x hsamples hstart
    exact (udelay_ends_iff_sample (fun _ => rfl) hstart).mp
      (h x (fun k _ => BitVec.ofNat 32 (x k)) hsamples hstart fun _ => rfl)
  · intro h x answers hsamples hstart hcounter
    exact (udelay_ends_iff_sample hcounter hstart).mpr (h x hsamples hstart)

theorem udelay_ends_iff_pair :
    (∀ x answers, Samples 2 x → x 0 = (0xffffff82 : U32).toNat →
        (∀ k, answers k (counterAddr ⟨true, false, 3, 0⟩) = BitVec.ofNat 32 (x k)) →
      ∃ fuel m, (udelay ⟨true, false, 3, 0⟩ fuel 1).answered answers 0 = (true, m)) ↔
      ((0xffffff82 : U32) + 1 * 125).toNat + 2 ≤ 2 ^ 32 :=
  udelay_ends_iff _ 1 0xffffff82 (by decide)

end DwcPcie.Delay
