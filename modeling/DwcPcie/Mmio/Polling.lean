import DwcPcie.Mmio.Program

/-! Reads of hardware that changes by itself. The environment answers the reads
of a run one after the other, whatever was written before; a polling loop is
exact if it stops at the first answer that ends it. -/
namespace Mmio.Program

variable {Addr Word Cell α β : Type} (answers : Nat → Addr → Word)

/-- The value of a run whose next read is number `k`, and the number of the read
that would follow it. -/
def answered : Program Addr Word α → Nat → α × Nat
  | .done value, k => (value, k)
  | .read addr next, k => (next (answers k addr)).answered (k + 1)
  | .write _ _ next, k => next.answered k

theorem answered_bind (program : Program Addr Word α) (f : α → Program Addr Word β) (k : Nat) :
    (program >>= f).answered answers k =
      (f (program.answered answers k).1).answered answers (program.answered answers k).2 := by
  induction program generalizing k with
  | done value => rfl
  | read addr next ih => exact ih _ _
  | write addr value next ih => exact ih _

theorem answered_fetch (addr : Addr) (k : Nat) :
    (fetch addr).answered answers k = (answers k addr, k + 1) := rfl

/-- Fetch a word until it no longer satisfies the condition. The result is false
if the fuel is used up first. -/
def pollWhile (addr : Addr) (again : Word → Bool) : Nat → Program Addr Word Bool
  | 0 => .done false
  | fuel + 1 => fetch addr >>= fun word =>
      if again word then pollWhile addr again fuel else .done true

variable (addr : Addr) (again : Word → Bool)

theorem pollWhile_again {k : Nat} (h : again (answers k addr) = true) (fuel : Nat) :
    (pollWhile addr again (fuel + 1)).answered answers k =
      (pollWhile addr again fuel).answered answers (k + 1) := by
  rw [pollWhile, answered_bind, answered_fetch, if_pos h]

theorem pollWhile_done {k : Nat} (h : again (answers k addr) = false) (fuel : Nat) :
    (pollWhile addr again (fuel + 1)).answered answers k = (true, k + 1) := by
  rw [pollWhile, answered_bind, answered_fetch, if_neg (by simp [h])]
  rfl

/-- On a store, where nothing changes by itself, the loop ends with its first read
or never. -/
theorem pollWhile_still [DecidableEq Cell] (cell : Addr → Cell) (store : Cell → Word)
    (fuel : Nat) :
    (pollWhile addr again (fuel + 1)).eval cell store = !again (store (cell addr)) := by
  induction fuel with
  | zero =>
    rw [pollWhile, eval_bind]
    cases h : again (store (cell addr)) <;> simp [fetch, eval, pollWhile, h]
  | succ fuel ih =>
    rw [pollWhile, eval_bind]
    cases h : again (store (cell addr)) with
    | false => simp [fetch, eval, h]
    | true => simpa [fetch, eval, exec, h] using ih

theorem pollWhile_eq {k n : Nat} (hagain : ∀ j < n, again (answers (k + j) addr) = true)
    (hdone : again (answers (k + n) addr) = false) {fuel : Nat} (hfuel : n < fuel) :
    (pollWhile addr again fuel).answered answers k = (true, k + n + 1) := by
  induction n generalizing k fuel with
  | zero =>
    obtain ⟨fuel, rfl⟩ := Nat.exists_eq_add_of_lt hfuel
    exact pollWhile_done answers addr again hdone _
  | succ n ih =>
    obtain ⟨fuel, rfl⟩ := Nat.exists_eq_add_of_lt hfuel
    have hshift (j : Nat) : k + 1 + j = k + (j + 1) := by omega
    have hfirst : again (answers k addr) = true := hagain 0 (Nat.succ_pos n)
    have hrest := ih (k := k + 1) (fun j hj => hshift j ▸ hagain (j + 1) (by omega))
      (hshift n ▸ hdone) (show n < n + 1 + fuel by omega)
    rw [pollWhile_again answers addr again hfirst, hrest]
    exact congrArg (Prod.mk true) (by omega)

theorem pollWhile_ended {k m fuel : Nat}
    (h : (pollWhile addr again fuel).answered answers k = (true, m)) :
    ∃ n, m = k + n + 1 ∧ (∀ j < n, again (answers (k + j) addr) = true) ∧
      again (answers (k + n) addr) = false := by
  induction fuel generalizing k with
  | zero => cases h
  | succ fuel ih =>
    cases hagain : again (answers k addr) with
    | false =>
      rw [pollWhile_done answers addr again hagain] at h
      cases h
      exact ⟨0, rfl, fun j hj => absurd hj (Nat.not_lt_zero j), hagain⟩
    | true =>
      rw [pollWhile_again answers addr again hagain] at h
      obtain ⟨n, hm, hbefore, hdone⟩ := ih h
      have hshift (j : Nat) : k + 1 + j = k + (j + 1) := by omega
      refine ⟨n + 1, by omega, fun j hj => ?_, hshift n ▸ hdone⟩
      cases j with
      | zero => exact hagain
      | succ j => exact hshift j ▸ hbefore j (by omega)

theorem pollWhile_ends_iff (k n : Nat) :
    (∀ fuel, n < fuel → (pollWhile addr again fuel).answered answers k = (true, k + n + 1)) ↔
      (∀ j < n, again (answers (k + j) addr) = true) ∧ again (answers (k + n) addr) = false := by
  constructor
  · intro h
    obtain ⟨n', hn, hrest⟩ := pollWhile_ended answers addr again (h (n + 1) (Nat.lt_succ_self n))
    obtain rfl : n = n' := by omega
    exact hrest
  · rintro ⟨hagain, hdone⟩ fuel hfuel
    exact pollWhile_eq answers addr again hagain hdone hfuel

end Mmio.Program
