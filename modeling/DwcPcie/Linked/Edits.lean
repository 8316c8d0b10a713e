import DwcPcie.Linked.Rings

/-! Edits of a family of lists. -/
namespace Linked

variable {ι : Type} [DecidableEq ι]

def insertAfter (p : ι) (s l : List ι) : List ι :=
  l.flatMap fun x => if x = p then x :: s else [x]

def insertBefore (p : ι) (s l : List ι) : List ι :=
  l.flatMap fun x => if x = p then s ++ [x] else [x]

theorem insertAfter_of_not_mem {p : ι} {s l : List ι} (hp : p ∉ l) : insertAfter p s l = l := by
  induction l with
  | nil => rfl
  | cons x l ih =>
    simp only [List.mem_cons, not_or] at hp
    have hl := ih hp.2
    simp only [insertAfter] at hl
    simp [insertAfter, Ne.symm hp.1, hl]

theorem insertAfter_append {p : ι} {s l r : List ι} (hl : p ∉ l) (hr : p ∉ r) :
    insertAfter p s (l ++ p :: r) = l ++ p :: (s ++ r) := by
  have hl' := insertAfter_of_not_mem (s := s) hl
  have hr' := insertAfter_of_not_mem (s := s) hr
  simp only [insertAfter] at hl' hr' ⊢
  simp [hl', hr']

theorem insertAfter_nil (p : ι) (l : List ι) : insertAfter p [] l = l := by
  simp [insertAfter]

theorem insertBefore_eq_reverse (p : ι) (s l : List ι) :
    insertBefore p s l = (insertAfter p s.reverse l.reverse).reverse := by
  simp [insertBefore, insertAfter, List.reverse_flatMap, Function.comp_def, apply_ite List.reverse]

theorem insertBefore_of_not_mem {p : ι} {s l : List ι} (hp : p ∉ l) : insertBefore p s l = l := by
  rw [insertBefore_eq_reverse, insertAfter_of_not_mem (by simpa using hp), List.reverse_reverse]

theorem insertBefore_append {p : ι} {s l r : List ι} (hl : p ∉ l) (hr : p ∉ r) :
    insertBefore p s (l ++ p :: r) = l ++ s ++ p :: r := by
  have h := insertAfter_append (s := s.reverse) (show p ∉ r.reverse by simpa using hr)
    (show p ∉ l.reverse by simpa using hl)
  have hrev : (l ++ p :: r).reverse = r.reverse ++ p :: l.reverse := by simp
  rw [insertBefore_eq_reverse, hrev, h]
  simp

private theorem mem_insertAfter {p y : ι} {s l : List ι} (hy : y ∈ insertAfter p s l) :
    y ∈ l ∨ y ∈ s := by
  simp only [insertAfter, List.mem_flatMap] at hy
  obtain ⟨x, hx, hyx⟩ := hy
  split at hyx <;> grind

theorem mem_tail_insertAfter {p x y : ι} {s l : List ι} (hy : y ∈ (insertAfter p s (x :: l)).tail) :
    y ∈ l ∨ y ∈ s := by
  have htail : (insertAfter p s (x :: l)).tail =
      (if x = p then s else []) ++ insertAfter p s l := by
    simp only [insertAfter, List.flatMap_cons]
    split <;> rfl
  rw [htail, List.mem_append] at hy
  rcases hy with hy | hy
  · split at hy
    · exact .inr hy
    · simp at hy
  · exact mem_insertAfter hy

namespace Family

def drop (A : Family ι) (o : ι) : Family ι := Function.update A o none

def put (A : Family ι) (x : ι) (l : List ι) : Family ι := Function.update A x (some l)

/-- The nodes of `s` right behind `p`, which for a head is at the front of its list. -/
def after (A : Family ι) (p : ι) (s : List ι) : Family ι :=
  fun x => (A x).map fun l => (insertAfter p s (x :: l)).tail

/-- The nodes of `s` right in front of `p`, which for a head is at the end of its list. -/
def before (A : Family ι) (p : ι) (s : List ι) : Family ι :=
  fun x => (A x).map fun l => (insertBefore p s (l ++ [x])).dropLast

/-- The family without a node and, if it is a head, without its list. -/
def remove (A : Family ι) (e : ι) : Family ι :=
  drop (fun x => (A x).map fun l => l.erase e) e

/-- The node `new` in the place of `old`. -/
def rename (A : Family ι) (old new : ι) : Family ι :=
  fun x => if x = new then A old else if x = old then none else
    (A x).map fun l => l.map fun y => if y = old then new else y

theorem drop_eq_some {A : Family ι} {o x : ι} {l : List ι} :
    A.drop o x = some l ↔ x ≠ o ∧ A x = some l := by
  by_cases hx : x = o <;> simp [drop, hx]

theorem drop_eq_none {A : Family ι} {o x : ι} : A.drop o x = none ↔ x = o ∨ A x = none := by
  by_cases hx : x = o <;> simp [drop, hx]

theorem put_eq_some {A : Family ι} {x y : ι} {l m : List ι} :
    A.put x l y = some m ↔ y = x ∧ l = m ∨ y ≠ x ∧ A y = some m := by
  by_cases hy : y = x <;> simp [put, hy]

theorem put_eq_none {A : Family ι} {x y : ι} {l : List ι} :
    A.put x l y = none ↔ y ≠ x ∧ A y = none := by
  by_cases hy : y = x <;> simp [put, hy]

theorem after_cases {A : Family ι} {p x : ι} {s l' : List ι}
    (hnodup : ∀ l, A x = some l → (x :: l).Nodup) (hl' : A.after p s x = some l') :
    (p = x ∧ ∃ l, A x = some l ∧ l' = s ++ l) ∨
      (∃ t r, A x = some (t ++ p :: r) ∧ l' = t ++ p :: (s ++ r)) ∨
      (A x = some l' ∧ p ∉ x :: l') := by
  obtain ⟨l, hl, rfl⟩ := Option.map_eq_some_iff.1 hl'
  have hl'' := hnodup l hl
  by_cases hpx : p = x
  · refine .inl ⟨hpx, l, hl, ?_⟩
    have hxl : x ∉ l := (List.nodup_cons.1 hl'').1
    simpa [hpx] using congrArg List.tail (insertAfter_append (List.not_mem_nil (a := x)) hxl)
  by_cases hpl : p ∈ l
  · obtain ⟨t, r, rfl⟩ := List.append_of_mem hpl
    have hsplit : p ∉ x :: t ∧ p ∉ r := by grind
    refine .inr (.inl ⟨t, r, hl, ?_⟩)
    simpa using congrArg List.tail (insertAfter_append hsplit.1 hsplit.2)
  · have hp : p ∉ x :: l := by simp [hpx, hpl]
    rw [insertAfter_of_not_mem hp, List.tail_cons]
    exact .inr (.inr ⟨hl, hp⟩)

theorem rename_cases {A : Family ι} {old new x : ι} {l' : List ι}
    (hl' : A.rename old new x = some l') :
    x = new ∧ A old = some l' ∨ x ≠ new ∧ x ≠ old ∧
      ∃ l, A x = some l ∧ l' = l.map fun y => if y = old then new else y := by
  unfold rename at hl'
  split at hl'
  · next hx => exact .inl ⟨hx, hl'⟩
  · split at hl'
    · cases hl'
    · next hx hxo =>
      obtain ⟨l, hl, rfl⟩ := Option.map_eq_some_iff.1 hl'
      exact .inr ⟨hx, hxo, l, hl, rfl⟩

theorem member_put (A : Family ι) {x p : ι} {l : List ι} (hp : p ∈ x :: l) : (A.put x l).Member p :=
  ⟨x, l, put_eq_some.2 (.inl ⟨rfl, rfl⟩), hp⟩

theorem Member.put {A : Family ι} {x p : ι} (hp : (A.drop x).Member p) (l : List ι) :
    (A.put x l).Member p := by
  obtain ⟨y, m, hm, hmem⟩ := hp
  exact ⟨y, m, put_eq_some.2 (.inr (drop_eq_some.1 hm)), hmem⟩

theorem Within.drop {A : Family ι} {M : ι → Prop} (hM : A.Within M) (o : ι) : (A.drop o).Within M :=
  fun x l hl => hM x l (drop_eq_some.1 hl).2

theorem Within.put {A : Family ι} {M : ι → Prop} (hM : A.Within M) {x : ι} {l : List ι}
    (hl : ∀ p ∈ x :: l, M p) : (A.put x l).Within M := by
  intro y m hm
  rcases put_eq_some.1 hm with ⟨rfl, rfl⟩ | ⟨-, hm⟩
  · exact hl
  · exact hM y m hm

theorem Within.after {A : Family ι} {M : ι → Prop} (hM : A.Within M) (p : ι) {s : List ι}
    (hs : ∀ y ∈ s, M y) : (A.after p s).Within M := by
  intro x l' hl' y hy
  obtain ⟨l, hl, rfl⟩ := Option.map_eq_some_iff.1 hl'
  rcases List.mem_cons.1 hy with rfl | hy
  · exact hM y l hl y List.mem_cons_self
  · exact (mem_tail_insertAfter hy).elim (fun h => hM x l hl y (List.mem_cons_of_mem x h)) (hs y)

theorem Within.remove {A : Family ι} {M : ι → Prop} (hM : A.Within M) (e : ι) :
    (A.remove e).Within M := by
  intro x l' hl' y hy
  obtain ⟨-, hl'⟩ := drop_eq_some.1 hl'
  obtain ⟨l, hl, rfl⟩ := Option.map_eq_some_iff.1 hl'
  rcases List.mem_cons.1 hy with rfl | hy
  · exact hM y l hl y List.mem_cons_self
  · exact hM x l hl y (List.mem_cons_of_mem x (List.mem_of_mem_erase hy))

theorem Within.rename {A : Family ι} {M : ι → Prop} (hM : A.Within M) (old : ι) {new : ι}
    (hnew : M new) : (A.rename old new).Within M := by
  intro x l' hl' y hy
  rcases rename_cases hl' with ⟨rfl, hl⟩ | ⟨-, -, l, hl, rfl⟩
  · have hmem := hM old l' hl
    grind
  · have hmem := hM x l hl
    grind

theorem Apart.drop {A : Family ι} (hA : A.Apart) (o : ι) : (A.drop o).Apart := fun _ _ hl y hy =>
  drop_eq_none.2 (.inr (hA (drop_eq_some.1 hl).2 y hy))

theorem Apart.put_nil {A : Family ι} (hA : A.Apart) {x : ι} (hx : A.Unlisted x) :
    (A.put x []).Apart := by
  intro y m hm z hz
  rcases put_eq_some.1 hm with ⟨rfl, rfl⟩ | ⟨hy, hm⟩
  · simp at hz
  · exact put_eq_none.2 ⟨fun hzx => hx y m hm (hzx ▸ hz), hA hm z hz⟩

theorem Apart.after {A : Family ι} (hA : A.Apart) (p : ι) {s : List ι} (hs : ∀ y ∈ s, A y = none) :
    (A.after p s).Apart := by
  intro x l' hl' y hy
  obtain ⟨l, hl, rfl⟩ := Option.map_eq_some_iff.1 hl'
  have hnone : A y = none := by
    rcases mem_tail_insertAfter hy with hy | hy
    · exact hA hl y hy
    · exact hs y hy
  simp [Family.after, hnone]

theorem Apart.remove {A : Family ι} (hA : A.Apart) (e : ι) : (A.remove e).Apart := by
  intro x l' hl' y hy
  obtain ⟨-, hl'⟩ := drop_eq_some.1 hl'
  obtain ⟨l, hl, rfl⟩ := Option.map_eq_some_iff.1 hl'
  have hnone := hA hl y (List.mem_of_mem_erase hy)
  exact drop_eq_none.2 (.inr (by simp [hnone]))

theorem Apart.put_put {A : Family ι} (hA : A.Apart) {x o : ι} {l s t : List ι} (hl : A x = some l)
    (ho : A.Unlisted o) (hs : ∀ z ∈ s, z ∈ l) (ht : ∀ z ∈ t, z ∈ l) :
    ((A.put o s).put x t).Apart := by
  have hol := ho x l hl
  intro y m hm z hz
  have hnone : A z = none ∧ z ≠ o := by
    rcases put_eq_some.1 hm with ⟨rfl, rfl⟩ | ⟨-, hm⟩
    · exact ⟨hA hl z (ht z hz), fun h => hol (h ▸ ht z hz)⟩
    rcases put_eq_some.1 hm with ⟨rfl, rfl⟩ | ⟨-, hm⟩
    · exact ⟨hA hl z (hs z hz), fun h => hol (h ▸ hs z hz)⟩
    · exact ⟨hA hm z hz, fun h => ho y m hm (h ▸ hz)⟩
  have hzx : z ≠ x := fun h => by simp [h, hl] at hnone
  exact put_eq_none.2 ⟨hzx, put_eq_none.2 ⟨hnone.2, hnone.1⟩⟩

theorem Unlisted.not_mem_of_drop {A : Family ι} {o x : ι} {l : List ι} (ho : A.Unlisted o)
    (hl : A.drop o x = some l) : o ∉ x :: l := by
  obtain ⟨hx, hl⟩ := drop_eq_some.1 hl
  simp [Ne.symm hx, ho x l hl]

theorem put_self {A : Family ι} {x : ι} {l : List ι} (hl : A x = some l) : A.put x l = A := by
  rw [put, ← hl, Function.update_eq_self]

theorem drop_remove (A : Family ι) (e : ι) : (A.remove e).drop e = A.remove e := by
  simp [remove, drop]

theorem after_nil (A : Family ι) (p : ι) : A.after p [] = A := by
  funext x
  simp [after, insertAfter_nil]

theorem before_nil (A : Family ι) (p : ι) : A.before p [] = A := by
  funext x
  simp [before, insertBefore_eq_reverse, insertAfter_nil]

theorem rename_of_nil {A : Family ι} {old new : ι} (hold : A.Unlisted old) (hnil : A old = some [])
    (hne : old ≠ new) : A.rename old new = (A.drop old).put new [] := by
  funext x
  by_cases hx : x = new
  · simp [rename, put, hx, hnil]
  by_cases hxo : x = old
  · simp [rename, put, drop, hxo, hne]
  cases hl : A x with
  | none => simp [rename, put, drop, hx, hxo, hl]
  | some l =>
    have hmap : l.map (fun y => if y = old then new else y) = l := by
      refine (List.map_congr_left fun y hy => ?_).trans l.map_id
      have hyo : y ≠ old := fun heq => hold x l hl (heq ▸ hy)
      simp [hyo]
    simp [rename, put, drop, hx, hxo, hl, hmap]

theorem not_member_remove {A : Family ι} (hnodup : ∀ x l, A x = some l → l.Nodup) (e : ι) :
    ¬(A.remove e).Member e := by
  rintro ⟨x, l', hl', he⟩
  obtain ⟨hx, hl'⟩ := drop_eq_some.1 hl'
  obtain ⟨l, hl, rfl⟩ := Option.map_eq_some_iff.1 hl'
  rcases List.mem_cons.1 he with rfl | he
  · exact hx rfl
  · exact (hnodup x l hl).not_mem_erase he

theorem remove_of_not_member {A : Family ι} {e : ι} (he : ¬A.Member e) : A.remove e = A := by
  funext x
  cases hl : A x with
  | none => by_cases hx : x = e <;> simp [remove, drop, hx, hl]
  | some l =>
    have hxl : e ∉ x :: l := fun h => he ⟨x, l, hl, h⟩
    simp only [List.mem_cons, not_or] at hxl
    simp [remove, drop, Ne.symm hxl.1, hl, List.erase_of_not_mem hxl.2]

theorem remove_entry {A : Family ι} {x e : ι} {s t : List ι} (hl : A x = some (s ++ e :: t))
    (hnodup : (x :: (s ++ e :: t)).Nodup) (he : A e = none)
    (hapart : ∀ y m, A y = some m → y ≠ x → e ∉ m) : A.remove e = A.put x (s ++ t) := by
  have hxe : x ≠ e := by grind
  funext y
  by_cases hyx : y = x
  · have hes : e ∉ s := by grind
    simp [remove, drop, put, hyx, hxe, hl, List.erase_append_right, hes]
  by_cases hye : y = e
  · simp [remove, drop, put, hye, hxe.symm, he]
  cases hm : A y with
  | none => simp [remove, drop, put, hyx, hye, hm]
  | some m => simp [remove, drop, put, hyx, hye, hm, List.erase_of_not_mem (hapart y m hm hyx)]

theorem Member.remove {A : Family ι} {e p : ι} (hp : (A.drop e).Member p) (hpe : p ≠ e) :
    (A.remove e).Member p := by
  obtain ⟨x, l, hl, hmem⟩ := hp
  obtain ⟨hx, hl⟩ := drop_eq_some.1 hl
  refine ⟨x, l.erase e, drop_eq_some.2 ⟨hx, by simp [hl]⟩, ?_⟩
  simpa [List.mem_erase_of_ne hpe] using hmem

theorem Unlisted.put {A : Family ι} {o x : ι} {l : List ι} (ho : A.Unlisted o) (hl : o ∉ l) :
    (A.put x l).Unlisted o := by
  intro y m hm
  rcases put_eq_some.1 hm with ⟨rfl, rfl⟩ | ⟨-, hm⟩
  · exact hl
  · exact ho y m hm

theorem flip_drop (A : Family ι) (o : ι) : (A.drop o).flip = A.flip.drop o := by
  funext x
  by_cases hx : x = o <;> simp [flip, drop, hx]

theorem flip_before (A : Family ι) (p : ι) (s : List ι) :
    (A.before p s).flip = A.flip.after p s.reverse := by
  funext x
  cases hA : A x <;>
    simp [flip, before, after, hA, insertBefore_eq_reverse, List.dropLast_reverse]

@[simp] theorem put_same (A : Family ι) (x : ι) (l : List ι) : A.put x l x = some l := by
  simp [put]

theorem put_put (A : Family ι) (x : ι) (l m : List ι) : (A.put x l).put x m = A.put x m := by
  simp [put]

theorem put_drop (A : Family ι) (x : ι) (l : List ι) : (A.drop x).put x l = A.put x l := by
  simp [put, drop]

theorem drop_put (A : Family ι) (x : ι) (l : List ι) : (A.put x l).drop x = A.drop x := by
  simp [put, drop]

theorem drop_drop (A : Family ι) (x : ι) : (A.drop x).drop x = A.drop x := by
  simp [drop]

theorem drop_put_of_ne {x y : ι} (hxy : x ≠ y) (A : Family ι) (l : List ι) :
    (A.put x l).drop y = (A.drop y).put x l :=
  Function.update_comm hxy _ _ _

theorem put_comm {x y : ι} (hxy : x ≠ y) (A : Family ι) (l m : List ι) :
    (A.put x l).put y m = (A.put y m).put x l :=
  Function.update_comm hxy _ _ _

theorem after_head {A : Family ι} {o : ι} {l : List ι} (ho : A.Unlisted o) (hl : A o = some l)
    (s : List ι) : A.after o s = A.put o (s ++ l) := by
  funext y
  by_cases hy : y = o
  · obtain rfl := hy
    have htail : (insertAfter y s (y :: l)).tail = s ++ l := by
      simpa using congrArg List.tail (insertAfter_append (List.not_mem_nil (a := y)) (ho y l hl))
    simp [after, put, hl, htail]
  · cases hm : A y with
    | none => simp [after, put, hy, hm]
    | some m =>
      have hom : o ∉ y :: m := by simp [Ne.symm hy, ho y m hm]
      simp [after, put, hy, hm, insertAfter_of_not_mem hom]

theorem before_head {A : Family ι} {o : ι} {l : List ι} (ho : A.Unlisted o) (hl : A o = some l)
    (s : List ι) : A.before o s = A.put o (l ++ s) := by
  funext y
  by_cases hy : y = o
  · obtain rfl := hy
    simp [before, put, hl, insertBefore_append (ho y l hl)]
  · cases hm : A y with
    | none => simp [before, put, hy, hm]
    | some m =>
      have hom : o ∉ m ++ [y] := by simp [Ne.symm hy, ho y m hm]
      simp [before, put, hy, hm, insertBefore_of_not_mem hom]

theorem Within.before {A : Family ι} {M : ι → Prop} (hM : A.Within M) (p : ι) {s : List ι}
    (hs : ∀ y ∈ s, M y) : (A.before p s).Within M := by
  rw [← within_flip, flip_before]
  exact (within_flip.2 hM).after p (by simpa using hs)

end Family

end Linked
