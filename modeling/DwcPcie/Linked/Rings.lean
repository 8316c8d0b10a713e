import DwcPcie.Linked.Links

/-! Families of rings. Every head has a list of entries, and the links lead from
the head through its entries back to it. -/
namespace Linked

/-- The entries of every head. A node that heads no list has none. -/
abbrev Family (ι : Type) := ι → Option (List ι)

variable {ι : Type}

namespace Family

def Member (A : Family ι) (p : ι) : Prop := ∃ x l, A x = some l ∧ p ∈ x :: l

def Within (A : Family ι) (M : ι → Prop) : Prop := ∀ x l, A x = some l → ∀ p ∈ x :: l, M p

/-- The node is in none of the lists as an entry. It may head one. -/
def Unlisted (A : Family ι) (p : ι) : Prop := ∀ x l, A x = some l → p ∉ l

def flip (A : Family ι) : Family ι := fun x => (A x).map List.reverse

theorem flip_eq_some {A : Family ι} {x : ι} {l : List ι} :
    A.flip x = some l ↔ A x = some l.reverse := by
  simp [flip, List.reverse_eq_iff]

theorem flip_of_some {A : Family ι} {x : ι} {l : List ι} (hl : A x = some l) :
    A.flip x = some l.reverse := by
  simp [flip, hl]

@[simp] theorem flip_flip (A : Family ι) : A.flip.flip = A := by
  funext x
  simp [flip]

theorem Within.member {A : Family ι} {M : ι → Prop} (hM : A.Within M) {p : ι} (hp : A.Member p) :
    M p := by
  obtain ⟨x, l, hl, hmem⟩ := hp
  exact hM x l hl p hmem

theorem within_member (A : Family ι) : A.Within A.Member := fun x l hl _ hp => ⟨x, l, hl, hp⟩

theorem within_flip {A : Family ι} {M : ι → Prop} : A.flip.Within M ↔ A.Within M := by
  constructor
  · intro h x l hl p hp
    exact h x l.reverse (flip_of_some hl) p (by simpa using hp)
  · intro h x l hl p hp
    exact h x l.reverse (flip_eq_some.1 hl) p (by simpa using hp)

theorem member_flip {A : Family ι} {p : ι} : A.flip.Member p ↔ A.Member p := by
  constructor
  · rintro ⟨x, l, hl, hp⟩
    exact ⟨x, l.reverse, flip_eq_some.1 hl, by simpa using hp⟩
  · rintro ⟨x, l, hl, hp⟩
    exact ⟨x, l.reverse, flip_of_some hl, by simpa using hp⟩

theorem unlisted_flip {A : Family ι} {p : ι} : A.flip.Unlisted p ↔ A.Unlisted p := by
  constructor
  · intro h x l hl hp
    exact h x l.reverse (flip_of_some hl) (by simpa using hp)
  · intro h x l hl hp
    exact h x l.reverse (flip_eq_some.1 hl) (by simpa using hp)

def Apart (A : Family ι) : Prop := ∀ ⦃x l⦄, A x = some l → ∀ y ∈ l, A y = none

theorem Apart.unlisted_of_head {A : Family ι} (hA : A.Apart) {x : ι} (hx : A x ≠ none) :
    A.Unlisted x := fun _ _ hl hmem => hx (hA hl x hmem)

theorem Apart.disjoint {A : Family ι} (hA : A.Apart) {x y : ι} {l m : List ι} (hl : A x = some l)
    (hm : A y = some m) (hxy : x ≠ y) (hlm : ∀ p ∈ l, p ∉ m) : ∀ p ∈ x :: l, p ∉ y :: m := by
  have hxm : x ∉ m := hA.unlisted_of_head (by simp [hl]) y m hm
  have hyl : y ∉ l := hA.unlisted_of_head (by simp [hm]) x l hl
  intro p hp hq
  rcases List.mem_cons.1 hp with rfl | hpl
  · simp [hxy, hxm] at hq
  rcases List.mem_cons.1 hq with rfl | hpm
  · exact hyl hpl
  · exact hlm p hpl hpm

end Family

namespace Links

/-- The memories have the same pointers in every node that is not in `M`. -/
def SameOff (M : ι → Prop) (h h' : Links ι) : Prop :=
  ∀ p, ¬M p → h'.next p = h.next p ∧ h'.prev p = h.prev p

theorem SameOff.refl (M : ι → Prop) (h : Links ι) : h.SameOff M h := fun _ _ => ⟨rfl, rfl⟩

theorem SameOff.trans {M : ι → Prop} {h h' h'' : Links ι} (hs : h.SameOff M h')
    (hs' : h'.SameOff M h'') : h.SameOff M h'' := fun p hp =>
  ⟨(hs' p hp).1.trans (hs p hp).1, (hs' p hp).2.trans (hs p hp).2⟩

/-- The memory holds the family: the links of every head run through its entries,
and no head is an entry. -/
structure Holds (h : Links ι) (A : Family ι) : Prop where
  ring : ∀ ⦃x l⦄, A x = some l → h.Path x l x
  entries : ∀ ⦃x l⦄, A x = some l → ∀ y ∈ l, A y = none

theorem holds_none (h : Links ι) : h.Holds fun _ => none where
  ring _ _ hl := nomatch hl
  entries _ _ hl := nomatch hl

namespace Holds

variable {h : Links ι} {A B : Family ι} {x y : ι} {l m : List ι}

theorem flip (hA : h.Holds A) : h.flip.Holds A.flip where
  ring x l hl := by simpa using path_flip.2 (hA.ring (Family.flip_eq_some.1 hl))
  entries x l hl y hy := by
    have := hA.entries (Family.flip_eq_some.1 hl) y (by simpa using hy)
    simp [Family.flip, this]

theorem of_flip (hA : h.flip.Holds A.flip) : h.Holds A := by
  simpa using hA.flip

theorem unlisted_of_head (hA : h.Holds A) (hx : A x ≠ none) : A.Unlisted x :=
  Family.Apart.unlisted_of_head hA.entries hx

theorem head_not_mem (hA : h.Holds A) (hl : A x = some l) : x ∉ l :=
  hA.unlisted_of_head (by simp [hl]) x l hl

theorem nodup (hA : h.Holds A) (hl : A x = some l) : (x :: l).Nodup :=
  List.nodup_cons.2 ⟨hA.head_not_mem hl, (hA.ring hl).nodup (hA.head_not_mem hl)⟩

/-- No node is in two of the lists: the way on from it ends at one head only. -/
theorem disjoint (hA : h.Holds A) (hl : A x = some l) (hm : A y = some m) (hxy : x ≠ y) :
    ∀ p ∈ x :: l, p ∉ y :: m := by
  refine Family.Apart.disjoint hA.entries hl hm hxy fun p hpl hpm => ?_
  have hxm : x ∉ m := hA.unlisted_of_head (by simp [hl]) y m hm
  have hyl : y ∉ l := hA.unlisted_of_head (by simp [hm]) x l hl
  obtain ⟨s, t, rfl⟩ := List.append_of_mem hpl
  obtain ⟨s', t', rfl⟩ := List.append_of_mem hpm
  have ht := (path_append.1 (hA.ring hl)).2
  have ht' := (path_append.1 (hA.ring hm)).2
  simp only [List.mem_append, List.mem_cons, not_or] at hxm hyl
  exact hxy (ht.unique ht' hxm.2.2 hyl.2.2).2

theorem step_out (hA : h.Holds A) (hl : A x = some l) {p : ι} (hp : p ∈ x :: l) :
    ∃ q ∈ x :: l, h.Joined p q := by
  have hring := hA.ring hl
  rcases List.mem_cons.1 hp with rfl | hpl
  · cases l with
    | nil => exact ⟨p, by simp, path_nil.1 hring⟩
    | cons q l => exact ⟨q, by simp, (path_cons.1 hring).1⟩
  · obtain ⟨s, t, rfl⟩ := List.append_of_mem hpl
    have ht := (path_append.1 hring).2
    cases t with
    | nil => exact ⟨x, by simp, path_nil.1 ht⟩
    | cons q t => exact ⟨q, by simp, (path_cons.1 ht).1⟩

theorem step_in (hA : h.Holds A) (hl : A x = some l) {q : ι} (hq : q ∈ x :: l) :
    ∃ p ∈ x :: l, h.Joined p q := by
  obtain ⟨p, hp, hj⟩ := hA.flip.step_out (Family.flip_of_some hl) (p := q) (by simpa using hq)
  exact ⟨p, by simpa using hp, joined_flip.1 hj⟩

theorem next_joined (hA : h.Holds A) (hl : A x = some l) {p q : ι} (hp : p ∈ x :: l)
    (hq : h.next p = some q) : q ∈ x :: l ∧ h.Joined p q := by
  obtain ⟨r, hr, hpr⟩ := hA.step_out hl hp
  obtain rfl := Option.some.inj (hq.symm.trans hpr.1)
  exact ⟨hr, hpr⟩

theorem prev_joined (hA : h.Holds A) (hl : A x = some l) {p q : ι} (hq : q ∈ x :: l)
    (hp : h.prev q = some p) : p ∈ x :: l ∧ h.Joined p q := by
  obtain ⟨r, hr, hrq⟩ := hA.step_in hl hq
  obtain rfl := Option.some.inj (hp.symm.trans hrq.2)
  exact ⟨hr, hrq⟩

theorem first_joined (hA : h.Holds A) {a : ι} (hl : A x = some (a :: l)) : h.Joined x a :=
  (path_cons.1 (hA.ring hl)).1

theorem last_joined (hA : h.Holds A) {z : ι} (hl : A x = some (l ++ [z])) : h.Joined z x :=
  path_nil.1 (path_append.1 (hA.ring hl)).2

theorem eq_nil_of_joined_self (hA : h.Holds A) (hl : A x = some l) {p : ι} (hp : p ∈ x :: l)
    (hpp : h.Joined p p) : p = x ∧ l = [] := by
  have hring := hA.ring hl
  have hnodup := hA.nodup hl
  rcases List.mem_cons.1 hp with rfl | hpl
  · cases l with
    | nil => exact ⟨rfl, rfl⟩
    | cons q l =>
      obtain rfl := (path_cons.1 hring).1.next_unique hpp
      simp at hnodup
  · obtain ⟨s, t, rfl⟩ := List.append_of_mem hpl
    have ht := (path_append.1 hring).2
    cases t with
    | nil =>
      obtain rfl := (path_nil.1 ht).next_unique hpp
      simp at hnodup
    | cons q t =>
      obtain rfl := (path_cons.1 ht).1.next_unique hpp
      grind

/-- Two memories that hold one family have the same pointers in its members. -/
theorem same_at {h' : Links ι} (hA : h.Holds A) (hA' : h'.Holds A) {p : ι} (hp : A.Member p) :
    h'.next p = h.next p ∧ h'.prev p = h.prev p := by
  obtain ⟨x, l, hl, hmem⟩ := hp
  constructor
  · exact (hA.ring hl).next_eq (hA'.ring hl) p hmem
  · have hflip := hA.flip.ring (Family.flip_of_some hl)
    exact hflip.next_eq (hA'.flip.ring (Family.flip_of_some hl)) p (by simpa using hmem)

theorem eq_of_sameOff {h' : Links ι} (hA : h.Holds A) (hA' : h'.Holds A)
    (hsame : h.SameOff A.Member h') : h' = h := by
  have hall : ∀ p, h'.next p = h.next p ∧ h'.prev p = h.prev p := by
    intro p
    by_cases hp : A.Member p
    · exact hA.same_at hA' hp
    · exact hsame p hp
  ext1
  · exact funext fun p => (hall p).1
  · exact funext fun p => (hall p).2

theorem agree (hA : h.Holds A) {h' : Links ι}
    (same : ∀ p, A.Member p → h'.next p = h.next p ∧ h'.prev p = h.prev p) : h'.Holds A where
  ring x l hl := (hA.ring hl).keep fun u hu v hv huv =>
    ⟨(same u ⟨x, l, hl, hu⟩).1.trans huv.1,
      (same v ⟨x, l, hl, by simpa [or_comm] using hv⟩).2.trans huv.2⟩
  entries := hA.entries

end Holds
end Links
end Linked
