import DwcPcie.ListCalls

/-! The loops of `list.h`. The body of a loop works on any state that has the links in
it, and may change them. A loop that meets a null pointer or runs out of fuel has no
result. -/
namespace DwcPcie.ListLoops
open ListHead ListCalls Linked Linked.Links

variable {ι S : Type} [DecidableEq ι]

/-- The loops that load the step after the body. -/
def forEachFrom (step : S → ι → Option ι) (head : ι) (body : ι → S → Option S) :
    Nat → Option ι → S → Option S
  | 0, _, _ => none
  | fuel + 1, pos, s => do
    -- the prefetch goes through `pos` before it is compared
    let pos ← pos
    if pos = head then
      return s
    else
      let s ← body pos s
      forEachFrom step head body fuel (step s pos) s

def listForEach (links : S → Links ι) (fuel : Nat) (head : ι) (body : ι → S → Option S) (s : S) :
    Option S :=
  forEachFrom (fun s => (links s).next) head body fuel ((links s).next head) s

def listForEachPrev (links : S → Links ι) (fuel : Nat) (head : ι) (body : ι → S → Option S)
    (s : S) : Option S :=
  forEachFrom (fun s => (links s).prev) head body fuel ((links s).prev head) s

/-- The loops that load the step into `n` before the body. -/
def forEachSafeFrom (step : S → ι → Option ι) (head : ι) (body : ι → S → Option S) :
    Nat → ι → Option ι → S → Option S
  | 0, _, _, _ => none
  | fuel + 1, pos, n, s =>
    if pos = head then
      some s
    else do
      let s ← body pos s
      let pos ← n
      forEachSafeFrom step head body fuel pos (step s pos) s

def listForEachSafe (links : S → Links ι) (fuel : Nat) (head : ι) (body : ι → S → Option S)
    (s : S) : Option S := do
  let pos ← (links s).next head
  forEachSafeFrom (fun s => (links s).next) head body fuel pos ((links s).next pos) s

def listForEachPrevSafe (links : S → Links ι) (fuel : Nat) (head : ι) (body : ι → S → Option S)
    (s : S) : Option S := do
  let pos ← (links s).prev head
  forEachSafeFrom (fun s => (links s).prev) head body fuel pos ((links s).prev pos) s

section Rules

variable {step : S → ι → Option ι} {head : ι} {body : ι → S → Option S}

theorem forEachFrom_eq (Inv : S → Prop) {l : List ι} (hhead : head ∉ l)
    (hstep : ∀ s, Inv s → ∀ t p rest, l = t ++ p :: rest → step s p = (rest ++ [head]).head?)
    (hbody : ∀ p ∈ l, ∀ s s', Inv s → body p s = some s' → Inv s') :
    ∀ (rest t : List ι) (s : S) (fuel : Nat), l = t ++ rest → Inv s → rest.length < fuel →
      forEachFrom step head body fuel (rest ++ [head]).head? s =
        rest.foldlM (fun s p => body p s) s := by
  intro rest
  induction rest with
  | nil =>
    intro t s fuel _ _ hfuel
    obtain ⟨fuel, rfl⟩ := Nat.exists_eq_add_one_of_ne_zero (Nat.ne_of_gt hfuel)
    simp [forEachFrom]
  | cons p rest ih =>
    intro t s fuel hl hs hfuel
    obtain ⟨fuel, rfl⟩ := Nat.exists_eq_add_one_of_ne_zero (Nat.ne_of_gt (Nat.zero_lt_of_lt hfuel))
    have hpl : p ∈ l := by simp [hl]
    have hph : p ≠ head := fun heq => hhead (heq ▸ hpl)
    rw [List.foldlM_cons]
    cases hrun : body p s with
    | none => simp [forEachFrom, hph, hrun]
    | some s' =>
      have hs' := hbody p hpl s s' hs hrun
      have hrest := ih (t ++ [p]) s' fuel (by simp [hl]) hs' (by simpa using hfuel)
      simpa [forEachFrom, hph, hrun, hstep s' hs' t p rest hl] using hrest

/-- The invariant speaks about the entries that are still to come. The step from an
entry is loaded before the body, so that the body may take the entry away. -/
theorem forEachSafeFrom_rule (Inv : List ι → S → Prop)
    (hstep : ∀ p rest s, Inv (p :: rest) s → p ≠ head ∧ step s p = (rest ++ [head]).head?)
    (hbody : ∀ p rest s, Inv (p :: rest) s → ∃ s', body p s = some s' ∧ Inv rest s') :
    ∀ (rest : List ι) (s : S) (fuel : Nat) (pos : ι), (rest ++ [head]).head? = some pos →
      Inv rest s → rest.length < fuel →
      ∃ s', forEachSafeFrom step head body fuel pos (step s pos) s = some s' ∧ Inv [] s' := by
  intro rest
  induction rest with
  | nil =>
    intro s fuel pos hpos hs hfuel
    obtain ⟨fuel, rfl⟩ := Nat.exists_eq_add_one_of_ne_zero (Nat.ne_of_gt hfuel)
    obtain rfl : head = pos := by simpa using hpos
    exact ⟨s, by simp [forEachSafeFrom], hs⟩
  | cons p rest ih =>
    intro s fuel pos hpos hs hfuel
    obtain ⟨fuel, rfl⟩ := Nat.exists_eq_add_one_of_ne_zero (Nat.ne_of_gt (Nat.zero_lt_of_lt hfuel))
    obtain rfl : p = pos := by simpa using hpos
    obtain ⟨hph, hnext⟩ := hstep p rest s hs
    obtain ⟨s', hrun, hs'⟩ := hbody p rest s hs
    obtain ⟨n, hn⟩ : ∃ n, (rest ++ [head]).head? = some n := by
      cases rest <;> simp
    obtain ⟨s'', hloop, hs''⟩ := ih s' fuel n hn hs' (by simpa using hfuel)
    refine ⟨s'', ?_, hs''⟩
    simpa [forEachSafeFrom, hph, hrun, hnext, hn] using hloop

end Rules

/-- A loop whose body keeps the lists runs it on every entry once, first to last or
last to first, as far as the body gets. -/
theorem listForEach_visits {links : S → Links ι} {A : Family ι} {head : ι} {l : List ι}
    {body : ι → S → Option S} {s : S} {fuel : Nat} (hl : A head = some l)
    (hA : (links s).Holds A) (hfuel : l.length < fuel)
    (hbody : ∀ p ∈ l, ∀ s s', (links s).Holds A → body p s = some s' → (links s').Holds A) :
    listForEach links fuel head body s = l.foldlM (fun s p => body p s) s ∧
      listForEachPrev links fuel head body s = l.reverse.foldlM (fun s p => body p s) s := by
  have hhead := hA.head_not_mem hl
  constructor
  · have hnext := (hA.ring hl).next_eq_head?
    rw [listForEach, hnext]
    refine forEachFrom_eq (fun s => (links s).Holds A) hhead ?_ hbody l [] s fuel rfl hA hfuel
    rintro s hs t p rest rfl
    exact (path_append.1 (hs.ring hl)).2.next_eq_head?
  · have hprev := (hA.flip.ring (Family.flip_of_some hl)).next_eq_head?
    rw [flip_next] at hprev
    rw [listForEachPrev, hprev]
    refine forEachFrom_eq (fun s => (links s).Holds A) (l := l.reverse) (by simpa using hhead) ?_
      (fun p hp => hbody p (by simpa using hp)) l.reverse [] s fuel rfl hA (by simpa using hfuel)
    intro s hs t p rest hsplit
    have hring := hs.flip.ring (Family.flip_of_some hl)
    rw [hsplit] at hring
    exact (path_append.1 hring).2.next_eq_head?

theorem listForEach_visits_twoLists :
    listForEach Prod.fst 3 0 (fun p s => some (s.1, p :: s.2)) (twoLists, []) =
        [1, 2].foldlM (fun s p => some (s.1, p :: s.2)) (twoLists, []) ∧
      listForEachPrev Prod.fst 3 0 (fun p s => some (s.1, p :: s.2)) (twoLists, []) =
        [1, 2].reverse.foldlM (fun s p => some (s.1, p :: s.2)) (twoLists, []) :=
  listForEach_visits (A := twoListsFamily) rfl twoLists_holds (by decide)
    (fun _ _ _ _ hA hrun => by cases hrun; exact hA)

/-! The body of a safe loop may keep the current entry or take it out of the list. -/

theorem listForEachSafe_rule {links : S → Links ι} {head : ι} {body : ι → S → Option S}
    (Inv : List ι → S → Prop)
    (hlist : ∀ rest s, Inv rest s →
      ∃ A kept, (links s).Holds A ∧ A head = some (kept ++ rest))
    (hbody : ∀ p rest s, Inv (p :: rest) s → ∃ s', body p s = some s' ∧ Inv rest s')
    {A : Family ι} {l : List ι} {s : S} {fuel : Nat} (hA : (links s).Holds A) (hl : A head = some l)
    (hs : Inv l s) (hfuel : l.length < fuel) :
    ∃ s', listForEachSafe links fuel head body s = some s' ∧ Inv [] s' := by
  obtain ⟨pos, hpos⟩ : ∃ pos, (l ++ [head]).head? = some pos := by
    cases l <;> simp
  rw [listForEachSafe, (hA.ring hl).next_eq_head?, hpos]
  refine forEachSafeFrom_rule Inv ?_ hbody l s fuel pos hpos hs hfuel
  intro p rest s hs
  obtain ⟨A, kept, hA, hl⟩ := hlist (p :: rest) s hs
  have hph : p ≠ head := fun heq => hA.head_not_mem hl (by simp [heq])
  exact ⟨hph, (path_append.1 (hA.ring hl)).2.next_eq_head?⟩

theorem listForEachPrevSafe_rule {links : S → Links ι} {head : ι} {body : ι → S → Option S}
    (Inv : List ι → S → Prop)
    (hlist : ∀ rest s, Inv rest s →
      ∃ A kept, (links s).Holds A ∧ A head = some (rest.reverse ++ kept))
    (hbody : ∀ p rest s, Inv (p :: rest) s → ∃ s', body p s = some s' ∧ Inv rest s')
    {A : Family ι} {l : List ι} {s : S} {fuel : Nat} (hA : (links s).Holds A)
    (hl : A head = some l.reverse) (hs : Inv l s) (hfuel : l.length < fuel) :
    ∃ s', listForEachPrevSafe links fuel head body s = some s' ∧ Inv [] s' := by
  refine @listForEachSafe_rule ι S _ (fun s => (links s).flip) head body Inv ?_ hbody A.flip l s
    fuel hA.flip (Family.flip_eq_some.2 hl) hs hfuel
  intro rest s hs
  obtain ⟨A, kept, hA, hl⟩ := hlist rest s hs
  exact ⟨A.flip, kept.reverse, hA.flip, Family.flip_eq_some.2 (by simpa using hl)⟩

/-! Loops that take the selected entries out of a list. -/

section Selection

variable {h : Links ι} {M : ι → Prop} {A : Family ι} {head other p : ι} {l m t rest : List ι}
  {fuel : Nat} {sel : ι → Bool}

def dropSelected (sel : ι → Bool) (p : ι) (h : Links ι) : Option (Links ι) :=
  if sel p then listDel p h else some h

def moveSelected (sel : ι → Bool) (other p : ι) (h : Links ι) : Option (Links ι) :=
  if sel p then listMoveTail p other h else some h

def movedFamily (sel : ι → Bool) (A : Family ι) (head other : ι) (m t rest : List ι) : Family ι :=
  (A.put head (t.filter (fun p => !sel p) ++ rest)).put other (m ++ t.filter sel)

theorem movedFamily_head (hne : head ≠ other) :
    movedFamily sel A head other m t rest head = some (t.filter (fun p => !sel p) ++ rest) := by
  simp [movedFamily, Family.put, hne]

private theorem within_movedFamily (hM : A.Within M) (hl : A head = some (t ++ rest))
    (hm : A other = some m) : (movedFamily sel A head other m t rest).Within M := by
  have hMl := hM head _ hl
  have hMm := hM other m hm
  refine (hM.put ?_).put ?_ <;> grind

private theorem moveSelected_yields (hA : h.Holds (movedFamily sel A head other m t (p :: rest)))
    (hM : (movedFamily sel A head other m t (p :: rest)).Within M) (hne : head ≠ other) :
    Yields h M (moveSelected sel other p h) (movedFamily sel A head other m (t ++ [p]) rest) := by
  have hhead : movedFamily sel A head other m t (p :: rest) head =
      some (t.filter (fun p => !sel p) ++ p :: rest) := movedFamily_head hne
  have hother : movedFamily sel A head other m t (p :: rest) other = some (m ++ t.filter sel) :=
    Family.put_same _ _ _
  by_cases hp : sel p = true
  · have hop : other ≠ p := by
      rintro rfl
      simp [hA.entries hhead other (by simp)] at hother
    have hmove := listMoveTail_yields hA hM ⟨head, _, hhead, by simp⟩
      ⟨other, _, Family.drop_eq_some.2 ⟨hop, hother⟩, by simp⟩ hop
    have hmoved : movedFamily sel A head other m (t ++ [p]) rest =
        ((movedFamily sel A head other m t (p :: rest)).remove p).before other [p] := by
      rw [hA.remove_before_other hhead hother hne, movedFamily, movedFamily,
        Family.put_comm hne.symm, Family.put_put, Family.put_put]
      simp [hp]
    rw [hmoved]
    simpa [moveSelected, hp] using hmove
  · have hsame : movedFamily sel A head other m (t ++ [p]) rest =
        movedFamily sel A head other m t (p :: rest) := by
      simp [movedFamily, hp]
    rw [hsame]
    simpa [moveSelected, hp] using Yields.of_holds hA (.refl M h)

theorem listForEachSafe_moveSelected (sel : ι → Bool) (hA : h.Holds A) (hM : A.Within M)
    (hl : A head = some l) (hm : A other = some m) (hne : head ≠ other) (hfuel : l.length < fuel) :
    Yields h M (listForEachSafe id fuel head (moveSelected sel other) h)
      ((A.put head (l.filter fun p => !sel p)).put other (m ++ l.filter sel)) := by
  have hstart : movedFamily sel A head other m [] l = A := by
    simp [movedFamily, Family.put_self hl, Family.put_self hm]
  obtain ⟨h', hrun, t, ht, hsame, hA'⟩ := listForEachSafe_rule
    (fun rest h' => ∃ t, l = t ++ rest ∧ h.SameOff M h' ∧
      h'.Holds (movedFamily sel A head other m t rest))
    (fun rest h' ⟨t, _, _, hA'⟩ => ⟨_, _, hA', movedFamily_head hne⟩)
    (fun p rest h' ⟨t, ht, hsame, hA'⟩ => by
      obtain ⟨h'', hrun, hA'', hsame'⟩ := moveSelected_yields hA'
        (within_movedFamily hM (ht ▸ hl) hm) hne
      exact ⟨h'', hrun, t ++ [p], by simp [ht], hsame.trans hsame', hA''⟩)
    hA hl ⟨[], rfl, .refl M h, hstart.symm ▸ hA⟩ hfuel
  rw [List.append_nil] at ht
  exact ⟨h', hrun, by simpa [movedFamily, ht] using hA', hsame⟩

/-- The loop sorts the entries: the selected ones go to the other list, and both lists
have theirs in the old order. -/
theorem moveSelected_partitions (sel : ι → Bool) (hA : h.Holds A) (hl : A head = some l)
    (hm : A other = some m) (hne : head ≠ other) (hfuel : l.length < fuel) :
    ∃ h', listForEachSafe id fuel head (moveSelected sel other) h = some h' ∧
      h'.Holds ((A.put head (l.filter fun p => !sel p)).put other (m ++ l.filter sel)) ∧
      h.SameOff A.Member h' :=
  listForEachSafe_moveSelected sel hA (Family.within_member A) hl hm hne hfuel

theorem moveSelected_partitions_twoLists :
    ∃ h', listForEachSafe id 3 0 (moveSelected (fun p => p == 1) 10) twoLists = some h' ∧
      h'.Holds ((twoListsFamily.put 0 ([1, 2].filter fun p => !(p == 1))).put 10
        ([11] ++ [1, 2].filter fun p => p == 1)) ∧
      twoLists.SameOff twoListsFamily.Member h' :=
  moveSelected_partitions (fun p => p == 1) twoLists_holds rfl rfl (by decide) (by decide)

theorem dropSelected_yields (hA : h.Holds (A.put head (t ++ p :: rest)))
    (hM : (A.put head (t ++ p :: rest)).Within M) :
    Yields h M (dropSelected sel p h) (A.put head (t ++ [p].filter (fun p => !sel p) ++ rest)) := by
  have hl := Family.put_same A head (t ++ p :: rest)
  by_cases hp : sel p = true
  · have hmember : (A.put head (t ++ p :: rest)).Member p := ⟨head, _, hl, by simp⟩
    have hdel := listDel_yields hA hM hmember
    rw [hA.remove_entry hl, Family.put_put] at hdel
    simpa [dropSelected, hp] using hdel
  · simpa [dropSelected, hp] using Yields.of_holds hA (.refl M h)

theorem listForEachSafe_dropSelected (sel : ι → Bool) (hA : h.Holds A) (hM : A.Within M)
    (hl : A head = some l) (hfuel : l.length < fuel) :
    Yields h M (listForEachSafe id fuel head (dropSelected sel) h)
      (A.put head (l.filter fun p => !sel p)) := by
  have hMl := hM head l hl
  obtain ⟨h', hrun, t, ht, hsame, hA'⟩ := listForEachSafe_rule
    (fun rest h' => ∃ t, l = t ++ rest ∧ h.SameOff M h' ∧
      h'.Holds (A.put head (t.filter (fun p => !sel p) ++ rest)))
    (fun rest h' ⟨t, _, _, hA'⟩ => ⟨_, _, hA', Family.put_same _ _ _⟩)
    (fun p rest h' ⟨t, ht, hsame, hA'⟩ => by
      obtain ⟨h'', hrun, hA'', hsame'⟩ := dropSelected_yields (M := M) hA' (hM.put (by grind))
      exact ⟨h'', hrun, t ++ [p], by simp [ht], hsame.trans hsame',
        by simpa only [List.filter_append] using hA''⟩)
    hA hl ⟨[], rfl, .refl M h, by simpa [Family.put_self hl] using hA⟩ hfuel
  rw [List.append_nil] at ht
  exact ⟨h', hrun, by simpa [ht] using hA', hsame⟩

theorem listForEachPrevSafe_dropSelected (sel : ι → Bool) (hA : h.Holds A) (hM : A.Within M)
    (hl : A head = some l) (hfuel : l.length < fuel) :
    Yields h M (listForEachPrevSafe id fuel head (dropSelected sel) h)
      (A.put head (l.filter fun p => !sel p)) := by
  have hMl := hM head l hl
  obtain ⟨h', hrun, t, ht, hsame, hA'⟩ := @listForEachPrevSafe_rule ι _ _ id head (dropSelected sel)
    (fun rest h' => ∃ t, l = rest.reverse ++ t ∧ h.SameOff M h' ∧
      h'.Holds (A.put head (rest.reverse ++ t.filter (fun p => !sel p))))
    (fun rest h' ⟨t, _, _, hA'⟩ => ⟨_, _, hA', Family.put_same _ _ _⟩)
    (fun p rest h' ⟨t, ht, hsame, hA'⟩ => by
      rw [List.reverse_cons, List.append_assoc, List.singleton_append] at hA'
      obtain ⟨h'', hrun, hA'', hsame'⟩ := dropSelected_yields (M := M) hA' (hM.put (by grind))
      refine ⟨h'', hrun, p :: t, by simp [ht], hsame.trans hsame', ?_⟩
      rwa [List.append_assoc, ← List.filter_append] at hA'')
    A l.reverse h fuel hA (by simpa using hl)
    ⟨[], by simp, .refl M h, by simpa [Family.put_self hl] using hA⟩ (by simpa using hfuel)
  exact ⟨h', hrun, by simpa [ht] using hA', hsame⟩

/-- Forwards and backwards the loop leaves the entries that are not selected, in the
old order. -/
theorem dropSelected_filters (sel : ι → Bool) (hA : h.Holds A) (hl : A head = some l)
    (hfuel : l.length < fuel) :
    (∃ h', listForEachSafe id fuel head (dropSelected sel) h = some h' ∧
        h'.Holds (A.put head (l.filter fun p => !sel p)) ∧ h.SameOff A.Member h') ∧
      ∃ h', listForEachPrevSafe id fuel head (dropSelected sel) h = some h' ∧
        h'.Holds (A.put head (l.filter fun p => !sel p)) ∧ h.SameOff A.Member h' :=
  ⟨listForEachSafe_dropSelected sel hA (Family.within_member A) hl hfuel,
    listForEachPrevSafe_dropSelected sel hA (Family.within_member A) hl hfuel⟩

theorem dropSelected_filters_twoLists :
    (∃ h', listForEachSafe id 3 0 (dropSelected fun p => p == 1) twoLists = some h' ∧
        h'.Holds (twoListsFamily.put 0 ([1, 2].filter fun p => !(p == 1))) ∧
        twoLists.SameOff twoListsFamily.Member h') ∧
      ∃ h', listForEachPrevSafe id 3 0 (dropSelected fun p => p == 1) twoLists = some h' ∧
        h'.Holds (twoListsFamily.put 0 ([1, 2].filter fun p => !(p == 1))) ∧
        twoLists.SameOff twoListsFamily.Member h' :=
  dropSelected_filters (fun p => p == 1) twoLists_holds rfl (by decide)

end Selection

end DwcPcie.ListLoops
