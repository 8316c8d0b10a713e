import DwcPcie.HlistRuns

/-! The loops over a `struct hlist_head`, and a hash table that is filled anew with
them. A loop that runs out of fuel has no result. -/
namespace DwcPcie.HlistLoops
open ListHead Hlist HlistRuns Linked Linked.Links

variable {ι S : Type}

def hlistForEachFrom (links : S → Links ι) (body : ι → S → Option S) :
    Nat → Option ι → S → Option S
  | 0, _, _ => none
  | _ + 1, none, s => some s
  | fuel + 1, some pos, s => do
    let s ← body pos s
    hlistForEachFrom links body fuel ((links s).next pos) s

def hlistForEach (links : S → Links ι) (fuel : Nat) (head : ι) (body : ι → S → Option S) (s : S) :
    Option S :=
  hlistForEachFrom links body fuel ((links s).next head) s

/-- The step from `pos` is loaded in front of the body. -/
def hlistForEachSafeFrom (links : S → Links ι) (body : ι → S → Option S) :
    Nat → Option ι → S → Option S
  | 0, _, _ => none
  | _ + 1, none, s => some s
  | fuel + 1, some pos, s => do
    let n := (links s).next pos
    let s ← body pos s
    hlistForEachSafeFrom links body fuel n s

def hlistForEachSafe (links : S → Links ι) (fuel : Nat) (head : ι) (body : ι → S → Option S)
    (s : S) : Option S :=
  hlistForEachSafeFrom links body fuel ((links s).next head) s

section Rules

variable {links : S → Links ι} {A : Family ι} {head : ι} {l : List ι} {body : ι → S → Option S}

private theorem hlistForEachFrom_eq (hl : A head = some l)
    (hbody : ∀ p ∈ l, ∀ s s', (links s).Chained A → body p s = some s' → (links s').Chained A) :
    ∀ (rest t : List ι) (s : S) (fuel : Nat), l = t ++ rest → (links s).Chained A →
      rest.length < fuel →
      hlistForEachFrom links body fuel rest.head? s = rest.foldlM (fun s p => body p s) s := by
  intro rest
  induction rest with
  | nil =>
    intro t s fuel _ _ hfuel
    obtain ⟨fuel, rfl⟩ := Nat.exists_eq_add_one_of_ne_zero (Nat.ne_of_gt hfuel)
    rfl
  | cons p rest ih =>
    intro t s fuel ht hs hfuel
    obtain ⟨fuel, rfl⟩ := Nat.exists_eq_add_one_of_ne_zero (Nat.ne_of_gt (Nat.zero_lt_of_lt hfuel))
    rw [List.foldlM_cons, List.head?_cons, hlistForEachFrom]
    cases hrun : body p s with
    | none => rfl
    | some s' =>
      have hs' := hbody p (by simp [ht]) s s' hs hrun
      have hnext := (ends_append.1 (ht ▸ hs'.chain hl)).2.next_eq_head?
      have hrest := ih (t ++ [p]) s' fuel (by simp [ht]) hs' (by simpa using hfuel)
      simpa [hnext] using hrest

theorem hlistForEach_visits {s : S} {fuel : Nat} (hl : A head = some l)
    (hA : (links s).Chained A) (hfuel : l.length < fuel)
    (hbody : ∀ p ∈ l, ∀ s s', (links s).Chained A → body p s = some s' →
      (links s').Chained A) :
    hlistForEach links fuel head body s = l.foldlM (fun s p => body p s) s := by
  rw [hlistForEach, (hA.chain hl).next_eq_head?]
  exact hlistForEachFrom_eq hl hbody l [] s fuel rfl hA hfuel

theorem hlistForEachSafe_rule (Inv : List ι → S → Prop)
    (hstep : ∀ p rest s, Inv (p :: rest) s → (links s).next p = rest.head?)
    (hbody : ∀ p rest s, Inv (p :: rest) s → ∃ s', body p s = some s' ∧ Inv rest s') :
    ∀ (rest : List ι) (s : S) (fuel : Nat), Inv rest s → rest.length < fuel →
      ∃ s', hlistForEachSafeFrom links body fuel rest.head? s = some s' ∧ Inv [] s' := by
  intro rest
  induction rest with
  | nil =>
    intro s fuel hs hfuel
    obtain ⟨fuel, rfl⟩ := Nat.exists_eq_add_one_of_ne_zero (Nat.ne_of_gt hfuel)
    exact ⟨s, rfl, hs⟩
  | cons p rest ih =>
    intro s fuel hs hfuel
    obtain ⟨fuel, rfl⟩ := Nat.exists_eq_add_one_of_ne_zero (Nat.ne_of_gt (Nat.zero_lt_of_lt hfuel))
    obtain ⟨s', hrun, hs'⟩ := hbody p rest s hs
    obtain ⟨s'', hloop, hs''⟩ := ih s' fuel hs' (by simpa using hfuel)
    refine ⟨s'', ?_, hs''⟩
    simpa [hlistForEachSafeFrom, hrun, hstep p rest s hs] using hloop

end Rules

section Rehash

variable [DecidableEq ι] {h : Links ι} {M : ι → Prop} {A : Family ι} {head p : ι}
  {l t rest : List ι} {fuel : Nat} {bucketOf : ι → Option ι}

def rehash (bucketOf : ι → Option ι) (p : ι) (h : Links ι) : Option (Links ι) :=
  match bucketOf p with
  | none => some h
  | some bucket => do
    let h ← hlistDel p h
    return hlistAddHead p bucket h

/-- The lists when the entries of `t` have been taken over and those of `rest` are still
to come. What comes last into a bucket is its first entry. -/
def rehashed (bucketOf : ι → Option ι) (A : Family ι) (head : ι) (t rest : List ι) : Family ι :=
  fun x =>
    if x = head then some (t.filter (fun p => bucketOf p = none) ++ rest)
    else (A x).map fun m => (t.filter fun p => bucketOf p = some x).reverse ++ m

theorem rehashed_head (bucketOf : ι → Option ι) (A : Family ι) (head : ι) (t rest : List ι) :
    rehashed bucketOf A head t rest head =
      some (t.filter (fun p => bucketOf p = none) ++ rest) := by
  simp [rehashed]

private theorem rehashed_start (hl : A head = some l) : rehashed bucketOf A head [] l = A := by
  funext x
  by_cases hx : x = head
  · simp [rehashed, hx, hl]
  · simp [rehashed, hx]

private theorem rehashed_step_none (hp : bucketOf p = none) :
    rehashed bucketOf A head (t ++ [p]) rest = rehashed bucketOf A head t (p :: rest) := by
  funext x
  simp [rehashed, hp]

private theorem rehashed_step_some {bucket : ι} {m : List ι} (hp : bucketOf p = some bucket)
    (hm : A bucket = some m) (hne : bucket ≠ head) :
    rehashed bucketOf A head (t ++ [p]) rest =
      ((rehashed bucketOf A head t (p :: rest)).put head
          (t.filter (fun p => bucketOf p = none) ++ rest)).put bucket
        (p :: ((t.filter fun p => bucketOf p = some bucket).reverse ++ m)) := by
  funext x
  by_cases hx : x = head
  · simp [rehashed, Family.put, hx, hne.symm, hp]
  by_cases hxb : x = bucket
  · simp [rehashed, Family.put, hxb, hne, hp, hm]
  · simp [rehashed, Family.put, hx, hxb, hp, Ne.symm hxb]

private theorem within_rehashed (hM : A.Within M) (hl : A head = some (t ++ rest)) :
    (rehashed bucketOf A head t rest).Within M := by
  have hMl := hM head _ hl
  intro x m' hm'
  by_cases hx : x = head
  · obtain rfl := hx
    obtain rfl := Option.some.inj ((rehashed_head ..).symm.trans hm')
    grind
  · simp only [rehashed, hx, if_false, Option.map_eq_some_iff] at hm'
    obtain ⟨m, hm, rfl⟩ := hm'
    have hMm := hM x m hm
    grind

private theorem rehash_chained (hA : h.Chained (rehashed bucketOf A head t (p :: rest)))
    (hM : (rehashed bucketOf A head t (p :: rest)).Within M)
    (hbucket : ∀ b, bucketOf p = some b → A b ≠ none ∧ b ≠ head) :
    ∃ h', rehash bucketOf p h = some h' ∧
      h'.Chained (rehashed bucketOf A head (t ++ [p]) rest) ∧ h.SameOff M h' := by
  cases hp : bucketOf p with
  | none =>
    rw [rehashed_step_none hp]
    exact ⟨h, by simp [rehash, hp], hA, .refl M h⟩
  | some bucket =>
    obtain ⟨hm, hne⟩ := hbucket bucket hp
    obtain ⟨m, hm⟩ := Option.ne_none_iff_exists'.1 hm
    have hhead := rehashed_head bucketOf A head t (p :: rest)
    have hother : rehashed bucketOf A head t (p :: rest) bucket =
        some ((t.filter fun p => bucketOf p = some bucket).reverse ++ m) := by
      simp [rehashed, hne, hm]
    have hs : Represents h ⟨rehashed bucketOf A head t (p :: rest), fun _ => False⟩ :=
      ⟨hA, fun _ hn => hn.elim⟩
    have hhashed : HlistState.Hashed ⟨rehashed bucketOf A head t (p :: rest), fun _ => False⟩ p :=
      ⟨head, _, hhead, by simp⟩
    obtain ⟨h₁, hdel, hs₁, hsame₁⟩ := hlistDel_leaves hs hM hhashed
    have hpb : bucket ≠ p := by
      rintro rfl
      simp [hA.entries hhead bucket (by simp)] at hother
    have hgone : ((rehashed bucketOf A head t (p :: rest)).remove p).Unlisted p :=
      fun x l hl hmem => hA.not_member_remove p ⟨x, l, hl, List.mem_cons_of_mem x hmem⟩
    have hready : (((rehashed bucketOf A head t (p :: rest)).remove p).drop p).Member bucket := by
      rw [Family.drop_remove]
      exact Family.Member.remove ⟨bucket, _, Family.drop_eq_some.2 ⟨hpb, hother⟩, by simp⟩ hpb
    obtain ⟨h₂, hadd, hs₂, hsame₂⟩ := hlistAddHead_leaves hs₁ (hM.remove p) hgone
      (hM.member hhashed.member) hready
    refine ⟨h₂, by simpa [rehash, hp, hdel] using hadd, ?_, hsame₁.trans hsame₂⟩
    rw [rehashed_step_some hp hm hne, ← hA.remove_after_other hhead hother hne.symm]
    simpa [Family.drop_remove] using hs₂.chained

/-- Every entry of a chain is taken to the front of its new bucket, so that it lies
there in reverse order, and what has no bucket stays. -/
theorem hlistForEachSafe_rehash (bucketOf : ι → Option ι) (hA : h.Chained A)
    (hl : A head = some l) (hfuel : l.length < fuel)
    (hbucket : ∀ p ∈ l, ∀ b, bucketOf p = some b → A b ≠ none ∧ b ≠ head) :
    ∃ h', hlistForEachSafe id fuel head (rehash bucketOf) h = some h' ∧
      h'.Chained (rehashed bucketOf A head l []) ∧ h.SameOff A.Member h' := by
  -- The invariant: the entries `t` that have been visited are shared out.
  obtain ⟨h', hrun, t, ht, hsame, hA'⟩ := @hlistForEachSafe_rule ι _ id (rehash bucketOf)
    (fun rest h' => ∃ t, l = t ++ rest ∧ h.SameOff A.Member h' ∧
      h'.Chained (rehashed bucketOf A head t rest))
    (fun p rest h' ⟨t, _, _, hA'⟩ => (ends_append.1 (hA'.chain (rehashed_head ..))).2.next_eq_head?)
    (fun p rest h' ⟨t, ht, hsame, hA'⟩ => by
      obtain ⟨h'', hrun, hA'', hsame'⟩ := rehash_chained hA'
        (within_rehashed (Family.within_member A) (ht ▸ hl)) (hbucket p (by simp [ht]))
      exact ⟨h'', hrun, t ++ [p], by simp [ht], hsame.trans hsame', hA''⟩)
    l h fuel ⟨[], rfl, .refl _ h, by rwa [rehashed_start hl]⟩ hfuel
  rw [List.append_nil] at ht
  subst ht
  refine ⟨h', ?_, hA', hsame⟩
  rw [hlistForEachSafe, id, (hA.chain hl).next_eq_head?]
  exact hrun

end Rehash

def twoChains : Links Nat :=
  join 0 1 (join 1 2 (join 2 3 (join 10 11 ⟨fun _ => none, fun _ => none⟩)))

def twoChainsFamily : Family Nat := Family.put (Family.put (fun _ => none) 0 [1, 2, 3]) 10 [11]

theorem twoChains_chained : twoChains.Chained twoChainsFamily where
  chain x l hl := by
    rcases Family.put_eq_some.1 hl with ⟨rfl, rfl⟩ | ⟨-, hl⟩
    · simp [twoChains, Ends, Links.Joined, join]
    rcases Family.put_eq_some.1 hl with ⟨rfl, rfl⟩ | ⟨-, hl⟩
    · simp [twoChains, Ends, Links.Joined, join]
    · cases hl
  entries x l hl y hy := by
    rcases Family.put_eq_some.1 hl with ⟨rfl, rfl⟩ | ⟨-, hl⟩
    · obtain rfl : y = 11 := by simpa using hy
      rfl
    rcases Family.put_eq_some.1 hl with ⟨rfl, rfl⟩ | ⟨-, hl⟩
    · obtain rfl | rfl | rfl : y = 1 ∨ y = 2 ∨ y = 3 := by simpa using hy
      · rfl
      · rfl
      · rfl
    · cases hl

/-- The node 2 stays and the others go to the other head. -/
def oddBucket (p : Nat) : Option Nat := if p = 2 then none else some 10

theorem hlistForEachSafe_rehash_twoChains :
    ∃ h', hlistForEachSafe id 4 0 (rehash oddBucket) twoChains = some h' ∧
      h'.Chained (rehashed oddBucket twoChainsFamily 0 [1, 2, 3] []) ∧
      twoChains.SameOff twoChainsFamily.Member h' := by
  refine hlistForEachSafe_rehash oddBucket twoChains_chained rfl (by decide) fun p hp b hb => ?_
  obtain rfl : 10 = b := by simpa using (Option.ite_none_left_eq_some.1 hb).2
  simp [twoChainsFamily, Family.put]

end DwcPcie.HlistLoops
