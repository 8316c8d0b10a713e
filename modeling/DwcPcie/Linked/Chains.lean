import DwcPcie.Linked.Surgery

/-! Families of chains. The links lead from the head through its entries to a null
pointer, and every entry knows what comes before it. -/
namespace Linked

variable {ι : Type}

namespace Links

/-- From `a` through the nodes of the list to the end. -/
def Ends (h : Links ι) (a : ι) : List ι → Prop
  | [] => h.next a = none
  | x :: l => h.Joined a x ∧ h.Ends x l

theorem ends_append {h : Links ι} {a x : ι} {l r : List ι} :
    h.Ends a (l ++ x :: r) ↔ h.Path a l x ∧ h.Ends x r := by
  induction l generalizing a with
  | nil => simp [Ends]
  | cons y l ih => simp [Ends, ih, and_assoc]

theorem Ends.next_eq_head? {h : Links ι} {a : ι} {l : List ι} (hl : h.Ends a l) :
    h.next a = l.head? := by
  cases l with
  | nil => exact hl
  | cons x l => exact hl.1.1

theorem Ends.keep {h h' : Links ι} {a : ι} {l : List ι} (hl : h.Ends a l)
    (keep : ∀ u ∈ a :: l, ∀ v ∈ l, h.Joined u v → h'.Joined u v)
    (stop : ∀ u ∈ a :: l, h.next u = none → h'.next u = none) : h'.Ends a l := by
  induction l generalizing a with
  | nil => exact stop a (by simp) hl
  | cons x l ih =>
    refine ⟨keep a (by simp) x (by simp) hl.1, ih hl.2 ?_ ?_⟩
    · intro u hu v hv
      exact keep u (List.mem_cons_of_mem a hu) v (List.mem_cons_of_mem x hv)
    · exact fun u hu => stop u (List.mem_cons_of_mem a hu)

/-- The memory holds the family as chains. -/
structure Chained (h : Links ι) (A : Family ι) : Prop where
  chain : ∀ ⦃x l⦄, A x = some l → h.Ends x l
  entries : ∀ ⦃x l⦄, A x = some l → ∀ y ∈ l, A y = none

theorem chained_none (h : Links ι) : h.Chained fun _ => none where
  chain _ _ hl := nomatch hl
  entries _ _ hl := nomatch hl

namespace Chained

variable {h h' : Links ι} {A : Family ι} {x y : ι} {l m : List ι}

theorem unlisted_of_head (hA : h.Chained A) (hx : A x ≠ none) : A.Unlisted x :=
  Family.Apart.unlisted_of_head hA.entries hx

theorem head_not_mem (hA : h.Chained A) (hl : A x = some l) : x ∉ l :=
  hA.unlisted_of_head (by simp [hl]) x l hl

theorem nodup (hA : h.Chained A) (hl : A x = some l) : (x :: l).Nodup := by
  have hx := hA.head_not_mem hl
  have hchain := hA.chain hl
  refine List.nodup_cons.2 ⟨hx, ?_⟩
  cases l using List.reverseRecOn with
  | nil => exact List.nodup_nil
  | append_singleton s z =>
    obtain ⟨hpath, hstop⟩ := ends_append.1 hchain
    have hback := path_flip.2 hpath
    have hs : s.Nodup := by simpa using hback.nodup (fun h => hx (by simp_all))
    refine List.nodup_append.2 ⟨hs, by simp, ?_⟩
    rintro u hu v hv rfl
    obtain rfl := List.mem_singleton.1 hv
    -- an earlier visit of the last node would have a step out of it
    obtain ⟨s, t, rfl⟩ := List.append_of_mem hu
    have hout := (path_append.1 hpath).2.next_eq_head?
    rw [show h.next u = none from hstop] at hout
    cases t <;> simp at hout

/-- No node is in two of the chains: the way back from it ends at one head only. -/
theorem disjoint (hA : h.Chained A) (hl : A x = some l) (hm : A y = some m) (hxy : x ≠ y) :
    ∀ p ∈ x :: l, p ∉ y :: m := by
  refine Family.Apart.disjoint hA.entries hl hm hxy fun p hpl hpm => ?_
  have hxm : x ∉ m := hA.unlisted_of_head (by simp [hl]) y m hm
  have hyl : y ∉ l := hA.unlisted_of_head (by simp [hm]) x l hl
  obtain ⟨s, t, rfl⟩ := List.append_of_mem hpl
  obtain ⟨s', t', rfl⟩ := List.append_of_mem hpm
  have hs := path_flip.2 (ends_append.1 (hA.chain hl)).1
  have hs' := path_flip.2 (ends_append.1 (hA.chain hm)).1
  exact hxy (hs.unique hs' (by simp_all) (by simp_all)).2

theorem step_in (hA : h.Chained A) (hl : A x = some l) {e : ι} (he : e ∈ l) :
    ∃ p ∈ x :: l, h.Joined p e := by
  obtain ⟨s, t, rfl⟩ := List.append_of_mem he
  have hpath := (ends_append.1 (hA.chain hl)).1
  cases s using List.reverseRecOn with
  | nil => exact ⟨x, by simp, path_nil.1 hpath⟩
  | append_singleton s p => exact ⟨p, by simp, path_nil.1 (path_append.1 hpath).2⟩

theorem next_joined (hA : h.Chained A) (hl : A x = some l) {p q : ι} (hp : p ∈ x :: l)
    (hq : h.next p = some q) : q ∈ l ∧ h.Joined p q := by
  have hchain := hA.chain hl
  rcases List.mem_cons.1 hp with rfl | hpl
  · cases l with
    | nil => cases hq.symm.trans hchain
    | cons r t =>
      obtain rfl := Option.some.inj (hq.symm.trans hchain.1.1)
      exact ⟨by simp, hchain.1⟩
  · obtain ⟨s, t, rfl⟩ := List.append_of_mem hpl
    have ht := (ends_append.1 hchain).2
    cases t with
    | nil => cases hq.symm.trans ht
    | cons r t =>
      obtain rfl := Option.some.inj (hq.symm.trans ht.1.1)
      exact ⟨by simp, ht.1⟩

theorem agree (hA : h.Chained A)
    (same : ∀ p, A.Member p → h'.next p = h.next p ∧ h'.prev p = h.prev p) : h'.Chained A where
  chain x l hl := by
    refine (hA.chain hl).keep ?_ fun u hu hstop => (same u ⟨x, l, hl, hu⟩).1.trans hstop
    intro u hu v hv huv
    exact ⟨(same u ⟨x, l, hl, hu⟩).1.trans huv.1,
      (same v ⟨x, l, hl, List.mem_cons_of_mem x hv⟩).2.trans huv.2⟩
  entries := hA.entries

end Chained
end Links

variable [DecidableEq ι]

namespace Links

/-- Makes `b` follow `a`, or ends the chain at `a`. -/
def attach (a : ι) (b : Option ι) (h : Links ι) : Links ι :=
  match b with
  | none => h.setNext a none
  | some b => join a b h

theorem Joined.attach {h : Links ι} {a u v : ι} {b : Option ι} (huv : h.Joined u v) (ha : u ≠ a)
    (hb : b ≠ some v) : (attach a b h).Joined u v := by
  cases b with
  | none => simpa [Joined, Links.attach, ha] using huv
  | some b => exact huv.join ha fun heq => hb (congrArg some heq.symm)

theorem attach_stop {h : Links ι} {a u : ι} {b : Option ι} (hu : h.next u = none) (ha : u ≠ a) :
    (attach a b h).next u = none := by
  cases b with
  | none => simpa [attach, ha] using hu
  | some b => simpa [attach, join, ha] using hu

theorem sameOff_attach {M : ι → Prop} {a : ι} {b : Option ι} (ha : M a)
    (hb : ∀ x, b = some x → M x) (h : Links ι) : h.SameOff M (attach a b h) := by
  cases b with
  | none => exact sameOff_setNext ha h none
  | some b => exact sameOff_join ha (hb b rfl) h

theorem Ends.attach {h : Links ι} {p a : ι} {l : List ι} (hl : h.Ends p l) (ha : a ∉ l)
    (hnodup : (p :: l).Nodup) : (attach a (h.next p) h).Ends a l := by
  cases l with
  | nil =>
    have hp : h.next p = none := hl
    simp [Ends, Links.attach, hp]
  | cons x l =>
    rw [hl.1.1]
    refine ⟨joined_join a x h, hl.2.keep ?_ ?_⟩
    · intro u hu v hv huv
      exact huv.join (by grind) (by grind)
    · intro u hu hstop
      exact attach_stop hstop (b := some x) (by grind)

namespace Chained

variable {h h' : Links ι} {A : Family ι} {p e x : ι} {l : List ι}

theorem drop (hA : h.Chained A) (o : ι) : h.Chained (A.drop o) where
  chain _ _ hl := hA.chain (Family.drop_eq_some.1 hl).2
  entries := Family.Apart.drop hA.entries o

theorem put_nil (hA : h.Chained A) (hx : A.Unlisted x) :
    (h.setNext x none).Chained (A.put x []) where
  chain y m hm := by
    rcases Family.put_eq_some.1 hm with ⟨rfl, rfl⟩ | ⟨hy, hm⟩
    · simp [Ends]
    · have hxm : x ∉ y :: m := by simp [Ne.symm hy, hx y m hm]
      refine (hA.chain hm).keep ?_ ?_
      · exact fun u hu v hv huv => huv.attach (b := none) (by grind) (by simp)
      · exact fun u hu hstop => attach_stop (b := none) hstop (by grind)
  entries := Family.Apart.put_nil hA.entries hx

theorem add (hA : h.Chained A) {new : ι} (hnew : A.Unlisted new) (hp : (A.drop new).Member p) :
    (join p new (Links.attach new (h.next p) h)).Chained ((A.drop new).after p [new]) := by
  have hB := hA.drop new
  obtain ⟨y, m, hm, hpm⟩ := hp
  have hpn : new ≠ p := fun heq => hnew.not_mem_of_drop hm (heq ▸ hpm)
  have keep : ∀ x l, A.drop new x = some l → ∀ u ∈ x :: l, u ≠ p → ∀ v ∈ l, h.Joined u v →
      (join p new (Links.attach new (h.next p) h)).Joined u v := by
    intro x l hl u hu hup v hv huv
    have hout := hnew.not_mem_of_drop hl
    have hvq : h.next p ≠ some v := fun hq =>
      hup (huv.prev_unique (hB.next_joined hm hpm hq).2)
    exact (huv.attach (by grind) hvq).join hup (by grind)
  have stop : ∀ x l, A.drop new x = some l → ∀ u ∈ x :: l, u ≠ p → h.next u = none →
      (join p new (Links.attach new (h.next p) h)).next u = none := by
    intro x l hl u hu hup hstop
    have hout := hnew.not_mem_of_drop hl
    exact attach_stop (b := some new) (attach_stop hstop (by grind)) hup
  have through : ∀ l, h.Ends p l → (p :: l).Nodup → new ∉ l →
      (join p new (Links.attach new (h.next p) h)).Ends p (new :: l) := by
    intro l hl hnodup hnl
    refine ⟨joined_join p new _, (hl.attach hnl hnodup).keep ?_ ?_⟩
    · exact fun u hu v hv huv => huv.join (by grind) (by grind)
    · exact fun u hu hstop => attach_stop (b := some new) hstop (by grind)
  constructor
  · intro x l' hl'
    rcases Family.after_cases (fun l hl => hB.nodup hl) hl' with
      ⟨rfl, l, hl, rfl⟩ | ⟨t, r, hl, rfl⟩ | ⟨hl, hp⟩
    · have hout := hnew.not_mem_of_drop hl
      exact through l (hB.chain hl) (hB.nodup hl) (by grind)
    · have hout := hnew.not_mem_of_drop hl
      have hnodup := hB.nodup hl
      obtain ⟨hfront, hback⟩ := ends_append.1 (hB.chain hl)
      refine ends_append.2 ⟨hfront.keep ?_, through r hback (by grind) (by grind)⟩
      exact fun u hu v hv => keep x _ hl u (by grind) (by grind) v (by grind)
    · refine (hB.chain hl).keep ?_ ?_
      · exact fun u hu v hv => keep x l' hl u hu (by grind) v hv
      · exact fun u hu => stop x l' hl u hu (by grind)
  · exact Family.Apart.after hB.entries p (by simp [Family.drop_eq_none])

theorem remove (hA : h.Chained A) (hl : A x = some l) (he : e ∈ l) (hp : h.prev e = some p) :
    (Links.attach p (h.next e) h).Chained (A.remove e) := by
  obtain ⟨p', hpl, hpe⟩ := hA.step_in hl he
  obtain rfl := Option.some.inj (hp.symm.trans hpe.2)
  have keep : ∀ u v, u ≠ e → v ≠ e → h.Joined u v →
      (Links.attach p (h.next e) h).Joined u v := by
    intro u v hu hv huv
    have hup : u ≠ p := fun hup => hv (huv.next_unique (hup ▸ hpe))
    have hvq : h.next e ≠ some v := fun hq =>
      hu (huv.prev_unique (hA.next_joined hl (List.mem_cons_of_mem x he) hq).2)
    exact huv.attach hup hvq
  have stop : ∀ u, h.next u = none → (Links.attach p (h.next e) h).next u = none := by
    intro u hstop
    refine attach_stop hstop ?_
    rintro rfl
    cases hstop.symm.trans hpe.1
  constructor
  · intro y m' hm'
    obtain ⟨hy, hm'⟩ := Family.drop_eq_some.1 hm'
    obtain ⟨m, hm, rfl⟩ := Option.map_eq_some_iff.1 hm'
    have hnodup := hA.nodup hm
    by_cases hem : e ∈ m
    · obtain ⟨s, t, rfl⟩ := List.append_of_mem hem
      obtain ⟨hfront, hback⟩ := ends_append.1 (hA.chain hm)
      rw [List.erase_append_right _ (by grind), List.erase_cons_head]
      cases s using List.reverseRecOn with
      | nil =>
        obtain rfl := (path_nil.1 hfront).prev_unique hpe
        exact hback.attach (by grind) (by grind)
      | append_singleton s r =>
        obtain ⟨hfront, hre⟩ := path_append.1 hfront
        obtain rfl := (path_nil.1 hre).prev_unique hpe
        rw [List.append_assoc, List.singleton_append, ends_append]
        refine ⟨hfront.keep ?_, hback.attach (by grind) (by grind)⟩
        exact fun u hu v hv => keep u v (by grind) (by grind)
    · rw [List.erase_of_not_mem hem]
      refine (hA.chain hm).keep ?_ fun u _ => stop u
      exact fun u hu v hv => keep u v (by grind) (by grind)
  · exact Family.Apart.remove hA.entries e

theorem not_member_remove (hA : h.Chained A) (e : ι) : ¬(A.remove e).Member e :=
  Family.not_member_remove (fun _ _ hl => (List.nodup_cons.1 (hA.nodup hl)).2) e

theorem remove_entry (hA : h.Chained A) {s t : List ι} (hl : A x = some (s ++ e :: t)) :
    A.remove e = A.put x (s ++ t) := by
  refine Family.remove_entry hl (hA.nodup hl) (hA.entries hl e (by simp)) ?_
  exact fun y m hm hyx he => hA.disjoint hm hl hyx e (List.mem_cons_of_mem y he) (by simp)

theorem remove_after_other (hA : h.Chained A) {o : ι} {s t m : List ι}
    (hl : A x = some (s ++ e :: t)) (hm : A o = some m) (hxo : x ≠ o) :
    (A.remove e).after o [e] = (A.put x (s ++ t)).put o (e :: m) := by
  have hunlisted := hA.unlisted_of_head (by simp [hm] : A o ≠ none)
  have hol := hunlisted x _ hl
  rw [hA.remove_entry hl, Family.after_head (hunlisted.put (by grind)) (l := m)]
  · rfl
  · simp [Family.put, hxo.symm, hm]

theorem move (hA : h.Chained A) {old new : ι} (hl : A old = some l) (hnew : A.Unlisted new)
    (hne : old ≠ new) :
    ((Links.attach new (h.next old) h).setNext old none).Chained ((A.put new l).put old []) := by
  have hol := hA.head_not_mem hl
  have hnl := hnew old l hl
  constructor
  · intro y m hm
    rcases Family.put_eq_some.1 hm with ⟨rfl, rfl⟩ | ⟨hyo, hm⟩
    · simp [Ends]
    rcases Family.put_eq_some.1 hm with ⟨rfl, rfl⟩ | ⟨hyn, hm⟩
    · refine ((hA.chain hl).attach hnl (hA.nodup hl)).keep ?_ ?_
      · exact fun u hu v hv huv => huv.attach (b := none) (by grind) (by simp)
      · exact fun u hu hstop => attach_stop (b := none) hstop (by grind)
    · have hapart := hA.disjoint hm hl hyo
      have hnm := hnew y m hm
      refine (hA.chain hm).keep ?_ ?_
      · intro u hu v hv huv
        have hvq : h.next old ≠ some v := fun hq =>
          hapart v (List.mem_cons_of_mem y hv)
            (List.mem_cons_of_mem old (hA.next_joined hl List.mem_cons_self hq).1)
        exact (huv.attach (by grind) hvq).attach (b := none) (by grind) (by simp)
      · intro u hu hstop
        exact attach_stop (b := none) (attach_stop hstop (by grind)) (by grind)
  · exact Family.Apart.put_put hA.entries hl hnew (by simp) (by simp)

theorem after_eq_before (hA : h.Chained A) (hl : A x = some l) (he : e ∈ l) (hp : h.prev e = some p)
    (s : List ι) : A.after p s = A.before e s := by
  obtain ⟨p', hpl, hpe⟩ := hA.step_in hl he
  obtain rfl := Option.some.inj (hp.symm.trans hpe.2)
  have hnodup := hA.nodup hl
  funext y
  cases hm : A y with
  | none => simp [Family.after, Family.before, hm]
  | some m =>
    by_cases hyx : y = x
    · obtain rfl := hyx
      obtain rfl := Option.some.inj (hl.symm.trans hm)
      obtain ⟨t, r, rfl⟩ := List.append_of_mem he
      have hfront := (ends_append.1 (hA.chain hl)).1
      have hbefore : (insertBefore e s (t ++ e :: r ++ [y])).dropLast = t ++ s ++ e :: r := by
        rw [List.append_assoc, List.cons_append, insertBefore_append (by grind) (by grind),
          ← List.cons_append, ← List.append_assoc, List.dropLast_concat]
      cases t using List.reverseRecOn with
      | nil =>
        obtain rfl := (path_nil.1 hfront).prev_unique hpe
        have hafter := insertAfter_append (s := s) (List.not_mem_nil (a := y))
          (show y ∉ e :: r by grind)
        have htail : (insertAfter y s (y :: e :: r)).tail = [] ++ s ++ e :: r :=
          congrArg List.tail hafter
        simpa [Family.after, Family.before, hm] using htail.trans hbefore.symm
      | append_singleton t q =>
        obtain rfl := (path_nil.1 (path_append.1 hfront).2).prev_unique hpe
        have hafter := insertAfter_append (s := s) (show q ∉ y :: t by grind)
          (show q ∉ e :: r by grind)
        have htail : (insertAfter q s (y :: t ++ q :: e :: r)).tail = t ++ [q] ++ s ++ e :: r := by
          simpa using congrArg List.tail hafter
        simpa [Family.after, Family.before, hm] using htail.trans hbefore.symm
    · have hapart := hA.disjoint hm hl hyx
      have hpm : p ∉ y :: m := fun h => hapart p h hpl
      have hem : e ∉ m ++ [y] := by
        have := fun h => hapart e h (List.mem_cons_of_mem x he)
        grind
      simp [Family.after, Family.before, hm, insertAfter_of_not_mem hpm,
        insertBefore_of_not_mem hem]

end Chained
end Links

end Linked
