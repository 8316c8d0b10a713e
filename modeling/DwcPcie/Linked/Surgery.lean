import DwcPcie.Linked.Edits

/-! What joining a few nodes anew does to a family of rings. -/
namespace Linked

variable {ι : Type} [DecidableEq ι]

namespace Links

theorem sameOff_setNext {M : ι → Prop} {a : ι} (ha : M a) (h : Links ι) (v : Option ι) :
    h.SameOff M (h.setNext a v) := by
  intro p hp
  have hpa : p ≠ a := fun heq => hp (heq ▸ ha)
  simp [hpa]

theorem sameOff_setPrev {M : ι → Prop} {a : ι} (ha : M a) (h : Links ι) (v : Option ι) :
    h.SameOff M (h.setPrev a v) := by
  intro p hp
  have hpa : p ≠ a := fun heq => hp (heq ▸ ha)
  simp [hpa]

theorem sameOff_join {M : ι → Prop} {a b : ι} (ha : M a) (hb : M b) (h : Links ι) :
    h.SameOff M (join a b h) :=
  (sameOff_setNext ha h _).trans (sameOff_setPrev hb _ _)

end Links

namespace Links.Holds

variable {h h' : Links ι} {A : Family ι} {p q x : ι}

theorem drop (hA : h.Holds A) (o : ι) : h.Holds (A.drop o) where
  ring _ _ hl := hA.ring (Family.drop_eq_some.1 hl).2
  entries := Family.Apart.drop hA.entries o

theorem put_nil (hA : h.Holds A) (hx : A.Unlisted x) : (join x x h).Holds (A.put x []) where
  ring y m hm := by
    rcases Family.put_eq_some.1 hm with ⟨rfl, rfl⟩ | ⟨hy, hm⟩
    · exact path_nil.2 (joined_join y y h)
    · refine (hA.ring hm).keep fun u hu v hv huv => ?_
      have hxm : x ∉ y :: m := by simp [Ne.symm hy, hx y m hm]
      exact huv.join (by grind) (by grind)
  entries := Family.Apart.put_nil hA.entries hx

/-- Nodes put behind `p` are there in a memory that has a way through them from `p`
to what followed it, and keeps the other steps. -/
theorem after (hA : h.Holds A) {o : ι} {s : List ι} (fresh : ∀ y ∈ s, A.drop o y = none)
    (keep : ∀ (x l), A.drop o x = some l → ∀ u ∈ x :: l, u ≠ p → ∀ v ∈ x :: l,
      h.Joined u v → h'.Joined u v)
    (through : ∀ (l x), h.Path p l x →
      (∀ u ∈ l, ∀ v ∈ l ++ [x], h.Joined u v → h'.Joined u v) → h'.Path p (s ++ l) x) :
    h'.Holds ((A.drop o).after p s) where
  ring x l' hl' := by
    rcases Family.after_cases (fun l hl => (hA.drop o).nodup hl) hl' with
      ⟨rfl, l, hl, rfl⟩ | ⟨t, r, hl, rfl⟩ | ⟨hl, hp⟩
    · have hnodup := (hA.drop o).nodup hl
      exact through _ _ ((hA.drop o).ring hl) fun u hu v hv =>
        keep _ _ hl u (by simp [hu]) (by grind) v (by grind)
    · have hnodup := (hA.drop o).nodup hl
      obtain ⟨hfront, hback⟩ := path_append.1 ((hA.drop o).ring hl)
      rw [path_append]
      constructor
      · exact hfront.keep fun u hu v hv => keep _ _ hl u (by grind) (by grind) v (by grind)
      · exact through _ _ hback fun u hu v hv =>
          keep _ _ hl u (by grind) (by grind) v (by grind)
    · exact ((hA.drop o).ring hl).keep fun u hu v hv =>
        keep _ _ hl u hu (by grind) v (by grind)
  entries := Family.Apart.after (hA.drop o).entries p fresh

theorem add (hA : h.Holds A) {new : ι} (hnew : A.Unlisted new) (hp : (A.drop new).Member p)
    (hq : h.next p = some q) :
    (join p new (join new q h)).Holds ((A.drop new).after p [new]) := by
  obtain ⟨x, l, hl, hpl⟩ := hp
  obtain ⟨hql, hpq⟩ := (hA.drop new).next_joined hl hpl hq
  have hout := hnew.not_mem_of_drop hl
  have hpn : new ≠ p := fun heq => hout (heq ▸ hpl)
  have hqn : q ≠ new := fun heq => hout (heq ▸ hql)
  refine hA.after (by simp [Family.drop_eq_none]) ?_ ?_
  · intro x l hl u hu hup v hv huv
    have hout := hnew.not_mem_of_drop hl
    have hvq : v ≠ q := fun heq => hup (huv.prev_unique (heq ▸ hpq))
    exact (huv.join (by grind) hvq).join hup (by grind)
  · intro l x hpath hkeep
    refine path_cons.2 ⟨joined_join p new _, hpath.take_over ?_ hkeep⟩
    intro v hv
    obtain rfl := hv.next_unique hpq
    exact (joined_join new v h).join hpn hqn

theorem splice (hA : h.Holds A) {o first last : ι} {s : List ι} (hs : A o = some s)
    (hne : s ≠ []) (hp : (A.drop o).Member p) (hq : h.next p = some q)
    (hfirst : h.next o = some first) (hlast : h.prev o = some last) :
    (join last q (join p first h)).Holds ((A.drop o).after p s) := by
  have apart : ∀ x l, A.drop o x = some l → ∀ u ∈ x :: l, u ∉ o :: s := by
    intro x l hl
    obtain ⟨hx, hl⟩ := Family.drop_eq_some.1 hl
    exact hA.disjoint hl hs hx
  obtain ⟨x, l, hl, hpl⟩ := hp
  obtain ⟨hql, hpq⟩ := (hA.drop o).next_joined hl hpl hq
  obtain ⟨-, hof⟩ := hA.next_joined hs (List.mem_cons_self (a := o)) hfirst
  obtain ⟨hzs, hzo⟩ := hA.prev_joined hs (List.mem_cons_self (a := o)) hlast
  have ho : o ∉ s := hA.head_not_mem hs
  obtain ⟨a, t, rfl⟩ := List.exists_cons_of_ne_nil hne
  obtain ⟨hoa, hto⟩ := path_cons.1 (hA.ring hs)
  obtain rfl := hoa.next_unique hof
  have hpo := apart x l hl p hpl
  have hqo := apart x l hl q hql
  refine hA.after ?_ ?_ ?_
  · intro y hy
    exact Family.drop_eq_none.2 (.inr (hA.entries hs y hy))
  · intro x l hl u hu hup v hv huv
    have hvq : v ≠ q := fun heq => hup (huv.prev_unique (heq ▸ hpq))
    have hua := apart x l hl u hu
    have hva := apart x l hl v hv
    exact (huv.join hup (by grind)).join (by grind) hvq
  · intro l x hpath hkeep
    refine path_cons.2 ⟨(joined_join p a h).join (by grind) (by grind), hto.fuse hpath ?_ ?_ hkeep⟩
    · intro u v huo hpv
      obtain rfl := huo.prev_unique hzo
      obtain rfl := hpv.next_unique hpq
      exact joined_join u v _
    · intro u hu v hv huv
      -- the step out of the last node leads to the head, the step to the first comes from it
      have hul : u ≠ last := by
        rintro rfl
        exact ho (huv.next_unique hzo ▸ List.mem_cons_of_mem a hv)
      have hva : v ≠ a := by
        rintro rfl
        exact ho (huv.prev_unique hof ▸ hu)
      exact (huv.join (by grind) hva).join hul (by grind)

theorem addBefore (hA : h.Holds A) {new : ι} (hnew : A.Unlisted new)
    (hp : (A.drop new).Member p) (hq : h.prev p = some q) :
    (join q new (join new p h)).Holds ((A.drop new).before p [new]) := by
  have hback := hA.flip.add (Family.unlisted_flip.2 hnew)
    (by rwa [← Family.flip_drop, Family.member_flip]) hq
  obtain ⟨x, l, hl, hpl⟩ := hp
  obtain ⟨hql, -⟩ := (hA.drop new).prev_joined hl hpl hq
  have hout := hnew.not_mem_of_drop hl
  have hpn : p ≠ new := fun heq => hout (heq ▸ hpl)
  have hqn : q ≠ new := fun heq => hout (heq ▸ hql)
  refine of_flip ?_
  rw [Family.flip_before, Family.flip_drop, flip_join, flip_join, join_comm hpn.symm hqn]
  exact hback

theorem spliceBefore (hA : h.Holds A) {o first last : ι} {s : List ι} (hs : A o = some s)
    (hne : s ≠ []) (hp : (A.drop o).Member p) (hq : h.prev p = some q)
    (hfirst : h.next o = some first) (hlast : h.prev o = some last) :
    (join last p (join q first h)).Holds ((A.drop o).before p s) := by
  have hback := hA.flip.splice (Family.flip_of_some hs)
    (by simpa using hne) (by rwa [← Family.flip_drop, Family.member_flip]) hq hlast hfirst
  obtain ⟨x, l, hl, hpl⟩ := hp
  obtain ⟨hql, -⟩ := (hA.drop o).prev_joined hl hpl hq
  obtain ⟨hx, hl⟩ := Family.drop_eq_some.1 hl
  have apart := hA.disjoint hl hs hx
  obtain ⟨hfs, -⟩ := hA.next_joined hs (List.mem_cons_self (a := o)) hfirst
  obtain ⟨hzs, -⟩ := hA.prev_joined hs (List.mem_cons_self (a := o)) hlast
  have hpf : p ≠ first := fun heq => apart p hpl (heq ▸ hfs)
  have hql' : q ≠ last := fun heq => apart q hql (heq ▸ hzs)
  refine of_flip ?_
  rw [Family.flip_before, Family.flip_drop, flip_join, flip_join, join_comm hpf hql'.symm]
  exact hback

theorem remove (hA : h.Holds A) {e : ι} (he : A.Member e) (hp : h.prev e = some p)
    (hq : h.next e = some q) : (join p q h).Holds (A.remove e) := by
  obtain ⟨y, m, hm, hem⟩ := he
  obtain ⟨-, hpe⟩ := hA.prev_joined hm hem hp
  obtain ⟨-, heq⟩ := hA.next_joined hm hem hq
  have keep : ∀ u v, u ≠ e → v ≠ e → h.Joined u v → (join p q h).Joined u v := by
    intro u v hu hv huv
    have hup : u ≠ p := fun hup => hv (huv.next_unique (hup ▸ hpe))
    have hvq : v ≠ q := fun hvq => hu (huv.prev_unique (hvq ▸ heq))
    exact huv.join hup hvq
  constructor
  · intro x l' hl'
    obtain ⟨hx, hl'⟩ := Family.drop_eq_some.1 hl'
    obtain ⟨l, hl, rfl⟩ := Option.map_eq_some_iff.1 hl'
    have hring := hA.ring hl
    have hnodup := hA.nodup hl
    by_cases hel : e ∈ l
    · obtain ⟨s, t, rfl⟩ := List.append_of_mem hel
      obtain ⟨hfront, hback⟩ := path_append.1 hring
      have hsplit : e ∉ s ∧ e ∉ t := by grind
      have herase : (s ++ e :: t).erase e = s ++ t := by
        rw [List.erase_append_right _ hsplit.1, List.erase_cons_head]
      rw [herase]
      refine hfront.fuse hback ?_ ?_ ?_
      · intro u v hue hev
        obtain rfl := hue.prev_unique hpe
        obtain rfl := hev.next_unique heq
        exact joined_join u v h
      · exact fun u hu v hv => keep u v (by grind) (by grind)
      · exact fun u hu v hv => keep u v (by grind) (by grind)
    · rw [List.erase_of_not_mem hel]
      exact hring.keep fun u hu v hv => keep u v (by grind) (by grind)
  · exact Family.Apart.remove hA.entries e

/-- A node takes the place of another one with two neighbours. The empty list is
no such place: there the node would have to be linked to itself. -/
theorem rename (hA : h.Holds A) {old new : ι} (hold : (A.drop new).Member old)
    (hnew : A.Unlisted new) (hp : h.prev old = some p) (hq : h.next old = some q)
    (hqold : q ≠ old) : (join p new (join new q h)).Holds (A.rename old new) := by
  obtain ⟨y, m, hm, hom⟩ := hold
  have hon : old ≠ new := fun heq => hnew.not_mem_of_drop hm (heq ▸ hom)
  obtain ⟨hpm, hpo⟩ := (hA.drop new).prev_joined hm hom hp
  obtain ⟨hqm, hoq⟩ := (hA.drop new).next_joined hm hom hq
  have hpn : p ≠ new := fun heq => hnew.not_mem_of_drop hm (heq ▸ hpm)
  have hqn : q ≠ new := fun heq => hnew.not_mem_of_drop hm (heq ▸ hqm)
  let f : ι → ι := fun y => if y = old then new else y
  have step : ∀ u v, u ≠ new → v ≠ new → h.Joined u v →
      (join p new (join new q h)).Joined (f u) (f v) := by
    intro u v hun hvn huv
    by_cases huo : u = old
    · obtain rfl := huo
      obtain rfl := huv.next_unique hoq
      simpa [f, hqold] using (joined_join new v h).join hpn.symm hqn
    · by_cases hvo : v = old
      · obtain rfl := hvo
        obtain rfl := huv.prev_unique hpo
        simpa [f, huo] using joined_join u new _
      · have hup : u ≠ p := fun heq => hvo (huv.next_unique (heq ▸ hpo))
        have hvq : v ≠ q := fun heq => huo (huv.prev_unique (heq ▸ hoq))
        simpa [f, huo, hvo] using (huv.join hun hvq).join hup hvn
  have renamed : ∀ x l, A x = some l → x ≠ new →
      (join p new (join new q h)).Path (f x) (l.map f) (f x) := by
    intro x l hl hx
    have hnl := hnew x l hl
    exact (hA.ring hl).map f fun u hu v hv => step u v (by grind) (by grind)
  constructor
  · intro x l' hl'
    rcases Family.rename_cases hl' with ⟨rfl, hl⟩ | ⟨hx, hxo, l, hl, rfl⟩
    · have hmap : l'.map f = l' := by
        refine (List.map_congr_left fun y hy => ?_).trans l'.map_id
        have hyo : y ≠ old := fun heq => hA.head_not_mem hl (heq ▸ hy)
        simp [f, hyo]
      simpa [hmap, f] using renamed old l' hl hon
    · simpa [f, hxo] using renamed x l hl hx
  · intro x l' hl' y hy
    rcases Family.rename_cases hl' with ⟨rfl, hl⟩ | ⟨-, -, l, hl, rfl⟩
    · have hyo : y ≠ old := fun heq => hA.head_not_mem hl (heq ▸ hy)
      have hyn : y ≠ x := fun heq => hnew old l' hl (heq ▸ hy)
      simp [Family.rename, hyo, hyn, hA.entries hl y hy]
    · obtain ⟨z, hz, rfl⟩ := List.mem_map.1 hy
      have hnone := hA.entries hl z hz
      by_cases hzo : z = old
      · simpa [hzo, Family.rename] using hzo ▸ hnone
      · have hzn : z ≠ new := fun heq => hnew x l hl (heq ▸ hz)
        simp [Family.rename, hzo, hzn, hnone]

theorem cut (hA : h.Holds A) {o e first : ι} {s t : List ι} (hl : A x = some (s ++ e :: t))
    (ho : A.Unlisted o) (hox : o ≠ x) (hfirst : h.next x = some first) (hq : h.next e = some q) :
    (join x q (join e o (join o first h))).Holds ((A.put o (s ++ [e])).put x t) := by
  have hnodup := hA.nodup hl
  have hol : o ∉ x :: (s ++ e :: t) := by simpa [hox] using ho x _ hl
  obtain ⟨-, hxf⟩ := hA.next_joined hl (by simp) hfirst
  obtain ⟨hql, heq⟩ := hA.next_joined hl (by simp) hq
  obtain ⟨hfront, hback⟩ := path_append.1 (hA.ring hl)
  have hfq : first ≠ q := by
    rintro rfl
    have := hxf.prev_unique heq
    grind
  have hfo : first ≠ o := by
    rintro rfl
    obtain ⟨hmem, -⟩ := hA.next_joined hl (by simp) hfirst
    exact hol hmem
  have hqo : q ≠ o := fun h => hol (h ▸ hql)
  have keep : ∀ u v, u ≠ x → u ≠ e → u ≠ o → v ≠ o → h.Joined u v →
      (join x q (join e o (join o first h))).Joined u v := by
    intro u v hux hue huo hvo huv
    have hvf : v ≠ first := fun h => hux (huv.prev_unique (h ▸ hxf))
    have hvq : v ≠ q := fun h => hue (huv.prev_unique (h ▸ heq))
    exact ((huv.join huo hvf).join hue hvo).join hux hvq
  constructor
  · intro y m hm
    rcases Family.put_eq_some.1 hm with ⟨rfl, rfl⟩ | ⟨hyx, hm⟩
    · refine hback.take_over ?_ ?_
      · intro v hv
        obtain rfl := hv.next_unique heq
        exact joined_join y v _
      · exact fun u hu v hv => keep u v (by grind) (by grind) (by grind) (by grind)
    rcases Family.put_eq_some.1 hm with ⟨rfl, rfl⟩ | ⟨hyo, hm⟩
    · refine path_append.2 ⟨hfront.take_over ?_ ?_, path_nil.2 ?_⟩
      · intro v hv
        obtain rfl := hv.next_unique hxf
        exact ((joined_join y v h).join (by grind) hfo).join hox hfq
      · exact fun u hu v hv => keep u v (by grind) (by grind) (by grind) (by grind)
      · exact (joined_join e y _).join (by grind) hqo.symm
    · have hym := hA.disjoint hm hl hyx
      have hom := ho y m hm
      exact (hA.ring hm).keep fun u hu v hv =>
        keep u v (by grind) (by grind) (by grind) (by grind)
  · exact Family.Apart.put_put hA.entries hl ho (by grind) (by grind)

/-! Which nodes are in no list afterwards. -/

theorem not_member_remove (hA : h.Holds A) (e : ι) : ¬(A.remove e).Member e :=
  Family.not_member_remove (fun _ _ hl => (List.nodup_cons.1 (hA.nodup hl)).2) e

theorem unlisted_remove (hA : h.Holds A) (e : ι) : (A.remove e).Unlisted e :=
  fun x l hl he => hA.not_member_remove e ⟨x, l, hl, List.mem_cons_of_mem x he⟩

theorem unlisted_rename (hA : h.Holds A) {old new : ι} (hne : old ≠ new) :
    (A.rename old new).Unlisted old := by
  intro x l' hl' hold
  rcases Family.rename_cases hl' with ⟨-, hl⟩ | ⟨-, -, l, -, rfl⟩
  · exact hA.head_not_mem hl hold
  · grind

theorem unlisted_after (hA : h.Holds A) {o : ι} {s : List ι} (hs : A o = some s) :
    ((A.drop o).after p s).Unlisted o := by
  intro x l' hl' ho
  obtain ⟨l, hl, rfl⟩ := Option.map_eq_some_iff.1 hl'
  obtain ⟨-, hl⟩ := Family.drop_eq_some.1 hl
  rcases mem_tail_insertAfter ho with ho | ho
  · exact hA.unlisted_of_head (by simp [hs]) x l hl ho
  · exact hA.head_not_mem hs ho

theorem unlisted_before (hA : h.Holds A) {o : ι} {s : List ι} (hs : A o = some s) :
    ((A.drop o).before p s).Unlisted o := by
  have hback := hA.flip.unlisted_after (p := p) (Family.flip_of_some hs)
  rwa [← Family.flip_drop, ← Family.flip_before, Family.unlisted_flip] at hback

theorem remove_entry (hA : h.Holds A) {e : ι} {s t : List ι} (hl : A x = some (s ++ e :: t)) :
    A.remove e = A.put x (s ++ t) := by
  refine Family.remove_entry hl (hA.nodup hl) (hA.entries hl e (by simp)) ?_
  exact fun y m hm hyx he => hA.disjoint hm hl hyx e (List.mem_cons_of_mem y he) (by simp)

theorem remove_before (hA : h.Holds A) {e : ι} {s t : List ι} (hl : A x = some (s ++ e :: t)) :
    (A.remove e).before x [e] = A.put x (s ++ t ++ [e]) := by
  have hunlisted := hA.unlisted_of_head (by simp [hl] : A x ≠ none)
  have hxl := hA.head_not_mem hl
  rw [hA.remove_entry hl, Family.before_head (hunlisted.put (by grind)) (Family.put_same A x _),
    Family.put_put]

theorem remove_before_other (hA : h.Holds A) {o e : ι} {s t m : List ι}
    (hl : A x = some (s ++ e :: t)) (hm : A o = some m) (hxo : x ≠ o) :
    (A.remove e).before o [e] = (A.put x (s ++ t)).put o (m ++ [e]) := by
  have hunlisted := hA.unlisted_of_head (by simp [hm] : A o ≠ none)
  have hol := hunlisted x _ hl
  rw [hA.remove_entry hl, Family.before_head (hunlisted.put (by grind)) (l := m)]
  simp [Family.put, hxo.symm, hm]

end Links.Holds

end Linked
