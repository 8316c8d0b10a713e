import DwcPcie.ListLoops
import DwcPcie.ListRuns

/-! Different ways to the same memory. Two runs that end with the same lists, and have
changed only members of them, leave the same pointers everywhere. -/
namespace DwcPcie.ListLaws
open ListHead ListCalls ListRuns ListLoops Linked Linked.Links

variable {ι : Type} [DecidableEq ι] {h : Links ι} {A : Family ι}

/-- Cutting off the front of a list and splicing it back changes nothing but the head
that was lent for it. -/
theorem listCutPosition_spliceInit (hA : h.Holds A) {list head entry : ι} {l : List ι}
    (hl : A head = some l) (hentry : entry ∈ l) (hlist : A.Unlisted list) (hne : list ≠ head) :
    (listCutPosition list head entry h).bind (listSpliceInit list head) =
      some (initListHead list h) := by
  have hB := hA.drop list
  have hBl : A.drop list head = some l := Family.drop_eq_some.2 ⟨hne.symm, hl⟩
  have hBlist : (A.drop list).Unlisted list :=
    fun x m hm => hlist x m (Family.drop_eq_some.1 hm).2
  have hM : (A.drop list).Within ((A.drop list).put list []).Member := by
    intro x m hm p hp
    exact .put ⟨x, m, (Family.drop_drop A list).symm ▸ hm, hp⟩ _
  have hMlist : ((A.drop list).put list []).Member list := Family.member_put _ List.mem_cons_self
  -- Both ends hold the same lists and differ from `h` in their members only.
  refine Yields.unique ?_ (initListHead_yields hB hBlist hMlist)
  obtain ⟨s, t, rfl, hs⟩ := List.eq_append_cons_of_mem hentry
  have hMl := hM head _ hBl
  have hmem : entry ∈ head :: (s ++ entry :: t) := by simp
  have hcut := listCutPosition_yields hB hM hBl hBlist hMlist hne (.inl hmem)
  rw [cutPosition_entry hBl hs] at hcut
  refine hcut.bind fun h' hC => ?_
  have hMC : (((A.drop list).put list (s ++ [entry])).put head t).Within
      ((A.drop list).put list []).Member :=
    (hM.put (by grind)).put (by grind)
  have hdrop : (((A.drop list).put list (s ++ [entry])).put head t).drop list =
      (A.drop list).put head t := by
    rw [Family.drop_put_of_ne hne.symm, Family.drop_put, Family.drop_drop]
  have hhead : (A.drop list).Unlisted head := hB.unlisted_of_head (by simp [hBl])
  have hht : head ∉ t := fun h => hhead head _ hBl (by simp [h])
  have hCl : ((A.drop list).put list (s ++ [entry])).put head t list = some (s ++ [entry]) := by
    simp [Family.put, hne]
  have hChead : ((((A.drop list).put list (s ++ [entry])).put head t).drop list).Member head := by
    rw [hdrop]
    exact ⟨head, t, Family.put_same _ _ _, by simp⟩
  have hsplice := listSpliceInit_yields hC hMC hCl hChead
  rw [hdrop, Family.after_head (hhead.put hht) (Family.put_same _ _ _), Family.put_put,
    List.append_assoc, List.singleton_append, Family.put_self hBl] at hsplice
  exact hsplice

theorem listCutPosition_spliceInit_twoLists :
    (listCutPosition 10 0 1 twoLists).bind (listSpliceInit 10 0) =
      some (initListHead 10 twoLists) :=
  listCutPosition_spliceInit twoLists_holds rfl (by decide)
    (twoLists_holds.unlisted_of_head (by decide)) (by decide)

private theorem effects_rotate (n : Nat) {head : ι} {l : List ι} (hl : A head = some l) :
    effects (List.replicate n (.listRotateLeft head)) A = A.put head (l.rotate n) ∧
      AllowedRun (List.replicate n (.listRotateLeft head)) A := by
  induction n generalizing A l with
  | zero => exact ⟨by simp [effects, Family.put_self hl], trivial⟩
  | succ n ih =>
    have hstep : (ListCall.listRotateLeft head).effect A = A.put head (l.rotate 1) := by
      simp [ListCall.effect, hl]
    obtain ⟨heffects, hallowed⟩ := ih (A := A.put head (l.rotate 1)) (Family.put_same _ _ _)
    rw [List.replicate_succ]
    refine ⟨?_, by simp [ListCall.Allowed, hl], hstep ▸ hallowed⟩
    rw [effects, List.foldl_cons, hstep]
    rw [effects] at heffects
    rw [heffects, Family.put_put, List.rotate_rotate, Nat.add_comm]

/-- Rotations count modulo the length of the list, down to the last pointer. -/
theorem listRotateLeft_mod (hA : h.Holds A) {head : ι} {l : List ι} (hl : A head = some l)
    (n : Nat) :
    runCalls (List.replicate n (.listRotateLeft head)) h =
      runCalls (List.replicate (n % l.length) (.listRotateLeft head)) h := by
  have rotated : ∀ k, Yields h (A.put head (l.rotate n)).Member
      (runCalls (List.replicate k (.listRotateLeft head)) h) (A.put head (l.rotate k)) := by
    intro k
    have hmember : A.Within (A.put head (l.rotate n)).Member := by
      intro x m hm p hp
      by_cases hx : x = head
      · obtain rfl := hx
        obtain rfl := Option.some.inj (hm.symm.trans hl)
        exact Family.member_put _ (by simpa using hp)
      · exact .put ⟨x, m, Family.drop_eq_some.2 ⟨hx, hm⟩, hp⟩ _
    obtain ⟨heffects, hallowed⟩ := effects_rotate k hl
    rw [← heffects]
    refine runCalls_yields _ hA hmember ?_ hallowed
    intro c hc p hp
    rw [List.eq_of_mem_replicate hc] at hp
    obtain rfl := List.mem_singleton.1 hp
    exact Family.member_put _ List.mem_cons_self
  have hmod := rotated (n % l.length)
  rw [List.rotate_mod] at hmod
  exact (rotated n).unique hmod

theorem listRotateLeft_mod_twoLists :
    runCalls (List.replicate 5 (.listRotateLeft 0)) twoLists =
      runCalls (List.replicate (5 % [1, 2].length) (.listRotateLeft 0)) twoLists :=
  listRotateLeft_mod twoLists_holds rfl 5

/-- Moving every entry one by one is what `list_splice_tail_init` does at once. -/
theorem listForEachSafe_moveTail (hA : h.Holds A) {list head : ι} {l m : List ι} {fuel : Nat}
    (hl : A list = some l) (hm : A head = some m) (hne : list ≠ head) (hfuel : l.length < fuel) :
    listForEachSafe id fuel list (fun pos h => listMoveTail pos head h) h =
      listSpliceTailInit list head h := by
  have hmember : A.Within ((A.put list []).put head (m ++ l)).Member := by
    intro x k hk p hp
    by_cases hx : x = head
    · obtain rfl := hx
      obtain rfl := Option.some.inj (hk.symm.trans hm)
      exact Family.member_put _ (by grind)
    by_cases hxl : x = list
    · obtain rfl := hxl
      obtain rfl := Option.some.inj (hk.symm.trans hl)
      rcases List.mem_cons.1 hp with rfl | hp
      · exact .put ⟨p, [], Family.drop_eq_some.2 ⟨hne, Family.put_same _ _ _⟩, by simp⟩ _
      · exact Family.member_put _ (by simp [hp])
    · exact .put ⟨x, k, Family.drop_eq_some.2 ⟨hx, Family.put_eq_some.2 (.inr ⟨hxl, hk⟩)⟩, hp⟩ _
  have hhead : (A.drop list).Member head :=
    ⟨head, m, Family.drop_eq_some.2 ⟨hne.symm, hm⟩, List.mem_cons_self⟩
  have hunlisted : (A.drop list).Unlisted head :=
    (hA.drop list).unlisted_of_head (by simp [Family.drop, hne.symm, hm])
  have hloop := listForEachSafe_moveSelected (fun _ => true) hA hmember hl hm hne hfuel
  have hsplice := listSpliceTailInit_yields hA hmember hl hhead
  rw [Family.before_head hunlisted (Family.drop_eq_some.2 ⟨hne.symm, hm⟩),
    Family.put_comm hne.symm, Family.put_drop] at hsplice
  have hbody : (fun pos h => listMoveTail pos head h) = moveSelected (fun _ => true) head := by
    funext pos h
    simp [moveSelected]
  rw [hbody]
  refine Yields.unique (A := (A.put list []).put head (m ++ l)) ?_ hsplice
  simpa using hloop

theorem listForEachSafe_moveTail_twoLists :
    listForEachSafe id 3 0 (fun pos h => listMoveTail pos 10 h) twoLists =
      listSpliceTailInit 0 10 twoLists :=
  listForEachSafe_moveTail twoLists_holds rfl rfl (by decide) (by decide)

end DwcPcie.ListLaws
