import DwcPcie.ListHead
import Mathlib.Data.List.Rotate

/-! What every function of `list.h` does to the lists, and that it does so in any
memory that holds them. -/
namespace DwcPcie.ListCalls
open ListHead Linked Linked.Links

section Yields

variable {ι : Type}

/-- From memory `h` the call comes to an end in a memory that holds the family, and
has changed pointers in nodes of `M` only. -/
def Yields (h : Links ι) (M : ι → Prop) (result : Option (Links ι)) (A : Family ι) : Prop :=
  ∃ h', result = some h' ∧ h'.Holds A ∧ h.SameOff M h'

variable {h h' : Links ι} {M : ι → Prop} {A B : Family ι}

theorem Yields.of_holds (hA : h'.Holds A) (hsame : h.SameOff M h') : Yields h M (some h') A :=
  ⟨h', rfl, hA, hsame⟩

theorem Yields.bind {result : Option (Links ι)} {f : Links ι → Option (Links ι)}
    (hresult : Yields h M result A) (hf : ∀ h', h'.Holds A → Yields h' M (f h') B) :
    Yields h M (result.bind f) B := by
  obtain ⟨h', rfl, hA, hsame⟩ := hresult
  obtain ⟨h'', hrun, hB, hsame'⟩ := hf h' hA
  exact ⟨h'', hrun, hB, hsame.trans hsame'⟩

theorem Yields.unique {result result' : Option (Links ι)} (hr : Yields h A.Member result A)
    (hr' : Yields h A.Member result' A) : result = result' := by
  obtain ⟨h₁, rfl, hA₁, hsame₁⟩ := hr
  obtain ⟨h₂, rfl, hA₂, hsame₂⟩ := hr'
  refine congrArg some (hA₂.eq_of_sameOff hA₁ fun p hp => ?_)
  exact ⟨(hsame₁ p hp).1.trans (hsame₂ p hp).1.symm, (hsame₁ p hp).2.trans (hsame₂ p hp).2.symm⟩

end Yields

variable {ι : Type} [DecidableEq ι] {h : Links ι} {M : ι → Prop} {A : Family ι}

theorem initListHead_yields (hA : h.Holds A) {list : ι} (hlist : A.Unlisted list) (hM : M list) :
    Yields h M (some (initListHead list h)) (A.put list []) :=
  .of_holds (hA.put_nil hlist) (sameOff_join hM hM h)

theorem listEmpty_eq (hA : h.Holds A) {head : ι} {l : List ι} (hl : A head = some l) :
    listEmpty head h = l.isEmpty := by
  cases l with
  | nil => simp [listEmpty, (path_nil.1 (hA.ring hl)).1]
  | cons a t =>
    have hne : a ≠ head := fun heq => hA.head_not_mem hl (by simp [heq])
    simp [listEmpty, (hA.first_joined hl).1, hne]

theorem listAdd_yields (hA : h.Holds A) (hM : A.Within M) {new head : ι} (hnew : A.Unlisted new)
    (hMnew : M new) (hhead : (A.drop new).Member head) :
    Yields h M (listAdd new head h) ((A.drop new).after head [new]) := by
  obtain ⟨x, l, hl, hmem⟩ := hhead
  have hMl := hM.drop new x l hl
  obtain ⟨next, hnextl, hnext⟩ := (hA.drop new).step_out hl hmem
  rw [listAdd_eq new hnext.1]
  exact .of_holds (hA.add hnew ⟨x, l, hl, hmem⟩ hnext.1)
    ((sameOff_join hMnew (hMl next hnextl) h).trans (sameOff_join (hMl head hmem) hMnew _))

theorem listAddTail_yields (hA : h.Holds A) (hM : A.Within M) {new head : ι}
    (hnew : A.Unlisted new) (hMnew : M new) (hhead : (A.drop new).Member head) :
    Yields h M (listAddTail new head h) ((A.drop new).before head [new]) := by
  obtain ⟨x, l, hl, hmem⟩ := hhead
  have hMl := hM.drop new x l hl
  obtain ⟨prev, hprevl, hprev⟩ := (hA.drop new).step_in hl hmem
  rw [listAddTail_eq new hprev.2]
  exact .of_holds (hA.addBefore hnew ⟨x, l, hl, hmem⟩ hprev.2)
    ((sameOff_join hMnew (hMl head hmem) h).trans (sameOff_join (hMl prev hprevl) hMnew _))

theorem internalListDelEntry_yields (hA : h.Holds A) (hM : A.Within M) {entry : ι}
    (hentry : A.Member entry) : Yields h M (internalListDelEntry entry h) (A.remove entry) := by
  obtain ⟨x, l, hl, hmem⟩ := hentry
  have hMl := hM x l hl
  obtain ⟨prev, hprevl, hprev⟩ := hA.step_in hl hmem
  obtain ⟨next, hnextl, hnext⟩ := hA.step_out hl hmem
  rw [internalListDelEntry_eq hprev.2 hnext.1]
  exact .of_holds (hA.remove ⟨x, l, hl, hmem⟩ hprev.2 hnext.1)
    (sameOff_join (hMl prev hprevl) (hMl next hnextl) h)

theorem listDel_yields (hA : h.Holds A) (hM : A.Within M) {entry : ι} (hentry : A.Member entry) :
    Yields h M (listDel entry h) (A.remove entry) := by
  obtain ⟨h', hdel, hA', hsame⟩ := internalListDelEntry_yields hA hM hentry
  have hMentry := hM.member hentry
  rw [listDel_eq, hdel, Option.map_some]
  refine .of_holds (hA'.agree fun p hp => ?_)
    (hsame.trans ((sameOff_setNext hMentry _ _).trans (sameOff_setPrev hMentry _ _)))
  have hpe : p ≠ entry := fun heq => hA.not_member_remove entry (heq ▸ hp)
  simp [hpe]

theorem listDelInit_yields (hA : h.Holds A) (hM : A.Within M) {entry : ι}
    (hentry : A.Member entry) :
    Yields h M (listDelInit entry h) ((A.remove entry).put entry []) :=
  (internalListDelEntry_yields hA hM hentry).bind fun _ hA' =>
    initListHead_yields hA' (hA.unlisted_remove entry) (hM.member hentry)

theorem listMove_yields (hA : h.Holds A) (hM : A.Within M) {list head : ι}
    (hlist : A.Member list) (hhead : (A.drop list).Member head) (hne : head ≠ list) :
    Yields h M (listMove list head h) ((A.remove list).after head [list]) := by
  refine (internalListDelEntry_yields hA hM hlist).bind fun h' hA' => ?_
  have hmove := listAdd_yields hA' (hM.remove list) (hA.unlisted_remove list) (hM.member hlist)
    ((Family.drop_remove A list).symm ▸ hhead.remove hne)
  rwa [Family.drop_remove] at hmove

theorem listMoveTail_yields (hA : h.Holds A) (hM : A.Within M) {list head : ι}
    (hlist : A.Member list) (hhead : (A.drop list).Member head) (hne : head ≠ list) :
    Yields h M (listMoveTail list head h) ((A.remove list).before head [list]) := by
  refine (internalListDelEntry_yields hA hM hlist).bind fun h' hA' => ?_
  have hmove := listAddTail_yields hA' (hM.remove list) (hA.unlisted_remove list)
    (hM.member hlist) ((Family.drop_remove A list).symm ▸ hhead.remove hne)
  rwa [Family.drop_remove] at hmove

theorem listRotateLeft_yields (hA : h.Holds A) (hM : A.Within M) {head : ι} {l : List ι}
    (hl : A head = some l) : Yields h M (listRotateLeft head h) (A.put head (l.rotate 1)) := by
  cases l with
  | nil =>
    have hempty := listEmpty_eq hA hl
    rw [List.rotate_nil, Family.put_self hl]
    simpa [listRotateLeft, hempty] using Yields.of_holds hA (.refl M h)
  | cons a t =>
    have hempty := listEmpty_eq hA hl
    have hnext := hA.first_joined hl
    have hne : head ≠ a := fun heq => hA.head_not_mem hl (by simp [heq])
    have hmove := listMoveTail_yields hA hM ⟨head, _, hl, by simp⟩
      ⟨head, _, Family.drop_eq_some.2 ⟨hne, hl⟩, by simp⟩ hne
    rw [hA.remove_before (s := []) hl, List.nil_append] at hmove
    rw [List.rotate_cons_succ, List.rotate_zero]
    simpa [listRotateLeft, hempty, hnext.1] using hmove

theorem listReplace_yields (hA : h.Holds A) (hM : A.Within M) {old new : ι}
    (hold : (A.drop new).Member old) (hnew : A.Unlisted new) (hMnew : M new) :
    Yields h M (listReplace old new h) (A.rename old new) := by
  obtain ⟨x, l, hl, hmem⟩ := hold
  have hMl := hM.drop new x l hl
  have hne : old ≠ new := fun heq => hnew.not_mem_of_drop hl (heq ▸ hmem)
  obtain ⟨next, hnextl, hnext⟩ := (hA.drop new).step_out hl hmem
  obtain ⟨prev, hprevl, hprev⟩ := (hA.drop new).step_in hl hmem
  by_cases hself : next = old
  · obtain rfl := hself
    obtain ⟨rfl, rfl⟩ := (hA.drop new).eq_nil_of_joined_self hl hmem hnext
    obtain ⟨-, hnil⟩ := Family.drop_eq_some.1 hl
    have hunlisted : A.Unlisted next := hA.unlisted_of_head (by simp [hnil])
    rw [listReplace_eq_of_empty hnext.1, Family.rename_of_nil hunlisted hnil hne]
    refine .of_holds (Holds.put_nil ((hA.drop next).agree fun p hp => ?_) ?_)
      ((sameOff_setPrev (hMl next hmem) h _).trans (sameOff_join hMnew hMnew _))
    · obtain ⟨y, m, hm, hpm⟩ := hp
      have hpn : p ≠ next := fun heq => hunlisted.not_mem_of_drop hm (heq ▸ hpm)
      simp [hpn]
    · exact fun y m hm => hnew y m (Family.drop_eq_some.1 hm).2
  · rw [listReplace_eq hprev.2 hnext.1 hself]
    exact .of_holds (hA.rename ⟨x, l, hl, hmem⟩ hnew hprev.2 hnext.1 hself)
      ((sameOff_join hMnew (hMl next hnextl) h).trans (sameOff_join (hMl prev hprevl) hMnew _))

theorem listReplaceInit_yields (hA : h.Holds A) (hM : A.Within M) {old new : ι}
    (hold : (A.drop new).Member old) (hnew : A.Unlisted new) (hMnew : M new) :
    Yields h M (listReplaceInit old new h) ((A.rename old new).put old []) := by
  refine (listReplace_yields hA hM hold hnew hMnew).bind fun _ hA' => ?_
  have hMold := (hM.drop new).member hold
  obtain ⟨x, l, hl, hmem⟩ := hold
  have hne : old ≠ new := fun heq => hnew.not_mem_of_drop hl (heq ▸ hmem)
  exact initListHead_yields hA' (hA.unlisted_rename hne) hMold

theorem listSplice_yields (hA : h.Holds A) (hM : A.Within M) {list head : ι} {s : List ι}
    (hs : A list = some s) (hhead : (A.drop list).Member head) :
    Yields h M (listSplice list head h) (if s = [] then A else (A.drop list).after head s) := by
  have hempty := listEmpty_eq hA hs
  by_cases hnil : s = []
  · simpa [listSplice, hempty, hnil] using Yields.of_holds hA (.refl M h)
  · obtain ⟨x, l, hl, hmem⟩ := hhead
    have hMl := hM.drop list x l hl
    have hMs := hM list s hs
    obtain ⟨next, hnextl, hnext⟩ := (hA.drop list).step_out hl hmem
    obtain ⟨first, hfirsts, hfirst⟩ := hA.step_out hs List.mem_cons_self
    obtain ⟨last, hlasts, hlast⟩ := hA.step_in hs List.mem_cons_self
    have hsplice := hA.splice hs hnil ⟨x, l, hl, hmem⟩ hnext.1 hfirst.1 hlast.2
    have hsame := (sameOff_join (hMl head hmem) (hMs first hfirsts) h).trans
      (sameOff_join (hMs last hlasts) (hMl next hnextl) _)
    simpa [listSplice, hempty, hnext.1, internalListSplice_eq hfirst.1 hlast.2, hnil]
      using Yields.of_holds hsplice hsame

theorem listSpliceTail_yields (hA : h.Holds A) (hM : A.Within M) {list head : ι} {s : List ι}
    (hs : A list = some s) (hhead : (A.drop list).Member head) :
    Yields h M (listSpliceTail list head h)
      (if s = [] then A else (A.drop list).before head s) := by
  have hempty := listEmpty_eq hA hs
  by_cases hnil : s = []
  · simpa [listSpliceTail, hempty, hnil] using Yields.of_holds hA (.refl M h)
  · obtain ⟨x, l, hl, hmem⟩ := hhead
    have hMl := hM.drop list x l hl
    have hMs := hM list s hs
    obtain ⟨prev, hprevl, hprev⟩ := (hA.drop list).step_in hl hmem
    obtain ⟨first, hfirsts, hfirst⟩ := hA.step_out hs List.mem_cons_self
    obtain ⟨last, hlasts, hlast⟩ := hA.step_in hs List.mem_cons_self
    have hsplice := hA.spliceBefore hs hnil ⟨x, l, hl, hmem⟩ hprev.2 hfirst.1 hlast.2
    have hsame := (sameOff_join (hMl prev hprevl) (hMs first hfirsts) h).trans
      (sameOff_join (hMs last hlasts) (hMl head hmem) _)
    simpa [listSpliceTail, hempty, hprev.2, internalListSplice_eq hfirst.1 hlast.2, hnil]
      using Yields.of_holds hsplice hsame

theorem listSpliceInit_yields (hA : h.Holds A) (hM : A.Within M) {list head : ι} {s : List ι}
    (hs : A list = some s) (hhead : (A.drop list).Member head) :
    Yields h M (listSpliceInit list head h) (((A.drop list).after head s).put list []) := by
  have hempty := listEmpty_eq hA hs
  have hsplice := listSplice_yields hA hM hs hhead
  by_cases hnil : s = []
  · subst hnil
    have hput : (A.drop list).put list [] = A := by simp [Family.drop, Family.put, ← hs]
    rw [Family.after_nil, hput]
    simpa [listSpliceInit, hempty] using Yields.of_holds hA (.refl M h)
  · rw [listSpliceInit_eq (hempty.trans (by simpa using hnil))]
    rw [if_neg hnil] at hsplice
    exact hsplice.bind fun _ hA' =>
      initListHead_yields hA' (hA.unlisted_after hs) (hM list s hs list List.mem_cons_self)

theorem listSpliceTailInit_yields (hA : h.Holds A) (hM : A.Within M) {list head : ι}
    {s : List ι} (hs : A list = some s) (hhead : (A.drop list).Member head) :
    Yields h M (listSpliceTailInit list head h) (((A.drop list).before head s).put list []) := by
  have hempty := listEmpty_eq hA hs
  have hsplice := listSpliceTail_yields hA hM hs hhead
  by_cases hnil : s = []
  · subst hnil
    have hput : (A.drop list).put list [] = A := by simp [Family.drop, Family.put, ← hs]
    rw [Family.before_nil, hput]
    simpa [listSpliceTailInit, hempty] using Yields.of_holds hA (.refl M h)
  · rw [listSpliceTailInit_eq (hempty.trans (by simpa using hnil))]
    rw [if_neg hnil] at hsplice
    exact hsplice.bind fun _ hA' =>
      initListHead_yields hA' (hA.unlisted_before hs) (hM list s hs list List.mem_cons_self)

theorem listIsSingular_iff (hA : h.Holds A) {head : ι} {l : List ι} (hl : A head = some l) :
    listIsSingular head h = true ↔ l.length = 1 := by
  have hempty := listEmpty_eq hA hl
  cases l with
  | nil => simp [listIsSingular, hempty]
  | cons a t =>
    have hnext := hA.first_joined hl
    cases t using List.reverseRecOn with
    | nil =>
      have hprev := hA.last_joined (l := []) hl
      simp [listIsSingular, hempty, hnext.1, hprev.2]
    | append_singleton t z =>
      have hprev := hA.last_joined (l := a :: t) hl
      have hne : a ≠ z := by
        have := hA.nodup hl
        grind
      simp [listIsSingular, hempty, hnext.1, hprev.2, hne]

theorem listEmptyCareful_eq (hA : h.Holds A) {head : ι} {l : List ι} (hl : A head = some l) :
    listEmptyCareful head h = listEmpty head h := by
  by_cases hnext : h.next head = some head
  · have hself := (hA.next_joined hl List.mem_cons_self hnext).2
    simp [listEmptyCareful, listEmpty, hnext, hself.2]
  · simp [listEmptyCareful, listEmpty, hnext]

theorem listIsLast_iff (hA : h.Holds A) {head : ι} {l : List ι} (hl : A head = some l) {p : ι}
    (hp : p ∈ l) : listIsLast p head h = true ↔ l.getLast? = some p := by
  obtain ⟨s, z, rfl⟩ := List.eq_nil_or_concat' l |>.resolve_left (List.ne_nil_of_mem hp)
  have hlast := hA.last_joined hl
  simp only [listIsLast, decide_eq_true_eq, List.getLast?_concat, Option.some.injEq]
  constructor
  · intro hnext
    exact hlast.prev_unique (hA.next_joined hl (List.mem_cons_of_mem head hp) hnext).2
  · rintro rfl
    exact hlast.1

theorem listTests_exact (hA : h.Holds A) {head : ι} {l : List ι} (hl : A head = some l) :
    (listEmpty head h = true ↔ l = []) ∧ (listEmptyCareful head h = true ↔ l = []) ∧
      (listIsSingular head h = true ↔ l.length = 1) ∧
      ∀ p ∈ l, (listIsLast p head h = true ↔ l.getLast? = some p) := by
  have hempty : listEmpty head h = true ↔ l = [] := by simp [listEmpty_eq hA hl]
  refine ⟨hempty, ?_, listIsSingular_iff hA hl, fun p hp => listIsLast_iff hA hl hp⟩
  rw [listEmptyCareful_eq hA hl, hempty]

def twoLists : Links Nat :=
  join 0 1 (join 1 2 (join 2 0 (join 10 11 (join 11 10 ⟨fun _ => none, fun _ => none⟩))))

def twoListsFamily : Family Nat := Family.put (Family.put (fun _ => none) 0 [1, 2]) 10 [11]

theorem twoLists_holds : twoLists.Holds twoListsFamily where
  ring x l hl := by
    rcases Family.put_eq_some.1 hl with ⟨rfl, rfl⟩ | ⟨-, hl⟩
    · simp [twoLists, Links.Joined, join]
    rcases Family.put_eq_some.1 hl with ⟨rfl, rfl⟩ | ⟨-, hl⟩
    · simp [twoLists, Links.Joined, join]
    · cases hl
  entries x l hl y hy := by
    rcases Family.put_eq_some.1 hl with ⟨rfl, rfl⟩ | ⟨-, hl⟩
    · obtain rfl : y = 11 := by simpa using hy
      rfl
    rcases Family.put_eq_some.1 hl with ⟨rfl, rfl⟩ | ⟨-, hl⟩
    · obtain rfl | rfl : y = 1 ∨ y = 2 := by simpa using hy
      · rfl
      · rfl
    · cases hl

theorem listTests_exact_twoLists :
    (listEmpty 10 twoLists = true ↔ [11] = []) ∧ (listEmptyCareful 10 twoLists = true ↔ [11] = []) ∧
      (listIsSingular 10 twoLists = true ↔ [11].length = 1) ∧
      ∀ p ∈ [11], (listIsLast p 10 twoLists = true ↔ [11].getLast? = some p) :=
  listTests_exact twoLists_holds rfl

/-- The entries up to and including `entry` go to `list`. A cut at the head itself
empties `list`, unless the head is empty: then `list` keeps whatever it has. -/
def cutPosition (A : Family ι) (list head entry : ι) : Family ι :=
  match A head with
  | none => A
  | some l =>
    if entry ∈ l then
      (A.put list (l.takeWhile (· ≠ entry) ++ [entry])).put head (l.dropWhile (· ≠ entry)).tail
    else if entry = head ∧ l ≠ [] then
      A.put list []
    else
      A

theorem cutPosition_entry {list head entry : ι} {s t : List ι}
    (hl : A head = some (s ++ entry :: t)) (hs : entry ∉ s) :
    cutPosition A list head entry = (A.put list (s ++ [entry])).put head t := by
  have hfront : (s ++ entry :: t).takeWhile (· ≠ entry) = s := by
    rw [List.takeWhile_append_of_pos (by grind), List.takeWhile_cons_of_neg (by simp),
      List.append_nil]
  have hback : (s ++ entry :: t).dropWhile (· ≠ entry) = entry :: t := by
    rw [List.dropWhile_append_of_pos (by grind), List.dropWhile_cons_of_neg (by simp)]
  simp only [cutPosition, hl, hfront, hback, List.tail_cons]
  simp

theorem listCutPosition_yields (hA : h.Holds A) (hM : A.Within M) {list head entry : ι}
    {l : List ι} (hl : A head = some l) (hlist : A.Unlisted list) (hMlist : M list)
    (hne : list ≠ head) (hentry : entry ∈ head :: l ∨ l.length ≤ 1) :
    Yields h M (listCutPosition list head entry h) (cutPosition A list head entry) := by
  have hempty := listEmpty_eq hA hl
  have hsingular := listIsSingular_iff hA hl
  by_cases hmem : entry ∈ l
  · obtain ⟨s, t, rfl, hs⟩ := List.eq_append_cons_of_mem hmem
    have hself : entry ≠ head := fun heq => hA.head_not_mem hl (heq ▸ hmem)
    have hMl := hM head _ hl
    obtain ⟨first, hfirstl, hfirst⟩ := hA.step_out hl List.mem_cons_self
    obtain ⟨newFirst, hnewl, hnew⟩ := hA.step_out hl (List.mem_cons_of_mem head hmem)
    have hguard : listIsSingular head h = true → first = entry := by
      intro h
      obtain ⟨rfl, rfl⟩ : s = [] ∧ t = [] := by
        have := hsingular.1 h
        simp at this
        constructor <;> apply List.eq_nil_of_length_eq_zero <;> omega
      exact hfirst.next_unique (hA.first_joined hl)
    have hcut := Yields.of_holds (hA.cut hl hlist hne hfirst.1 hnew.1)
      (((sameOff_join hMlist (hMl first hfirstl) h).trans
        (sameOff_join (hMl entry (List.mem_cons_of_mem head hmem)) hMlist _)).trans
        (sameOff_join (hMl head List.mem_cons_self) (hMl newFirst hnewl) _))
    rw [← internalListCutPosition_eq hfirst.1 hnew.1] at hcut
    rw [cutPosition_entry hl hs, listCutPosition, if_neg (by simp [hempty]), if_neg, if_neg hself]
    · exact hcut
    · rw [hfirst.1]
      grind
  · by_cases hself : entry = head
    · subst hself
      by_cases hnil : l = []
      · simpa [listCutPosition, cutPosition, hl, hempty, hnil] using Yields.of_holds hA (.refl M h)
      · simpa [listCutPosition, cutPosition, hl, hempty, hnil, hmem] using
          initListHead_yields hA hlist hMlist
    · have hshort : l.length ≤ 1 := hentry.resolve_left (by simp [hself, hmem])
      rcases l with - | ⟨a, - | ⟨b, t⟩⟩
      · simpa [listCutPosition, cutPosition, hl, hempty, hself] using Yields.of_holds hA (.refl M h)
      · have hfirst := (hA.first_joined hl).1
        simp only [List.mem_singleton] at hmem
        simpa [listCutPosition, cutPosition, hl, hempty, hsingular, hfirst, hself, hmem,
          Ne.symm hmem, Ne.symm hself] using Yields.of_holds hA (.refl M h)
      · simp at hshort

end DwcPcie.ListCalls
