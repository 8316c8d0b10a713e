import DwcPcie.Hlist

/-! What every function on a `struct hlist_head` or `struct hlist_node` does to the
lists, and runs of such calls. -/
namespace DwcPcie.HlistRuns
open ListHead Hlist Linked Linked.Links

variable {ι : Type}

/-- The lists, and the nodes that are known to have a null `pprev`. -/
structure HlistState (ι : Type) where
  lists : Family ι
  idle : ι → Prop

def HlistState.Hashed (s : HlistState ι) (n : ι) : Prop := ∃ x l, s.lists x = some l ∧ n ∈ l

structure Represents (h : Links ι) (s : HlistState ι) : Prop where
  chained : h.Chained s.lists
  idle : ∀ n, s.idle n → h.prev n = none

/-- From memory `h` the call comes to an end in a memory with this state, and has
changed pointers in `M` only. -/
def Leaves (h : Links ι) (M : ι → Prop) (result : Option (Links ι)) (s : HlistState ι) : Prop :=
  ∃ h', result = some h' ∧ Represents h' s ∧ h.SameOff M h'

variable {h : Links ι} {M : ι → Prop} {s : HlistState ι}

theorem Represents.hashed_prev (hs : Represents h s) {n : ι} (hn : s.Hashed n) :
    ∃ p, h.prev n = some p := by
  obtain ⟨x, l, hl, hnl⟩ := hn
  obtain ⟨p, -, hp⟩ := hs.chained.step_in hl hnl
  exact ⟨p, hp.2⟩

theorem Represents.not_idle (hs : Represents h s) {n : ι} (hn : s.Hashed n) : ¬s.idle n := by
  intro hidle
  obtain ⟨p, hp⟩ := hs.hashed_prev hn
  simp [hs.idle n hidle] at hp

theorem Represents.next_hashed (hs : Represents h s) {p q : ι} (hp : s.lists.Member p)
    (hq : h.next p = some q) : s.Hashed q := by
  obtain ⟨x, l, hl, hpl⟩ := hp
  exact ⟨x, l, hl, (hs.chained.next_joined hl hpl hq).1⟩

theorem HlistState.Hashed.member {n : ι} (hn : s.Hashed n) : s.lists.Member n := by
  obtain ⟨x, l, hl, hnl⟩ := hn
  exact ⟨x, l, hl, List.mem_cons_of_mem x hnl⟩

theorem hlistEmpty_eq (hs : Represents h s) {head : ι} {l : List ι} (hl : s.lists head = some l) :
    hlistEmpty head h = l.isEmpty := by
  rw [hlistEmpty, (hs.chained.chain hl).next_eq_head?]
  cases l <;> rfl

theorem hlistUnhashed_eq (hs : Represents h s) {n : ι} (hn : s.Hashed n ∨ s.idle n) :
    hlistUnhashed n h = true ↔ s.idle n := by
  rcases hn with hn | hn
  · obtain ⟨p, hp⟩ := hs.hashed_prev hn
    simp [hlistUnhashed, hp, hs.not_idle hn]
  · simp [hlistUnhashed, hs.idle n hn, hn]

variable [DecidableEq ι]

theorem attach_prev_of_idle {h' : Links ι} {a n : ι} {b : Option ι} (hn : h'.prev n = none)
    (hb : b ≠ some n) : (attach a b h').prev n = none := by
  cases b with
  | none => simpa [attach] using hn
  | some b =>
    have hnb : n ≠ b := fun heq => hb (congrArg some heq.symm)
    simpa [attach, join, hnb] using hn

theorem initHlistHead_leaves (hs : Represents h s) {ptr : ι} (hptr : s.lists.Unlisted ptr)
    (hM : M ptr) :
    Leaves h M (some (initHlistHead ptr h)) { s with lists := s.lists.put ptr [] } :=
  ⟨_, rfl, ⟨hs.chained.put_nil hptr, hs.idle⟩, sameOff_setNext hM h none⟩

theorem initHlistNode_leaves (hs : Represents h s) {n : ι} (hn : ¬s.lists.Member n) (hM : M n) :
    Leaves h M (some (initHlistNode n h)) { s with idle := fun p => p = n ∨ s.idle p } := by
  refine ⟨_, rfl, ⟨hs.chained.agree fun p hp => ?_, fun p hp => ?_⟩,
    (sameOff_setNext hM h none).trans (sameOff_setPrev hM _ none)⟩
  · have hpn : p ≠ n := fun heq => hn (heq ▸ hp)
    simp [initHlistNode, hpn]
  · by_cases hpn : p = n
    · simp [initHlistNode, hpn]
    · simpa [initHlistNode, hpn] using hs.idle p (hp.resolve_left hpn)

theorem hlistAddHead_leaves (hs : Represents h s) (hM : s.lists.Within M) {n head : ι}
    (hn : s.lists.Unlisted n) (hMn : M n) (hhead : (s.lists.drop n).Member head) :
    Leaves h M (some (hlistAddHead n head h))
      ⟨(s.lists.drop n).after head [n], fun p => p ≠ n ∧ s.idle p⟩ := by
  have hMhead := (hM.drop n).member hhead
  obtain ⟨x, l, hl, hmem⟩ := hhead
  have hnext : ∀ q, h.next head = some q → s.Hashed q := fun q =>
    hs.next_hashed ⟨x, l, (Family.drop_eq_some.1 hl).2, hmem⟩
  rw [hlistAddHead_eq]
  refine ⟨_, rfl, ⟨hs.chained.add hn ⟨x, l, hl, hmem⟩, fun p hp => ?_⟩,
    (sameOff_attach hMn (fun q hq => hM.member (hnext q hq).member) h).trans
      (sameOff_join hMhead hMn _)⟩
  have hprev := attach_prev_of_idle (a := n) (hs.idle p hp.2)
    fun hq => hs.not_idle (hnext p hq) hp.2
  simpa [join, hp.1] using hprev

theorem hlistAddBefore_leaves (hs : Represents h s) (hM : s.lists.Within M) {n next x : ι}
    {l : List ι} (hn : s.lists.Unlisted n) (hMn : M n) (hl : s.lists.drop n x = some l)
    (hnext : next ∈ l) :
    Leaves h M (hlistAddBefore n next h)
      ⟨(s.lists.drop n).before next [n], fun p => p ≠ n ∧ s.idle p⟩ := by
  have hB := hs.chained.drop n
  have hMl := hM.drop n x l hl
  have hnn : n ≠ next := fun heq =>
    hn.not_mem_of_drop hl (heq ▸ List.mem_cons_of_mem x hnext)
  obtain ⟨p, hpl, hp⟩ := hB.step_in hl hnext
  have hadd := hs.chained.add hn ⟨x, l, hl, hpl⟩
  rw [hp.1, hB.after_eq_before hl hnext hp.2] at hadd
  rw [hlistAddBefore_eq hnn hp.2]
  refine ⟨_, rfl, ⟨hadd, fun q hq => ?_⟩,
    (sameOff_join hMn (hMl next (List.mem_cons_of_mem x hnext)) h).trans
      (sameOff_join (hMl p hpl) hMn _)⟩
  have hqn : q ≠ next := by
    rintro rfl
    exact hs.not_idle ⟨x, l, (Family.drop_eq_some.1 hl).2, hnext⟩ hq.2
  simpa [join, hq.1, hqn] using hs.idle q hq.2

theorem hlistAddAfter_leaves (hs : Represents h s) (hM : s.lists.Within M) {n next : ι}
    (hnext : s.lists.Unlisted next) (hMnext : M next) (hn : (s.lists.drop next).Member n) :
    Leaves h M (some (hlistAddAfter n next h))
      ⟨(s.lists.drop next).after n [next], fun p => p ≠ next ∧ s.idle p⟩ := by
  have hMn := (hM.drop next).member hn
  obtain ⟨x, l, hl, hmem⟩ := hn
  have hout := hnext.not_mem_of_drop hl
  have hnn : n ≠ next := fun heq => hout (heq ▸ hmem)
  have hafter : ∀ q, h.next n = some q → s.Hashed q := fun q =>
    hs.next_hashed ⟨x, l, (Family.drop_eq_some.1 hl).2, hmem⟩
  have hne : h.next n ≠ some next := fun hq =>
    hout (List.mem_cons_of_mem x ((hs.chained.drop next).next_joined hl hmem hq).1)
  rw [hlistAddAfter_eq hnn hne]
  refine ⟨_, rfl, ⟨hs.chained.add hnext ⟨x, l, hl, hmem⟩, fun p hp => ?_⟩,
    (sameOff_attach hMnext (fun q hq => hM.member (hafter q hq).member) h).trans
      (sameOff_join hMn hMnext _)⟩
  have hprev := attach_prev_of_idle (a := next) (hs.idle p hp.2)
    fun hq => hs.not_idle (hafter p hq) hp.2
  simpa [join, hp.1] using hprev

/-- The poison is null, so that a deleted node is one that has been initialised. -/
theorem hlistDel_leaves (hs : Represents h s) (hM : s.lists.Within M) {n : ι} (hn : s.Hashed n) :
    Leaves h M (hlistDel n h) ⟨s.lists.remove n, fun p => p = n ∨ s.idle p⟩ := by
  have hMn := hM.member hn.member
  have hafter : ∀ q, h.next n = some q → s.Hashed q := fun q => hs.next_hashed hn.member
  obtain ⟨x, l, hl, hnl⟩ := hn
  obtain ⟨p, hpl, hp⟩ := hs.chained.step_in hl hnl
  have hout := hs.chained.not_member_remove n
  refine ⟨_, by rw [hlistDel, internalHlistDel_eq hp.2]; rfl,
    ⟨(hs.chained.remove hl hnl hp.2).agree fun q hq => ?_, fun q hq => ?_⟩,
    (sameOff_attach (hM x l hl p hpl) (fun q hq => hM.member (hafter q hq).member) h).trans
      ((sameOff_setNext hMn _ _).trans (sameOff_setPrev hMn _ _))⟩
  · have hqn : q ≠ n := fun heq => hout (heq ▸ hq)
    simp [hqn]
  · by_cases hqn : q = n
    · simp [hqn, listPoison]
    · have hidle := hq.resolve_left hqn
      have hprev := attach_prev_of_idle (a := p) (hs.idle q hidle)
        fun heq => hs.not_idle (hafter q heq) hidle
      simpa [hqn] using hprev

private theorem hlistDelInit_eq_del {n p : ι} (hp : h.prev n = some p) :
    hlistDelInit n h = hlistDel n h := by
  simp [hlistDelInit, hlistUnhashed, hp, hlistDel, internalHlistDel_eq hp, initHlistNode,
    listPoison]

theorem hlistDelInit_leaves (hs : Represents h s) (hM : s.lists.Within M) {n : ι}
    (hn : s.Hashed n ∨ s.idle n ∧ ¬s.lists.Member n) :
    Leaves h M (hlistDelInit n h) ⟨s.lists.remove n, fun p => p = n ∨ s.idle p⟩ := by
  rcases hn with hn | ⟨hidle, hmember⟩
  · obtain ⟨p, hp⟩ := hs.hashed_prev hn
    rw [hlistDelInit_eq_del hp]
    exact hlistDel_leaves hs hM hn
  · have hprev := hs.idle n hidle
    rw [Family.remove_of_not_member hmember]
    refine ⟨h, by simp [hlistDelInit, hlistUnhashed, hprev], ⟨hs.chained, ?_⟩, .refl M h⟩
    rintro p (rfl | hp)
    · exact hprev
    · exact hs.idle p hp

theorem hlistMoveList_leaves (hs : Represents h s) (hM : s.lists.Within M) {old new : ι}
    {l : List ι} (hl : s.lists old = some l) (hnew : s.lists.Unlisted new) (hMnew : M new)
    (hne : old ≠ new) :
    Leaves h M (some (hlistMoveList old new h))
      { s with lists := (s.lists.put new l).put old [] } := by
  have hMold := hM old l hl old List.mem_cons_self
  have hfirst : ∀ q, h.next old = some q → s.Hashed q := fun q =>
    hs.next_hashed ⟨old, l, hl, List.mem_cons_self⟩
  rw [hlistMoveList_eq]
  refine ⟨_, rfl, ⟨hs.chained.move hl hnew hne, fun p hp => ?_⟩,
    (sameOff_attach hMnew (fun q hq => hM.member (hfirst q hq).member) h).trans
      (sameOff_setNext hMold _ _)⟩
  exact attach_prev_of_idle (hs.idle p hp) fun hq => hs.not_idle (hfirst p hq) hp

inductive HlistCall (ι : Type) where
  | initHlistHead (ptr : ι)
  | initHlistNode (n : ι)
  | hlistDel (n : ι)
  | hlistDelInit (n : ι)
  | hlistAddHead (n head : ι)
  | hlistAddBefore (n next : ι)
  | hlistAddAfter (n next : ι)
  | hlistMoveList (old new : ι)

namespace HlistCall

def args : HlistCall ι → List ι
  | initHlistHead ptr => [ptr]
  | initHlistNode n | hlistDel n | hlistDelInit n => [n]
  | hlistAddHead n head => [n, head]
  | hlistAddBefore n next | hlistAddAfter n next => [n, next]
  | hlistMoveList old new => [old, new]

def run : HlistCall ι → Links ι → Option (Links ι)
  | initHlistHead ptr, h => some (Hlist.initHlistHead ptr h)
  | initHlistNode n, h => some (Hlist.initHlistNode n h)
  | hlistDel n, h => Hlist.hlistDel n h
  | hlistDelInit n, h => Hlist.hlistDelInit n h
  | hlistAddHead n head, h => some (Hlist.hlistAddHead n head h)
  | hlistAddBefore n next, h => Hlist.hlistAddBefore n next h
  | hlistAddAfter n next, h => some (Hlist.hlistAddAfter n next h)
  | hlistMoveList old new, h => some (Hlist.hlistMoveList old new h)

/-- What is asked of the caller. -/
def Allowed : HlistCall ι → HlistState ι → Prop
  | initHlistHead ptr, s => s.lists.Unlisted ptr
  | initHlistNode n, s => ¬s.lists.Member n
  | hlistDel n, s => s.Hashed n
  | hlistDelInit n, s => s.Hashed n ∨ s.idle n ∧ ¬s.lists.Member n
  | hlistAddHead n head, s => s.lists.Unlisted n ∧ s.lists.drop n head ≠ none
  | hlistAddBefore n next, s =>
    s.lists.Unlisted n ∧ ∃ x l, s.lists.drop n x = some l ∧ next ∈ l
  | hlistAddAfter n next, s =>
    s.lists.Unlisted next ∧ ∃ x l, s.lists.drop next x = some l ∧ n ∈ l
  | hlistMoveList old new, s => s.lists old ≠ none ∧ s.lists.Unlisted new ∧ old ≠ new

def effect : HlistCall ι → HlistState ι → HlistState ι
  | initHlistHead ptr, s => { s with lists := s.lists.put ptr [] }
  | initHlistNode n, s => { s with idle := fun p => p = n ∨ s.idle p }
  | hlistDel n, s | hlistDelInit n, s => ⟨s.lists.remove n, fun p => p = n ∨ s.idle p⟩
  | hlistAddHead n head, s => ⟨(s.lists.drop n).after head [n], fun p => p ≠ n ∧ s.idle p⟩
  | hlistAddBefore n next, s => ⟨(s.lists.drop n).before next [n], fun p => p ≠ n ∧ s.idle p⟩
  | hlistAddAfter n next, s =>
    ⟨(s.lists.drop next).after n [next], fun p => p ≠ next ∧ s.idle p⟩
  | hlistMoveList old new, s =>
    { s with lists := (s.lists.put new ((s.lists old).getD [])).put old [] }

theorem run_leaves (c : HlistCall ι) (hs : Represents h s) (hM : s.lists.Within M)
    (hargs : ∀ p ∈ c.args, M p) (hc : c.Allowed s) : Leaves h M (c.run h) (c.effect s) := by
  cases c with
  | initHlistHead ptr => exact initHlistHead_leaves hs hc (hargs ptr (by simp [args]))
  | initHlistNode n => exact initHlistNode_leaves hs hc (hargs n (by simp [args]))
  | hlistDel n => exact hlistDel_leaves hs hM hc
  | hlistDelInit n => exact hlistDelInit_leaves hs hM hc
  | hlistAddHead n head =>
    obtain ⟨hn, hhead⟩ := hc
    obtain ⟨l, hl⟩ := Option.ne_none_iff_exists'.1 hhead
    exact hlistAddHead_leaves hs hM hn (hargs n (by simp [args])) ⟨head, l, hl, by simp⟩
  | hlistAddBefore n next =>
    obtain ⟨hn, x, l, hl, hnext⟩ := hc
    exact hlistAddBefore_leaves hs hM hn (hargs n (by simp [args])) hl hnext
  | hlistAddAfter n next =>
    obtain ⟨hnext, x, l, hl, hn⟩ := hc
    exact hlistAddAfter_leaves hs hM hnext (hargs next (by simp [args]))
      ⟨x, l, hl, List.mem_cons_of_mem x hn⟩
  | hlistMoveList old new =>
    obtain ⟨hold, hnew, hne⟩ := hc
    obtain ⟨l, hl⟩ := Option.ne_none_iff_exists'.1 hold
    simpa [run, effect, hl] using
      hlistMoveList_leaves hs hM hl hnew (hargs new (by simp [args])) hne

theorem within_effect (c : HlistCall ι) (hM : s.lists.Within M) (hargs : ∀ p ∈ c.args, M p) :
    (c.effect s).lists.Within M := by
  cases c with
  | initHlistHead ptr => exact hM.put (by simpa [args] using hargs)
  | initHlistNode n => exact hM
  | hlistDel n => exact hM.remove n
  | hlistDelInit n => exact hM.remove n
  | hlistAddHead n head => exact (hM.drop n).after head (by simp_all [args])
  | hlistAddBefore n next => exact (hM.drop n).before next (by simp_all [args])
  | hlistAddAfter n next => exact (hM.drop next).after n (by simp_all [args])
  | hlistMoveList old new =>
    refine (hM.put fun p hp => ?_).put (by simp_all [args])
    rcases List.mem_cons.1 hp with rfl | hp
    · exact hargs p (by simp [args])
    · cases hl : s.lists old with
      | none => simp [hl] at hp
      | some l => exact hM old l hl p (List.mem_cons_of_mem old (by simpa [hl] using hp))

end HlistCall

def runHlistCalls (calls : List (HlistCall ι)) (h : Links ι) : Option (Links ι) :=
  calls.foldlM (fun h c => c.run h) h

def hlistEffects (calls : List (HlistCall ι)) (s : HlistState ι) : HlistState ι :=
  calls.foldl (fun s c => c.effect s) s

def AllowedHlistRun : List (HlistCall ι) → HlistState ι → Prop
  | [], _ => True
  | c :: calls, s => c.Allowed s ∧ AllowedHlistRun calls (c.effect s)

theorem runHlistCalls_leaves (calls : List (HlistCall ι)) (hs : Represents h s)
    (hM : s.lists.Within M) (hargs : ∀ c ∈ calls, ∀ p ∈ c.args, M p)
    (hcalls : AllowedHlistRun calls s) :
    Leaves h M (runHlistCalls calls h) (hlistEffects calls s) := by
  induction calls generalizing h s with
  | nil => exact ⟨h, rfl, hs, .refl M h⟩
  | cons c calls ih =>
    have hc := hargs c List.mem_cons_self
    obtain ⟨h', hrun, hs', hsame⟩ := c.run_leaves hs hM hc hcalls.1
    obtain ⟨h'', hrest, hs'', hsame'⟩ := ih hs' (c.within_effect hM hc)
      (fun d hd => hargs d (List.mem_cons_of_mem c hd)) hcalls.2
    refine ⟨h'', ?_, hs'', hsame.trans hsame'⟩
    rw [runHlistCalls, List.foldlM_cons, hrun]
    exact hrest

/-- The memory follows the lists through every run of allowed calls, and only members
and nodes that are named change. -/
theorem runHlistCalls_refines (calls : List (HlistCall ι)) (hs : Represents h s)
    (hcalls : AllowedHlistRun calls s) :
    ∃ h', runHlistCalls calls h = some h' ∧ Represents h' (hlistEffects calls s) ∧
      h.SameOff (fun p => s.lists.Member p ∨ ∃ c ∈ calls, p ∈ c.args) h' :=
  runHlistCalls_leaves calls hs (fun x l hl _ hp => .inl ⟨x, l, hl, hp⟩)
    (fun c hc _ hp => .inr ⟨c, hc, hp⟩) hcalls

def bucketCalls : List (HlistCall Nat) :=
  [.initHlistHead 0, .hlistAddHead 1 0, .hlistDelInit 1, .hlistDelInit 1]

private theorem bucketCalls_allowed :
    AllowedHlistRun bucketCalls ⟨fun _ => none, fun _ => False⟩ := by
  refine ⟨?_, ⟨?_, by decide⟩, .inl ⟨0, [1], rfl, by simp⟩, .inr ⟨.inl rfl, ?_⟩, trivial⟩
  · simp [HlistCall.Allowed, Family.Unlisted]
  · intro x l hl
    rcases Family.put_eq_some.1 hl with ⟨-, rfl⟩ | ⟨-, hl⟩ <;> simp at *
  · refine Family.not_member_remove (fun x l hl => ?_) 1
    obtain ⟨m, hm, rfl⟩ := Option.map_eq_some_iff.1 hl
    rcases Family.put_eq_some.1 (Family.drop_eq_some.1 hm).2 with ⟨rfl, rfl⟩ | ⟨-, hm⟩
    · decide
    · cases hm

theorem runHlistCalls_refines_bucket :
    ∃ h', runHlistCalls bucketCalls ⟨fun _ => none, fun _ => some 7⟩ = some h' ∧
      Represents h' (hlistEffects bucketCalls ⟨fun _ => none, fun _ => False⟩) ∧
      SameOff (fun p => Family.Member (fun _ => none) p ∨ ∃ c ∈ bucketCalls, p ∈ c.args)
        ⟨fun _ => none, fun _ => some 7⟩ h' :=
  runHlistCalls_refines bucketCalls ⟨chained_none _, fun _ hn => nomatch hn⟩ bucketCalls_allowed

end DwcPcie.HlistRuns
