import DwcPcie.ListCalls

/-! Runs of calls. A program that keeps to what the comments of `list.h` ask for never
follows a null pointer, and its lists are what the calls say they are. -/
namespace DwcPcie.ListRuns
open ListHead ListCalls Linked Linked.Links

variable {ι : Type}

inductive ListCall (ι : Type) where
  | initListHead (list : ι)
  | listAdd (new head : ι)
  | listAddTail (new head : ι)
  | listDel (entry : ι)
  | listDelInit (entry : ι)
  | listReplace (old new : ι)
  | listReplaceInit (old new : ι)
  | listMove (list head : ι)
  | listMoveTail (list head : ι)
  | listRotateLeft (head : ι)
  | listCutPosition (list head entry : ι)
  | listSplice (list head : ι)
  | listSpliceTail (list head : ι)
  | listSpliceInit (list head : ι)
  | listSpliceTailInit (list head : ι)

namespace ListCall

def args : ListCall ι → List ι
  | initListHead list => [list]
  | listAdd new head | listAddTail new head => [new, head]
  | listDel entry | listDelInit entry => [entry]
  | listReplace old new | listReplaceInit old new => [old, new]
  | listMove list head | listMoveTail list head => [list, head]
  | listRotateLeft head => [head]
  | listCutPosition list head entry => [list, head, entry]
  | listSplice list head | listSpliceTail list head => [list, head]
  | listSpliceInit list head | listSpliceTailInit list head => [list, head]

variable [DecidableEq ι]

def run : ListCall ι → Links ι → Option (Links ι)
  | initListHead list, h => some (ListHead.initListHead list h)
  | listAdd new head, h => ListHead.listAdd new head h
  | listAddTail new head, h => ListHead.listAddTail new head h
  | listDel entry, h => ListHead.listDel entry h
  | listDelInit entry, h => ListHead.listDelInit entry h
  | listReplace old new, h => ListHead.listReplace old new h
  | listReplaceInit old new, h => ListHead.listReplaceInit old new h
  | listMove list head, h => ListHead.listMove list head h
  | listMoveTail list head, h => ListHead.listMoveTail list head h
  | listRotateLeft head, h => ListHead.listRotateLeft head h
  | listCutPosition list head entry, h => ListHead.listCutPosition list head entry h
  | listSplice list head, h => ListHead.listSplice list head h
  | listSpliceTail list head, h => ListHead.listSpliceTail list head h
  | listSpliceInit list head, h => ListHead.listSpliceInit list head h
  | listSpliceTailInit list head, h => ListHead.listSpliceTailInit list head h

/-- What is asked of the caller. A node that joins a list must not be an entry of one,
a place must be in a list other than the one that goes there. -/
def Allowed : ListCall ι → Family ι → Prop
  | initListHead list, A => A.Unlisted list
  | listAdd new head, A | listAddTail new head, A => A.Unlisted new ∧ (A.drop new).Member head
  | listDel entry, A | listDelInit entry, A => A.Member entry
  | listReplace old new, A | listReplaceInit old new, A =>
    (A.drop new).Member old ∧ A.Unlisted new
  | listMove list head, A | listMoveTail list head, A =>
    A.Member list ∧ (A.drop list).Member head ∧ head ≠ list
  | listRotateLeft head, A => A head ≠ none
  | listCutPosition list head entry, A =>
    A.Unlisted list ∧ list ≠ head ∧ ∃ l, A head = some l ∧ (entry ∈ head :: l ∨ l.length ≤ 1)
  | listSplice list head, A | listSpliceTail list head, A
  | listSpliceInit list head, A | listSpliceTailInit list head, A =>
    A list ≠ none ∧ (A.drop list).Member head

def effect : ListCall ι → Family ι → Family ι
  | initListHead list, A => A.put list []
  | listAdd new head, A => (A.drop new).after head [new]
  | listAddTail new head, A => (A.drop new).before head [new]
  | listDel entry, A => A.remove entry
  | listDelInit entry, A => (A.remove entry).put entry []
  | listReplace old new, A => A.rename old new
  | listReplaceInit old new, A => (A.rename old new).put old []
  | listMove list head, A => (A.remove list).after head [list]
  | listMoveTail list head, A => (A.remove list).before head [list]
  | listRotateLeft head, A => A.put head (((A head).getD []).rotate 1)
  | listCutPosition list head entry, A => cutPosition A list head entry
  | listSplice list head, A =>
    if A list = some [] then A else (A.drop list).after head ((A list).getD [])
  | listSpliceTail list head, A =>
    if A list = some [] then A else (A.drop list).before head ((A list).getD [])
  | listSpliceInit list head, A => ((A.drop list).after head ((A list).getD [])).put list []
  | listSpliceTailInit list head, A => ((A.drop list).before head ((A list).getD [])).put list []

variable {h : Links ι} {M : ι → Prop} {A : Family ι}

theorem run_yields (c : ListCall ι) (hA : h.Holds A) (hM : A.Within M) (hargs : ∀ p ∈ c.args, M p)
    (hc : c.Allowed A) : Yields h M (c.run h) (c.effect A) := by
  cases c with
  | initListHead list => exact initListHead_yields hA hc (hargs list (by simp [args]))
  | listAdd new head => exact listAdd_yields hA hM hc.1 (hargs new (by simp [args])) hc.2
  | listAddTail new head => exact listAddTail_yields hA hM hc.1 (hargs new (by simp [args])) hc.2
  | listDel entry => exact listDel_yields hA hM hc
  | listDelInit entry => exact listDelInit_yields hA hM hc
  | listReplace old new => exact listReplace_yields hA hM hc.1 hc.2 (hargs new (by simp [args]))
  | listReplaceInit old new =>
    exact listReplaceInit_yields hA hM hc.1 hc.2 (hargs new (by simp [args]))
  | listMove list head => exact listMove_yields hA hM hc.1 hc.2.1 hc.2.2
  | listMoveTail list head => exact listMoveTail_yields hA hM hc.1 hc.2.1 hc.2.2
  | listRotateLeft head =>
    obtain ⟨l, hl⟩ := Option.ne_none_iff_exists'.1 hc
    simpa [run, effect, hl] using listRotateLeft_yields hA hM hl
  | listCutPosition list head entry =>
    obtain ⟨hlist, hne, l, hl, hentry⟩ := hc
    exact listCutPosition_yields hA hM hl hlist (hargs list (by simp [args])) hne hentry
  | listSplice list head =>
    obtain ⟨s, hs⟩ := Option.ne_none_iff_exists'.1 hc.1
    simpa [run, effect, hs] using listSplice_yields hA hM hs hc.2
  | listSpliceTail list head =>
    obtain ⟨s, hs⟩ := Option.ne_none_iff_exists'.1 hc.1
    simpa [run, effect, hs] using listSpliceTail_yields hA hM hs hc.2
  | listSpliceInit list head =>
    obtain ⟨s, hs⟩ := Option.ne_none_iff_exists'.1 hc.1
    simpa [run, effect, hs] using listSpliceInit_yields hA hM hs hc.2
  | listSpliceTailInit list head =>
    obtain ⟨s, hs⟩ := Option.ne_none_iff_exists'.1 hc.1
    simpa [run, effect, hs] using listSpliceTailInit_yields hA hM hs hc.2

private theorem within_cutPosition (hM : A.Within M) {list head entry : ι} (hlist : M list) :
    (cutPosition A list head entry).Within M := by
  unfold cutPosition
  cases hl : A head with
  | none => exact hM
  | some l =>
    have hMl := hM head l hl
    dsimp only
    split
    · next hentry =>
      refine (hM.put ?_).put ?_
      · intro p hp
        rcases List.mem_cons.1 hp with rfl | hp
        · exact hlist
        · refine hMl p (List.mem_cons_of_mem head ?_)
          rcases List.mem_append.1 hp with hp | hp
          · exact (List.takeWhile_prefix _).subset hp
          · exact List.mem_singleton.1 hp ▸ hentry
      · intro p hp
        rcases List.mem_cons.1 hp with rfl | hp
        · exact hMl p List.mem_cons_self
        · exact hMl p (List.mem_cons_of_mem head
            ((List.dropWhile_suffix _).subset (List.mem_of_mem_tail hp)))
    · split
      · exact hM.put (by simpa using hlist)
      · exact hM

theorem within_effect (c : ListCall ι) (hM : A.Within M) (hargs : ∀ p ∈ c.args, M p) :
    (c.effect A).Within M := by
  have hlookup : ∀ x, ∀ y ∈ (A x).getD [], M y := by
    intro x y hy
    cases hl : A x with
    | none => simp [hl] at hy
    | some l => exact hM x l hl y (List.mem_cons_of_mem x (by simpa [hl] using hy))
  cases c with
  | initListHead list => exact hM.put (by simpa [args] using hargs)
  | listAdd new head => exact (hM.drop new).after head (by simp_all [args])
  | listAddTail new head => exact (hM.drop new).before head (by simp_all [args])
  | listDel entry => exact hM.remove entry
  | listDelInit entry => exact (hM.remove entry).put (by simpa [args] using hargs)
  | listReplace old new => exact hM.rename old (by simp_all [args])
  | listReplaceInit old new => exact (hM.rename old (by simp_all [args])).put (by simp_all [args])
  | listMove list head => exact (hM.remove list).after head (by simp_all [args])
  | listMoveTail list head => exact (hM.remove list).before head (by simp_all [args])
  | listRotateLeft head =>
    refine hM.put fun p hp => ?_
    rcases List.mem_cons.1 hp with rfl | hp
    · exact hargs p (by simp [args])
    · exact hlookup head p (List.mem_rotate.1 hp)
  | listCutPosition list head entry => exact within_cutPosition hM (by simp_all [args])
  | listSplice list head =>
    simp only [effect]
    split
    · exact hM
    · exact (hM.drop list).after head (hlookup list)
  | listSpliceTail list head =>
    simp only [effect]
    split
    · exact hM
    · exact (hM.drop list).before head (hlookup list)
  | listSpliceInit list head =>
    exact ((hM.drop list).after head (hlookup list)).put (by simp_all [args])
  | listSpliceTailInit list head =>
    exact ((hM.drop list).before head (hlookup list)).put (by simp_all [args])

end ListCall

variable [DecidableEq ι] {h : Links ι} {M : ι → Prop} {A : Family ι}

def runCalls (calls : List (ListCall ι)) (h : Links ι) : Option (Links ι) :=
  calls.foldlM (fun h c => c.run h) h

def effects (calls : List (ListCall ι)) (A : Family ι) : Family ι :=
  calls.foldl (fun A c => c.effect A) A

def AllowedRun : List (ListCall ι) → Family ι → Prop
  | [], _ => True
  | c :: calls, A => c.Allowed A ∧ AllowedRun calls (c.effect A)

theorem runCalls_yields (calls : List (ListCall ι)) (hA : h.Holds A) (hM : A.Within M)
    (hargs : ∀ c ∈ calls, ∀ p ∈ c.args, M p) (hcalls : AllowedRun calls A) :
    Yields h M (runCalls calls h) (effects calls A) := by
  induction calls generalizing h A with
  | nil => exact .of_holds hA (.refl M h)
  | cons c calls ih =>
    have hc := hargs c List.mem_cons_self
    refine (c.run_yields hA hM hc hcalls.1).bind fun h' hA' => ?_
    exact ih hA' (c.within_effect hM hc) (fun d hd => hargs d (List.mem_cons_of_mem c hd)) hcalls.2

def queueCalls : List (ListCall Nat) :=
  [.initListHead 0, .listAddTail 1 0, .listAddTail 2 0, .listDel 1]

theorem queueCalls_allowed : AllowedRun queueCalls fun _ => none := by
  refine ⟨?_, ⟨?_, 0, [], rfl, by simp⟩, ⟨?_, 0, [1], rfl, by simp⟩, ⟨0, [1, 2], rfl, by simp⟩,
    trivial⟩
  · simp [ListCall.Allowed, Family.Unlisted]
  · intro x l hl
    rcases Family.put_eq_some.1 hl with ⟨-, rfl⟩ | ⟨-, hl⟩ <;> simp at *
  · intro x l hl
    by_cases hx : x = 0
    · subst hx
      obtain rfl : [1] = l := Option.some.inj hl
      simp
    · simp [ListCall.effect, Family.before, Family.drop, Family.put, hx, Function.update_apply]
        at hl

/-- The memory follows the lists through every run of allowed calls. -/
theorem runCalls_refines (calls : List (ListCall ι)) (hA : h.Holds A)
    (hcalls : AllowedRun calls A) :
    ∃ h', runCalls calls h = some h' ∧ h'.Holds (effects calls A) := by
  obtain ⟨h', hrun, hA', -⟩ := runCalls_yields (M := fun _ => True) calls hA
    (fun _ _ _ _ _ => trivial) (fun _ _ _ _ => trivial) hcalls
  exact ⟨h', hrun, hA'⟩

theorem runCalls_refines_queue :
    ∃ h', runCalls queueCalls ⟨fun _ => none, fun _ => none⟩ = some h' ∧
      h'.Holds (effects queueCalls fun _ => none) :=
  runCalls_refines queueCalls (holds_none _) queueCalls_allowed

end DwcPcie.ListRuns
