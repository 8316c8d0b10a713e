import DwcPcie.Mmio.MaskedWord
import DwcPcie.Mmio.Program
import Mathlib.Data.List.Dedup
import Mathlib.Data.List.Perm.Basic

/-! What a register-setup routine does to the store, as a list of masked
updates. The list determines both the final store and every store on the way,
and the final value of a cell depends on the updates of that cell alone. -/
namespace Mmio

structure Update (Addr : Type) (w : Nat) where
  addr : Addr
  mask : MaskedWord w

variable {Addr Addr' Cell α β ι : Type} {w : Nat}

def Update.relocate (place : Addr → Addr') (u : Update Addr w) : Update Addr' w :=
  ⟨place u.addr, u.mask⟩

variable [DecidableEq Cell] (cell : Addr → Cell)

def Update.act (u : Update Addr w) (store : Cell → BitVec w) : Cell → BitVec w :=
  Function.update store (cell u.addr) (u.mask.apply (store (cell u.addr)))

def perform (updates : List (Update Addr w)) (store : Cell → BitVec w) : Cell → BitVec w :=
  updates.foldl (fun store u => u.act cell store) store

def updateWrites : List (Update Addr w) → (Cell → BitVec w) →
    List (WriteEvent Addr (BitVec w) Cell)
  | [], _ => []
  | u :: updates, store =>
      ⟨store, u.addr, u.mask.apply (store (cell u.addr))⟩ :: updateWrites updates (u.act cell store)

/-- All that the updates do to one cell. -/
def netMask (updates : List (Update Addr w)) (c : Cell) : MaskedWord w :=
  updates.foldl (fun m u => if cell u.addr = c then m.andThen u.mask else m) MaskedWord.id

theorem perform_append (first second : List (Update Addr w)) (store : Cell → BitVec w) :
    perform cell (first ++ second) store = perform cell second (perform cell first store) := by
  simp [perform]

theorem updateWrites_append (first second : List (Update Addr w)) (store : Cell → BitVec w) :
    updateWrites cell (first ++ second) store =
      updateWrites cell first store ++ updateWrites cell second (perform cell first store) := by
  induction first generalizing store with
  | nil => rfl
  | cons u first ih => exact congrArg _ (ih _)

theorem perform_apply (updates : List (Update Addr w)) (store : Cell → BitVec w) (c : Cell) :
    perform cell updates store c = (netMask cell updates c).apply (store c) := by
  induction updates using List.reverseRecOn with
  | nil => simp [perform, netMask]
  | append_singleton updates u ih =>
    simp only [perform, netMask, List.foldl_append, List.foldl_cons, List.foldl_nil] at ih ⊢
    by_cases hc : cell u.addr = c
    · subst hc
      rw [Update.act, Function.update_self, if_pos rfl, MaskedWord.apply_andThen, ih]
    · rw [Update.act, Function.update_of_ne (Ne.symm hc), if_neg hc, ih]

theorem netMask_eq_id (updates : List (Update Addr w)) (c : Cell)
    (h : ∀ u ∈ updates, cell u.addr ≠ c) : netMask cell updates c = MaskedWord.id := by
  induction updates using List.reverseRecOn with
  | nil => rfl
  | append_singleton updates u ih =>
    have hu : cell u.addr ≠ c := h u (by simp)
    have hrest : netMask cell updates c = MaskedWord.id :=
      ih fun v hv => h v (by simp [hv])
    simpa [netMask, List.foldl_append, hu] using hrest

/-- What every update of a cell keeps of its word is the same in the end. -/
theorem perform_keeps (f : BitVec w → β) (updates : List (Update Addr w))
    (store : Cell → BitVec w) (c : Cell)
    (h : ∀ u ∈ updates, cell u.addr = c → ∀ word, f (u.mask.apply word) = f word) :
    f (perform cell updates store c) = f (store c) := by
  induction updates generalizing store with
  | nil => rfl
  | cons u updates ih =>
    have hrest := ih (u.act cell store) fun v hv => h v (List.mem_cons_of_mem _ hv)
    refine hrest.trans ?_
    by_cases hc : cell u.addr = c
    · subst hc
      rw [Update.act, Function.update_self]
      exact h u List.mem_cons_self rfl _
    · rw [Update.act, Function.update_of_ne (Ne.symm hc)]

theorem perform_frame (updates : List (Update Addr w)) (store : Cell → BitVec w) (c : Cell)
    (h : ∀ u ∈ updates, cell u.addr ≠ c) : perform cell updates store c = store c := by
  rw [perform_apply, netMask_eq_id cell updates c h, MaskedWord.apply_id]

theorem perform_fixed (updates : List (Update Addr w)) (store : Cell → BitVec w)
    (h : ∀ u ∈ updates, u.mask.apply (store (cell u.addr)) = store (cell u.addr)) :
    perform cell updates store = store := by
  induction updates with
  | nil => rfl
  | cons u updates ih =>
    have hu : u.act cell store = store := by
      rw [Update.act, h u List.mem_cons_self, Function.update_eq_self]
    rw [perform, List.foldl_cons, hu]
    exact ih fun v hv => h v (List.mem_cons_of_mem _ hv)

theorem perform_puts (items : List (Addr × BitVec w)) (store : Cell → BitVec w)
    (distinct : (items.map fun p => cell p.1).Nodup) {p : Addr × BitVec w} (hp : p ∈ items) :
    perform cell (items.map fun p => ⟨p.1, .const p.2⟩) store (cell p.1) = p.2 := by
  induction items generalizing store with
  | nil => cases hp
  | cons q items ih =>
    obtain ⟨hfresh, hrest⟩ := List.nodup_cons.mp distinct
    rcases List.mem_cons.mp hp with rfl | hp
    · have hframe : ∀ u ∈ items.map fun p => (⟨p.1, .const p.2⟩ : Update Addr w),
          cell u.addr ≠ cell p.1 := by
        intro u hu h
        obtain ⟨r, hr, rfl⟩ := List.mem_map.mp hu
        exact hfresh (List.mem_map.mpr ⟨r, hr, h⟩)
      refine (perform_frame cell _ _ _ hframe).trans ?_
      change Update.act cell ⟨p.1, .const p.2⟩ store (cell p.1) = p.2
      rw [Update.act, Function.update_self, MaskedWord.apply_const]
    · exact ih _ hrest hp

theorem updateWrites_after (updates : List (Update Addr w)) (store : Cell → BitVec w) :
    (updateWrites cell updates store).map (WriteEvent.after cell) =
      (List.range updates.length).map fun j => perform cell (updates.take (j + 1)) store := by
  induction updates generalizing store with
  | nil => rfl
  | cons u updates ih =>
    rw [updateWrites, List.map_cons, ih, List.length_cons, List.range_succ_eq_map,
      List.map_cons, List.map_map]
    rfl

theorem updateWrites_after_getElem? {updates : List (Update Addr w)}
    {store state : Cell → BitVec w} {j : Nat}
    (h : ((updateWrites cell updates store).map (WriteEvent.after cell))[j]? = some state) :
    j < updates.length ∧ state = perform cell (updates.take (j + 1)) store := by
  rw [updateWrites_after, List.getElem?_map, Option.map_eq_some_iff] at h
  obtain ⟨i, hi, rfl⟩ := h
  obtain ⟨hlt, rfl⟩ := List.getElem?_eq_some_iff.mp hi
  rw [List.length_range] at hlt
  rw [List.getElem_range]
  exact ⟨hlt, rfl⟩

theorem updateWrites_frame {updates : List (Update Addr w)} {store : Cell → BitVec w} {c : Cell}
    (h : ∀ u ∈ updates, cell u.addr ≠ c) {e : WriteEvent Addr (BitVec w) Cell}
    (he : e ∈ updateWrites cell updates store) : cell e.addr ≠ c ∧ e.before c = store c := by
  induction updates generalizing store with
  | nil => cases he
  | cons u updates ih =>
    have hu : cell u.addr ≠ c := h u List.mem_cons_self
    rcases List.mem_cons.mp he with rfl | he
    · exact ⟨hu, rfl⟩
    · obtain ⟨hne, hbefore⟩ := ih (fun v hv => h v (List.mem_cons_of_mem _ hv)) he
      exact ⟨hne, hbefore.trans (Function.update_of_ne (Ne.symm hu) _ _)⟩

/-- A cell opened by the first update and closed by the last holds its opened
word at every write in between. -/
theorem bracket_writes (opening closing : Update Addr w) {inner : List (Update Addr w)}
    {store : Cell → BitVec w} {c : Cell} (hopening : cell opening.addr = c)
    (hclosing : cell closing.addr = c) (hinner : ∀ u ∈ inner, cell u.addr ≠ c)
    {e : WriteEvent Addr (BitVec w) Cell}
    (he : e ∈ updateWrites cell (opening :: inner ++ [closing]) store) :
    (cell e.addr = c ∧ e.before c = store c ∧ e.value = opening.mask.apply (store c)) ∨
    (cell e.addr ≠ c ∧ e.before c = opening.mask.apply (store c)) ∨
    (cell e.addr = c ∧ e.before c = opening.mask.apply (store c) ∧
      e.value = closing.mask.apply (opening.mask.apply (store c))) := by
  subst hopening
  have hopened : opening.act cell store (cell opening.addr) =
      opening.mask.apply (store (cell opening.addr)) := Function.update_self ..
  rw [List.cons_append, updateWrites, updateWrites_append] at he
  rcases List.mem_cons.mp he with rfl | he
  · exact .inl ⟨rfl, rfl, rfl⟩
  rcases List.mem_append.mp he with he | he
  · obtain ⟨hne, hbefore⟩ := updateWrites_frame cell hinner he
    exact .inr (.inl ⟨hne, hbefore.trans hopened⟩)
  · have hkept := (perform_frame cell inner (opening.act cell store) _ hinner).trans hopened
    rw [List.mem_singleton.mp he]
    refine .inr (.inr ⟨hclosing, hkept, ?_⟩)
    change closing.mask.apply (perform cell inner _ (cell closing.addr)) = _
    rw [hclosing, hkept]

theorem bracket_perform (opening closing : Update Addr w) {inner : List (Update Addr w)}
    (store : Cell → BitVec w) {c : Cell} (hopening : cell opening.addr = c)
    (hclosing : cell closing.addr = c) (hinner : ∀ u ∈ inner, cell u.addr ≠ c) :
    perform cell (opening :: inner ++ [closing]) store c =
      closing.mask.apply (opening.mask.apply (store c)) := by
  subst hopening
  have hkept := perform_frame cell inner (opening.act cell store) _ hinner
  rw [perform_append]
  change closing.act cell (perform cell inner (opening.act cell store)) _ = _
  rw [Update.act, hclosing, Function.update_self, hkept, Update.act, Function.update_self]

theorem netMask_relocate [DecidableEq Addr] (place : Addr → Cell) (hplace : place.Injective)
    (updates : List (Update Addr w)) (addr : Addr) :
    netMask (fun c => c) (updates.map (Update.relocate place)) (place addr) =
      netMask (fun a => a) updates addr := by
  simp only [netMask, List.foldl_map, Update.relocate, hplace.eq_iff]

theorem perform_idem (updates : List (Update Addr w)) (store : Cell → BitVec w) :
    perform cell updates (perform cell updates store) = perform cell updates store := by
  funext c
  simp only [perform_apply, MaskedWord.apply_idem]

theorem perform_comm (first second : List (Update Addr w))
    (h : ∀ u ∈ first, ∀ v ∈ second, cell u.addr ≠ cell v.addr) (store : Cell → BitVec w) :
    perform cell first (perform cell second store) =
      perform cell second (perform cell first store) := by
  funext c
  simp only [perform_apply]
  by_cases hc : ∃ u ∈ first, cell u.addr = c
  · obtain ⟨u, hu, rfl⟩ := hc
    rw [netMask_eq_id cell second _ fun v hv => (h u hu v hv).symm]
    simp only [MaskedWord.apply_id]
  · rw [netMask_eq_id cell first c fun u hu he => hc ⟨u, hu, he⟩]
    simp only [MaskedWord.apply_id]

/-! Folding commuting idempotent steps: only the set of steps matters. -/

private theorem foldl_absorb {S : Type} (f : S → ι → S) [RightCommutative f]
    (idem : ∀ s i, f (f s i) i = f s i) {i : ι} {items : List ι} (hi : i ∈ items) (s : S) :
    items.foldl f (f s i) = items.foldl f s := by
  induction items generalizing s with
  | nil => cases hi
  | cons j items ih =>
    rcases List.mem_cons.mp hi with rfl | hi
    · rw [List.foldl_cons, List.foldl_cons, idem]
    · have swap : f (f s i) j = f (f s j) i := RightCommutative.right_comm s i j
      rw [List.foldl_cons, List.foldl_cons, swap, ih hi]

private theorem foldl_dedup {S : Type} [DecidableEq ι] (f : S → ι → S) [RightCommutative f]
    (idem : ∀ s i, f (f s i) i = f s i) (items : List ι) (s : S) :
    items.dedup.foldl f s = items.foldl f s := by
  induction items generalizing s with
  | nil => rfl
  | cons i items ih =>
    by_cases hi : i ∈ items
    · rw [List.dedup_cons_of_mem hi, ih, List.foldl_cons, foldl_absorb f idem hi]
    · rw [List.dedup_cons_of_notMem hi, List.foldl_cons, List.foldl_cons, ih]

private theorem foldl_eq_of_mem_iff {S : Type} [DecidableEq ι] (f : S → ι → S) [RightCommutative f]
    (idem : ∀ s i, f (f s i) i = f s i) {first second : List ι}
    (h : ∀ i, i ∈ first ↔ i ∈ second) (s : S) : first.foldl f s = second.foldl f s := by
  rw [← foldl_dedup f idem first, ← foldl_dedup f idem second]
  apply List.Perm.foldl_eq
  rw [List.perm_ext_iff_of_nodup (List.nodup_dedup _) (List.nodup_dedup _)]
  intro i
  rw [List.mem_dedup, List.mem_dedup, h]

/-- Routines on pairwise disjoint cells, called in any order and any number of
times, leave a store that depends only on which of them were called. -/
theorem foldl_perform_eq_of_mem_iff [DecidableEq ι] (updates : ι → List (Update Addr w))
    (disjoint : ∀ i j, i ≠ j → ∀ u ∈ updates i, ∀ v ∈ updates j, cell u.addr ≠ cell v.addr)
    {first second : List ι} (h : ∀ i, i ∈ first ↔ i ∈ second) (store : Cell → BitVec w) :
    first.foldl (fun store i => perform cell (updates i) store) store =
      second.foldl (fun store i => perform cell (updates i) store) store := by
  have : RightCommutative fun store i => perform cell (updates i) store := ⟨by
    intro store i j
    by_cases hij : i = j
    · rw [hij]
    · exact perform_comm cell _ _ (fun u hu v hv => disjoint j i (Ne.symm hij) u hu v hv) store⟩
  exact foldl_eq_of_mem_iff _ (fun store i => perform_idem cell (updates i) store) h store

/-! ## Programs that perform a list of updates -/

/-- The program does exactly these updates, write by write. -/
structure Performs (program : Program Addr (BitVec w) α) (updates : List (Update Addr w)) :
    Prop where
  exec : ∀ store, program.exec cell store = perform cell updates store
  writes : ∀ store, program.writes cell store = updateWrites cell updates store

namespace Performs

variable {cell}

theorem done (value : α) : Performs cell (.done value : Program Addr (BitVec w) α) [] :=
  ⟨fun _ => rfl, fun _ => rfl⟩

theorem put (addr : Addr) (value : BitVec w) :
    Performs cell (Program.put addr value) [⟨addr, .const value⟩] :=
  ⟨fun store => by simp [Program.put, Program.exec, perform, Update.act],
    fun store => by simp [Program.put, Program.writes, updateWrites]⟩

theorem modify (addr : Addr) (f : BitVec w → BitVec w) (mask : MaskedWord w)
    (h : ∀ word, f word = mask.apply word) :
    Performs cell (Program.fetch addr >>= fun word => Program.put addr (f word))
      [⟨addr, mask⟩] :=
  ⟨fun store => by simp [Program.fetch, Program.put, Program.exec, perform, Update.act, h],
    fun store => by simp [Program.fetch, Program.put, Program.writes, updateWrites, h]⟩

theorem bind {program : Program Addr (BitVec w) α} {f : α → Program Addr (BitVec w) β}
    {first second : List (Update Addr w)} (hfirst : Performs cell program first)
    (hsecond : ∀ value, Performs cell (f value) second) :
    Performs cell (program >>= f) (first ++ second) where
  exec store := by
    rw [Program.exec_bind, (hsecond _).exec, hfirst.exec, perform_append]
  writes store := by
    rw [Program.writes_bind, (hsecond _).writes, hfirst.writes, hfirst.exec, updateWrites_append]

theorem forM (body : ι → Program Addr (BitVec w) PUnit) (updates : ι → List (Update Addr w))
    (h : ∀ i, Performs cell (body i) (updates i)) (items : List ι) :
    Performs cell (forM items body) (items.flatMap updates) := by
  induction items with
  | nil => exact done PUnit.unit
  | cons i items ih =>
    rw [List.forM_cons, List.flatMap_cons]
    exact (h i).bind fun _ => ih

theorem put_bind (addr : Addr) (value : BitVec w) {rest : Program Addr (BitVec w) β}
    {updates : List (Update Addr w)} (hrest : Performs cell rest updates) :
    Performs cell (Program.put addr value >>= fun _ => rest)
      (⟨addr, .const value⟩ :: updates) :=
  (put addr value).bind fun _ => hrest

end Performs
end Mmio
