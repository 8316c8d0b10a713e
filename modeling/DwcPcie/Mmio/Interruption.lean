import DwcPcie.Mmio.Update

/-! Runs in the middle. A store on the way is what a first part of the updates
leaves; since a masked update may be repeated, a run that was cut short can be
started over, and what a finished run settled stays as it is while it is
repeated. -/
namespace Mmio

variable {Addr Word Cell α β ι : Type} {w : Nat} [DecidableEq Cell] (cell : Addr → Cell)

theorem updateWrites_mem {updates : List (Update Addr w)} {store : Cell → BitVec w}
    {e : WriteEvent Addr (BitVec w) Cell} (he : e ∈ updateWrites cell updates store) :
    ∃ first u rest, updates = first ++ u :: rest ∧ e.addr = u.addr ∧
      e.value = u.mask.apply (e.before (cell u.addr)) ∧ e.before = perform cell first store ∧
      e.after cell = perform cell (first ++ [u]) store := by
  induction updates generalizing store with
  | nil => cases he
  | cons v updates ih =>
    rcases List.mem_cons.mp he with rfl | he
    · exact ⟨[], v, updates, rfl, rfl, rfl, rfl, rfl⟩
    · obtain ⟨first, u, rest, rfl, haddr, hvalue, hbefore, hafter⟩ := ih he
      exact ⟨v :: first, u, rest, rfl, haddr, hvalue, hbefore, hafter⟩

theorem updateWrites_after_prefix {updates : List (Update Addr w)} {store : Cell → BitVec w}
    {e : WriteEvent Addr (BitVec w) Cell} (he : e ∈ updateWrites cell updates store) :
    ∃ first, first <+: updates ∧ e.after cell = perform cell first store := by
  obtain ⟨first, u, rest, rfl, -, -, -, hafter⟩ := updateWrites_mem cell he
  exact ⟨first ++ [u], ⟨rest, by rw [List.append_assoc, List.singleton_append]⟩, hafter⟩

/-! ## Starting over -/

/-- Starting over after a first part comes to the same as going on. -/
theorem perform_restart {first updates : List (Update Addr w)} (h : first <+: updates)
    (store : Cell → BitVec w) :
    perform cell updates (perform cell first store) = perform cell updates store := by
  obtain ⟨rest, rfl⟩ := h
  rw [perform_append, perform_append, perform_idem]

/-- The stores that attempts at running some of the programs can leave, each of
them cut short after a write. -/
inductive Attempted (program : ι → Program Addr Word α) (store : Cell → Word) :
    (Cell → Word) → Prop where
  | start : Attempted program store store
  | attempt {state : Cell → Word} (h : Attempted program store state) (i : ι)
      {e : WriteEvent Addr Word Cell} (he : e ∈ (program i).writes cell state) :
      Attempted program store (e.after cell)

variable {cell}

theorem Attempted.exec_eq {program : ι → Program Addr (BitVec w) α}
    {updates : List (Update Addr w)} (hprogram : ∀ i, Performs cell (program i) updates)
    {store state : Cell → BitVec w} (h : Attempted cell program store state) (i : ι) :
    (program i).exec cell state = perform cell updates store := by
  rw [(hprogram i).exec]
  induction h with
  | start => rfl
  | attempt h j he ih =>
    rw [(hprogram j).writes] at he
    obtain ⟨first, hfirst, hafter⟩ := updateWrites_after_prefix cell he
    rw [hafter, perform_restart cell hfirst, ih]

/-! ## What is settled -/

variable (cell)

theorem perform_settled {updates : List (Update Addr w)} {store : Cell → BitVec w} {c : Cell}
    {i : Nat} (h : ∀ u ∈ updates, cell u.addr = c → ∀ word : BitVec w,
      word.getLsbD i = (store c).getLsbD i → (u.mask.apply word).getLsbD i = (store c).getLsbD i) :
    (perform cell updates store c).getLsbD i = (store c).getLsbD i := by
  induction updates using List.reverseRecOn with
  | nil => rfl
  | append_singleton updates u ih =>
    have hrest := ih fun v hv => h v (List.mem_append_left _ hv)
    rw [perform_append]
    change (u.act cell (perform cell updates store) c).getLsbD i = _
    by_cases hc : cell u.addr = c
    · subst hc
      rw [Update.act, Function.update_self]
      exact h u (by simp) rfl _ hrest
    · rw [Update.act, Function.update_of_ne (Ne.symm hc)]
      exact hrest

private theorem perform_decided {updates : List (Update Addr w)} {c : Cell} {i : Nat} {b : Bool}
    (h : ∀ u ∈ updates, cell u.addr = c → u.mask.Leans i b) {u : Update Addr w}
    (hu : u ∈ updates) (hc : cell u.addr = c)
    (hdecides : ∀ word : BitVec w, (u.mask.apply word).getLsbD i = b) (store : Cell → BitVec w) :
    (perform cell updates store c).getLsbD i = b := by
  obtain ⟨before, behind, rfl⟩ := List.append_of_mem hu
  rw [List.append_cons, perform_append]
  have hnow : (perform cell (before ++ [u]) store c).getLsbD i = b := by
    subst hc
    rw [perform_append]
    change (u.act cell _ _).getLsbD i = b
    rw [Update.act, Function.update_self, hdecides]
  -- From this update on the bit stays.
  refine (perform_settled cell fun v hv hvc word hword => ?_).trans hnow
  rw [hnow] at hword ⊢
  rcases h v (by simp [hv]) hvc with hkeeps | hdecides
  · rw [hkeeps, hword]
  · exact hdecides word

/-- While a finished run is repeated, a bit whose updates all lean the same way
stays as the run left it. -/
theorem perform_stable {first updates : List (Update Addr w)} (hfirst : first <+: updates)
    {c : Cell} {i : Nat} {b : Bool}
    (h : ∀ u ∈ updates, cell u.addr = c → u.mask.Leans i b) (store : Cell → BitVec w) :
    (perform cell first (perform cell updates store) c).getLsbD i =
      (perform cell updates store c).getLsbD i := by
  apply perform_settled
  intro u hu hc word hword
  have hmem := hfirst.subset hu
  rcases h u hmem hc with hkeeps | hdecides
  · rw [hkeeps, hword]
  · rw [hdecides, perform_decided cell h hmem hc hdecides]

/-! ## One part of the cells -/

theorem perform_relocate [DecidableEq Addr] (place : Addr → Cell) (hplace : place.Injective)
    (updates : List (Update Addr w)) (store : Cell → BitVec w) (addr : Addr) :
    perform (fun c => c) (updates.map (Update.relocate place)) store (place addr) =
      perform (fun a => a) updates (fun a => store (place a)) addr := by
  rw [perform_apply, perform_apply, netMask_relocate place hplace]

theorem perform_puts_same (place : ι → Addr) (value : BitVec w) (items : List ι)
    (store : Cell → BitVec w) (c : Cell) :
    perform cell (items.map fun i => ⟨place i, .const value⟩) store c =
      if ∃ i ∈ items, cell (place i) = c then value else store c := by
  induction items generalizing store with
  | nil => simp [perform]
  | cons i items ih =>
    have hact : Update.act cell ⟨place i, .const value⟩ store =
        Function.update store (cell (place i)) value := by
      rw [Update.act, MaskedWord.apply_const]
    rw [List.map_cons, perform, List.foldl_cons, hact]
    refine (ih _).trans ?_
    by_cases hrest : ∃ j ∈ items, cell (place j) = c
    · obtain ⟨j, hj, hjc⟩ := hrest
      rw [if_pos ⟨j, hj, hjc⟩, if_pos ⟨j, List.mem_cons_of_mem _ hj, hjc⟩]
    · rw [if_neg hrest, Function.update_apply]
      by_cases hi : c = cell (place i)
      · rw [if_pos hi, if_pos ⟨i, List.mem_cons_self, hi.symm⟩]
      · rw [if_neg hi, if_neg]
        rintro ⟨j, hj, hjc⟩
        rcases List.mem_cons.mp hj with rfl | hj
        · exact hi hjc.symm
        · exact hrest ⟨j, hj, hjc⟩

theorem perform_filter (part : Addr → Bool) {updates : List (Update Addr w)} {c : Cell}
    (hpart : ∀ u ∈ updates, cell u.addr = c → part u.addr = true) (store : Cell → BitVec w) :
    perform cell (updates.filter fun u => part u.addr) store c = perform cell updates store c := by
  induction updates using List.reverseRecOn with
  | nil => rfl
  | append_singleton updates u ih =>
    have hrest := ih fun v hv => hpart v (List.mem_append_left _ hv)
    rw [List.filter_append, perform_append, perform_append]
    by_cases hc : cell u.addr = c
    · have hu : part u.addr = true := hpart u (by simp) hc
      subst hc
      rw [List.filter_singleton, hu]
      change u.act cell _ (cell u.addr) = u.act cell _ (cell u.addr)
      rw [Update.act, Update.act, Function.update_self, Function.update_self, hrest]
    · have hframe (first : List (Update Addr w)) (hfirst : ∀ v ∈ first, v = u)
          (state : Cell → BitVec w) : perform cell first state c = state c :=
        perform_frame cell first state c fun v hv => by rwa [hfirst v hv]
      have hlast : ∀ v ∈ [u].filter fun u => part u.addr, v = u := fun v hv =>
        List.mem_singleton.mp (List.mem_of_mem_filter hv)
      rw [hframe [u] (by simp), hframe _ hlast]
      exact hrest

/-- Of a run of disjoint routines the part of one of them is that routine, once
if it is among those called and never if not. -/
theorem filter_flatMap_eq [DecidableEq ι] (part : Addr → Bool)
    (updates : ι → List (Update Addr w)) {items : List ι} (hitems : items.Nodup) (i : ι)
    (hown : ∀ u ∈ updates i, part u.addr = true)
    (hother : ∀ j, j ≠ i → ∀ u ∈ updates j, part u.addr = false) :
    (items.flatMap updates).filter (fun u => part u.addr) =
      if i ∈ items then updates i else [] := by
  induction items with
  | nil => rfl
  | cons j items ih =>
    obtain ⟨hj, hitems⟩ := List.nodup_cons.mp hitems
    rw [List.flatMap_cons, List.filter_append, ih hitems]
    by_cases hij : j = i
    · subst hij
      rw [List.filter_eq_self.mpr hown, if_neg hj, if_pos List.mem_cons_self, List.append_nil]
    · have hnone : (updates j).filter (fun u => part u.addr) = [] :=
        List.filter_eq_nil_iff.mpr fun u hu => by simp [hother j hij u hu]
      rw [hnone, List.nil_append]
      simp [Ne.symm hij]

end Mmio
