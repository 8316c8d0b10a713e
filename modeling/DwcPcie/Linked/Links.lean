import Mathlib.Data.List.Chain
import Mathlib.Data.List.Nodup

/-! Doubly linked nodes in memory. A step along the links counts only where both
ends agree on it, so a node has at most one step out of it and one into it. -/
namespace Linked

/-- The two pointers of every node. `none` is the null pointer. -/
@[ext] structure Links (ι : Type) where
  next : ι → Option ι
  prev : ι → Option ι

variable {ι : Type}

namespace Links

/-- The same nodes read backwards. -/
def flip (h : Links ι) : Links ι := ⟨h.prev, h.next⟩

@[simp] theorem flip_next (h : Links ι) : h.flip.next = h.prev := rfl
@[simp] theorem flip_prev (h : Links ι) : h.flip.prev = h.next := rfl
@[simp] theorem flip_flip (h : Links ι) : h.flip.flip = h := rfl

def Joined (h : Links ι) (a b : ι) : Prop := h.next a = some b ∧ h.prev b = some a

theorem joined_flip {h : Links ι} {a b : ι} : h.flip.Joined a b ↔ h.Joined b a := and_comm

theorem Joined.next_unique {h : Links ι} {a b c : ι} (hb : h.Joined a b) (hc : h.Joined a c) :
    b = c :=
  Option.some.inj (hb.1.symm.trans hc.1)

theorem Joined.prev_unique {h : Links ι} {a b c : ι} (ha : h.Joined a c) (hb : h.Joined b c) :
    a = b :=
  Option.some.inj (ha.2.symm.trans hb.2)

/-- From `a` through the nodes of the list to `b`. -/
def Path (h : Links ι) (a : ι) (l : List ι) (b : ι) : Prop :=
  List.IsChain h.Joined (a :: l ++ [b])

@[simp] theorem path_nil {h : Links ι} {a b : ι} : h.Path a [] b ↔ h.Joined a b := by
  simp [Path]

@[simp] theorem path_cons {h : Links ι} {a x b : ι} {l : List ι} :
    h.Path a (x :: l) b ↔ h.Joined a x ∧ h.Path x l b := by
  simp [Path]

theorem path_append {h : Links ι} {a x b : ι} {l r : List ι} :
    h.Path a (l ++ x :: r) b ↔ h.Path a l x ∧ h.Path x r b := by
  induction l generalizing a with
  | nil => simp
  | cons y l ih => simp [ih, and_assoc]

theorem path_flip {h : Links ι} {a b : ι} {l : List ι} :
    h.flip.Path b l.reverse a ↔ h.Path a l b := by
  have hrev : b :: l.reverse ++ [a] = (a :: l ++ [b]).reverse := by simp
  have hflip : h.flip.Joined = fun x y => h.Joined y x := by
    funext x y
    exact propext joined_flip
  rw [Path, hrev, List.isChain_reverse, Path, hflip]

theorem Path.map {h h' : Links ι} {a b : ι} {l : List ι} (hp : h.Path a l b) (f : ι → ι)
    (step : ∀ u ∈ a :: l, ∀ v ∈ l ++ [b], h.Joined u v → h'.Joined (f u) (f v)) :
    h'.Path (f a) (l.map f) (f b) := by
  induction l generalizing a with
  | nil => exact path_nil.2 (step a (by simp) b (by simp) (path_nil.1 hp))
  | cons x l ih =>
    obtain ⟨hax, hxb⟩ := path_cons.1 hp
    refine path_cons.2 ⟨step a (by simp) x (by simp) hax, ih hxb ?_⟩
    intro u hu v hv
    exact step u (List.mem_cons_of_mem a hu) v (List.mem_cons_of_mem x hv)

theorem Path.keep {h h' : Links ι} {a b : ι} {l : List ι} (hp : h.Path a l b)
    (keep : ∀ u ∈ a :: l, ∀ v ∈ l ++ [b], h.Joined u v → h'.Joined u v) : h'.Path a l b := by
  simpa using hp.map id keep

theorem Path.take_over {h h' : Links ι} {a a' b : ι} {l : List ι} (hp : h.Path a l b)
    (first : ∀ v, h.Joined a v → h'.Joined a' v)
    (keep : ∀ u ∈ l, ∀ v ∈ l ++ [b], h.Joined u v → h'.Joined u v) : h'.Path a' l b := by
  cases l with
  | nil => exact path_nil.2 (first b (path_nil.1 hp))
  | cons x l =>
    obtain ⟨hax, hxb⟩ := path_cons.1 hp
    refine path_cons.2 ⟨first x hax, hxb.keep fun u hu v hv => keep u hu v ?_⟩
    exact List.mem_cons_of_mem x hv

theorem Path.fuse {h h' : Links ι} {a b c d : ι} {l r : List ι} (hl : h.Path a l b)
    (hr : h.Path c r d) (seam : ∀ u v, h.Joined u b → h.Joined c v → h'.Joined u v)
    (keepLeft : ∀ u ∈ a :: l, ∀ v ∈ l, h.Joined u v → h'.Joined u v)
    (keepRight : ∀ u ∈ r, ∀ v ∈ r ++ [d], h.Joined u v → h'.Joined u v) :
    h'.Path a (l ++ r) d := by
  induction l generalizing a with
  | nil => exact hr.take_over (fun v hv => seam a v (path_nil.1 hl) hv) keepRight
  | cons x l ih =>
    obtain ⟨hax, hxb⟩ := path_cons.1 hl
    refine path_cons.2 ⟨keepLeft a (by simp) x (by simp) hax, ih hxb ?_⟩
    intro u hu v hv
    exact keepLeft u (List.mem_cons_of_mem a hu) v (List.mem_cons_of_mem x hv)

/-- Two paths out of one node agree up to the first of their ends. -/
theorem Path.unique {h : Links ι} {a b b' : ι} {l l' : List ι} (hp : h.Path a l b)
    (hp' : h.Path a l' b') (hb : b ∉ l') (hb' : b' ∉ l) : l = l' ∧ b = b' := by
  induction l generalizing a l' with
  | nil =>
    cases l' with
    | nil => exact ⟨rfl, (path_nil.1 hp).next_unique (path_nil.1 hp')⟩
    | cons y l' =>
      have hy := (path_nil.1 hp).next_unique (path_cons.1 hp').1
      simp [hy] at hb
  | cons x l ih =>
    obtain ⟨hax, hxb⟩ := path_cons.1 hp
    cases l' with
    | nil =>
      have hx := hax.next_unique (path_nil.1 hp')
      simp [hx] at hb'
    | cons y l' =>
      obtain ⟨hay, hyb⟩ := path_cons.1 hp'
      obtain rfl := hax.next_unique hay
      simp only [List.mem_cons, not_or] at hb hb'
      obtain ⟨rfl, hend⟩ := ih hxb hyb hb.2 hb'.2
      exact ⟨rfl, hend⟩

theorem Path.next_eq_head? {h : Links ι} {a b : ι} {l : List ι} (hp : h.Path a l b) :
    h.next a = (l ++ [b]).head? := by
  cases l with
  | nil => exact (path_nil.1 hp).1
  | cons x l => exact (path_cons.1 hp).1.1

theorem Path.next_eq {h h' : Links ι} {a b : ι} {l : List ι} (hp : h.Path a l b)
    (hp' : h'.Path a l b) : ∀ p ∈ a :: l, h'.next p = h.next p := by
  induction l generalizing a with
  | nil =>
    intro p hmem
    obtain rfl := List.mem_singleton.1 hmem
    exact (path_nil.1 hp').1.trans (path_nil.1 hp).1.symm
  | cons x l ih =>
    obtain ⟨hax, hxb⟩ := path_cons.1 hp
    obtain ⟨hax', hxb'⟩ := path_cons.1 hp'
    intro p hmem
    rcases List.mem_cons.1 hmem with rfl | hmem
    · exact hax'.1.trans hax.1.symm
    · exact ih hxb hxb' p hmem

theorem Path.nodup {h : Links ι} {a b : ι} {l : List ι} (hp : h.Path a l b) (hb : b ∉ l) :
    l.Nodup := by
  induction l generalizing a with
  | nil => exact List.nodup_nil
  | cons x l ih =>
    obtain ⟨-, hxb⟩ := path_cons.1 hp
    simp only [List.mem_cons, not_or] at hb
    refine List.nodup_cons.2 ⟨fun hx => ?_, ih hxb hb.2⟩
    -- from the second visit on the path would have to be as long as from the first
    obtain ⟨s, t, rfl⟩ := List.append_of_mem hx
    have ht : b ∉ t := fun h => hb.2 (by simp [h])
    obtain ⟨heq, -⟩ := hxb.unique (path_append.1 hxb).2 ht hb.2
    have := congrArg List.length heq
    simp at this
    omega

variable [DecidableEq ι]

def setNext (h : Links ι) (a : ι) (p : Option ι) : Links ι :=
  { h with next := Function.update h.next a p }

def setPrev (h : Links ι) (a : ι) (p : Option ι) : Links ι :=
  { h with prev := Function.update h.prev a p }

@[simp] theorem setNext_next (h : Links ι) (a : ι) (p : Option ι) :
    (h.setNext a p).next = Function.update h.next a p := rfl
@[simp] theorem setNext_prev (h : Links ι) (a : ι) (p : Option ι) :
    (h.setNext a p).prev = h.prev := rfl
@[simp] theorem setPrev_next (h : Links ι) (a : ι) (p : Option ι) :
    (h.setPrev a p).next = h.next := rfl
@[simp] theorem setPrev_prev (h : Links ι) (a : ι) (p : Option ι) :
    (h.setPrev a p).prev = Function.update h.prev a p := rfl

/-- Makes `b` follow `a`. -/
def join (a b : ι) (h : Links ι) : Links ι := (h.setNext a (some b)).setPrev b (some a)

theorem joined_join (a b : ι) (h : Links ι) : (join a b h).Joined a b := by
  simp [Joined, join]

theorem Joined.join {h : Links ι} {a b u v : ι} (huv : h.Joined u v) (ha : u ≠ a) (hb : v ≠ b) :
    (join a b h).Joined u v := by
  simpa [Joined, Links.join, ha, hb] using huv

theorem join_comm {a b c d : ι} (hac : a ≠ c) (hbd : b ≠ d) (h : Links ι) :
    join a b (join c d h) = join c d (join a b h) := by
  ext1
  · exact Function.update_comm hac.symm _ _ _
  · exact Function.update_comm hbd.symm _ _ _

theorem flip_join (a b : ι) (h : Links ι) : (join a b h).flip = join b a h.flip := rfl

end Links
end Linked
