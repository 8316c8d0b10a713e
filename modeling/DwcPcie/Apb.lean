import DwcPcie.Duowen

/-! The APB registers on the full-address store of a build without IPBENCH. A
write takes its address whole and a read takes the low half, so the two reach the
same register only below 4 GB. -/
namespace DwcPcie.Apb
open Glue Platform Duowen Mmio

def writeApbAll (build : Build) (writes : List ApbWrite) : Bus PUnit :=
  forM writes fun w => writeApb build w.addr w.data w.port

def lastWrite (writes : List ApbWrite) (a : U64) : Option ApbWrite :=
  writes.reverse.find? fun w => w.addr = a

/-- A read by the 64-bit expression of an address. -/
def readAt (build : Build) (a : U64) (port : U8) (s : Store) : U32 :=
  (readApb build (a.setWidth 32) port).eval Decoder.plain.cell s

section Run
variable {build : Build} (hmmio : build.ipbench = false)
include hmmio

private theorem readAt_eq (a : U64) (port : U8) (s : Store) :
    readAt build a port s = s ⟨.mmio, (a.setWidth 32).setWidth 64⟩ := by
  unfold readAt readApb
  rw [hmmio]
  rfl

theorem writeApb_exec (w : ApbWrite) (s : Store) :
    (writeApb build w.addr w.data w.port).exec Decoder.plain.cell s =
      Function.update s ⟨.mmio, w.addr⟩ w.data := by
  unfold writeApb
  rw [hmmio]
  rfl

theorem writeApbAll_exec (writes : List ApbWrite) (a : U64) (s : Store) :
    (writeApbAll build writes).exec Decoder.plain.cell s ⟨.mmio, a⟩ =
      (lastWrite writes a).elim (s ⟨.mmio, a⟩) ApbWrite.data := by
  unfold writeApbAll
  rw [Program.exec_forM]
  induction writes using List.reverseRecOn with
  | nil => rfl
  | append_singleton writes w ih =>
    rw [List.foldl_append, List.foldl_cons, List.foldl_nil, writeApb_exec hmmio]
    unfold lastWrite
    rw [List.reverse_append, List.reverse_singleton, List.singleton_append]
    by_cases haddr : w.addr = a
    · subst haddr
      rw [Function.update_self, List.find?_cons_of_pos (by simp)]
      rfl
    · have hne : (⟨.mmio, a⟩ : BusAddr) ≠ ⟨.mmio, w.addr⟩ := by
        intro h
        exact haddr (congrArg BusAddr.addr h).symm
      rw [Function.update_of_ne hne, List.find?_cons_of_neg (by simp [haddr])]
      exact ih

end Run

private theorem low_half_eq_iff (a : U64) : (a.setWidth 32).setWidth 64 = a ↔ a.toNat < 2 ^ 32 := by
  constructor
  · intro h
    rw [← h, BitVec.toNat_setWidth]
    have := (a.setWidth 32).isLt
    omega
  · intro h
    apply BitVec.eq_of_toNat_eq
    rw [BitVec.toNat_setWidth, BitVec.toNat_setWidth]
    omega

/-- For a word-aligned address, reads return the last write to it after every
sequence of word-aligned writes exactly if it lies below 4 GB. -/
theorem readAt_last_iff (build : Build) (hmmio : build.ipbench = false) (a : U64)
    (ha : a.toNat % 4 = 0) :
    (∀ (writes : List ApbWrite) (port : U8) (s : Store),
        (∀ w ∈ writes, w.addr.toNat % 4 = 0) →
        readAt build a port ((writeApbAll build writes).exec Decoder.plain.cell s) =
          (lastWrite writes a).elim (readAt build a port s) ApbWrite.data) ↔
      a.toNat < 2 ^ 32 := by
  rw [← low_half_eq_iff]
  constructor
  · intro h
    by_contra hhigh
    have hread := h [⟨a, 1, 0⟩] 0 (fun _ => 0) (by simp [ha])
    rw [readAt_eq hmmio, writeApbAll_exec hmmio] at hread
    have hlow : lastWrite [⟨a, 1, 0⟩] ((a.setWidth 32).setWidth 64) = none := by
      simp [lastWrite, Ne.symm hhigh]
    have hlast : lastWrite [⟨a, 1, 0⟩] a = some ⟨a, 1, 0⟩ := by
      simp [lastWrite]
    rw [hlow, hlast] at hread
    have hzero : (0 : U32) = 1 := hread
    exact absurd hzero (by decide)
  · intro hlow writes port s _
    rw [readAt_eq hmmio, readAt_eq hmmio, hlow, writeApbAll_exec hmmio]

theorem readAt_last_iff_counter :
    let build : Build := ⟨false, false, 3, 0⟩
    let counter : U64 := 0xf0000000
    (∀ (writes : List ApbWrite) (port : U8) (s : Store),
        (∀ w ∈ writes, w.addr.toNat % 4 = 0) →
        readAt build counter port ((writeApbAll build writes).exec Decoder.plain.cell s) =
          (lastWrite writes counter).elim (readAt build counter port s) ApbWrite.data) ↔
      counter.toNat < 2 ^ 32 :=
  readAt_last_iff _ rfl 0xf0000000 (by decide)

theorem readAt_misses_subsys :
    let build : Build := ⟨false, false, 3, 0⟩
    let control := cfgApbSubsys build + subsysControl
    let final := (writeApbAll build [⟨control, 3, apbPortSubsys⟩]).exec Decoder.plain.cell
      fun _ => 0
    control.toNat % 4 = 0 ∧ readAt build control apbPortSubsys final = 0 ∧
      readAt build control apbPortSubsys final ≠ 3 := by
  decide

end DwcPcie.Apb
