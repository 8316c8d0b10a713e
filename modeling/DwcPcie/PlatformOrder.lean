import DwcPcie.PlatformRun

/-! The order in which bring-up goes through its phases, seen at every single
write: the cores leave reset before the PHY does, nothing is configured while
anything is held in reset, and no link is trained before all setup is done. -/
namespace DwcPcie.PlatformOrder
open Glue Platform Dbi Controllers Duowen RegisterCells SetupRun BringUp PlatformEffect PlatformRun
open Mmio

section Phases
variable (build : Build)

def Released (s : Store) : Prop :=
  s (ApbReg.addr build .resetPhy) = 0xff ∧ ∀ i, s (ApbReg.addr build (.resetCore i)) = 0xff

def ModeSet (s : Store) : Prop :=
  Released build s ∧ s (ApbReg.addr build .control) = build.defaultLinkMode.setWidth 32

/-- What has been done before a write to an APB register. -/
def ApbPhase (before final : Store) (value : U32) : ApbReg → Prop
  | .resetCore _ => before (ApbReg.addr build .resetPhy) = 0
  | .resetPhy => value ≠ 0 → ∀ i, before (ApbReg.addr build (.resetCore i)) = 0xff
  | .control => Released build before
  | .core _ => ModeSet build before ∧ ∀ i, ∀ offset : U64, offset.toNat < 2 ^ 19 →
      before (dbiAddr build ((controllers build).get i) offset) =
        final (dbiAddr build ((controllers build).get i) offset)

/-- What has been done before a write of bring-up. -/
structure InPhase (final : Store) (e : WriteEvent BusAddr U32 BusAddr) : Prop where
  apb : ∀ r, e.addr = ApbReg.addr build r → ApbPhase build e.before final e.value r
  register : ∀ i, ∀ offset : U64, offset.toNat < 2 ^ 19 →
    e.addr = dbiAddr build ((controllers build).get i) offset → ModeSet build e.before

variable {build} {final : Store} {e : WriteEvent BusAddr U32 BusAddr}

theorem InPhase.of_apb {r : ApbReg} (haddr : e.addr = ApbReg.addr build r)
    (h : ApbPhase build e.before final e.value r) : InPhase build final e where
  apb r' hr' := by
    obtain rfl : r = r' := ApbReg.addr_inj build (haddr.symm.trans hr')
    exact h
  register i offset hoffset hi :=
    absurd (haddr.symm.trans hi) (r.addr_ne_dbiAddr build i hoffset)

private theorem InPhase.of_register {i : Fin 4} {offset : U64} (hoffset : offset.toNat < 2 ^ 19)
    (haddr : e.addr = dbiAddr build ((controllers build).get i) offset)
    (h : ModeSet build e.before) : InPhase build final e where
  apb r hr := absurd (hr.symm.trans haddr) (r.addr_ne_dbiAddr build i hoffset)
  register _ _ _ _ := h

end Phases

/-! ## Stages -/

section Stages
variable {build : Build} {updates : List (Update ApbReg 32)} {s : Store}
  {e : WriteEvent BusAddr U32 BusAddr}

theorem placedApb_writes (he : e ∈ updateWrites Decoder.plain.cell (placedApb build updates) s) :
    ∃ u ∈ updates, e.addr = u.addr.addr build ∧
      e.value = u.mask.apply (e.before (u.addr.addr build)) := by
  obtain ⟨first, v, rest, heq, haddr, hvalue, -, -⟩ := updateWrites_mem Decoder.plain.cell he
  have hv : v ∈ placedApb build updates := heq ▸ by simp
  obtain ⟨u, hu, rfl⟩ := List.mem_map.mp hv
  exact ⟨u, hu, haddr, hvalue⟩

theorem placedApb_ne {r : ApbReg} (h : ∀ u ∈ updates, u.addr ≠ r) :
    ∀ v ∈ placedApb build updates, Decoder.plain.cell v.addr ≠ r.addr build := by
  intro v hv haddr
  obtain ⟨u, hu, rfl⟩ := List.mem_map.mp hv
  exact h u hu (ApbReg.addr_inj build haddr)

theorem placedApb_ne_dbiAddr (i : Fin 4) {offset : U64} (hoffset : offset.toNat < 2 ^ 19) :
    ∀ v ∈ placedApb build updates,
      Decoder.plain.cell v.addr ≠ dbiAddr build ((controllers build).get i) offset := by
  intro v hv haddr
  obtain ⟨u, -, rfl⟩ := List.mem_map.mp hv
  exact u.addr.addr_ne_dbiAddr build i hoffset haddr

theorem placedApb_before {r : ApbReg}
    (he : e ∈ updateWrites Decoder.plain.cell (placedApb build updates) s)
    (h : ∀ u ∈ updates, u.addr ≠ r) : e.before (r.addr build) = s (r.addr build) :=
  (updateWrites_frame Decoder.plain.cell (placedApb_ne h) he).2

theorem perform_placedApb_of_ne {r : ApbReg} (h : ∀ u ∈ updates, u.addr ≠ r) :
    perform Decoder.plain.cell (placedApb build updates) s (r.addr build) = s (r.addr build) :=
  perform_frame Decoder.plain.cell _ _ _ (placedApb_ne h)

theorem Released.congr {s s' : Store} (h : Released build s)
    (hphy : s' (ApbReg.addr build .resetPhy) = s (ApbReg.addr build .resetPhy))
    (hcore : ∀ i, s' (ApbReg.addr build (.resetCore i)) = s (ApbReg.addr build (.resetCore i))) :
    Released build s' :=
  ⟨hphy.trans h.1, fun i => (hcore i).trans (h.2 i)⟩

theorem ModeSet.congr {s s' : Store} (h : ModeSet build s)
    (hkeep : ∀ r : ApbReg, (∀ i, r ≠ .core i) → s' (r.addr build) = s (r.addr build)) :
    ModeSet build s' :=
  ⟨h.1.congr (hkeep _ (by simp)) fun i => hkeep _ (by simp),
    (hkeep .control (by simp)).trans h.2⟩

private theorem phyHold_held (build : Build) (s : Store) :
    perform Decoder.plain.cell (placedApb build phyHold) s (ApbReg.addr build .resetPhy) = 0 := by
  rw [perform_placedApb]
  simp [perform, phyHold, putApb, Update.act]

private theorem coreRelease_released (build : Build) (s : Store) (i : Fin 4) :
    perform Decoder.plain.cell (placedApb build coreRelease) s (ApbReg.addr build (.resetCore i)) =
      0xff := by
  have hputs := perform_puts_same (fun r : ApbReg => r) ApbReg.resetCore (0xff : U32)
    (List.finRange 4)
  rw [perform_placedApb]
  exact (hputs _ _).trans (if_pos ⟨i, List.mem_finRange i, rfl⟩)

private theorem phyRelease_released (build : Build) (s : Store) :
    perform Decoder.plain.cell (placedApb build phyRelease) s (ApbReg.addr build .resetPhy) =
      0xff := by
  rw [perform_placedApb]
  simp [perform, phyRelease, putApb, Update.act]

private theorem modeUpdates_set (build : Build) (s : Store) :
    perform Decoder.plain.cell (placedApb build (modeUpdates build)) s
      (ApbReg.addr build .control) = build.defaultLinkMode.setWidth 32 := by
  rw [perform_placedApb]
  simp [perform, modeUpdates, putApb, Update.act]

end Stages

/-! ## Bring-up -/

section BringUp
variable {build : Build} {table : Vector DwPcie 4} {final : Store}
  {e : WriteEvent BusAddr U32 BusAddr}

private theorem phyHold_inPhase {s : Store}
    (he : e ∈ updateWrites Decoder.plain.cell (placedApb build phyHold) s) :
    InPhase build final e := by
  obtain ⟨u, hu, haddr, hvalue⟩ := placedApb_writes he
  obtain rfl := List.mem_singleton.mp hu
  refine .of_apb haddr fun hne => absurd ?_ hne
  rw [hvalue]
  exact MaskedWord.apply_const _ _

private theorem coreRelease_inPhase {s : Store} (hheld : s (ApbReg.addr build .resetPhy) = 0)
    (he : e ∈ updateWrites Decoder.plain.cell (placedApb build coreRelease) s) :
    InPhase build final e := by
  obtain ⟨u, hu, haddr, -⟩ := placedApb_writes he
  have hbefore := placedApb_before he (r := .resetPhy) (by simp [coreRelease, putApb])
  have hcore : ∀ u ∈ coreRelease, ∃ i, u.addr = .resetCore i := by simp [coreRelease, putApb]
  obtain ⟨i, hi⟩ := hcore u hu
  rw [hi] at haddr
  exact .of_apb haddr (hbefore.trans hheld)

private theorem phyRelease_inPhase {s : Store}
    (hcore : ∀ i, s (ApbReg.addr build (.resetCore i)) = 0xff)
    (he : e ∈ updateWrites Decoder.plain.cell (placedApb build phyRelease) s) :
    InPhase build final e := by
  obtain ⟨u, hu, haddr, -⟩ := placedApb_writes he
  obtain rfl := List.mem_singleton.mp hu
  refine .of_apb haddr fun _ i => ?_
  rw [placedApb_before he (by simp [phyRelease, putApb]), hcore i]

private theorem modeUpdates_inPhase {s : Store} (h : Released build s)
    (he : e ∈ updateWrites Decoder.plain.cell (placedApb build (modeUpdates build)) s) :
    InPhase build final e := by
  obtain ⟨u, hu, haddr, -⟩ := placedApb_writes he
  obtain rfl := List.mem_singleton.mp hu
  exact .of_apb haddr (h.congr (placedApb_before he (by simp [modeUpdates, putApb]))
    fun i => placedApb_before he (by simp [modeUpdates, putApb]))

private theorem startUpdates_ne {r : ApbReg} (hr : ∀ i, r ≠ .core i) :
    ∀ u ∈ startUpdates build, u.addr ≠ r := by
  intro u hu
  obtain ⟨i, -, rfl⟩ := List.mem_map.mp hu
  exact (hr i).symm

private theorem startUpdates_inPhase {s : Store} (h : ModeSet build s)
    (hfinal : ∀ i, ∀ offset : U64, offset.toNat < 2 ^ 19 →
      s (dbiAddr build ((controllers build).get i) offset) =
        final (dbiAddr build ((controllers build).get i) offset))
    (he : e ∈ updateWrites Decoder.plain.cell (placedApb build (startUpdates build)) s) :
    InPhase build final e := by
  obtain ⟨u, hu, haddr, -⟩ := placedApb_writes he
  obtain ⟨i, -, rfl⟩ := List.mem_map.mp hu
  refine .of_apb haddr ⟨h.congr fun r hr => placedApb_before he (startUpdates_ne hr), ?_⟩
  intro j offset hoffset
  have hframe := updateWrites_frame Decoder.plain.cell (placedApb_ne_dbiAddr j hoffset) he
  rw [hframe.2, hfinal j offset hoffset]

variable (hreach : Reachable build table)
include hreach

theorem loopUpdates_register {u : Update BusAddr 32}
    (hu : u ∈ loopUpdates build (chosen build table)) : ∃ i, ∃ offset : U64,
      offset.toNat < 2 ^ 19 ∧ u.addr = dbiAddr build ((controllers build).get i) offset := by
  obtain ⟨i, -, hu⟩ := List.mem_flatMap.mp hu
  exact ⟨i, loop_addr hreach hu⟩

theorem loopUpdates_ne (r : ApbReg) : ∀ u ∈ loopUpdates build (chosen build table),
    Decoder.plain.cell u.addr ≠ r.addr build := by
  intro u hu haddr
  obtain ⟨i, offset, hoffset, hdbi⟩ := loopUpdates_register hreach hu
  exact r.addr_ne_dbiAddr build i hoffset (haddr.symm.trans hdbi)

private theorem loopUpdates_inPhase {s : Store} (h : ModeSet build s)
    (he : e ∈ updateWrites Decoder.plain.cell (loopUpdates build (chosen build table)) s) :
    InPhase build final e := by
  obtain ⟨first, u, rest, heq, haddr, -⟩ := updateWrites_mem Decoder.plain.cell he
  have hu : u ∈ loopUpdates build (chosen build table) := heq ▸ by simp
  obtain ⟨i, offset, hoffset, hdbi⟩ := loopUpdates_register hreach hu
  exact .of_register hoffset (haddr.trans hdbi) (h.congr fun r _ =>
    (updateWrites_frame Decoder.plain.cell (loopUpdates_ne hreach r) he).2)

theorem platformUpdates_inPhase (s : Store) : ∀ e ∈
      updateWrites Decoder.plain.cell (platformUpdates build table) s,
    InPhase build (perform Decoder.plain.cell (platformUpdates build table) s) e := by
  have hsplit : platformUpdates build table = placedApb build phyHold ++
      (placedApb build coreRelease ++ (placedApb build phyRelease ++
        (placedApb build (modeUpdates build) ++
          (loopUpdates build (chosen build table) ++ placedApb build (startUpdates build))))) := by
    simp [platformUpdates, resetUpdates, placedApb]
  intro e he
  rw [hsplit] at he ⊢
  simp only [updateWrites_append, perform_append] at he ⊢
  have hheld := phyHold_held build s
  generalize perform Decoder.plain.cell (placedApb build phyHold) s = held at he hheld ⊢
  have hcores := coreRelease_released build held
  generalize perform Decoder.plain.cell (placedApb build coreRelease) held = cores at he hcores ⊢
  have hreleased : Released build (perform Decoder.plain.cell (placedApb build phyRelease) cores) :=
    ⟨phyRelease_released build cores, fun i =>
      (perform_placedApb_of_ne (by simp [phyRelease, putApb])).trans (hcores i)⟩
  generalize perform Decoder.plain.cell (placedApb build phyRelease) cores = released
    at he hreleased ⊢
  have hmode : ModeSet build
      (perform Decoder.plain.cell (placedApb build (modeUpdates build)) released) :=
    ⟨hreleased.congr (perform_placedApb_of_ne (by simp [modeUpdates, putApb]))
      fun i => perform_placedApb_of_ne (by simp [modeUpdates, putApb]),
      modeUpdates_set build released⟩
  generalize perform Decoder.plain.cell (placedApb build (modeUpdates build)) released = mode
    at he hmode ⊢
  have hset : ModeSet build
      (perform Decoder.plain.cell (loopUpdates build (chosen build table)) mode) :=
    hmode.congr fun r _ => perform_frame Decoder.plain.cell _ _ _ (loopUpdates_ne hreach r)
  simp only [List.mem_append] at he
  rcases he with he | he | he | he | he | he
  · exact phyHold_inPhase he
  · exact coreRelease_inPhase hheld he
  · exact phyRelease_inPhase hcores he
  · exact modeUpdates_inPhase hreleased he
  · exact loopUpdates_inPhase hreach hmode he
  · exact startUpdates_inPhase hset (fun i offset hoffset =>
      (perform_frame Decoder.plain.cell _ _ _ (placedApb_ne_dbiAddr i hoffset)).symm) he

end BringUp

/-- At every write of bring-up the phases before its own are over: cores leave
reset under a held PHY, the link mode is set once nothing is held, registers of
controllers are written under that mode, and training starts on registers that
are final. -/
theorem pciPlatformInit_phases (build : Build) (udelay : U32 → Bus PUnit)
    (hdelay : ∀ time, (udelay time).ReadOnly) {table : Vector DwPcie 4}
    (hreach : Reachable build table) (s : Store) :
    let bringUp := pciPlatformInit build udelay table
    ∀ e ∈ bringUp.writes Decoder.plain.cell s,
      InPhase build (bringUp.exec Decoder.plain.cell s) e := by
  intro bringUp
  have hperforms := pciPlatformInit_performs build udelay hdelay Decoder.plain.cell table
  rw [hperforms.writes, hperforms.exec]
  exact platformUpdates_inPhase hreach s

/-- On a counter that stands at its last value the waits end with their first poll. -/
theorem pciPlatformInit_phases_ipbench :
    let build : Build := ⟨true, false, 0, 0⟩
    let udelay (time : U32) : Bus PUnit := Delay.udelay build 1 time >>= fun _ => pure ⟨⟩
    let bringUp := pciPlatformInit build udelay (controllers build)
    let s : Store := fun _ => 0xffffffff
    (∀ e ∈ bringUp.writes Decoder.plain.cell s,
      (Delay.udelay build 1 1).eval Decoder.plain.cell (e.after Decoder.plain.cell) = true) ∧
    ∀ e ∈ bringUp.writes Decoder.plain.cell s,
      InPhase build (bringUp.exec Decoder.plain.cell s) e := by
  intro build udelay bringUp s
  have hdelay (time : U32) : (udelay time).ReadOnly :=
    (Delay.udelay_readOnly build 1 time).bind fun _ => trivial
  exact ⟨pciPlatformInit_waits_end hdelay .initial 0 (by decide),
    pciPlatformInit_phases build udelay hdelay .initial s⟩

end DwcPcie.PlatformOrder
