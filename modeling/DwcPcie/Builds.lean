import DwcPcie.Mmio.Simulation
import DwcPcie.PlatformRun

/-! The two builds compared. An IPBENCH build drives the registers through ports
of a test bench, the other one through the address space; what bring-up does to
the registers is the same, write by write. -/
namespace DwcPcie.Builds
open Glue Platform Dbi Controllers SetupRc SetupEffect Duowen RegisterCells SetupRun Translation
open BringUp PlatformEffect PlatformRun Mmio

def DbiOffset : Type := { offset : U64 // offset.toNat < 2 ^ 19 }

/-- A register of the platform, wherever a build has it. -/
inductive PlatformReg where
  | apb (r : ApbReg)
  | dbi (i : Fin 4) (offset : DbiOffset)

def PlatformReg.addr (build : Build) : PlatformReg → BusAddr
  | .apb r => r.addr build
  | .dbi i offset => dbiAddr build ((controllers build).get i) offset.val

theorem PlatformReg.addr_injective (build : Build) : (PlatformReg.addr build).Injective := by
  intro r q h
  match r, q with
  | .apb r, .apb q => rw [ApbReg.addr_inj build h]
  | .apb r, .dbi i offset => exact absurd h (r.addr_ne_dbiAddr build i offset.property)
  | .dbi i offset, .apb q => exact absurd h.symm (q.addr_ne_dbiAddr build i offset.property)
  | .dbi i offset, .dbi j offset' =>
    obtain ⟨rfl, hoffset⟩ := dbiAddr_controllers_inj build offset.property offset'.property h
    rw [Subtype.ext hoffset]

section Pair
variable (build build' : Build)

def wiring : Wiring Decoder.plain.cell Decoder.plain.cell PlatformReg where
  place := PlatformReg.addr build
  place' := PlatformReg.addr build'
  apart _ _ := (PlatformReg.addr_injective build).eq_iff.trans
    (PlatformReg.addr_injective build').eq_iff.symm

/-- Both builds are for the same chip in the same link mode. -/
structure SameChip : Prop where
  dpu : build.dpu = build'.dpu
  mode : build.defaultLinkMode = build'.defaultLinkMode

variable {build build'}

private theorem sameUpdates_apb (updates : List (Update ApbReg 32)) :
    List.Forall₂ (wiring build build').SameUpdate (placedApb build updates)
      (placedApb build' updates) :=
  (wiring build build').sameUpdate_map fun u _ => ⟨.apb u.addr, rfl, rfl, rfl⟩

private theorem sameUpdates_dbi (i : Fin 4) {updates : List OffsetUpdate}
    (h : ∀ u ∈ updates, u.addr.toNat < 2 ^ 19) :
    List.Forall₂ (wiring build build').SameUpdate
      (placed build ((controllers build).get i) updates)
      (placed build' ((controllers build').get i) updates) :=
  (wiring build build').sameUpdate_map fun u hu => ⟨.dbi i ⟨u.addr, h u hu⟩, rfl, rfl, rfl⟩

/-! ## The choice of the controllers -/

section Choice
variable (hchip : SameChip build build')
include hchip

private theorem startUpdates_same : startUpdates build = startUpdates build' := by
  have hstart (build : Build) (mode : U8) :
      startOrder build mode = startOrder ⟨false, build.dpu, 0, 0⟩ mode := rfl
  rw [startUpdates, startUpdates, hstart build, hstart build', hchip.dpu, hchip.mode]

private theorem modeUpdates_same : modeUpdates build = modeUpdates build' := by
  rw [modeUpdates, modeUpdates, hchip.mode]

variable (hmode : ValidLinkMode build.defaultLinkMode) {table table' : Vector DwPcie 4}
  (hreach : Reachable build table) (hreach' : Reachable build' table')
include hmode hreach hreach'

theorem chosen_same (i : Fin 4) :
    link ((chosen build table).get i) = link ((chosen build' table').get i) ∧
      ((chosen build table).get i).pp = ((chosen build' table').get i).pp := by
  obtain ⟨links, hlinks, -⟩ := finalLinks_startOrder build _ hmode
  have hfinal (build : Build) (mode : U8) :
      finalLinks build mode = finalLinks ⟨false, build.dpu, 0, 0⟩ mode := rfl
  have hlinks' : finalLinks build' build'.defaultLinkMode = some links := by
    rw [← hlinks, hfinal build, hfinal build', hchip.dpu, hchip.mode]
  refine ⟨?_, ?_⟩
  · rw [chosen, chosen, selectLinks_eq, selectLinks_eq, hlinks, hlinks', Option.elim_some,
      Option.elim_some, setLinks_getElem, setLinks_getElem, link_setLink, link_setLink]
  · rw [(chosen_static hreach i).2.2, (chosen_static hreach' i).2.2, controllers_pp, controllers_pp]

private theorem setupCalls_same :
    setupCalls (chosen build table) = setupCalls (chosen build' table') := by
  have hactive : isActive (chosen build table) = isActive (chosen build' table') := by
    funext i
    exact congrArg Link.active (chosen_same hchip hmode hreach hreach' i).1
  rw [setupCalls_eq, setupCalls_eq, hactive]

private theorem setupRcUpdates_same (i : Fin 4) : setupRcUpdates ((chosen build table).get i) =
    setupRcUpdates ((chosen build' table').get i) := by
  obtain ⟨hlink, hpp⟩ := chosen_same hchip hmode hreach hreach' i
  have hlanes := congrArg Link.laneNum hlink
  have horder := congrArg Link.order hlink
  simp only [link] at hlanes horder
  simp only [setupRcUpdates, configUpdates, setupUpdates, hlanes, horder, hpp]

theorem platformUpdates_same : List.Forall₂ (wiring build build').SameUpdate
    (platformUpdates build table) (platformUpdates build' table') := by
  have hsetup (i : Fin 4) : List.Forall₂ (wiring build build').SameUpdate
      (placed build ((chosen build table).get i) (setupRcUpdates ((chosen build table).get i)))
      (placed build' ((chosen build' table').get i)
        (setupRcUpdates ((chosen build' table').get i))) := by
    rw [placed_chosen hreach, placed_chosen hreach',
      ← setupRcUpdates_same hchip hmode hreach hreach']
    refine sameUpdates_dbi i fun u hu => setupRc_offset_lt ?_
    rw [← setupRcUpdates_offsets ((chosen build table).get i)]
    exact List.mem_map_of_mem hu
  have hloop : List.Forall₂ (wiring build build').SameUpdate
      (loopUpdates build (chosen build table)) (loopUpdates build' (chosen build' table')) := by
    rw [loopUpdates, loopUpdates, ← setupCalls_same hchip hmode hreach hreach']
    refine List.rel_flatMap (List.forall₂_same.mpr fun i _ => rfl) ?_
    rintro i _ rfl
    exact hsetup i
  rw [platformUpdates, platformUpdates, ← modeUpdates_same hchip, ← startUpdates_same hchip]
  exact List.rel_append (sameUpdates_apb _) <| List.rel_append (sameUpdates_apb _) <|
    List.rel_append hloop (sameUpdates_apb _)

end Choice
end Pair

/-- From stores that agree on the registers, bring-up makes the same writes to the
same registers in both builds and leaves stores that agree, whatever the waits and
the tables it started from. -/
theorem pciPlatformInit_builds {build build' : Build} (hchip : SameChip build build')
    (hmode : ValidLinkMode build.defaultLinkMode) (udelay udelay' : U32 → Bus PUnit)
    (hdelay : ∀ time, (udelay time).ReadOnly) (hdelay' : ∀ time, (udelay' time).ReadOnly)
    {table table' : Vector DwPcie 4} (hreach : Reachable build table)
    (hreach' : Reachable build' table') {s s' : Store}
    (hstores : ∀ r, s (PlatformReg.addr build r) = s' (PlatformReg.addr build' r)) :
    let bringUp := pciPlatformInit build udelay table
    let bringUp' := pciPlatformInit build' udelay' table'
    List.Forall₂ (fun e e' => e.value = e'.value ∧ ∃ r, e.addr = PlatformReg.addr build r ∧
        e'.addr = PlatformReg.addr build' r)
      (bringUp.writes Decoder.plain.cell s) (bringUp'.writes Decoder.plain.cell s') ∧
    ∀ r, bringUp.exec Decoder.plain.cell s (PlatformReg.addr build r) =
      bringUp'.exec Decoder.plain.cell s' (PlatformReg.addr build' r) := by
  intro bringUp bringUp'
  have hperforms := pciPlatformInit_performs build udelay hdelay Decoder.plain.cell table
  have hperforms' := pciPlatformInit_performs build' udelay' hdelay' Decoder.plain.cell table'
  have hupdates := platformUpdates_same hchip hmode hreach hreach'
  have hagree : (wiring build build').Agree s s' := hstores
  rw [hperforms.writes, hperforms'.writes, hperforms.exec, hperforms'.exec]
  exact ⟨(hagree.updateWrites hupdates).imp fun e e' h => ⟨h.value, h.addr⟩,
    hagree.perform hupdates⟩

/-- On the test bench the waits end with their first poll, the counter being at its
last value. -/
theorem pciPlatformInit_builds_x16 :
    let build : Build := ⟨false, false, 3, 0⟩
    let build' : Build := ⟨true, false, 3, 0⟩
    let udelay' (time : U32) : Bus PUnit := Delay.udelay build' 1 time >>= fun _ => pure ⟨⟩
    let bringUp := pciPlatformInit build (fun _ => pure ⟨⟩) (controllers build)
    let bringUp' := pciPlatformInit build' udelay' (controllers build')
    let s : Store := fun _ => 0xffffffff
    (∀ e ∈ bringUp'.writes Decoder.plain.cell s,
      (Delay.udelay build' 1 1).eval Decoder.plain.cell (e.after Decoder.plain.cell) = true) ∧
    List.Forall₂ (fun e e' => e.value = e'.value ∧ ∃ r, e.addr = PlatformReg.addr build r ∧
        e'.addr = PlatformReg.addr build' r)
      (bringUp.writes Decoder.plain.cell s) (bringUp'.writes Decoder.plain.cell s) ∧
    ∀ r, bringUp.exec Decoder.plain.cell s (PlatformReg.addr build r) =
      bringUp'.exec Decoder.plain.cell s (PlatformReg.addr build' r) := by
  intro build build' udelay' bringUp bringUp' s
  have hchip : SameChip build build' := ⟨rfl, rfl⟩
  have hmode : ValidLinkMode build.defaultLinkMode := by decide
  have hdelay' (time : U32) : (udelay' time).ReadOnly :=
    (Delay.udelay_readOnly build' 1 time).bind fun _ => trivial
  exact ⟨pciPlatformInit_waits_end hdelay' .initial 0 (by decide),
    pciPlatformInit_builds hchip hmode (fun _ => pure ⟨⟩) udelay' (fun _ => trivial) hdelay'
      .initial .initial fun _ => rfl⟩

end DwcPcie.Builds
