import DwcPcie.BringUp
import DwcPcie.Mmio.Interruption
import DwcPcie.SetupRun

/-! The whole bring-up as a list of masked updates: resets, link mode, the setup of
the controllers the loop reaches, training start. The APB registers it writes are
apart from each other and from all registers of the controllers. -/
namespace DwcPcie.PlatformEffect
open Glue Platform Dbi Controllers SetupRc SetupEffect Duowen RegisterCells SetupRun BringUp Mmio

/-! ## The APB registers -/

inductive ApbReg where
  | resetCore (i : Fin 4)
  | resetPhy
  | control
  | core (i : Fin 4)
deriving DecidableEq

def resetCoreOffset (i : Fin 4) : U64 :=
  #v[resetCoreX16, resetCoreX8, resetCoreX4_0, resetCoreX4_1].get i

def cfgApbCore (build : Build) (i : Fin 4) : U64 :=
  #v[cfgApbCoreX16 build, cfgApbCoreX8 build, cfgApbCoreX4_0 build, cfgApbCoreX4_1 build].get i

/-- The controllers have ports of their own on the test bench, and the top of the
address space else. -/
theorem ne_dbiAddr (build : Build) {a : BusAddr} (i : Fin 4) {offset : U64}
    (hoffset : offset.toNat < 2 ^ 19) (hbench : build.ipbench = true → ∀ port, a.port ≠ .axi port)
    (hlow : build.ipbench = false → a.addr.toNat < 0xff09110000) :
    a ≠ dbiAddr build ((controllers build).get i) offset := by
  rintro rfl
  cases h : build.ipbench with
  | true => exact hbench h _ (by rw [dbiAddr, busPort, if_pos h])
  | false =>
    have haddr := hlow h
    have hbase := dbiBase_toNat build i
    simp only [dbiAddr, BitVec.toNat_add, hbase, h, Bool.false_eq_true, if_false] at haddr
    have hi := i.isLt
    omega

namespace ApbReg

def addr (build : Build) : ApbReg → BusAddr
  | .resetCore i => apbAddr build (cfgApbSubsys build + resetCoreOffset i) apbPortSubsys
  | .resetPhy => apbAddr build (cfgApbSubsys build + Duowen.resetPhy) apbPortSubsys
  | .control => apbAddr build (cfgApbSubsys build + subsysControl) apbPortSubsys
  | .core i => apbAddr build (cfgApbCore build i) (apbPort i)

def all : List ApbReg :=
  (List.finRange 4).map .resetCore ++ [.resetPhy, .control] ++ (List.finRange 4).map .core

theorem mem_all (r : ApbReg) : r ∈ all := by
  cases r <;> simp [all]

theorem addr_build (build : Build) (r : ApbReg) :
    r.addr build = r.addr ⟨build.ipbench, false, 0, 0⟩ := by
  cases r <;> rfl

theorem addr_inj (build : Build) {r r' : ApbReg} (h : r.addr build = r'.addr build) : r = r' := by
  -- Only IPBENCH is read of the build, so the registers can be compared one by one.
  have hall : ∀ ipbench : Bool, ∀ r ∈ all, ∀ r' ∈ all,
      r.addr ⟨ipbench, false, 0, 0⟩ = r'.addr ⟨ipbench, false, 0, 0⟩ → r = r' := by decide
  rw [addr_build build r, addr_build build r'] at h
  exact hall build.ipbench r r.mem_all r' r'.mem_all h

theorem addr_aligned (build : Build) (r : ApbReg) : (r.addr build).Aligned := by
  have hall : ∀ ipbench : Bool, ∀ r ∈ all, (r.addr ⟨ipbench, false, 0, 0⟩).Aligned := by decide
  rw [addr_build]
  exact hall build.ipbench r r.mem_all

theorem addr_ne_dbiAddr (build : Build) (r : ApbReg) (i : Fin 4) {offset : U64}
    (hoffset : offset.toNat < 2 ^ 19) :
    r.addr build ≠ dbiAddr build ((controllers build).get i) offset := by
  have hlow : ∀ r ∈ all, (r.addr ⟨false, false, 0, 0⟩).addr.toNat < 0xff09110000 := by decide
  refine ne_dbiAddr build i hoffset (fun hbench port => ?_) fun hbench => ?_
  · cases r <;> simp [addr, apbAddr, hbench]
  · rw [addr_build, hbench]
    exact hlow r r.mem_all

end ApbReg

/-! ## The table during bring-up -/

/-- What the table says of the places of the controllers never changes. -/
def Static (build : Build) (table : Vector DwPcie 4) : Prop :=
  ∀ i : Fin 4, (table.get i).dbiBase = ((controllers build).get i).dbiBase ∧
    (table.get i).axiDbiPort = ((controllers build).get i).axiDbiPort ∧
    (table.get i).pp = ((controllers build).get i).pp

/-- The table after the first switch. -/
def chosen (build : Build) (table : Vector DwPcie 4) : Vector DwPcie 4 :=
  selectLinks build build.defaultLinkMode table

section Table
variable {build : Build} {table : Vector DwPcie 4}

theorem selectLinks_static (mode : U8) (h : Static build table) :
    Static build (selectLinks build mode table) := by
  rw [selectLinks_eq]
  cases finalLinks build mode with
  | none => exact h
  | some links =>
    intro i
    rw [Option.elim_some, setLinks_getElem]
    exact h i

theorem reachable_static (h : Reachable build table) : Static build table := by
  induction h with
  | initial => exact fun i => ⟨rfl, rfl, rfl⟩
  | pre udelay subsystem cell s h ih =>
    rw [subsysLinkInitPre_eval]
    exact selectLinks_static subsystem.linkMode ih

theorem chosen_static (h : Reachable build table) : Static build (chosen build table) :=
  selectLinks_static _ (reachable_static h)

theorem Static.dbiAddr_eq (h : Static build table) (i : Fin 4) :
    dbiAddr build (table.get i) = dbiAddr build ((controllers build).get i) := by
  obtain ⟨hbase, hport, -⟩ := h i
  unfold dbiAddr busPort
  rw [hbase, hport]

theorem chosen_chosen (build : Build) (table : Vector DwPcie 4) :
    chosen build (chosen build table) = chosen build table := by
  unfold chosen
  simp only [selectLinks_eq]
  cases finalLinks build build.defaultLinkMode with
  | none => rfl
  | some links => rfl

theorem chosen_eq_of_valid {table' : Vector DwPcie 4} (hmode : ValidLinkMode build.defaultLinkMode)
    (h : Static build table) (h' : Static build table') :
    chosen build table = chosen build table' := by
  obtain ⟨links, hlinks, -⟩ := finalLinks_startOrder build _ hmode
  have hentry (i : Fin 4) : setLink (table.get i) (links.get i) =
      setLink (table'.get i) (links.get i) := by
    obtain ⟨hbase, hport, hpp⟩ := h i
    obtain ⟨hbase', hport', hpp'⟩ := h' i
    unfold setLink
    rw [hbase, hport, hpp, hbase', hport', hpp']
  unfold chosen
  rw [selectLinks_eq, selectLinks_eq, hlinks]
  change setLinks links table = setLinks links table'
  apply Vector.ext
  intro i hi
  exact (setLinks_getElem links table ⟨i, hi⟩).trans
    ((hentry ⟨i, hi⟩).trans (setLinks_getElem links table' ⟨i, hi⟩).symm)

end Table

/-! ## The updates -/

section Updates
variable (build : Build)

def putApb (r : ApbReg) (val : U32) : Update ApbReg 32 := ⟨r, .const val⟩

def placedApb (updates : List (Update ApbReg 32)) : List (Update BusAddr 32) :=
  updates.map (Update.relocate (ApbReg.addr build))

def phyHold : List (Update ApbReg 32) := [putApb .resetPhy 0x0]

def coreRelease : List (Update ApbReg 32) :=
  (List.finRange 4).map fun i => putApb (.resetCore i) 0xff

def phyRelease : List (Update ApbReg 32) := [putApb .resetPhy 0xff]

def resetUpdates : List (Update ApbReg 32) := phyHold ++ (coreRelease ++ phyRelease)

def modeUpdates : List (Update ApbReg 32) :=
  [putApb .control (build.defaultLinkMode.setWidth 32)]

def loopUpdates (table : Vector DwPcie 4) : List (Update BusAddr 32) :=
  (setupCalls table).flatMap fun i => placed build (table.get i) (setupRcUpdates (table.get i))

def startUpdates : List (Update ApbReg 32) :=
  (startOrder build build.defaultLinkMode).map fun i => putApb (.core i) 0xc018010

def platformUpdates (table : Vector DwPcie 4) : List (Update BusAddr 32) :=
  placedApb build resetUpdates ++ (placedApb build (modeUpdates build) ++
    (loopUpdates build (chosen build table) ++ placedApb build (startUpdates build)))

variable (udelay : U32 → Bus PUnit) (hdelay : ∀ time, (udelay time).ReadOnly)
  (cell : BusAddr → BusAddr)

theorem subsysLinkInitPost_performs (table : Vector DwPcie 4) :
    Performs cell (subsysLinkInitPost build (instanceSubsystem build table))
      (placedApb build (startUpdates build)) := by
  have hupdate : placedApb build (startUpdates build) =
      (postWrites build (instanceSubsystem build table)).flatMap
        fun w => [⟨apbAddr build w.addr w.port, .const w.data⟩] := by
    rw [postWrites_eq, List.flatMap_map, ← List.map_eq_flatMap, placedApb, startUpdates,
      List.map_map]
    apply List.map_congr_left
    intro i _
    exact match i with | 0 => rfl | 1 => rfl | 2 => rfl | 3 => rfl
  unfold subsysLinkInitPost
  rw [hupdate]
  refine .forM _ _ (fun w => ?_) _
  rw [writeApb_eq]
  exact .put _ _

theorem pciPlatformInit_eval (table : Vector DwPcie 4) (s : Store) :
    (pciPlatformInit build udelay table).eval cell s = chosen build table := by
  unfold pciPlatformInit
  simp only [Program.eval_bind, subsysLinkInitPre_eval]
  rfl

include hdelay

theorem resetInit_performs (table : Vector DwPcie 4) :
    Performs cell (resetInit build udelay (instanceSubsystem build table))
      (placedApb build resetUpdates) := by
  unfold resetInit
  simp only [writeApb_eq]
  exact .put_bind _ _ <| ((hdelay 1).performs cell).bind fun _ => .put_bind _ _ <|
    .put_bind _ _ <| .put_bind _ _ <| .put_bind _ _ <| .put _ _

/-- Bring-up performs its updates, write by write. -/
theorem pciPlatformInit_performs (table : Vector DwPcie 4) :
    Performs cell (pciPlatformInit build udelay table) (platformUpdates build table) := by
  have hloop : Performs cell (setupActive (chosen build table) fun i =>
        dwPcieSetupRc build ((chosen build table).get i))
      (loopUpdates build (chosen build table)) := by
    rw [setupActive_eq_forM]
    exact .forM _ _ (fun i => dwPcieSetupRc_performs cell build _) _
  have hpost := subsysLinkInitPost_performs build cell (chosen build table)
  have hdone : Performs cell (pure (chosen build table) : Bus _) [] := .done _
  unfold pciPlatformInit subsysLinkInitPre
  refine (resetInit_performs build udelay hdelay cell table).bind fun _ => ?_
  simp only [writeApb_eq, bind_assoc, pure_bind]
  refine .put_bind _ _ <| ((hdelay 1).performs cell).bind fun _ => hloop.bind fun _ => ?_
  have h := hpost.bind fun _ => hdone
  rwa [List.append_nil] at h

end Updates
end DwcPcie.PlatformEffect
