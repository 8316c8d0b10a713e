import DwcPcie.AddressMap
import DwcPcie.SetupRc
import DwcPcie.Mmio.Script

/-! Setup as a list of masked updates, keyed by the offset from the controller's
base. Everything proved about setup is read off this list. -/
namespace DwcPcie.SetupEffect
open Glue Platform Registers Dbi Atu SetupRc Mmio

abbrev OffsetUpdate := Update U64 32

def cdmUpdate (reg : U32) (mask : MaskedWord 32) : OffsetUpdate := ⟨formatDbiAddr .cdm reg, mask⟩

def linkModeBits (lanes : U32) : U32 :=
  if lanes = 4 then 0x70000 else if lanes = 8 then 0xf0000 else if lanes = 16 then 0x1f0000 else 0

def linkWidthBits (lanes : U32) : U32 :=
  if lanes = 4 then 0x400 else if lanes = 8 then 0x800 else if lanes = 16 then 0x1000 else 0

section Lanes
variable {lanes : U32} (h : lanes = 4 ∨ lanes = 8 ∨ lanes = 16)
include h

theorem linkModeBits_lanes :
    ((linkModeBits lanes ||| 0x80).extractLsb' 16 6).toNat = 2 * lanes.toNat - 1 := by
  rcases h with rfl | rfl | rfl <;> rfl

theorem linkModeBits_control : (linkModeBits lanes ||| 0x80).extractLsb' 7 1 = 1 := by
  rcases h with rfl | rfl | rfl <;> rfl

theorem linkWidthBits_lanes : ((linkWidthBits lanes).extractLsb' 8 5).toNat = lanes.toNat := by
  rcases h with rfl | rfl | rfl <;> rfl

end Lanes

theorem order_field (order : U8) : (order.setWidth 32 : U32).extractLsb' 0 8 = order := by
  ext i hi
  simp [BitVec.getLsbD_eq_getElem hi, show i < 32 by omega]

def setupUpdates (pci : DwPcie) : List OffsetUpdate := [
  cdmUpdate pcieTimerCtrlMaxFunNumOff (.orWith 0x40000000),
  cdmUpdate pciePortLinkControl ⟨0xffc0ffff, linkModeBits pci.laneNum ||| 0x80⟩,
  cdmUpdate pcieLinkWidthSpeedControl ⟨0xffffe0ff, linkWidthBits pci.laneNum⟩,
  cdmUpdate pciePortForceOff ⟨0xffffff00, pci.order.setWidth 32⟩,
  cdmUpdate pcieGen3RelatedOff ⟨0xfcffffff, 0x200⟩,
  cdmUpdate pcieGen3RelatedOff ⟨0xfcffffff, 0x1000000⟩,
  cdmUpdate pcieGen3RelatedOff ⟨0xfcffffff, 0x1000200⟩]

def outboundUpdate (index reg val : U32) : OffsetUpdate :=
  ⟨formatDbiAddr .atu (atuAddr index 0 reg), .const val⟩

def outboundUpdates (index type : U32) (cpuAddr pciAddr size : U64) : List OffsetUpdate := [
  outboundUpdate index pcieIatuLwrBaseAddrOffOutbound (lower32Bits cpuAddr),
  outboundUpdate index pcieIatuUpperBaseAddrOffOutbound (upper32Bits cpuAddr),
  outboundUpdate index pcieIatuLwrLimitAddrOffOutbound (lower32Bits (cpuAddr + size - 1)),
  outboundUpdate index pcieIatuUpperLimitAddrOffOutbound (upper32Bits (cpuAddr + size - 1)),
  outboundUpdate index pcieIatuLwrTargetAddrOffOutbound (lower32Bits pciAddr),
  outboundUpdate index pcieIatuUpperTargetAddrOffOutbound (upper32Bits pciAddr),
  outboundUpdate index pcieIatuRegionCtrl1OffOutbound type,
  outboundUpdate index pcieIatuRegionCtrl2OffOutbound 0x80000000]

def headerUpdates : List OffsetUpdate := [
  cdmUpdate pciBaseAddress0 (.const 0x4),
  cdmUpdate pciBaseAddress1 (.const 0x0),
  cdmUpdate pciInterruptLine ⟨0xffff00ff, 0x100⟩,
  cdmUpdate pciPrimaryBus ⟨0xff000000, 0xff0100⟩,
  cdmUpdate pciCommand ⟨0xffff0000, 0x107⟩]

def windowUpdates (pp : PciePort) : List OffsetUpdate :=
  outboundUpdates 0 pcieAtuTypeCfg1 pp.cfgBar1 0x1000000000000000 0x80000 ++
  outboundUpdates 1 pcieAtuTypeCfg0 pp.cfgBar0 0x1100000000000000 0x80000 ++
  outboundUpdates 2 pcieAtuTypeMem pp.memBase 0x2000000000000000 pp.memSize

def finalUpdates : List OffsetUpdate := [
  cdmUpdate pciBaseAddress0 (.const 0x0),
  cdmUpdate 0x8 ⟨0x0000ffff, 0x06040000⟩,
  cdmUpdate pcieLinkWidthSpeedControl (.orWith 0x20000)]

/-- All that setup does between opening and closing the read-only registers. -/
def configUpdates (pci : DwPcie) : List OffsetUpdate :=
  setupUpdates pci ++ headerUpdates ++ windowUpdates pci.pp ++ finalUpdates

def unlock : OffsetUpdate := cdmUpdate pcieMiscControl1Off (.orWith 0x1)
def relock : OffsetUpdate := cdmUpdate pcieMiscControl1Off (.andWith 0xfffffffe)

def setupRcUpdates (pci : DwPcie) : List OffsetUpdate :=
  unlock :: configUpdates pci ++ [relock]

def placed (build : Build) (pci : DwPcie) (updates : List OffsetUpdate) :
    List (Update BusAddr 32) :=
  updates.map (Update.relocate (dbiAddr build pci))

section Scripts
variable (build : Build) (pci : DwPcie)

theorem dwPcieSetup_scripted :
    Scripted (dwPcieSetup build pci) (placed build pci (setupUpdates pci)) := by
  simp only [dwPcieSetup, dwPcieReadDbi_four, dwPcieWriteDbi_four, andAssign_eq, orAssign_eq,
    portLinkModeMask_eq, portLinkMode4Lanes_eq, portLinkMode8Lanes_eq, portLinkMode16Lanes_eq,
    portLogicLinkWidthMask_eq, portLogicLinkWidth4Lanes_eq, portLogicLinkWidth8Lanes_eq,
    portLogicLinkWidth16Lanes_eq, portLinkNumMask_eq, portLinkNum_order, rateShadowSelMask_eq,
    rateShadowSel_zero, rateShadowSel_one]
  refine .modify_bind _ _ _ (by decide) (fun word => ?_) <|
    .modify_bind _ _ ⟨0xffc0ffff, _⟩ (show (0xffc0ffff : U32) ≠ 0 by decide) (fun word => ?_) <|
    .modify_bind _ _ ⟨0xffffe0ff, _⟩ (show (0xffffe0ff : U32) ≠ 0 by decide) (fun word => ?_) <|
    .modify_bind _ _ ⟨0xffffff00, _⟩ (show (0xffffff00 : U32) ≠ 0 by decide) (fun word => ?_) <|
    .modify_bind _ _ _ (by decide) (fun word => ?_) <|
    .modify_bind _ _ _ (by decide) (fun word => ?_) <|
    .modify _ _ _ (by decide) fun word => ?_
  · exact (MaskedWord.apply_orWith 0x40000000 word).symm
  · simp only [MaskedWord.apply, linkModeBits]
    split_ifs <;> simp [bit, BitVec.or_assoc]
  · simp only [MaskedWord.apply, linkWidthBits]
    split_ifs <;> simp
  · simp [MaskedWord.apply]
  · simp [cdmUpdate, MaskedWord.apply, BitVec.and_or_distrib_right]
  · simp [cdmUpdate, MaskedWord.apply]
  · simp [cdmUpdate, MaskedWord.apply, BitVec.and_or_distrib_right, BitVec.or_assoc]

theorem dwPcieProgOutboundAtu_scripted (index type : U32) (cpuAddr pciAddr size : U64) :
    Scripted (dwPcieProgOutboundAtu build pci index type cpuAddr pciAddr size)
      (placed build pci (outboundUpdates index type cpuAddr pciAddr size)) := by
  have hout : regionDir .outbound = some 0 := rfl
  simp only [dwPcieProgOutboundAtu, dwPcieWriteAtu_four build pci hout]
  exact .put_bind _ _ <| .put_bind _ _ <| .put_bind _ _ <| .put_bind _ _ <| .put_bind _ _ <|
    .put_bind _ _ <| .put_bind _ _ <| .put _ _

theorem dwPcieDbiRoWrEn_scripted :
    Scripted (dwPcieDbiRoWrEn build pci) (placed build pci [unlock]) := by
  simp only [dwPcieDbiRoWrEn, dwPcieReadDbi_four, dwPcieWriteDbi_four, orAssign_eq]
  exact .modify _ _ _ (by decide) fun word => (MaskedWord.apply_orWith 0x1 word).symm

theorem dwPcieDbiRoWrDis_scripted :
    Scripted (dwPcieDbiRoWrDis build pci) (placed build pci [relock]) := by
  simp only [dwPcieDbiRoWrDis, dwPcieReadDbi_four, dwPcieWriteDbi_four, andAssign_eq]
  exact .modify _ _ _ (by decide) fun word => (MaskedWord.apply_andWith 0xfffffffe word).symm

theorem dwPcieWrOwnConf_four (whr val : U32) : dwPcieWrOwnConf build pci whr 4 val =
    .put (dbiAddr build pci (formatDbiAddr .cdm whr)) val :=
  dwPcieWriteDbi_four build pci .cdm whr val

/-- The class code is a halfword store into the word of the revision. -/
theorem dwPcieWrOwnConf_class_scripted :
    Scripted (dwPcieWrOwnConf build pci pciClassDevice 2 pciClassBridgePci)
      (placed build pci [cdmUpdate 0x8 ⟨0x0000ffff, 0x06040000⟩]) := by
  simp only [dwPcieWrOwnConf, dwPcieWriteDbi, dwPcieWritewDbi, readlDbi, readDbi_eq, writeDbi_eq]
  exact .modify _ _ _ (by decide) fun word => rfl

theorem placed_cons (u : OffsetUpdate) (updates : List OffsetUpdate) :
    placed build pci (u :: updates) =
      Update.relocate (dbiAddr build pci) u :: placed build pci updates := rfl

theorem placed_append (first second : List OffsetUpdate) :
    placed build pci (first ++ second) = placed build pci first ++ placed build pci second :=
  List.map_append

theorem exec_placed_apply {α : Type} {program : Bus α} {updates : List OffsetUpdate}
    (h : Performs Decoder.plain.cell program (placed build pci updates)) (s : Store)
    (offset : U64) : program.exec Decoder.plain.cell s (dbiAddr build pci offset) =
      (netMask (fun o => o) updates offset).apply (s (dbiAddr build pci offset)) := by
  have hmask := netMask_relocate (dbiAddr build pci) (dbiAddr_injective build pci) updates offset
  rw [h.exec, perform_apply, ← hmask]
  rfl

/-- Setting up is the straight-line code of its updates. -/
theorem dwPcieSetupRc_scripted :
    Scripted (dwPcieSetupRc build pci) (placed build pci (setupRcUpdates pci)) := by
  have houtbound := dwPcieProgOutboundAtu_scripted build pci
  have hsplit : setupRcUpdates pci = [unlock] ++ (setupUpdates pci ++ (headerUpdates ++
      (windowUpdates pci.pp ++ (finalUpdates ++ [relock])))) := by
    simp [setupRcUpdates, configUpdates]
  simp only [dwPcieSetupRc, dwPcieRdOwnConf, dwPcieReadDbi_four, dwPcieWriteDbi_four,
    dwPcieWrOwnConf_four, orAssign_eq]
  rw [hsplit, placed_append, placed_append]
  refine (dwPcieDbiRoWrEn_scripted build pci).bind <| (dwPcieSetup_scripted build pci).bind ?_
  rw [headerUpdates, placed_append]
  simp only [placed_cons, List.cons_append]
  refine .put_bind _ _ <| .put_bind _ _ <| .modify_bind _ _ _ (by decide) (fun word => ?_) <|
    .modify_bind _ _ _ (by decide) (fun word => ?_) <|
    .modify_bind _ _ _ (by decide) (fun word => ?_) ?_
  · simp [cdmUpdate, MaskedWord.apply]
  · simp [cdmUpdate, MaskedWord.apply]
  · simp [cdmUpdate, MaskedWord.apply, pciCommandIo, pciCommandMemory,
      pciCommandMaster, pciCommandSerr]
  · change Scripted _ (placed build pci (windowUpdates pci.pp ++ (finalUpdates ++ [relock])))
    simp only [windowUpdates, finalUpdates, List.append_assoc, List.cons_append,
      List.nil_append, placed_append]
    refine (houtbound _ _ _ _ _).bind <| (houtbound _ _ _ _ _).bind <|
      (houtbound _ _ _ _ _).bind ?_
    simp only [placed_cons]
    refine .put_bind _ _ <| (dwPcieWrOwnConf_class_scripted build pci).bind ?_
    exact .modify_bind _ _ _ (by decide) (fun word => (MaskedWord.apply_orWith 0x20000 word).symm)
      (dwPcieDbiRoWrDis_scripted build pci)

end Scripts

/-! Hence each of them performs its updates on a store, write by write. -/

section Performs
variable (cell : BusAddr → BusAddr) (build : Build) (pci : DwPcie)

theorem dwPcieSetup_performs :
    Performs cell (dwPcieSetup build pci) (placed build pci (setupUpdates pci)) :=
  (dwPcieSetup_scripted build pci).performs cell

theorem dwPcieProgOutboundAtu_performs (index type : U32) (cpuAddr pciAddr size : U64) :
    Performs cell (dwPcieProgOutboundAtu build pci index type cpuAddr pciAddr size)
      (placed build pci (outboundUpdates index type cpuAddr pciAddr size)) :=
  (dwPcieProgOutboundAtu_scripted build pci index type cpuAddr pciAddr size).performs cell

theorem dwPcieSetupRc_performs :
    Performs cell (dwPcieSetupRc build pci) (placed build pci (setupRcUpdates pci)) :=
  (dwPcieSetupRc_scripted build pci).performs cell

end Performs
end DwcPcie.SetupEffect
