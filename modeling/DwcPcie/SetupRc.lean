import DwcPcie.Atu

/-! Setting a controller up as a root complex. Everything is configured between
the two writes that open and close the read-only registers for writing. -/
namespace DwcPcie.SetupRc
open Glue Platform Registers Dbi Atu

variable (build : Build) (pci : DwPcie)

def dwPcieRdOwnConf (whr : U32) (size : Nat) : Bus U32 := dwPcieReadDbi build pci .cdm whr size

def dwPcieWrOwnConf (whr : U32) (size : Nat) (val : U32) : Bus Unit :=
  dwPcieWriteDbi build pci .cdm whr val size

def dwPcieDbiRoWrEn : Bus Unit := do
  let reg := pcieMiscControl1Off
  let val ← dwPcieReadDbi build pci .cdm reg 0x4
  let val := orAssign val pcieDbiRoWrEn
  dwPcieWriteDbi build pci .cdm reg val 0x4

def dwPcieDbiRoWrDis : Bus Unit := do
  let reg := pcieMiscControl1Off
  let val ← dwPcieReadDbi build pci .cdm reg 0x4
  let val := andAssign val (~~~pcieDbiRoWrEn)
  dwPcieWriteDbi build pci .cdm reg val 0x4

def dwPcieSetup : Bus Unit := do
  let lanes := pci.laneNum
  let order := pci.order
  -- fast link scale factor; the two-bit field is not cleared first
  let val ← dwPcieReadDbi build pci .cdm pcieTimerCtrlMaxFunNumOff 0x4
  let tmp : U32 := 0x2 <<< 29
  let val := val ||| tmp
  dwPcieWriteDbi build pci .cdm pcieTimerCtrlMaxFunNumOff val 0x4
  -- number of lanes; any other number leaves the cleared field
  let val ← dwPcieReadDbi build pci .cdm pciePortLinkControl 0x4
  let val := andAssign val (~~~portLinkModeMask)
  let val :=
    if lanes = 4 then orAssign val portLinkMode4Lanes
    else if lanes = 8 then orAssign val portLinkMode8Lanes
    else if lanes = 16 then orAssign val portLinkMode16Lanes
    else val
  let val := orAssign val (bit 7)
  dwPcieWriteDbi build pci .cdm pciePortLinkControl val 0x4
  -- link width
  let val ← dwPcieReadDbi build pci .cdm pcieLinkWidthSpeedControl 0x4
  let val := andAssign val (~~~portLogicLinkWidthMask)
  let val :=
    if lanes = 4 then orAssign val portLogicLinkWidth4Lanes
    else if lanes = 8 then orAssign val portLogicLinkWidth8Lanes
    else if lanes = 16 then orAssign val portLogicLinkWidth16Lanes
    else val
  dwPcieWriteDbi build pci .cdm pcieLinkWidthSpeedControl val 0x4
  -- link number
  let val ← dwPcieReadDbi build pci .cdm pciePortForceOff 0x4
  let val := andAssign val (~~~portLinkNumMask)
  let val := orAssign val (portLinkNum (order.setWidth 64))
  dwPcieWriteDbi build pci .cdm pciePortForceOff val 0x4
  -- rate shadow select, first 0 and then 1
  let val ← dwPcieReadDbi build pci .cdm pcieGen3RelatedOff 0x4
  let val := val ||| 0x200
  let val := andAssign val (~~~rateShadowSelMask)
  let val := orAssign val (rateShadowSel 0x0)
  dwPcieWriteDbi build pci .cdm pcieGen3RelatedOff val 0x4
  let val ← dwPcieReadDbi build pci .cdm pcieGen3RelatedOff 0x4
  let val := andAssign val (~~~rateShadowSelMask)
  let val := orAssign val (rateShadowSel 0x1)
  dwPcieWriteDbi build pci .cdm pcieGen3RelatedOff val 0x4
  let val ← dwPcieReadDbi build pci .cdm pcieGen3RelatedOff 0x4
  let val := val ||| 0x200
  let val := andAssign val (~~~rateShadowSelMask)
  let val := orAssign val (rateShadowSel 0x1)
  dwPcieWriteDbi build pci .cdm pcieGen3RelatedOff val 0x4

def dwPcieSetupRc : Bus Unit := do
  let pp := pci.pp
  dwPcieDbiRoWrEn build pci
  dwPcieSetup build pci
  -- base address registers
  dwPcieWriteDbi build pci .cdm pciBaseAddress0 0x00000004 0x4
  dwPcieWriteDbi build pci .cdm pciBaseAddress1 0x00000000 0x4
  -- interrupt pin
  let val ← dwPcieReadDbi build pci .cdm pciInterruptLine 0x4
  let val := val &&& 0xffff00ff
  let val := val ||| 0x00000100
  dwPcieWriteDbi build pci .cdm pciInterruptLine val 0x4
  -- bus numbers
  let val ← dwPcieReadDbi build pci .cdm pciPrimaryBus 0x4
  let val := val &&& 0xff000000
  let val := val ||| 0x00ff0100
  dwPcieWriteDbi build pci .cdm pciPrimaryBus val 0x4
  -- command register
  let val ← dwPcieReadDbi build pci .cdm pciCommand 0x4
  let val := val &&& 0xffff0000
  let val := val ||| (pciCommandIo ||| pciCommandMemory ||| pciCommandMaster ||| pciCommandSerr)
  dwPcieWriteDbi build pci .cdm pciCommand val 0x4
  -- outbound windows
  dwPcieProgOutboundAtu build pci 0 pcieAtuTypeCfg1 pp.cfgBar1 0x1000000000000000 0x80000
  dwPcieProgOutboundAtu build pci 1 pcieAtuTypeCfg0 pp.cfgBar0 0x1100000000000000 0x80000
  dwPcieProgOutboundAtu build pci 2 pcieAtuTypeMem pp.memBase 0x2000000000000000 pp.memSize
  dwPcieWrOwnConf build pci pciBaseAddress0 4 0
  -- class of a root complex
  dwPcieWrOwnConf build pci pciClassDevice 2 pciClassBridgePci
  let val ← dwPcieRdOwnConf build pci pcieLinkWidthSpeedControl 4
  let val := orAssign val portLogicSpeedChange
  dwPcieWrOwnConf build pci pcieLinkWidthSpeedControl 4 val
  dwPcieDbiRoWrDis build pci

end DwcPcie.SetupRc
