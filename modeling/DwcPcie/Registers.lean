import DwcPcie.Glue

/-! Register offsets, field masks and values of the DesignWare core and of the
PCI configuration header. -/
namespace DwcPcie.Registers
open Glue

def pciePortForceOff : U32 := 0x708
def portLinkNumMask : U64 := genmask 7 0
def portLinkNum (n : U64) : U64 := fieldPrep portLinkNumMask n

def pciePortLinkControl : U32 := 0x710
def portLinkModeMask : U64 := genmask 21 16
def portLinkMode (n : U64) : U64 := fieldPrep portLinkModeMask n
def portLinkMode4Lanes : U64 := portLinkMode 0x7
def portLinkMode8Lanes : U64 := portLinkMode 0xf
def portLinkMode16Lanes : U64 := portLinkMode 0x1f
def pcieTimerCtrlMaxFunNumOff : U32 := 0x718

def pcieLinkWidthSpeedControl : U32 := 0x80C
def portLogicSpeedChange : U64 := bit 17
def portLogicLinkWidthMask : U64 := genmask 12 8
def portLogicLinkWidth (n : U64) : U64 := fieldPrep portLogicLinkWidthMask n
def portLogicLinkWidth4Lanes : U64 := portLogicLinkWidth 0x4
def portLogicLinkWidth8Lanes : U64 := portLogicLinkWidth 0x8
def portLogicLinkWidth16Lanes : U64 := portLogicLinkWidth 0x10

def pcieGen3RelatedOff : U32 := 0x890
def rateShadowSelMask : U64 := genmask 25 24
def rateShadowSel (n : U64) : U64 := fieldPrep rateShadowSelMask n

def pcieAtuTypeMem : U32 := 0x0
def pcieAtuTypeCfg0 : U32 := 0x4
def pcieAtuTypeCfg1 : U32 := 0x5
def pcieAtuEnable : U64 := bit 31

def pcieIatuRegionCtrl1OffOutbound : U32 := 0x0
def pcieIatuRegionCtrl2OffOutbound : U32 := 0x4
def pcieIatuLwrBaseAddrOffOutbound : U32 := 0x8
def pcieIatuUpperBaseAddrOffOutbound : U32 := 0xC
def pcieIatuLwrLimitAddrOffOutbound : U32 := 0x10
def pcieIatuLwrTargetAddrOffOutbound : U32 := 0x14
def pcieIatuUpperTargetAddrOffOutbound : U32 := 0x18
def pcieIatuRegionCtrl3OffOutbound : U32 := 0x1C
def pcieIatuUpperLimitAddrOffOutbound : U32 := 0x20

def pcieMiscControl1Off : U32 := 0x8BC
def pcieDbiRoWrEn : U64 := bit 0

def maxIatuOut : Nat := 256

def pciCommand : U32 := 0x04
def pciCommandIo : U32 := 0x1
def pciCommandMemory : U32 := 0x2
def pciCommandMaster : U32 := 0x4
def pciCommandSerr : U32 := 0x100
def pciClassDevice : U32 := 0x0a
def pciBaseAddress0 : U32 := 0x10
def pciBaseAddress1 : U32 := 0x14
def pciPrimaryBus : U32 := 0x18
def pciInterruptLine : U32 := 0x3c
def pciClassBridgePci : U32 := 0x0604

/-! ## The masks and fields as literals -/

theorem portLinkModeMask_eq : portLinkModeMask = 0x3f0000 := by decide
theorem portLinkMode4Lanes_eq : portLinkMode4Lanes = 0x70000 := by decide
theorem portLinkMode8Lanes_eq : portLinkMode8Lanes = 0xf0000 := by decide
theorem portLinkMode16Lanes_eq : portLinkMode16Lanes = 0x1f0000 := by decide
theorem portLogicLinkWidthMask_eq : portLogicLinkWidthMask = 0x1f00 := by decide
theorem portLogicLinkWidth4Lanes_eq : portLogicLinkWidth4Lanes = 0x400 := by decide
theorem portLogicLinkWidth8Lanes_eq : portLogicLinkWidth8Lanes = 0x800 := by decide
theorem portLogicLinkWidth16Lanes_eq : portLogicLinkWidth16Lanes = 0x1000 := by decide
theorem portLinkNumMask_eq : portLinkNumMask = 0xff := by decide
theorem rateShadowSelMask_eq : rateShadowSelMask = 0x3000000 := by decide
theorem rateShadowSel_zero : rateShadowSel 0x0 = 0x0 := by decide
theorem rateShadowSel_one : rateShadowSel 0x1 = 0x1000000 := by decide

theorem portLinkNum_order (order : U8) :
    (portLinkNum (order.setWidth 64)).setWidth 32 = order.setWidth 32 := by
  have hshf : bfShf 0xff = 0 := by decide
  have hand : order.toNat &&& 255 = order.toNat % 2 ^ 8 := Nat.and_two_pow_sub_one_eq_mod _ 8
  have horder := order.isLt
  apply BitVec.eq_of_toNat_eq
  rw [portLinkNum, fieldPrep, portLinkNumMask_eq, hshf, BitVec.shiftLeft_zero,
    BitVec.toNat_setWidth, BitVec.toNat_and, BitVec.toNat_setWidth, BitVec.toNat_setWidth,
    Nat.mod_eq_of_lt (show order.toNat < 2 ^ 64 by omega)]
  change (order.toNat &&& 255) % 2 ^ 32 = order.toNat % 2 ^ 32
  rw [hand, Nat.mod_eq_of_lt horder]

end DwcPcie.Registers
