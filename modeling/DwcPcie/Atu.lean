import DwcPcie.Dbi
import DwcPcie.Registers

/-! Address translation windows. Each region and direction has a bank of 256
bytes in the ATU space; the index sits above the direction bit. -/
namespace DwcPcie.Atu
open Glue Platform Registers Dbi

def regionDir : DwPcieRegionType → Option U32
  | .inbound => some 1
  | .outbound => some 0
  | .unknown => none

def atuAddr (index dir reg : U32) : U32 := (index <<< 9) ||| (dir <<< 8) ||| reg

section Access
variable (build : Build) (pci : DwPcie)

def dwPcieReadAtu (region : DwPcieRegionType) (index reg : U32) (size : Nat) : Bus U32 :=
  match regionDir region with
  | some dir => dwPcieReadDbi build pci .atu (atuAddr index dir reg) size
  | none => pure 0xffffffff

def dwPcieWriteAtu (region : DwPcieRegionType) (index reg : U32) (size : Nat) (val : U32) :
    Bus Unit :=
  match regionDir region with
  | some dir => dwPcieWriteDbi build pci .atu (atuAddr index dir reg) val size
  | none => pure ()

/-- The limit is inclusive and wraps; the enabling write of CTRL2 is the last. -/
def dwPcieProgOutboundAtu (index type : U32) (cpuAddr pciAddr size : U64) : Bus Unit := do
  dwPcieWriteAtu build pci .outbound index pcieIatuLwrBaseAddrOffOutbound 0x4
    (lower32Bits cpuAddr)
  dwPcieWriteAtu build pci .outbound index pcieIatuUpperBaseAddrOffOutbound 0x4
    (upper32Bits cpuAddr)
  dwPcieWriteAtu build pci .outbound index pcieIatuLwrLimitAddrOffOutbound 0x4
    (lower32Bits (cpuAddr + size - 1))
  dwPcieWriteAtu build pci .outbound index pcieIatuUpperLimitAddrOffOutbound 0x4
    (upper32Bits (cpuAddr + size - 1))
  dwPcieWriteAtu build pci .outbound index pcieIatuLwrTargetAddrOffOutbound 0x4
    (lower32Bits pciAddr)
  dwPcieWriteAtu build pci .outbound index pcieIatuUpperTargetAddrOffOutbound 0x4
    (upper32Bits pciAddr)
  dwPcieWriteAtu build pci .outbound index pcieIatuRegionCtrl1OffOutbound 0x4 type
  dwPcieWriteAtu build pci .outbound index pcieIatuRegionCtrl2OffOutbound 0x4
    (pcieAtuEnable.setWidth 32)

end Access

variable (build : Build) (pci : DwPcie)

theorem dwPcieReadAtu_four {region : DwPcieRegionType} {dir : U32}
    (hdir : regionDir region = some dir) (index reg : U32) :
    dwPcieReadAtu build pci region index reg 4 =
      .fetch (dbiAddr build pci (formatDbiAddr .atu (atuAddr index dir reg))) := by
  rw [dwPcieReadAtu, hdir]
  exact dwPcieReadDbi_four build pci .atu _

theorem dwPcieWriteAtu_four {region : DwPcieRegionType} {dir : U32}
    (hdir : regionDir region = some dir) (index reg val : U32) :
    dwPcieWriteAtu build pci region index reg 4 val =
      .put (dbiAddr build pci (formatDbiAddr .atu (atuAddr index dir reg))) val := by
  rw [dwPcieWriteAtu, hdir]
  exact dwPcieWriteDbi_four build pci .atu _ val

end DwcPcie.Atu
