import DwcPcie.Platform

/-! Accesses to the register spaces of one controller. The address of a register
is the controller's base plus a 17-bit offset below a two-bit space number. -/
namespace DwcPcie.Dbi
open Glue Platform

/-- The space number of a supported access type. -/
def route1 : DwPcieAccessType → Option U32
  | .cdm => some 0
  | .shadow => some 1
  | .atu => some 2
  | .dma => some 3
  | _ => none

def formatDbiAddr (type : DwPcieAccessType) (reg : U32) : U64 :=
  match route1 type with
  | some route => ((route <<< 17) ||| reg).setWidth 64
  | none => 0xffffffff

section Access
variable (build : Build) (pci : DwPcie) (type : DwPcieAccessType)

def readDbi (reg : U32) : Bus U32 :=
  let dbiOffset := formatDbiAddr type reg
  if build.ipbench then axiReadC (pci.dbiBase + dbiOffset) pci.axiDbiPort
  else readl (pci.dbiBase + dbiOffset)

def readlDbi (reg : U32) : Bus U32 := readDbi build pci type reg

-- The narrow reads take the register offset at the width of their result.
def readwDbi (reg : U16) : Bus U16 := do
  let shift : U8 := (reg &&& 0x2).setWidth 8
  let val ← readDbi build pci type (reg.setWidth 32)
  let val := val >>> (8 * shift.toNat)
  pure (val.setWidth 16)

def readbDbi (reg : U8) : Bus U8 := do
  let shift : U8 := reg &&& 0x3
  let val ← readDbi build pci type (reg.setWidth 32)
  let val := val >>> (8 * shift.toNat)
  pure (val.setWidth 8)

def dwPcieReadDbi (reg : U32) (size : Nat) : Bus U32 :=
  match size with
  | 1 => do
      let val ← readbDbi build pci type (reg.setWidth 8)
      pure (val.setWidth 32)
  | 2 => do
      let val ← readwDbi build pci type (reg.setWidth 16)
      pure (val.setWidth 32)
  | 4 => readlDbi build pci type reg
  | _ => pure build.unset

def writeDbi (reg val : U32) : Bus Unit :=
  let dbiOffset := formatDbiAddr type reg
  if build.ipbench then axiWriteC (pci.dbiBase + dbiOffset) val pci.axiDbiPort
  else writel (pci.dbiBase + dbiOffset) val

def dwPcieWritelDbi (reg val : U32) : Bus Unit := writeDbi build pci type reg val

def dwPcieWritebDbi (reg : U32) (val : U8) : Bus Unit := do
  let mask : U32 := 0xff
  let shift : U8 := (reg &&& 0x3).setWidth 8
  let tmp ← readlDbi build pci type (reg &&& 0xfffffffc)
  let mask := mask <<< (8 * shift.toNat)
  let mask := ~~~mask
  let tmp := (tmp &&& mask) ||| (val.setWidth 32 <<< (8 * shift.toNat))
  writeDbi build pci type (reg &&& 0xfffffffc) tmp

def dwPcieWritewDbi (reg : U32) (val : U16) : Bus Unit := do
  let shift : U8 := (reg &&& 0x2).setWidth 8
  let tmp ← readlDbi build pci type (reg &&& 0xfffffffc)
  let tmp := (tmp &&& ((0xffff0000 : U32) >>> (shift.toNat * 8))) |||
    (val.setWidth 32 <<< (shift.toNat * 8))
  writeDbi build pci type (reg &&& 0xfffffffc) tmp

def dwPcieWriteDbi (addr val : U32) (size : Nat) : Bus Unit :=
  match size with
  | 1 => dwPcieWritebDbi build pci type addr (val.setWidth 8)
  | 2 => dwPcieWritewDbi build pci type addr (val.setWidth 16)
  | 4 => dwPcieWritelDbi build pci type addr val
  | _ => pure ()

end Access

/-! ## The bus address behind an access -/

def busPort (build : Build) (pci : DwPcie) : BusPort :=
  if build.ipbench then .axi pci.axiDbiPort else .mmio

def dbiAddr (build : Build) (pci : DwPcie) (offset : U64) : BusAddr :=
  ⟨busPort build pci, pci.dbiBase + offset⟩

variable (build : Build) (pci : DwPcie) (type : DwPcieAccessType)

theorem readDbi_eq (reg : U32) : readDbi build pci type reg =
    .fetch (dbiAddr build pci (formatDbiAddr type reg)) := by
  unfold readDbi dbiAddr busPort
  cases build.ipbench <;> rfl

theorem writeDbi_eq (reg val : U32) : writeDbi build pci type reg val =
    .put (dbiAddr build pci (formatDbiAddr type reg)) val := by
  unfold writeDbi dbiAddr busPort
  cases build.ipbench <;> rfl

theorem dwPcieReadDbi_four (reg : U32) : dwPcieReadDbi build pci type reg 4 =
    .fetch (dbiAddr build pci (formatDbiAddr type reg)) :=
  readDbi_eq build pci type reg

theorem dwPcieWriteDbi_four (reg val : U32) : dwPcieWriteDbi build pci type reg val 4 =
    .put (dbiAddr build pci (formatDbiAddr type reg)) val :=
  writeDbi_eq build pci type reg val

theorem dbiAddr_injective : (dbiAddr build pci).Injective := by
  intro x y h
  exact add_left_cancel (congrArg BusAddr.addr h)

end DwcPcie.Dbi
