import DwcPcie.Glue
import DwcPcie.Mmio.Program

/-! The controller structure and the bus primitives below the driver. An
IPBENCH build talks to the simulated AXI and APB masters, which take a port
number. Every other build uses `readl` and `writel`, here the firmware's raw
accessors of the full address; the header's stubs for hosts do nothing. -/
namespace DwcPcie.Platform
open Glue

/-- What conditional compilation decides. `unset` stands for the contents of an
uninitialised local, which C leaves open. -/
structure Build where
  ipbench : Bool
  dpu : Bool
  defaultLinkMode : U8
  unset : U32

inductive BusPort where
  | mmio
  | axi (port : U8)
  | apb (port : U8)
deriving DecidableEq

structure BusAddr where
  port : BusPort
  addr : U64
deriving DecidableEq

abbrev Bus := Mmio.Program BusAddr U32
abbrev Store := BusAddr → U32

def axiReadC (addr : U64) (port : U8) : Bus U32 := .fetch ⟨.axi port, addr⟩
def axiWriteC (addr : U64) (data : U32) (port : U8) : Bus Unit := .put ⟨.axi port, addr⟩ data
def apbReadC (addr : U32) (port : U8) : Bus U32 := .fetch ⟨.apb port, addr.setWidth 64⟩
def apbWriteC (addr : U32) (data : U32) (port : U8) : Bus Unit :=
  .put ⟨.apb port, addr.setWidth 64⟩ data
def readl (addr : U64) : Bus U32 := .fetch ⟨.mmio, addr⟩
def writel (addr : U64) (data : U32) : Bus Unit := .put ⟨.mmio, addr⟩ data

inductive DwPcieAccessType where
  | cdm | shadow | elbi | atu | dma | msiTable | msiPba
deriving DecidableEq

inductive DwPcieRegionType where
  | unknown | inbound | outbound
deriving DecidableEq

structure PciePort where
  cfgBar0 : U64
  cfgBar1 : U64
  cfgSize : U64
  memBase : U64
  memSize : U64
deriving DecidableEq

/-- A port is embedded in its controller, so `to_dw_pcie_from_pp` of a port is
the controller it is the field of. -/
structure DwPcie where
  dbiBase : U64
  laneNum : U32
  axiDbiPort : U8
  order : U8
  pp : PciePort
  active : Bool
deriving DecidableEq

/-! ## Stores behind the bus -/

def BusAddr.Aligned (a : BusAddr) : Prop := a.addr.toNat % 4 = 0

instance (a : BusAddr) : Decidable a.Aligned := inferInstanceAs (Decidable (_ = _))

/-- How the store picks the word of a transaction. Whatever it does with the low
address bits, distinct word-aligned addresses reach distinct words. -/
structure Decoder where
  cell : BusAddr → BusAddr
  aligned_inj : ∀ a b, a.Aligned → b.Aligned → cell a = cell b → a = b

/-- A store keyed by the full address. -/
def Decoder.plain : Decoder := ⟨fun a => a, fun _ _ _ _ h => h⟩

def wordOf (a : BusAddr) : BusAddr := ⟨a.port, (a.addr >>> 2) <<< 2⟩

theorem wordOf_addr_toNat (a : BusAddr) : (wordOf a).addr.toNat = a.addr.toNat / 4 * 4 := by
  have h := a.addr.isLt
  simp only [wordOf, BitVec.toNat_shiftLeft, BitVec.toNat_ushiftRight, Nat.shiftLeft_eq,
    Nat.shiftRight_eq_div_pow]
  omega

private theorem wordOf_of_aligned (a : BusAddr) (h : a.Aligned) : wordOf a = a := by
  have haddr : (wordOf a).addr = a.addr := by
    apply BitVec.eq_of_toNat_eq
    rw [wordOf_addr_toNat]
    unfold BusAddr.Aligned at h
    omega
  exact congrArg (BusAddr.mk a.port) haddr

/-- A store that ignores the low two address bits of a transaction. -/
def Decoder.words : Decoder := ⟨wordOf, fun a b ha hb h => by
  rwa [wordOf_of_aligned a ha, wordOf_of_aligned b hb] at h⟩

end DwcPcie.Platform
