import DwcPcie.Platform

/-! The platform's four controllers: where their registers and their windows in
the CPU address space lie. An IPBENCH build tells them apart by port only. -/
namespace DwcPcie.Controllers
open Glue Platform

abbrev x16 : Nat := 0
abbrev x8 : Nat := 1
abbrev x4_0 : Nat := 2
abbrev x4_1 : Nat := 3
abbrev subsys : Nat := 4

def axiDbiPortX16 : U8 := 0x0
def axiDbiPortX8 : U8 := 0x1
def axiDbiPortX4_0 : U8 := 0x2
def axiDbiPortX4_1 : U8 := 0x3

def cfgAxiCoreX16 (build : Build) : U64 := if build.ipbench then 0x0 else 0xff09110000
def cfgAxiCoreX8 (build : Build) : U64 := if build.ipbench then 0x0 else 0xff09210000
def cfgAxiCoreX4_0 (build : Build) : U64 := if build.ipbench then 0x0 else 0xff09310000
def cfgAxiCoreX4_1 (build : Build) : U64 := if build.ipbench then 0x0 else 0xff09410000

def kb : U64 := 1 <<< 10
def gb : U64 := 1 <<< 30

def pcieSubsysAddrStart : U64 := 0x40000000000
def pcieCoreX16AddrStart : U64 := pcieSubsysAddrStart
def pcieCoreX8AddrStart : U64 := pcieCoreX16AddrStart + 512 * gb
def pcieCoreX4_0AddrStart : U64 := pcieCoreX8AddrStart + 512 * gb
def pcieCoreX4_1AddrStart : U64 := pcieCoreX4_0AddrStart + 512 * gb
def pcieSubsysAddrEnd : U64 := pcieCoreX4_1AddrStart + 512 * gb

def pcieCoreCfgSize : U64 := 512 * kb
def pcieCoreMemSize : U64 := 512 * gb
def pcieCoreX16Cfg0Start : U64 := pcieCoreX8AddrStart - pcieCoreCfgSize
def pcieCoreX16Cfg1Start : U64 := pcieCoreX8AddrStart - 2 * pcieCoreCfgSize
def pcieCoreX8Cfg0Start : U64 := pcieCoreX4_0AddrStart - pcieCoreCfgSize
def pcieCoreX8Cfg1Start : U64 := pcieCoreX4_0AddrStart - 2 * pcieCoreCfgSize
def pcieCoreX4_0Cfg0Start : U64 := pcieCoreX4_1AddrStart - pcieCoreCfgSize
def pcieCoreX4_0Cfg1Start : U64 := pcieCoreX4_1AddrStart - 2 * pcieCoreCfgSize
def pcieCoreX4_1Cfg0Start : U64 := pcieSubsysAddrEnd - pcieCoreCfgSize
def pcieCoreX4_1Cfg1Start : U64 := pcieSubsysAddrEnd - 2 * pcieCoreCfgSize

/-- The static table. Fields without an initialiser are zero. -/
def controllers (build : Build) : Vector DwPcie 4 := #v[
  { dbiBase := cfgAxiCoreX16 build
    laneNum := 0
    axiDbiPort := axiDbiPortX16
    order := 0
    pp := {
      cfgBar0 := pcieCoreX16Cfg0Start
      cfgBar1 := pcieCoreX16Cfg1Start
      cfgSize := pcieCoreCfgSize
      memBase := pcieCoreX16AddrStart
      memSize := pcieCoreMemSize }
    active := false },
  { dbiBase := cfgAxiCoreX8 build
    laneNum := 0
    axiDbiPort := axiDbiPortX8
    order := 0
    pp := {
      cfgBar0 := pcieCoreX8Cfg0Start
      cfgBar1 := pcieCoreX8Cfg1Start
      cfgSize := pcieCoreCfgSize
      memBase := pcieCoreX8AddrStart
      memSize := pcieCoreMemSize }
    active := false },
  { dbiBase := cfgAxiCoreX4_0 build
    laneNum := 0
    axiDbiPort := axiDbiPortX4_0
    order := 0
    pp := {
      cfgBar0 := pcieCoreX4_0Cfg0Start
      cfgBar1 := pcieCoreX4_0Cfg1Start
      cfgSize := pcieCoreCfgSize
      memBase := pcieCoreX4_0AddrStart
      memSize := pcieCoreMemSize }
    active := false },
  { dbiBase := cfgAxiCoreX4_1 build
    laneNum := 0
    axiDbiPort := axiDbiPortX4_1
    order := 0
    pp := {
      cfgBar0 := pcieCoreX4_1Cfg0Start
      cfgBar1 := pcieCoreX4_1Cfg1Start
      cfgSize := pcieCoreCfgSize
      memBase := pcieCoreX4_1AddrStart
      memSize := pcieCoreMemSize }
    active := false }]

end DwcPcie.Controllers
