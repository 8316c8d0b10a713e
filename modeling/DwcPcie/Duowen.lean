import DwcPcie.Controllers
import DwcPcie.SetupRc

/-! The platform around the controllers: the APB registers of the subsystem, the
choice of active controllers by link mode, and the bring-up that ties them
together. `udelay` is a parameter, any delay that returns: a wait of the test bench
that polls for ever belongs to no run here. -/
namespace DwcPcie.Duowen
open Glue Platform Controllers SetupRc

def apbPortX16 : U8 := 0x4
def apbPortX8 : U8 := 0x5
def apbPortX4_0 : U8 := 0x6
def apbPortX4_1 : U8 := 0x7
def apbPortSubsys : U8 := 0x8

def resetCoreX16 : U64 := 0x0
def resetCoreX8 : U64 := 0x4
def resetCoreX4_0 : U64 := 0x8
def resetCoreX4_1 : U64 := 0xC
def resetPhy : U64 := 0x10
def subsysControl : U64 := 0x14

def linkMode4444 : U8 := 0x0
def linkMode8404 : U8 := 0x1
def linkMode8800 : U8 := 0x2
def linkMode16000 : U8 := 0x3

def cfgApbSubsys (build : Build) : U64 := if build.ipbench then 0x0 else 0xff09000000
def cfgApbCoreX16 (build : Build) : U64 := if build.ipbench then 0x0 else 0xff09001000
def cfgApbCoreX8 (build : Build) : U64 := if build.ipbench then 0x0 else 0xff09002000
def cfgApbCoreX4_0 (build : Build) : U64 := if build.ipbench then 0x0 else 0xff09003000
def cfgApbCoreX4_1 (build : Build) : U64 := if build.ipbench then 0x0 else 0xff09004000

/-- The subsystem together with the table its `controller` points to. -/
structure DuowenPcieSubsystem where
  cfgApb : Vector U64 5
  linkMode : U8
  controller : Vector DwPcie 4
deriving DecidableEq

section Platform
variable (build : Build) (udelay : U32 → Bus PUnit)

def readApb (addr : U32) (port : U8) : Bus U32 :=
  if build.ipbench then apbReadC addr port else readl (addr.setWidth 64)

def writeApb (addr : U64) (data : U32) (port : U8) : Bus Unit :=
  if build.ipbench then apbWriteC (addr.setWidth 32) data port else writel addr data

def duowenGetLinkMode : U8 := build.defaultLinkMode

def resetInit (subsystem : DuowenPcieSubsystem) : Bus PUnit := do
  let base := subsystem.cfgApb[subsys]
  let port := apbPortSubsys
  writeApb build (base + resetPhy) 0x0 port
  udelay 1
  writeApb build (base + resetCoreX16) 0xff port
  writeApb build (base + resetCoreX8) 0xff port
  writeApb build (base + resetCoreX4_0) 0xff port
  writeApb build (base + resetCoreX4_1) 0xff port
  writeApb build (base + resetPhy) 0xff port

/-! ## The link mode -/

structure Link where
  laneNum : U32
  active : Bool
  order : U8
deriving DecidableEq

abbrev Link.off : Link := ⟨0, false, 0xff⟩

def setLink (controller : DwPcie) (link : Link) : DwPcie :=
  { controller with laneNum := link.laneNum, active := link.active, order := link.order }

def setLinks (links : Vector Link 4) (controller : Vector DwPcie 4) : Vector DwPcie 4 :=
  #v[setLink controller[x16] links[x16], setLink controller[x8] links[x8],
    setLink controller[x4_0] links[x4_0], setLink controller[x4_1] links[x4_1]]

def links4444 : Vector Link 4 :=
  if build.dpu then #v[.off, .off, ⟨4, true, 0⟩, .off]
  else #v[⟨4, true, 0⟩, ⟨4, true, 1⟩, ⟨4, true, 2⟩, ⟨4, true, 3⟩]

def links8404 : Vector Link 4 :=
  if build.dpu then #v[.off, .off, .off, ⟨4, true, 0⟩]
  else #v[⟨8, true, 0⟩, ⟨4, true, 1⟩, .off, ⟨4, true, 2⟩]

def links8800 : Vector Link 4 :=
  if build.dpu then #v[.off, ⟨4, true, 0⟩, .off, .off]
  else #v[⟨8, true, 0⟩, ⟨8, true, 1⟩, .off, .off]

def links16000 : Vector Link 4 :=
  if build.dpu then #v[⟨4, true, 0⟩, .off, .off, .off]
  else #v[⟨16, true, 0⟩, .off, .off, .off]

/-- The switch over the link mode. The `break` of mode 8_4_0_4 is compiled only
into the other build, so with DPU the case runs on into the one of 8_8_0_0. -/
def selectLinks (linkMode : U8) (controller : Vector DwPcie 4) : Vector DwPcie 4 :=
  if linkMode = linkMode4444 then setLinks (links4444 build) controller
  else if linkMode = linkMode8404 then
    let controller := setLinks (links8404 build) controller
    if build.dpu then setLinks (links8800 build) controller else controller
  else if linkMode = linkMode8800 then setLinks (links8800 build) controller
  else if linkMode = linkMode16000 then setLinks (links16000 build) controller
  else controller

def subsysLinkInitPre (subsystem : DuowenPcieSubsystem) : Bus DuowenPcieSubsystem := do
  let base := subsystem.cfgApb[subsys]
  let port := apbPortSubsys
  let linkMode := subsystem.linkMode
  let subsystem := { subsystem with controller := selectLinks build linkMode subsystem.controller }
  writeApb build (base + subsysControl) (linkMode.setWidth 32) port
  udelay 1
  pure subsystem

/-! ## Training start -/

/-- One call of `write_apb`. -/
structure ApbWrite where
  addr : U64
  data : U32
  port : U8
deriving DecidableEq

-- The cases of the second switch, each running on into the next unless DPU
-- compiles a break behind its write.
def post16000 (subsystem : DuowenPcieSubsystem) : List ApbWrite :=
  [⟨subsystem.cfgApb[x16], 0xc018010, apbPortX16⟩]

def post8800 (subsystem : DuowenPcieSubsystem) : List ApbWrite :=
  ⟨subsystem.cfgApb[x8], 0xc018010, apbPortX8⟩ ::
    if build.dpu then [] else post16000 subsystem

def post8404 (subsystem : DuowenPcieSubsystem) : List ApbWrite :=
  ⟨subsystem.cfgApb[x4_1], 0xc018010, apbPortX4_1⟩ ::
    if build.dpu then [] else post8800 build subsystem

def post4444 (subsystem : DuowenPcieSubsystem) : List ApbWrite :=
  ⟨subsystem.cfgApb[x4_0], 0xc018010, apbPortX4_0⟩ ::
    if build.dpu then [] else post8404 build subsystem

def postWrites (subsystem : DuowenPcieSubsystem) : List ApbWrite :=
  let mode := duowenGetLinkMode build
  if mode = linkMode4444 then post4444 build subsystem
  else if mode = linkMode8404 then post8404 build subsystem
  else if mode = linkMode8800 then post8800 build subsystem
  else if mode = linkMode16000 then post16000 subsystem
  else []

def subsysLinkInitPost (subsystem : DuowenPcieSubsystem) : Bus PUnit :=
  forM (postWrites build subsystem) fun w => writeApb build w.addr w.data w.port

/-! ## Bring-up -/

def instanceSubsystem (controller : Vector DwPcie 4) : DuowenPcieSubsystem where
  cfgApb := #v[cfgApbCoreX16 build, cfgApbCoreX8 build, cfgApbCoreX4_0 build,
    cfgApbCoreX4_1 build, cfgApbSubsys build]
  linkMode := duowenGetLinkMode build
  controller := controller

/-- The loop of `pci_platform_init` over a table of any length, `rest` iterations
before its end. The cursor moves only when a controller is set up. -/
def setupLoop {m : Type → Type} [Monad m] {n : Nat} (controllers : Vector DwPcie n)
    (setup : Fin n → m PUnit) (rest cursor : Nat) (h : cursor + rest ≤ n) : m PUnit :=
  match rest with
  | 0 => pure ⟨⟩
  | rest + 1 =>
    if controllers[cursor].active = true then do
      setup ⟨cursor, by omega⟩
      setupLoop controllers setup rest (cursor + 1) (by omega)
    else
      setupLoop controllers setup rest cursor (by omega)

def setupActive {m : Type → Type} [Monad m] {n : Nat} (controllers : Vector DwPcie n)
    (setup : Fin n → m PUnit) : m PUnit :=
  setupLoop controllers setup n 0 (by omega)

def pciPlatformInit (controllers : Vector DwPcie 4) : Bus (Vector DwPcie 4) := do
  let subsystem := instanceSubsystem build controllers
  resetInit build udelay subsystem
  let subsystem ← subsysLinkInitPre build udelay subsystem
  setupActive subsystem.controller fun i => dwPcieSetupRc build (subsystem.controller.get i)
  subsysLinkInitPost build subsystem
  pure subsystem.controller

end Platform
end DwcPcie.Duowen
