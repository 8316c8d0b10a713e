import DwcPcie.Outbound

/-! One call programs one window, whole and nothing else. The window matches the
requested range except where the inclusive limit wraps below zero. -/
namespace DwcPcie.OutboundExact
open Glue Platform Registers Dbi Atu AddressMap Controllers SetupEffect Outbound Mmio

section Call
variable (build : Build) (pci : DwPcie)

theorem progOutboundAtu_exec (c : OutboundCall) (s : Store) :
    (dwPcieProgOutboundAtu build pci c.index c.type c.cpuAddr c.pciAddr c.size).exec
      Decoder.plain.cell s = after build pci c.updates s :=
  (dwPcieProgOutboundAtu_performs Decoder.plain.cell build pci c.index c.type c.cpuAddr c.pciAddr
    c.size).exec s

private theorem after_updates_frame (c : OutboundCall) {a : BusAddr}
    (h : ∀ reg ∈ outboundRegs, a ≠ dbiAddr build pci (outboundOffset c.index reg)) (s : Store) :
    after build pci c.updates s a = s a := by
  apply perform_frame
  intro u hu heq
  obtain ⟨v, hv, rfl⟩ := List.mem_map.mp hu
  obtain ⟨p, -, hreg, rfl⟩ := OutboundCall.mem_updates_take (k := 8) hv
  exact h p.1 hreg (show dbiAddr build pci (outboundOffset c.index p.1) = a from heq).symm

private theorem atu_ne_outbound {region : DwPcieRegionType} {dir index index' reg reg' : U32}
    (hdir : regionDir region = some dir) (hindex : index.toNat < 256)
    (hindex' : index'.toNat < 256) (hreg : reg.toNat < 256) (hreg' : reg' ∈ outboundRegs)
    (hne : ¬ (region = .outbound ∧ index = index' ∧ reg = reg')) :
    dbiAddr build pci (formatDbiAddr .atu (atuAddr index dir reg)) ≠
      dbiAddr build pci (outboundOffset index' reg') := by
  intro haddr
  have hout : regionDir .outbound = some 0 := rfl
  have hlt' := outboundRegs_lt hreg'
  have htype : Supported .atu := by decide
  have hoffset := dbiAddr_injective build pci haddr
  have hatu := (formatDbiAddr_inj htype htype (atuAddr_lt hindex (regionDir_lt hdir) hreg)
    (atuAddr_lt hindex' (regionDir_lt hout) hlt') hoffset).2
  obtain ⟨rfl, rfl, rfl⟩ := atuAddr_inj hindex hindex' (regionDir_lt hdir) (regionDir_lt hout)
    hreg hlt' hatu
  exact hne ⟨regionDir_inj hdir hout, rfl, rfl⟩

private theorem space_ne_outbound {type : DwPcieAccessType} {reg index' reg' : U32}
    (htype : Supported type) (hne : type ≠ .atu) (hreg : reg.toNat < 2 ^ 17)
    (hindex' : index'.toNat < 256) (hreg' : reg' ∈ outboundRegs) :
    dbiAddr build pci (formatDbiAddr type reg) ≠
      dbiAddr build pci (outboundOffset index' reg') := by
  intro haddr
  have hlt := atuAddr_lt hindex' (by decide : (0 : U32).toNat < 2) (outboundRegs_lt hreg')
  exact hne (formatDbiAddr_inj htype (by decide) hreg hlt (dbiAddr_injective build pci haddr)).1

theorem progOutboundAtu_programmed (c : OutboundCall) (s : Store) :
    Programmed build pci ((dwPcieProgOutboundAtu build pci c.index c.type c.cpuAddr c.pciAddr
      c.size).exec Decoder.plain.cell s) c := by
  rw [progOutboundAtu_exec]
  exact programmed_after build pci c s

/-- After a call the window decodes to its arguments, and every other word is as
before: the third control register of the region, the other regions of either
direction, and the other spaces among them. -/
theorem progOutboundAtu_exact (index type : U32) (cpuAddr pciAddr size : U64)
    (hindex : index.toNat < 256) (s : Store) :
    let final := (dwPcieProgOutboundAtu build pci index type cpuAddr pciAddr size).exec
      Decoder.plain.cell s
    outboundWindow build pci final index = ⟨cpuAddr, cpuAddr + size - 1, pciAddr, type, true⟩ ∧
    outboundWord build pci final index pcieIatuRegionCtrl2OffOutbound =
      pcieAtuEnable.setWidth 32 ∧
    (∀ a, (∀ reg ∈ outboundRegs, a ≠ dbiAddr build pci (outboundOffset index reg)) →
      final a = s a) ∧
    outboundWord build pci final index pcieIatuRegionCtrl3OffOutbound =
      outboundWord build pci s index pcieIatuRegionCtrl3OffOutbound ∧
    (∀ region dir, regionDir region = some dir → ∀ index' reg : U32, index'.toNat < 256 →
      reg.toNat < 256 → ¬ (region = .outbound ∧ index' = index) →
        final (dbiAddr build pci (formatDbiAddr .atu (atuAddr index' dir reg))) =
          s (dbiAddr build pci (formatDbiAddr .atu (atuAddr index' dir reg)))) ∧
    ∀ type', Supported type' → type' ≠ .atu → ∀ reg : U32, reg.toNat < 2 ^ 17 →
      final (dbiAddr build pci (formatDbiAddr type' reg)) =
        s (dbiAddr build pci (formatDbiAddr type' reg)) := by
  intro final
  let c : OutboundCall := ⟨index, type, cpuAddr, pciAddr, size, hindex⟩
  have hfinal : final = after build pci c.updates s := progOutboundAtu_exec build pci c s
  have hprog : Programmed build pci final c := progOutboundAtu_programmed build pci c s
  have hframe : ∀ a, (∀ reg ∈ outboundRegs, a ≠ dbiAddr build pci (outboundOffset index reg)) →
      final a = s a := fun a h => by
    rw [hfinal]
    exact after_updates_frame build pci c h s
  have hctrl3 : pcieIatuRegionCtrl3OffOutbound ∉ outboundRegs := by decide
  refine ⟨hprog.window build pci, ?_, hframe, ?_, ?_, ?_⟩
  · exact hprog (pcieIatuRegionCtrl2OffOutbound, 0x80000000) (by simp [OutboundCall.words])
  · refine hframe _ fun reg hreg => ?_
    have hdir : regionDir .outbound = some 0 := rfl
    exact atu_ne_outbound build pci hdir hindex hindex (by decide) hreg
      fun h => hctrl3 (h.2.2 ▸ hreg)
  · intro region dir hdir index' reg hindex' hreg hne
    refine hframe _ fun reg' hreg' => ?_
    exact atu_ne_outbound build pci hdir hindex' hindex hreg hreg' fun h => hne ⟨h.1, h.2.1⟩
  · intro type' htype hne reg hreg
    exact hframe _ fun reg' hreg' => space_ne_outbound build pci htype hne hreg hindex hreg'

theorem progOutboundAtu_exact_last :
    let build : Build := ⟨true, false, 3, 0⟩
    let pci := (controllers build)[x4_1]
    let s : Store := fun _ => 0xffffffff
    let final := (dwPcieProgOutboundAtu build pci 255 0 0xfffff000 0 0x2000).exec
      Decoder.plain.cell s
    outboundWindow build pci final 255 = ⟨0xfffff000, 0x100000fff, 0, 0, true⟩ ∧
    outboundWord build pci final 255 pcieIatuRegionCtrl2OffOutbound =
      pcieAtuEnable.setWidth 32 ∧
    (∀ a, (∀ reg ∈ outboundRegs, a ≠ dbiAddr build pci (outboundOffset 255 reg)) →
      final a = s a) ∧
    outboundWord build pci final 255 pcieIatuRegionCtrl3OffOutbound =
      outboundWord build pci s 255 pcieIatuRegionCtrl3OffOutbound ∧
    (∀ region dir, regionDir region = some dir → ∀ index' reg : U32, index'.toNat < 256 →
      reg.toNat < 256 → ¬ (region = .outbound ∧ index' = 255) →
        final (dbiAddr build pci (formatDbiAddr .atu (atuAddr index' dir reg))) =
          s (dbiAddr build pci (formatDbiAddr .atu (atuAddr index' dir reg)))) ∧
    ∀ type', Supported type' → type' ≠ .atu → ∀ reg : U32, reg.toNat < 2 ^ 17 →
      final (dbiAddr build pci (formatDbiAddr type' reg)) =
        s (dbiAddr build pci (formatDbiAddr type' reg)) := by
  intro build pci s final
  exact progOutboundAtu_exact build pci 255 0 0xfffff000 0 0x2000 (by decide) s

/-! ## The range a window matches -/

/-- Without wrapping at the top, the window matches exactly the requested range
unless that is the empty one at address 0. -/
theorem progOutboundAtu_matches_iff (index type : U32) (cpuAddr pciAddr size : U64)
    (hindex : index.toNat < 256) (hfit : cpuAddr.toNat + size.toNat ≤ 2 ^ 64) (s : Store) :
    let final := (dwPcieProgOutboundAtu build pci index type cpuAddr pciAddr size).exec
      Decoder.plain.cell s
    (∀ a, (outboundWindow build pci final index).Matches a ↔
        cpuAddr.toNat ≤ a.toNat ∧ a.toNat < cpuAddr.toNat + size.toNat) ↔
      ¬ (cpuAddr = 0 ∧ size = 0) := by
  intro final
  have hwindow : outboundWindow build pci final index =
      Window.ofSize cpuAddr size pciAddr type :=
    (progOutboundAtu_programmed build pci ⟨index, type, cpuAddr, pciAddr, size, hindex⟩ s).window
      build pci
  rw [hwindow]
  exact Window.ofSize_exact_iff pciAddr type hfit

theorem progOutboundAtu_matches_iff_top :
    let build : Build := ⟨false, false, 3, 0⟩
    let pci := (controllers build)[x16]
    let final := (dwPcieProgOutboundAtu build pci 2 0 0xfffffffffffff000 0 0x1000).exec
      Decoder.plain.cell fun _ => 0
    (∀ a, (outboundWindow build pci final 2).Matches a ↔
        (0xfffffffffffff000 : U64).toNat ≤ a.toNat ∧
          a.toNat < (0xfffffffffffff000 : U64).toNat + (0x1000 : U64).toNat) ↔
      ¬ ((0xfffffffffffff000 : U64) = 0 ∧ (0x1000 : U64) = 0) := by
  intro build pci final
  exact progOutboundAtu_matches_iff build pci 2 0 0xfffffffffffff000 0 0x1000 (by decide)
    (by decide) _

/-- A port whose memory base and size were never filled in. -/
theorem progOutboundAtu_matches_all :
    let build : Build := ⟨false, false, 3, 0⟩
    let pci := (controllers build)[x16]
    let final := (dwPcieProgOutboundAtu build pci 2 0 0 0x2000000000000000 0).exec
      Decoder.plain.cell fun _ => 0
    (outboundWindow build pci final 2).Matches 0xff09110000 ∧
      ¬ ((0 : U64).toNat ≤ (0xff09110000 : U64).toNat ∧
        (0xff09110000 : U64).toNat < (0 : U64).toNat + (0 : U64).toNat) := by
  decide

end Call
end DwcPcie.OutboundExact
