import DwcPcie.PlatformRun

/-! What is known of bring-up on real hardware, whose registers may answer
anything: where its transactions go, and that a write which keeps some bits of a
register keeps those it has just read. -/
namespace DwcPcie.Transcripts
open Glue Platform Registers Dbi AddressMap Controllers SetupRc SetupEffect Duowen RegisterCells
open SetupRun Outbound BringUp SetupFields PlatformEffect Mmio

/-! ## Merging writes -/

section Setup
variable (build : Build) (pci : DwPcie)

end Setup

/-- A write to an APB register, or a transaction at a register of a controller
that is set up. -/
def InFootprint (build : Build) (table : Vector DwPcie 4) (t : Transaction BusAddr U32) : Prop :=
  (∃ r value, t = .write (ApbReg.addr build r) value) ∨
  ∃ i ∈ setupCalls table, ∃ offset ∈ lockOffset :: configOffsets,
    t.addr = dbiAddr build ((controllers build).get i) offset

section Footprint
variable {build : Build} {table : Vector DwPcie 4}

theorem InFootprint.aligned {t : Transaction BusAddr U32} (h : InFootprint build table t) :
    t.addr.Aligned := by
  rcases h with ⟨r, value, rfl⟩ | ⟨i, -, offset, hoffset, haddr⟩
  · exact r.addr_aligned build
  · have haligned : ∀ o ∈ lockOffset :: configOffsets, o.toNat % 4 = 0 :=
      List.all_iff_forall_prop.mp (by decide)
    rw [haddr, dbiAddr_aligned_iff build _ (dbiBase_aligned build i)]
    exact haligned offset hoffset

theorem writeApb_footprint (r : ApbReg) (value : U32) {addr : U64} {port : U8}
    (h : apbAddr build addr port = ApbReg.addr build r) :
    (writeApb build addr value port).Emits (InFootprint build table) := by
  rw [writeApb_eq]
  exact ⟨.inl ⟨r, value, by rw [h]⟩, trivial⟩

theorem dwPcieSetupRc_footprint {pci : DwPcie} {i : Fin 4} (hi : i ∈ setupCalls table)
    (hpci : dbiAddr build pci = dbiAddr build ((controllers build).get i)) :
    (dwPcieSetupRc build pci).Emits (InFootprint build table) := by
  refine (dwPcieSetupRc_scripted build pci).emits.mono fun t ht => .inr ⟨i, hi, ?_⟩
  obtain ⟨u, hu, haddr⟩ := List.mem_map.mp ht
  obtain ⟨offset, hoffset, hu⟩ := mem_placed_addr build pci hu
  rw [setupRcUpdates_offsets] at hoffset
  refine ⟨offset, ?_, by rw [← haddr, hu, hpci]⟩
  rcases List.mem_append.mp hoffset with hoffset | hoffset
  · exact hoffset
  · exact List.mem_cons.mpr (.inl (List.mem_singleton.mp hoffset))

end Footprint

section Platform
variable {build : Build} {udelay : U32 → Bus PUnit} {Wait : Transaction BusAddr U32 → Prop}
  (hdelay : ∀ time, (udelay time).Emits Wait) {table : Vector DwPcie 4}

theorem subsysLinkInitPost_footprint (calls table : Vector DwPcie 4) :
    (subsysLinkInitPost build (instanceSubsystem build table)).Emits (InFootprint build calls) := by
  refine .forM fun w hw => ?_
  rw [postWrites_eq] at hw
  obtain ⟨i, -, rfl⟩ := List.mem_map.mp hw
  refine writeApb_footprint (.core i) _ ?_
  exact match i with | 0 => rfl | 1 => rfl | 2 => rfl | 3 => rfl

include hdelay

theorem resetInit_footprint (calls : Vector DwPcie 4) :
    (resetInit build udelay (instanceSubsystem build table)).Emits
      fun t => Wait t ∨ InFootprint build calls t := by
  have hwait : (udelay 1).Emits fun t => Wait t ∨ InFootprint build calls t :=
    (hdelay 1).mono fun t => .inl
  have hwrite (r : ApbReg) {addr : U64} (value : U32) {port : U8}
      (h : apbAddr build addr port = ApbReg.addr build r) :
      (writeApb build addr value port).Emits fun t => Wait t ∨ InFootprint build calls t :=
    (writeApb_footprint r value h).mono fun t => .inr
  unfold resetInit
  exact (hwrite .resetPhy _ rfl).bind fun _ => hwait.bind fun _ =>
    (hwrite (.resetCore 0) _ rfl).bind fun _ => (hwrite (.resetCore 1) _ rfl).bind fun _ =>
    (hwrite (.resetCore 2) _ rfl).bind fun _ => (hwrite (.resetCore 3) _ rfl).bind fun _ =>
    hwrite .resetPhy _ rfl

/-- Whatever the hardware answers, each transaction of bring-up belongs to a wait,
or it is word aligned and in the footprint of the chosen table: a write to one of
the ten APB registers, or at a configured register of a controller that is set up. -/
theorem pciPlatformInit_footprint (hreach : Reachable build table) (answers : Nat → BusAddr → U32)
    (k : Nat) : ∀ t ∈ (pciPlatformInit build udelay table).transcript answers k,
      Wait t ∨ t.addr.Aligned ∧
        InFootprint build (selectLinks build build.defaultLinkMode table) t := by
  have hemits : (pciPlatformInit build udelay table).Emits fun t =>
      Wait t ∨ InFootprint build (chosen build table) t := by
    have hwait : (udelay 1).Emits fun t => Wait t ∨ InFootprint build (chosen build table) t :=
      (hdelay 1).mono fun t => .inl
    unfold pciPlatformInit subsysLinkInitPre
    refine (resetInit_footprint hdelay _).bind fun _ => ?_
    simp only [bind_assoc, pure_bind]
    refine ((writeApb_footprint .control _ rfl).mono fun t => .inr).bind fun _ =>
      hwait.bind fun _ => ?_
    refine .bind ?_ fun _ => ((subsysLinkInitPost_footprint _ (chosen build table)).mono
      fun t => .inr).bind fun _ => trivial
    rw [setupActive_eq_forM]
    refine .forM fun i hi => (dwPcieSetupRc_footprint hi ?_).mono fun t => .inr
    exact (chosen_static hreach).dbiAddr_eq i
  intro t ht
  exact (hemits.transcript answers k t ht).imp_right fun h => ⟨h.aligned, h⟩

end Platform

/-- On a counter that moves by 100 between reads both waits end, and everything
outside the footprint is a read of the counter. -/
theorem pciPlatformInit_footprint_ipbench :
    let build : Build := ⟨true, false, 1, 0⟩
    let answers : Nat → BusAddr → U32 := fun k _ => BitVec.ofNat 32 (k * 100)
    let udelay (time : U32) : Bus PUnit := Delay.udelay build 2 time >>= fun _ => pure ⟨⟩
    (Delay.udelay build 2 1).answered answers 0 = (true, 3) ∧
    (Delay.udelay build 2 1).answered answers 3 = (true, 6) ∧
    ∀ t ∈ (pciPlatformInit build udelay (controllers build)).transcript answers 0,
      (∃ word, t = .read (Delay.counterAddr build) word) ∨ t.addr.Aligned ∧
        InFootprint build (selectLinks build build.defaultLinkMode (controllers build)) t := by
  intro build answers udelay
  have hdelay (time : U32) :
      (udelay time).Emits fun t => ∃ word, t = .read (Delay.counterAddr build) word :=
    (Delay.udelay_emits build 2 time).bind fun _ => trivial
  exact ⟨by decide, by decide, pciPlatformInit_footprint hdelay .initial answers 0⟩

end DwcPcie.Transcripts
