import DwcPcie.BringUp
import DwcPcie.FieldUpdate
import DwcPcie.SetupRun
import DwcPcie.Translation

/-! What setup leaves in the registers, bit by bit. Every field it configures
holds its value whatever was there before, except the fast link scale factor,
and every bit outside those fields keeps its initial value. -/
namespace DwcPcie.SetupFields
open Glue Platform Registers Dbi Atu AddressMap Controllers SetupRc SetupEffect RegisterCells
open SetupRun Outbound Translation BringUp FieldUpdate Mmio

section Final
variable (build : Build) (pci : DwPcie) (s : Store)

def finalWord (reg : U32) : U32 :=
  (dwPcieSetupRc build pci).exec Decoder.plain.cell s (dbiAddr build pci (formatDbiAddr .cdm reg))

theorem finalWord_eq (reg : U32) : finalWord build pci s reg =
    (netMask (fun a => a) (setupRcUpdates pci) (formatDbiAddr .cdm reg)).apply
      (s (dbiAddr build pci (formatDbiAddr .cdm reg))) :=
  exec_placed_apply build pci (dwPcieSetupRc_performs Decoder.plain.cell build pci) s _

section Last
variable (reg : U32) {before : MaskedWord 32} (mask : MaskedWord 32) (start len : Nat)
  (hmask : netMask (fun a => a) (setupRcUpdates pci) (formatDbiAddr .cdm reg) =
    before.andThen mask)
include hmask

theorem finalWord_field (hcleared : mask.keep.extractLsb' start len = 0) :
    (finalWord build pci s reg).extractLsb' start len = mask.set.extractLsb' start len := by
  rw [finalWord_eq, hmask, MaskedWord.apply_andThen,
    MaskedWord.extractLsb'_apply_of_cleared mask _ start len hcleared]

theorem finalWord_ones (hset : mask.set.extractLsb' start len = BitVec.allOnes len) :
    (finalWord build pci s reg).extractLsb' start len = BitVec.allOnes len := by
  rw [finalWord_eq, hmask, MaskedWord.apply_andThen,
    MaskedWord.extractLsb'_apply_of_set mask _ start len hset]

end Last

private theorem finalWord_const (reg value : U32) {before : MaskedWord 32}
    (hmask : netMask (fun a => a) (setupRcUpdates pci) (formatDbiAddr .cdm reg) =
      before.andThen (.const value)) : finalWord build pci s reg = value := by
  rw [finalWord_eq, hmask, MaskedWord.apply_andThen, MaskedWord.apply_const]

/-- The fields of a root complex. The class code is the upper half of its word. -/
structure RootComplexFields (lanes : U32) (order : U8) (word : U32 → U32) : Prop where
  baseAddress0 : word pciBaseAddress0 = 0
  baseAddress1 : word pciBaseAddress1 = 0
  interruptPin : (word pciInterruptLine).extractLsb' 8 8 = 0x1
  busNumbers : (word pciPrimaryBus).extractLsb' 0 24 = 0xff0100
  command : (word pciCommand).extractLsb' 0 16 =
    (pciCommandIo ||| pciCommandMemory ||| pciCommandMaster ||| pciCommandSerr).setWidth 16
  classCode : (word (pciClassDevice &&& 0xfffffffc)).extractLsb' 16 16 =
    pciClassBridgePci.setWidth 16
  linkMode : ((word pciePortLinkControl).extractLsb' 16 6).toNat = 2 * lanes.toNat - 1
  linkControl : (word pciePortLinkControl).extractLsb' 7 1 = 1
  linkWidth : ((word pcieLinkWidthSpeedControl).extractLsb' 8 5).toNat = lanes.toNat
  speedChange : (word pcieLinkWidthSpeedControl).extractLsb' 17 1 = 1
  linkNum : (word pciePortForceOff).extractLsb' 0 8 = order
  gen3Related : (word pcieGen3RelatedOff).extractLsb' 9 1 = 1
  rateShadowSel : (word pcieGen3RelatedOff).extractLsb' 24 2 = 1
  roWrEn : (word pcieMiscControl1Off).extractLsb' 0 1 = 0

theorem RootComplexFields.congr {lanes : U32} {order : U8} {word word' : U32 → U32}
    (h : RootComplexFields lanes order word)
    (heq : ∀ reg : U32, reg.toNat < 2 ^ 17 → word' reg = word reg) :
    RootComplexFields lanes order word' := by
  obtain ⟨h1, h2, h3, h4, h5, h6, h7, h8, h9, h10, h11, h12, h13, h14⟩ := h
  constructor <;> rw [heq _ (by decide)] <;> assumption

private theorem linkMode_final (hlanes : pci.laneNum = 4 ∨ pci.laneNum = 8 ∨ pci.laneNum = 16) :
    ((finalWord build pci s pciePortLinkControl).extractLsb' 16 6).toNat =
      2 * pci.laneNum.toNat - 1 := by
  have hcleared : (0xffc0ffff : U32).extractLsb' 16 6 = 0 := by decide
  rw [finalWord_field build pci s _ ⟨0xffc0ffff, linkModeBits pci.laneNum ||| 0x80⟩ 16 6 rfl
    hcleared]
  exact linkModeBits_lanes hlanes

private theorem linkControl_final (hlanes : pci.laneNum = 4 ∨ pci.laneNum = 8 ∨ pci.laneNum = 16) :
    (finalWord build pci s pciePortLinkControl).extractLsb' 7 1 = 1 :=
  finalWord_ones build pci s _ ⟨0xffc0ffff, linkModeBits pci.laneNum ||| 0x80⟩ 7 1 rfl
    (linkModeBits_control hlanes)

/-- The speed change at the end of setup keeps the link width. -/
private theorem linkWidth_final (hlanes : pci.laneNum = 4 ∨ pci.laneNum = 8 ∨ pci.laneNum = 16) :
    ((finalWord build pci s pcieLinkWidthSpeedControl).extractLsb' 8 5).toNat =
      pci.laneNum.toNat := by
  have hmask : netMask (fun a => a) (setupRcUpdates pci)
      (formatDbiAddr .cdm pcieLinkWidthSpeedControl) =
        (MaskedWord.id.andThen ⟨0xffffe0ff, linkWidthBits pci.laneNum⟩).andThen
          (.orWith 0x20000) := rfl
  have hcleared : (0xffffe0ff : U32).extractLsb' 8 5 = 0 := by decide
  rw [finalWord_eq, hmask, MaskedWord.apply_andThen,
    MaskedWord.extractLsb'_apply_of_kept (.orWith 0x20000) _ 8 5 rfl rfl, MaskedWord.apply_andThen,
    MaskedWord.extractLsb'_apply_of_cleared ⟨0xffffe0ff, linkWidthBits pci.laneNum⟩ _ 8 5 hcleared]
  exact linkWidthBits_lanes hlanes

private theorem linkNum_fieldUpdate : finalWord build pci s pciePortForceOff =
    fieldUpdate 7 0 (s (dbiAddr build pci (formatDbiAddr .cdm pciePortForceOff)))
      (pci.order.setWidth 64) := by
  have hmask : netMask (fun a => a) (setupRcUpdates pci) (formatDbiAddr .cdm pciePortForceOff) =
      MaskedWord.id.andThen ⟨0xffffff00, pci.order.setWidth 32⟩ := rfl
  have hnum := (link_fields (s (dbiAddr build pci (formatDbiAddr .cdm pciePortForceOff)))
    (pci.order.setWidth 64)).2.2.1
  rw [finalWord_eq, hmask, MaskedWord.apply_andThen, MaskedWord.apply_id, ← hnum, andAssign_eq,
    orAssign_eq, portLinkNum_order, portLinkNumMask_eq]
  rfl

theorem linkNum_final : (finalWord build pci s pciePortForceOff).extractLsb' 0 8 = pci.order := by
  have hfield : (fieldUpdate 7 0 (s (dbiAddr build pci (formatDbiAddr .cdm pciePortForceOff)))
      (pci.order.setWidth 64)).extractLsb' 0 8 =
        ((pci.order.setWidth 64).setWidth 32).extractLsb' 0 8 := by
    rw [fieldUpdate_eq_field (by decide) (by decide)]
    exact extractLsb'_field (by decide)
  rw [linkNum_fieldUpdate, hfield, BitVec.setWidth_setWidth_of_le _ (by decide)]
  exact order_field pci.order

theorem rootComplexFields (hlanes : pci.laneNum = 4 ∨ pci.laneNum = 8 ∨ pci.laneNum = 16) :
    RootComplexFields pci.laneNum pci.order (finalWord build pci s) where
  baseAddress0 := finalWord_const build pci s _ 0 rfl
  baseAddress1 := finalWord_const build pci s _ 0 rfl
  interruptPin := finalWord_field build pci s _ ⟨0xffff00ff, 0x100⟩ 8 8 rfl rfl
  busNumbers := finalWord_field build pci s _ ⟨0xff000000, 0xff0100⟩ 0 24 rfl rfl
  command := finalWord_field build pci s _ ⟨0xffff0000, 0x107⟩ 0 16 rfl rfl
  classCode := finalWord_field build pci s _ ⟨0x0000ffff, 0x06040000⟩ 16 16 rfl rfl
  linkMode := linkMode_final build pci s hlanes
  linkControl := linkControl_final build pci s hlanes
  linkWidth := linkWidth_final build pci s hlanes
  speedChange := finalWord_ones build pci s _ (.orWith 0x20000) 17 1 rfl rfl
  linkNum := linkNum_final build pci s
  gen3Related := finalWord_ones build pci s _ ⟨0xfcffffff, 0x1000200⟩ 9 1 rfl rfl
  rateShadowSel := finalWord_field build pci s _ ⟨0xfcffffff, 0x1000200⟩ 24 2 rfl rfl
  roWrEn := finalWord_field build pci s _ (.andWith 0xfffffffe) 0 1 rfl rfl

end Final

/-! ## What setup leaves alone -/

/-- The registers of the core that setup configures with the bits it configures. -/
def setupBits : List (U32 × U32) := [
  (pciBaseAddress0, 0xffffffff),
  (pciBaseAddress1, 0xffffffff),
  (pciInterruptLine, 0x0000ff00),
  (pciPrimaryBus, 0x00ffffff),
  (pciCommand, 0x0000ffff),
  (pciClassDevice &&& 0xfffffffc, 0xffff0000),
  (pciePortLinkControl, 0x003f0080),
  (pcieLinkWidthSpeedControl, 0x00021f00),
  (pciePortForceOff, 0x000000ff),
  (pcieGen3RelatedOff, 0x03000200),
  (pcieMiscControl1Off, 0x00000001),
  (pcieTimerCtrlMaxFunNumOff, 0x60000000)]

def Touches (u : OffsetUpdate) : Prop :=
  (∃ p ∈ setupBits, u.addr = formatDbiAddr .cdm p.1 ∧ u.mask.Within p.2) ∨
  ∃ index ∈ [(0 : U32), 1, 2], ∃ reg ∈ outboundRegs, u.addr = outboundOffset index reg

theorem touches_cdm (bits : U32) {reg : U32} {mask : MaskedWord 32}
    (h : (reg, bits) ∈ setupBits ∧ mask.Within bits) : Touches (cdmUpdate reg mask) :=
  .inl ⟨(reg, bits), h.1, rfl, h.2⟩

private theorem touches_call (c : OutboundCall) (hindex : c.index ∈ [(0 : U32), 1, 2]) :
    ∀ u ∈ c.updates, Touches u := by
  intro u hu
  obtain ⟨p, -, hreg, rfl⟩ := OutboundCall.mem_updates_take (k := 8) hu
  exact .inr ⟨c.index, hindex, p.1, hreg, rfl⟩

private theorem linkMode_within (lanes : U32) :
    MaskedWord.Within 0x003f0080 ⟨0xffc0ffff, linkModeBits lanes ||| 0x80⟩ := by
  unfold linkModeBits
  split_ifs <;> decide

private theorem linkWidth_within (lanes : U32) :
    MaskedWord.Within 0x00021f00 ⟨0xffffe0ff, linkWidthBits lanes⟩ := by
  unfold linkWidthBits
  split_ifs <;> decide

private theorem linkNum_within (order : U8) :
    MaskedWord.Within 0x000000ff ⟨0xffffff00, order.setWidth 32⟩ := by
  have hones : (0xff : U32) = (BitVec.allOnes 8).setWidth 32 := by decide
  have hkeep : (0xffffff00 : U32) ||| 0xff = BitVec.allOnes 32 := by decide
  refine ⟨hkeep, ?_⟩
  rw [hones, ← BitVec.setWidth_or, BitVec.or_allOnes]

section Frame
variable (build : Build) (pci : DwPcie)

private theorem beforeWindows_touches : ∀ u ∈ beforeWindows pci, Touches u := by
  unfold beforeWindows unlock setupUpdates headerUpdates
  simp only [List.cons_append, List.nil_append, List.forall_mem_cons]
  have hmode := linkMode_within pci.laneNum
  have hwidth := linkWidth_within pci.laneNum
  have hnum := linkNum_within pci.order
  exact ⟨touches_cdm 0x1 (by decide), touches_cdm 0x60000000 (by decide),
    touches_cdm 0x3f0080 ⟨by decide, hmode⟩, touches_cdm 0x21f00 ⟨by decide, hwidth⟩,
    touches_cdm 0xff ⟨by decide, hnum⟩, touches_cdm 0x3000200 (by decide),
    touches_cdm 0x3000200 (by decide), touches_cdm 0x3000200 (by decide),
    touches_cdm 0xffffffff (by decide), touches_cdm 0xffffffff (by decide),
    touches_cdm 0xff00 (by decide), touches_cdm 0xffffff (by decide),
    touches_cdm 0xffff (by decide), List.forall_mem_nil _⟩

private theorem behindWindows_touches : ∀ u ∈ behindWindows, Touches u := by
  unfold behindWindows finalUpdates relock
  simp only [List.cons_append, List.nil_append, List.forall_mem_cons]
  exact ⟨touches_cdm 0xffffffff (by decide), touches_cdm 0xffff0000 (by decide),
    touches_cdm 0x21f00 (by decide), touches_cdm 0x1 (by decide), List.forall_mem_nil _⟩

theorem setupRcUpdates_touches : ∀ u ∈ setupRcUpdates pci, Touches u := by
  rw [setupRcUpdates_split]
  simp only [List.forall_mem_append]
  exact ⟨beforeWindows_touches pci, touches_call (cfg1Call pci.pp) (by simp [cfg1Call]),
    touches_call (cfg0Call pci.pp) (by simp [cfg0Call]),
    touches_call (memCall pci.pp) (by simp [memCall]), behindWindows_touches⟩

/-- The bit belongs neither to a configured field nor to a programmed window. -/
def Untouched (a : BusAddr) (i : Nat) : Prop :=
  (∀ p ∈ setupBits, a = dbiAddr build pci (formatDbiAddr .cdm p.1) → p.2.getLsbD i = false) ∧
  ∀ index ∈ [(0 : U32), 1, 2], ∀ reg ∈ outboundRegs,
    a ≠ dbiAddr build pci (outboundOffset index reg)

theorem setupRc_keeps_bit {a : BusAddr} {i : Nat} (h : Untouched build pci a i) (s : Store) :
    ((dwPcieSetupRc build pci).exec Decoder.plain.cell s a).getLsbD i = (s a).getLsbD i := by
  rw [(dwPcieSetupRc_performs Decoder.plain.cell build pci).exec]
  apply perform_keeps Decoder.plain.cell (BitVec.getLsbD · i)
  intro u hu haddr word
  obtain ⟨v, hv, rfl⟩ := List.mem_map.mp hu
  have hplace : dbiAddr build pci v.addr = a := haddr
  rcases setupRcUpdates_touches pci v hv with ⟨p, hp, hreg, hmask⟩ | ⟨index, hindex, reg, hreg, hv⟩
  · exact hmask.getLsbD_apply word (h.1 p hp (hreg ▸ hplace.symm))
  · exact absurd hplace.symm (hv ▸ h.2 index hindex reg hreg)

theorem setupRc_frame {a : BusAddr}
    (h : ∀ offset ∈ lockOffset :: configOffsets ++ [lockOffset], a ≠ dbiAddr build pci offset)
    (s : Store) : (dwPcieSetupRc build pci).exec Decoder.plain.cell s a = s a := by
  rw [(dwPcieSetupRc_performs Decoder.plain.cell build pci).exec]
  apply perform_frame
  intro u hu haddr
  obtain ⟨offset, hoffset, hu⟩ := mem_placed_addr build pci hu
  rw [setupRcUpdates_offsets] at hoffset
  exact h offset hoffset ((show u.addr = a from haddr).symm.trans hu)

theorem setupRc_keeps_space {type : DwPcieAccessType} (hcdm : type ≠ .cdm) (hatu : type ≠ .atu)
    (htype : Supported type) {reg : U32} (hreg : reg.toNat < 2 ^ 17) (s : Store) :
    (dwPcieSetupRc build pci).exec Decoder.plain.cell s (dbiAddr build pci (formatDbiAddr type reg))
      = s (dbiAddr build pci (formatDbiAddr type reg)) := by
  apply setupRc_frame
  intro offset hoffset haddr
  have hspaces : ∀ o ∈ lockOffset :: configOffsets ++ [lockOffset],
      o.toNat / 2 ^ 17 = 0 ∨ o.toNat / 2 ^ 17 = 2 := List.all_iff_forall_prop.mp (by decide)
  have hspace := hspaces offset hoffset
  rw [← dbiAddr_injective build pci haddr] at hspace
  cases type with
  | shadow =>
    have hone : (1 : U32).toNat = 1 := rfl
    rw [formatDbiAddr_toNat (show route1 .shadow = some 1 from rfl) reg hreg] at hspace
    omega
  | dma =>
    have hthree : (3 : U32).toNat = 3 := rfl
    rw [formatDbiAddr_toNat (show route1 .dma = some 3 from rfl) reg hreg] at hspace
    omega
  | cdm => exact hcdm rfl
  | atu => exact hatu rfl
  | elbi => exact absurd htype (by decide)
  | msiTable => exact absurd htype (by decide)
  | msiPba => exact absurd htype (by decide)

end Frame

theorem setupRc_keeps_controller (build : Build) (config : Fin 4 → PortConfig) {i j : Fin 4}
    (hij : i ≠ j) {offset : U64} (hoffset : offset.toNat < 2 ^ 19) (s : Store) :
    (dwPcieSetupRc build (entry build config i)).exec Decoder.plain.cell s
        (dbiAddr build (entry build config j) offset) =
      s (dbiAddr build (entry build config j) offset) := by
  apply setupRc_frame
  intro offset' hoffset' haddr
  exact hij (dbiAddr_controllers_inj build hoffset (setupRc_offset_lt hoffset') haddr).1.symm

/-- Setup configures the fields of a root complex and changes no bit of any bus
word besides them, the fast link scale factor and the three windows. -/
theorem setupRc_exact (build : Build) (pci : DwPcie)
    (hlanes : pci.laneNum = 4 ∨ pci.laneNum = 8 ∨ pci.laneNum = 16) (s : Store) :
    let final := (dwPcieSetupRc build pci).exec Decoder.plain.cell s
    RootComplexFields pci.laneNum pci.order
      (fun reg => final (dbiAddr build pci (formatDbiAddr .cdm reg))) ∧
    (∀ a bit, Untouched build pci a bit → (final a).getLsbD bit = (s a).getLsbD bit) ∧
    (∀ type, type ≠ .cdm → type ≠ .atu → Supported type → ∀ reg : U32, reg.toNat < 2 ^ 17 →
      final (dbiAddr build pci (formatDbiAddr type reg)) =
        s (dbiAddr build pci (formatDbiAddr type reg))) ∧
    ∀ (config : Fin 4 → PortConfig) (i j : Fin 4), pci = entry build config i → i ≠ j →
      ∀ offset : U64, offset.toNat < 2 ^ 19 →
        final (dbiAddr build (entry build config j) offset) =
          s (dbiAddr build (entry build config j) offset) := by
  refine ⟨rootComplexFields build pci s hlanes, fun a bit h => setupRc_keeps_bit build pci h s,
    fun type hcdm hatu htype reg hreg => setupRc_keeps_space build pci hcdm hatu htype hreg s, ?_⟩
  rintro config i j rfl hij offset hoffset
  exact setupRc_keeps_controller build config hij hoffset s

theorem setupRc_exact_x8 :
    let build : Build := ⟨false, false, 3, 0⟩
    let ports : Fin 4 → PortConfig := fun i => ⟨8, 1, ((controllers build).get i).pp, true⟩
    let pci := entry build ports 1
    let s : Store := fun _ => 0xffffffff
    let final := (dwPcieSetupRc build pci).exec Decoder.plain.cell s
    RootComplexFields 8 1 (fun reg => final (dbiAddr build pci (formatDbiAddr .cdm reg))) ∧
    (∀ a bit, Untouched build pci a bit → (final a).getLsbD bit = (s a).getLsbD bit) ∧
    (∀ type, type ≠ .cdm → type ≠ .atu → Supported type → ∀ reg : U32, reg.toNat < 2 ^ 17 →
      final (dbiAddr build pci (formatDbiAddr type reg)) =
        s (dbiAddr build pci (formatDbiAddr type reg))) ∧
    ∀ (config : Fin 4 → PortConfig) (i j : Fin 4), pci = entry build config i → i ≠ j →
      ∀ offset : U64, offset.toNat < 2 ^ 19 →
        final (dbiAddr build (entry build config j) offset) =
          s (dbiAddr build (entry build config j) offset) := by
  intro build ports pci s
  exact setupRc_exact build pci (.inr (.inl rfl)) s

/-! ## The fast link scale factor -/

theorem timerCtrl_final (build : Build) (pci : DwPcie) (s : Store) :
    setupWord build pci s pcieTimerCtrlMaxFunNumOff =
      s (dbiAddr build pci (formatDbiAddr .cdm pcieTimerCtrlMaxFunNumOff)) ||| 0x40000000 := by
  have hmask : netMask (fun a => a) (setupUpdates pci)
      (formatDbiAddr .cdm pcieTimerCtrlMaxFunNumOff) =
        MaskedWord.id.andThen (.orWith 0x40000000) := rfl
  rw [setupWord_eq, hmask, MaskedWord.apply_andThen, MaskedWord.apply_id, MaskedWord.apply_orWith]

/-- The scale factor is set by an or that does not clear the field first, so it
comes out as 2 just if its low bit was clear. -/
theorem fastLinkScale_iff (build : Build) (pci : DwPcie) (s : Store) :
    let timerCtrl := dbiAddr build pci (formatDbiAddr .cdm pcieTimerCtrlMaxFunNumOff)
    let final := (dwPcieSetup build pci).exec Decoder.plain.cell s
    ((final timerCtrl).extractLsb' 29 2 = 2 ∧
        ∀ i, i ≠ 29 → i ≠ 30 → (final timerCtrl).getLsbD i = (s timerCtrl).getLsbD i) ↔
      (s timerCtrl).getLsbD 29 = false := by
  intro timerCtrl final
  have hfinal : final timerCtrl = s timerCtrl ||| 0x40000000 := timerCtrl_final build pci s
  have hmask : ∀ i < 32, (0x40000000 : U32).getLsbD i = decide (i = 30) := by decide
  have htwo : ∀ field : BitVec 2, field = 2 ↔
      field.getLsbD 0 = false ∧ field.getLsbD 1 = true := by decide
  rw [hfinal, htwo]
  simp only [BitVec.getLsbD_extractLsb', BitVec.getLsbD_or, hmask 29 (by decide),
    hmask 30 (by decide)]
  constructor
  · rintro ⟨⟨hlow, -⟩, -⟩
    simpa using hlow
  · intro hlow
    refine ⟨⟨by simpa using hlow, by simp⟩, fun i h29 h30 => ?_⟩
    by_cases hi : i < 32
    · rw [hmask i hi, decide_eq_false h30, Bool.or_false]
    · rw [BitVec.getLsbD_of_ge _ i (by omega), BitVec.getLsbD_of_ge _ i (by omega), Bool.or_false]

/-- A controller whose register holds a scale factor of 1, as after a restart. -/
theorem fastLinkScale_kept :
    let build : Build := ⟨false, false, 3, 0⟩
    let pci := (controllers build)[x16]
    let timerCtrl := dbiAddr build pci (formatDbiAddr .cdm pcieTimerCtrlMaxFunNumOff)
    let final := (dwPcieSetup build pci).exec Decoder.plain.cell fun _ => 0x20000000
    (final timerCtrl).extractLsb' 29 2 = 3 ∧ (final timerCtrl).extractLsb' 29 2 ≠ 2 := by
  decide

end DwcPcie.SetupFields
