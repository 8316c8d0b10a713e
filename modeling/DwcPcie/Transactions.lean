import DwcPcie.AddressMap
import DwcPcie.Controllers
import DwcPcie.Mmio.Confinement

/-! The bus transactions of one access, for arguments of any kind: whether their
addresses are aligned, and which words a write reaches. The address of an access
is computed without a check, so this depends on what the caller passes. -/
namespace DwcPcie.Transactions
open Glue Platform Dbi Atu AddressMap Controllers Mmio

def ValidSize (size : Nat) : Prop := size = 1 ∨ size = 2 ∨ size = 4

instance (size : Nat) : Decidable (ValidSize size) := inferInstanceAs (Decidable (_ ∨ _))

/-- The offset a read is issued at, cut to the width its helper takes. -/
def readReg (reg : U32) (size : Nat) : U32 :=
  if size = 1 then (reg.setWidth 8).setWidth 32
  else if size = 2 then (reg.setWidth 16).setWidth 32
  else reg

/-- The offset a write is issued at. The narrow writes round it down to a word. -/
def writeReg (reg : U32) (size : Nat) : U32 := if size = 4 then reg else reg &&& 0xfffffffc

def writeMask (reg val : U32) (size : Nat) : MaskedWord 32 :=
  if size = 1 then
    let shift : U8 := (reg &&& 0x3).setWidth 8
    ⟨~~~((0xff : U32) <<< (8 * shift.toNat)),
      ((val.setWidth 8 : U8).setWidth 32) <<< (8 * shift.toNat)⟩
  else if size = 2 then
    let shift : U8 := (reg &&& 0x2).setWidth 8
    ⟨(0xffff0000 : U32) >>> (shift.toNat * 8),
      ((val.setWidth 16 : U16).setWidth 32) <<< (shift.toNat * 8)⟩
  else .const val

section Access
variable (cell : BusAddr → BusAddr) (build : Build) (pci : DwPcie) (type : DwPcieAccessType)

theorem dwPcieReadDbi_accesses (reg : U32) {size : Nat} (hsize : ValidSize size) (s : Store) :
    (dwPcieReadDbi build pci type reg size).accesses cell s =
      [dbiAddr build pci (formatDbiAddr type (readReg reg size))] := by
  rcases hsize with rfl | rfl | rfl
  · simp only [dwPcieReadDbi, readbDbi, readDbi_eq]
    rfl
  · simp only [dwPcieReadDbi, readwDbi, readDbi_eq]
    rfl
  · rw [dwPcieReadDbi_four]
    rfl

theorem dwPcieReadDbi_invalid (reg : U32) {size : Nat} (hsize : ¬ ValidSize size) :
    dwPcieReadDbi build pci type reg size = pure build.unset := by
  unfold dwPcieReadDbi
  split
  · exact absurd (.inl rfl) hsize
  · exact absurd (.inr (.inl rfl)) hsize
  · exact absurd (.inr (.inr rfl)) hsize
  · rfl

theorem dwPcieWriteDbi_updates (reg val : U32) {size : Nat} (hsize : ValidSize size) :
    Performs cell (dwPcieWriteDbi build pci type reg val size)
      [⟨dbiAddr build pci (formatDbiAddr type (writeReg reg size)), writeMask reg val size⟩] := by
  rcases hsize with rfl | rfl | rfl
  · simp only [dwPcieWriteDbi, dwPcieWritebDbi, readlDbi, readDbi_eq, writeDbi_eq]
    exact .modify _ _ _ fun word => rfl
  · simp only [dwPcieWriteDbi, dwPcieWritewDbi, readlDbi, readDbi_eq, writeDbi_eq]
    exact .modify _ _ _ fun word => rfl
  · rw [dwPcieWriteDbi_four]
    exact .put _ _

theorem dwPcieWriteDbi_invalid (reg val : U32) {size : Nat} (hsize : ¬ ValidSize size) :
    dwPcieWriteDbi build pci type reg val size = pure () := by
  unfold dwPcieWriteDbi
  split
  · exact absurd (.inl rfl) hsize
  · exact absurd (.inr (.inl rfl)) hsize
  · exact absurd (.inr (.inr rfl)) hsize
  · rfl

theorem dwPcieWriteDbi_accesses (reg val : U32) {size : Nat} (hsize : ValidSize size) (s : Store) :
    ∀ a ∈ (dwPcieWriteDbi build pci type reg val size).accesses cell s,
      a = dbiAddr build pci (formatDbiAddr type (writeReg reg size)) := by
  rcases hsize with rfl | rfl | rfl
  · simp only [dwPcieWriteDbi, dwPcieWritebDbi, readlDbi, readDbi_eq, writeDbi_eq]
    simp [Program.fetch, Program.put, Program.accesses, writeReg]
  · simp only [dwPcieWriteDbi, dwPcieWritewDbi, readlDbi, readDbi_eq, writeDbi_eq]
    simp [Program.fetch, Program.put, Program.accesses, writeReg]
  · rw [dwPcieWriteDbi_four]
    simp [Program.put, Program.accesses, writeReg]

end Access

/-! ## Alignment -/

private theorem readReg_mod_four (reg : U32) (size : Nat) :
    (readReg reg size).toNat % 4 = reg.toNat % 4 := by
  unfold readReg
  split_ifs
  · rw [BitVec.toNat_setWidth, BitVec.toNat_setWidth]
    omega
  · rw [BitVec.toNat_setWidth, BitVec.toNat_setWidth]
    omega
  · rfl

theorem writeReg_toNat (reg : U32) (size : Nat) :
    (writeReg reg size).toNat = if size = 4 then reg.toNat else reg.toNat / 4 * 4 := by
  have hreg := reg.isLt
  unfold writeReg
  split_ifs
  · rfl
  · rw [and_word_mask, BitVec.toNat_ofNat]
    omega

theorem writeReg_div (reg : U32) (size : Nat) {block : Nat} (h : 4 ∣ block) :
    (writeReg reg size).toNat / block = reg.toNat / block := by
  obtain ⟨words, rfl⟩ := h
  rw [writeReg_toNat]
  split_ifs
  · rfl
  · rw [← Nat.div_div_eq_div_mul, Nat.mul_div_cancel _ (by decide), Nat.div_div_eq_div_mul]

section Aligned
variable (build : Build) (pci : DwPcie) (hbase : pci.dbiBase.toNat % 4 = 0)
  {type : DwPcieAccessType} (htype : Supported type)
include hbase htype

theorem write_aligned {reg : U32} {size : Nat} (hsize : ValidSize size)
    (haligned : reg.toNat % size = 0) (val : U32) (s : Store) :
    ∀ a ∈ (dwPcieWriteDbi build pci type reg val size).accesses Decoder.plain.cell s,
      a.Aligned := by
  intro a ha
  have hreg : (writeReg reg size).toNat % 4 = 0 := by
    rw [writeReg_toNat]
    split_ifs with hfour
    · exact hfour ▸ haligned
    · exact Nat.mul_mod_left _ _
  rw [dwPcieWriteDbi_accesses _ build pci type reg val hsize s a ha,
    dbiAddr_aligned_iff build pci hbase, formatDbiAddr_mod_four htype, hreg]

theorem read_aligned_iff (reg : U32) {size : Nat} (hsize : ValidSize size) (s : Store) :
    (∀ a ∈ (dwPcieReadDbi build pci type reg size).accesses Decoder.plain.cell s, a.Aligned) ↔
      reg.toNat % 4 = 0 := by
  rw [dwPcieReadDbi_accesses _ build pci type reg hsize, List.forall_mem_singleton,
    dbiAddr_aligned_iff build pci hbase, formatDbiAddr_mod_four htype, readReg_mod_four]

end Aligned

/-- At naturally aligned offsets the transactions of writes are aligned, and those
of reads just at word-aligned ones: reads do not clear the low bits of the address. -/
theorem accesses_aligned_iff (build : Build) (pci : DwPcie) (hbase : pci.dbiBase.toNat % 4 = 0)
    (type : DwPcieAccessType) (htype : Supported type) (reg : U32) (size : Nat)
    (hsize : size = 1 ∨ size = 2 ∨ size = 4) (haligned : reg.toNat % size = 0) :
    (∀ (s : Store) (val : U32),
      ∀ a ∈ (dwPcieWriteDbi build pci type reg val size).accesses Decoder.plain.cell s,
        a.Aligned) ∧
    ((∀ s : Store, ∀ a ∈ (dwPcieReadDbi build pci type reg size).accesses Decoder.plain.cell s,
        a.Aligned) ↔
      reg.toNat % 4 = 0) := by
  refine ⟨fun s val => write_aligned build pci hbase htype hsize haligned val s, ?_, ?_⟩
  · intro h
    exact (read_aligned_iff build pci hbase htype reg hsize fun _ => 0).mp (h fun _ => 0)
  · intro hreg s
    exact (read_aligned_iff build pci hbase htype reg hsize s).mpr hreg

theorem accesses_aligned_iff_byte :
    let build : Build := ⟨false, false, 3, 0⟩
    let pci := (controllers build)[x16]
    (∀ (s : Store) (val : U32),
      ∀ a ∈ (dwPcieWriteDbi build pci .cdm 0x711 val 1).accesses Decoder.plain.cell s,
        a.Aligned) ∧
    ((∀ s : Store, ∀ a ∈ (dwPcieReadDbi build pci .cdm 0x711 1).accesses Decoder.plain.cell s,
        a.Aligned) ↔
      (0x711 : U32).toNat % 4 = 0) :=
  accesses_aligned_iff _ _ (by decide) .cdm rfl 0x711 1 (.inl rfl) rfl

/-- The class code halfword is read at its own address and written at its word's. -/
theorem read_unaligned_class :
    let build : Build := ⟨false, false, 3, 0⟩
    let pci := (controllers build)[x16]
    (dwPcieReadDbi build pci .cdm 0x0a 2).accesses Decoder.plain.cell (fun _ => 0) =
        [⟨.mmio, 0xff0911000a⟩] ∧
      ¬ BusAddr.Aligned ⟨.mmio, 0xff0911000a⟩ ∧
      (dwPcieWriteDbi build pci .cdm 0x0a 0x0604 2).accesses Decoder.plain.cell (fun _ => 0) =
        [⟨.mmio, 0xff09110008⟩, ⟨.mmio, 0xff09110008⟩] := by
  decide

/-! ## Which words a write reaches -/

private theorem low_bits_le (reg bits : U32) (h : bits.toNat ≤ 3) :
    ((reg &&& bits).setWidth 8).toNat ≤ 3 := by
  have hand : reg.toNat &&& bits.toNat ≤ bits.toNat := Nat.and_le_right
  rw [BitVec.toNat_setWidth, BitVec.toNat_and]
  omega

theorem writeMask_ones (reg : U32) {size : Nat} (hsize : ValidSize size) :
    (writeMask reg 0xffffffff size).apply 0 ≠ 0 := by
  have hbyte : ∀ n ≤ 3, (0xff : U32) <<< (8 * n) ≠ 0 := by decide
  have hhalf : ∀ n ≤ 3, (0xffff : U32) <<< (n * 8) ≠ 0 := by decide
  have hset (keep set : U32) : MaskedWord.apply ⟨keep, set⟩ 0 = set := by
    simp [MaskedWord.apply]
  rcases hsize with rfl | rfl | rfl
  · have hshift := low_bits_le reg 0x3 (by decide)
    exact (hset _ _).trans_ne (hbyte _ hshift)
  · have hshift := low_bits_le reg 0x2 (by decide)
    exact (hset _ _).trans_ne (hhalf _ hshift)
  · exact (MaskedWord.apply_const _ _).trans_ne (by decide)

section Spaces
variable (build : Build) (pci : DwPcie)

def dbiSpace (type : DwPcieAccessType) (a : BusAddr) : Prop :=
  ∃ route offset, route1 type = some route ∧ a = dbiAddr build pci offset ∧
    offset.toNat / 2 ^ 17 = route.toNat

/-- The number of a bank, counted in banks of 256 bytes from the base. -/
def atuBankNumber (index dir : U32) : Nat := (2 * 256 + index.toNat) * 2 + dir.toNat

def atuBank (region : DwPcieRegionType) (index : U32) (a : BusAddr) : Prop :=
  ∃ dir offset, regionDir region = some dir ∧ index.toNat < 256 ∧
    a = dbiAddr build pci offset ∧ offset.toNat / 2 ^ 8 = atuBankNumber index dir

/-- The offset reaches no bit of the space number that is not set anyway. -/
def FitsSpace (type : DwPcieAccessType) (reg : U32) : Prop :=
  ∃ route, route1 type = some route ∧ route.toNat ||| reg.toNat / 2 ^ 17 = route.toNat

/-- The offset reaches no bit of the bank number that is not set anyway. -/
def FitsBank (region : DwPcieRegionType) (index reg : U32) : Prop :=
  ∃ dir, regionDir region = some dir ∧ index.toNat < 256 ∧
    atuBankNumber index dir ||| reg.toNat / 2 ^ 8 = atuBankNumber index dir

theorem dbiSpace_iff (type : DwPcieAccessType) (reg : U32) (size : Nat) :
    Supported type ∧ dbiSpace build pci type
        (dbiAddr build pci (formatDbiAddr type (writeReg reg size))) ↔ FitsSpace type reg := by
  have hreg := writeReg_div reg size (show 4 ∣ 2 ^ 17 by decide)
  have hoffset {route : U32} (hroute : route1 type = some route) :
      (formatDbiAddr type (writeReg reg size)).toNat / 2 ^ 17 =
        route.toNat ||| reg.toNat / 2 ^ 17 := by
    rw [formatDbiAddr_or hroute, Nat.or_div_two_pow, hreg, Nat.mul_div_cancel _ (by decide)]
  constructor
  · rintro ⟨-, route, offset, hroute, haddr, hspace⟩
    rw [← dbiAddr_injective build pci haddr, hoffset hroute] at hspace
    exact ⟨route, hroute, hspace⟩
  · rintro ⟨route, hroute, hfits⟩
    exact ⟨Option.isSome_iff_exists.mpr ⟨route, hroute⟩, route, _, hroute, rfl,
      (hoffset hroute).trans hfits⟩

private theorem atuBankNumber_eq {index dir : U32} (hindex : index.toNat < 256)
    (hdir : dir.toNat < 2) :
    atuBankNumber index dir = 2 * 2 ^ 9 ||| (index.toNat * 2 ^ 1 ||| dir.toNat) := by
  have hlow : index.toNat * 2 ^ 1 ||| dir.toNat = index.toNat * 2 ^ 1 + dir.toNat := by
    rw [← Nat.shiftLeft_eq, Nat.shiftLeft_add_eq_or_of_lt (by omega)]
  have hall : 2 * 2 ^ 9 ||| (index.toNat * 2 ^ 1 + dir.toNat) =
      2 * 2 ^ 9 + (index.toNat * 2 ^ 1 + dir.toNat) := by
    rw [← Nat.shiftLeft_eq 2, Nat.shiftLeft_add_eq_or_of_lt (by omega)]
  rw [hlow, hall]
  unfold atuBankNumber
  omega

private theorem atuAddr_div {index dir : U32} (hindex : index.toNat < 256) (hdir : dir.toNat < 2)
    (reg : U32) : (atuAddr index dir reg).toNat / 2 ^ 8 =
      index.toNat * 2 ^ 1 ||| dir.toNat ||| reg.toNat / 2 ^ 8 := by
  have hhigh : (index <<< 9).toNat / 2 ^ 8 = index.toNat * 2 ^ 1 := by
    rw [BitVec.toNat_shiftLeft, Nat.shiftLeft_eq]
    omega
  have hmiddle : (dir <<< 8).toNat / 2 ^ 8 = dir.toNat := by
    rw [BitVec.toNat_shiftLeft, Nat.shiftLeft_eq]
    omega
  unfold atuAddr
  rw [BitVec.toNat_or, BitVec.toNat_or, Nat.or_div_two_pow, Nat.or_div_two_pow, hhigh, hmiddle]

private theorem formatDbiAddr_atu (reg : U32) :
    (formatDbiAddr .atu reg).toNat = 2 * 2 ^ 17 ||| reg.toNat :=
  formatDbiAddr_or (show route1 .atu = some 2 from rfl) reg

theorem atuBank_iff {region : DwPcieRegionType} {dir : U32} (hdir : regionDir region = some dir)
    (index reg : U32) (size : Nat) :
    index.toNat < 256 ∧ atuBank build pci region index
        (dbiAddr build pci (formatDbiAddr .atu (writeReg (atuAddr index dir reg) size))) ↔
      FitsBank region index reg := by
  have hlt := regionDir_lt hdir
  have hreg := writeReg_div (atuAddr index dir reg) size (show 4 ∣ 2 ^ 8 by decide)
  have hoffset (hindex : index.toNat < 256) :
      (formatDbiAddr .atu (writeReg (atuAddr index dir reg) size)).toNat / 2 ^ 8 =
        atuBankNumber index dir ||| reg.toNat / 2 ^ 8 := by
    have hspace : 2 * 2 ^ 17 / 2 ^ 8 = 2 * 2 ^ 9 := rfl
    rw [formatDbiAddr_atu, Nat.or_div_two_pow, hspace, hreg, atuAddr_div hindex hlt,
      atuBankNumber_eq hindex hlt, ← Nat.or_assoc]
  constructor
  · rintro ⟨hindex, dir', offset, hdir', -, haddr, hbank⟩
    obtain rfl : dir = dir' := Option.some.inj (hdir.symm.trans hdir')
    rw [← dbiAddr_injective build pci haddr, hoffset hindex] at hbank
    exact ⟨dir, hdir, hindex, hbank⟩
  · rintro ⟨dir', hdir', hindex, hfits⟩
    obtain rfl : dir = dir' := Option.some.inj (hdir.symm.trans hdir')
    exact ⟨hindex, dir, _, hdir, hindex, rfl, (hoffset hindex).trans hfits⟩

theorem write_confined_iff (type : DwPcieAccessType) (reg : U32) (size : Nat) :
    (∀ val s, Confined Decoder.plain.cell (Supported type ∧ ValidSize size)
        (dbiSpace build pci type) (dwPcieWriteDbi build pci type reg val size) s) ↔
      (ValidSize size → FitsSpace type reg) := by
  by_cases hsize : ValidSize size
  · have hwrite (val : U32) :=
      dwPcieWriteDbi_updates Decoder.plain.cell build pci type reg val hsize
    rw [confined_updates_iff hwrite (writeMask_ones reg hsize),
      ← dbiSpace_iff build pci type reg size]
    simp only [hsize, and_true, true_implies]
    rfl
  · simp only [dwPcieWriteDbi_invalid build pci type reg _ hsize]
    exact ⟨fun _ h => absurd h hsize, fun _ _ s => confined_pure _ s⟩

theorem writeAtu_confined_iff (region : DwPcieRegionType) (index reg : U32) (size : Nat) :
    (∀ val s, Confined Decoder.plain.cell (region ≠ .unknown ∧ index.toNat < 256 ∧ ValidSize size)
        (atuBank build pci region index)
        (dwPcieWriteAtu build pci region index reg size val) s) ↔
      (ValidSize size → region ≠ .unknown → FitsBank region index reg) := by
  cases hdir : regionDir region with
  | none =>
    have hregion : region = .unknown := by
      cases region <;> first | rfl | cases hdir
    simp only [dwPcieWriteAtu, hdir]
    exact ⟨fun _ _ h => absurd hregion h, fun _ _ s => confined_pure _ s⟩
  | some dir =>
    have hregion : region ≠ .unknown := by
      rintro rfl
      cases hdir
    simp only [dwPcieWriteAtu, hdir]
    by_cases hsize : ValidSize size
    · have hwrite (val : U32) := dwPcieWriteDbi_updates Decoder.plain.cell build pci .atu
        (atuAddr index dir reg) val hsize
      rw [confined_updates_iff hwrite (writeMask_ones _ hsize),
        ← atuBank_iff build pci hdir index reg size]
      simp only [hsize, hregion, and_true, true_implies, ne_eq, not_false_eq_true, true_and]
      rfl
    · simp only [dwPcieWriteDbi_invalid build pci .atu _ _ hsize]
      exact ⟨fun _ h => absurd h hsize, fun _ _ s => confined_pure _ s⟩

theorem read_silent_iff (type : DwPcieAccessType) (reg : U32) (size : Nat) :
    (¬ Supported type → ∀ s : Store,
        (dwPcieReadDbi build pci type reg size).accesses Decoder.plain.cell s = []) ↔
      (ValidSize size → Supported type) := by
  by_cases hsize : ValidSize size
  · simp only [dwPcieReadDbi_accesses _ build pci type reg hsize]
    constructor
    · intro h _
      by_contra htype
      cases h htype fun _ => 0
    · intro h htype
      exact absurd (h hsize) htype
  · simp only [dwPcieReadDbi_invalid build pci type reg hsize]
    exact ⟨fun _ h => absurd h hsize, fun _ _ _ => rfl⟩

/-- When writes stay in the space or bank they name and rejected ones change
nothing, and when reads of unsupported types or regions are silent. An access of
an unsupported type is not rejected but issued at the error value, a window index
is not checked, and an offset that is too large reaches into the fields above. -/
theorem accesses_rejected_iff (type : DwPcieAccessType) (region : DwPcieRegionType)
    (index reg : U32) (size : Nat) :
    ((∀ val s, Confined Decoder.plain.cell (Supported type ∧ ValidSize size)
        (dbiSpace build pci type) (dwPcieWriteDbi build pci type reg val size) s) ↔
      (ValidSize size → FitsSpace type reg)) ∧
    ((∀ val s, Confined Decoder.plain.cell (region ≠ .unknown ∧ index.toNat < 256 ∧ ValidSize size)
        (atuBank build pci region index)
        (dwPcieWriteAtu build pci region index reg size val) s) ↔
      (ValidSize size → region ≠ .unknown → FitsBank region index reg)) ∧
    ((¬ Supported type → ∀ s : Store,
        (dwPcieReadDbi build pci type reg size).accesses Decoder.plain.cell s = []) ↔
      (ValidSize size → Supported type)) ∧
    (region = .unknown → ∀ s : Store,
      (dwPcieReadAtu build pci region index reg size).accesses Decoder.plain.cell s = []) := by
  refine ⟨write_confined_iff build pci type reg size,
    writeAtu_confined_iff build pci region index reg size,
    read_silent_iff build pci type reg size, ?_⟩
  rintro rfl s
  rfl

/-- A write to the ELBI space, which is not supported, stores into a bus word 4 GB
above the controller's base. -/
theorem write_escapes_elbi :
    let build : Build := ⟨false, false, 3, 0⟩
    let pci := (controllers build)[x16]
    let s : Store := fun _ => 0
    ¬ Supported .elbi ∧
      (dwPcieWriteDbi build pci .elbi 0 1 4).exec Decoder.plain.cell s ⟨.mmio, 0x1000910ffff⟩ ≠
        s ⟨.mmio, 0x1000910ffff⟩ := by
  decide

end Spaces

end DwcPcie.Transactions
