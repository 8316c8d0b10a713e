import DwcPcie.Mmio.ByteLanes
import DwcPcie.Transactions

/-! The register file as its users see it: bytes, keyed by register space and
byte offset. Writes of any size refine byte stores; the three read helpers agree
with it exactly on the offsets that fit the width they take the offset at. -/
namespace DwcPcie.RegisterFile
open Glue Platform Dbi AddressMap Controllers Transactions Mmio

/-- A naturally aligned access inside the window of a supported space. -/
structure DbiAccess where
  type : DwPcieAccessType
  reg : U32
  size : Nat
  supported : Supported type
  inWindow : reg.toNat < 2 ^ 17
  size_mem : size = 1 ∨ size = 2 ∨ size = 4
  aligned : reg.toNat % size = 0

structure DbiWrite extends DbiAccess where
  val : U32

abbrev ByteMem := DwPcieAccessType → Nat → U8

def ByteMem.store (m : ByteMem) (type : DwPcieAccessType) (reg size : Nat) (val : U32) :
    ByteMem :=
  fun t o => if t = type ∧ reg ≤ o ∧ o < reg + size then lane val (o - reg) else m t o

/-- The little-endian value of the bytes of an access. -/
def ByteMem.load (m : ByteMem) (type : DwPcieAccessType) (reg size : Nat) : U32 :=
  littleEndian 32 (fun i => m type (reg + i)) size

def ByteMem.apply (m : ByteMem) (c : DbiWrite) : ByteMem :=
  m.store c.type c.reg.toNat c.size c.val

section Store
variable (d : Decoder) (build : Build) (pci : DwPcie)

def wordAddr (type : DwPcieAccessType) (offset : Nat) : BusAddr :=
  dbiAddr build pci (formatDbiAddr type (BitVec.ofNat 32 offset))

def unpack (s : Store) : ByteMem :=
  fun type offset => lane (s (d.cell (wordAddr build pci type (offset / 4 * 4)))) (offset % 4)

/-- The store holds the byte memory in the controller's windows and its initial
contents everywhere else. -/
structure Packs (m : ByteMem) (initial final : Store) : Prop where
  window : ∀ type offset, Supported type → offset < 2 ^ 17 → offset % 4 = 0 →
    final (d.cell (wordAddr build pci type offset)) = m.load type offset 4
  frame : ∀ a, (∀ type offset, Supported type → offset < 2 ^ 17 → offset % 4 = 0 →
    a ≠ d.cell (wordAddr build pci type offset)) → final a = initial a

def writeAll (calls : List DbiWrite) : Bus PUnit :=
  forM calls fun c => dwPcieWriteDbi build pci c.type c.reg c.val c.size

end Store

/-! ## The word an access reaches -/

theorem and_three (n : Nat) : n &&& 3 = n % 4 := Nat.and_two_pow_sub_one_eq_mod n 2

theorem and_two_of_even {n : Nat} (h : n % 2 = 0) : n &&& 2 = n % 4 := by
  have hcut : n &&& 2 = (n % 4) &&& 2 := by
    have hmod : (n &&& 2) % 4 = (n % 4) &&& 2 := Nat.and_mod_two_pow (n := 2)
    have hle : n &&& 2 ≤ 2 := Nat.and_le_right
    omega
  have hcases : n % 4 = 0 ∨ n % 4 = 2 := by omega
  rw [hcut]
  rcases hcases with h | h <;> rw [h] <;> rfl

private theorem writeReg_eq {reg : U32} {size : Nat} (haligned : reg.toNat % size = 0) :
    writeReg reg size = BitVec.ofNat 32 (reg.toNat / 4 * 4) := by
  unfold writeReg
  split_ifs with hfour
  · subst hfour
    rw [Nat.div_mul_cancel (Nat.dvd_of_mod_eq_zero haligned), BitVec.ofNat_toNat,
      BitVec.setWidth_eq]
  · exact and_word_mask reg

private theorem writeMask_eq_laneMask {reg : U32} {size : Nat} (hsize : ValidSize size)
    (haligned : reg.toNat % size = 0) (val : U32) :
    writeMask reg val size = laneMask (reg.toNat % 4) size val := by
  rcases hsize with rfl | rfl | rfl
  · have hshift : (BitVec.setWidth 8 (reg &&& 0x3)).toNat = reg.toNat % 4 := by
      have hand := and_three reg.toNat
      rw [BitVec.toNat_setWidth, BitVec.toNat_and]
      change (reg.toNat &&& 3) % 2 ^ 8 = _
      omega
    simp only [writeMask, if_true, hshift]
    rfl
  · have hshift : (BitVec.setWidth 8 (reg &&& 0x2)).toNat = reg.toNat % 4 := by
      have hand := and_two_of_even haligned
      rw [BitVec.toNat_setWidth, BitVec.toNat_and]
      change (reg.toNat &&& 2) % 2 ^ 8 = _
      omega
    have hcases : reg.toNat % 4 = 0 ∨ reg.toNat % 4 = 2 := by omega
    simp only [writeMask, hshift]
    rcases hcases with h | h <;> rw [h] <;> rfl
  · rw [haligned]
    apply MaskedWord.ext
    · rfl
    · simp [writeMask, laneMask, MaskedWord.const]

theorem dwPcieWriteDbi_performs (cell : BusAddr → BusAddr) (build : Build) (pci : DwPcie)
    (c : DbiWrite) :
    Performs cell (dwPcieWriteDbi build pci c.type c.reg c.val c.size)
      [⟨wordAddr build pci c.type (c.reg.toNat / 4 * 4),
        laneMask (c.reg.toNat % 4) c.size c.val⟩] := by
  have hupdates := dwPcieWriteDbi_updates cell build pci c.type c.reg c.val c.size_mem
  rwa [writeReg_eq c.aligned, writeMask_eq_laneMask c.size_mem c.aligned] at hupdates

theorem DbiAccess.lanes_le (a : DbiAccess) : a.reg.toNat % 4 + a.size ≤ 4 := by
  have haligned := a.aligned
  rcases a.size_mem with h | h | h <;> rw [h] at haligned ⊢ <;> omega

section Refinement
variable (d : Decoder) (build : Build) (pci : DwPcie)

theorem wordAddr_toNat {offset : Nat} (h : offset < 2 ^ 17) :
    (BitVec.ofNat 32 offset).toNat = offset := by
  rw [BitVec.toNat_ofNat]
  omega

private theorem wordAddr_aligned (hbase : pci.dbiBase.toNat % 4 = 0) {type : DwPcieAccessType}
    {offset : Nat} (htype : Supported type) (h : offset < 2 ^ 17) (h4 : offset % 4 = 0) :
    (wordAddr build pci type offset).Aligned := by
  have hreg := wordAddr_toNat h
  rw [wordAddr, dbiAddr_aligned_iff build pci hbase, formatDbiAddr_mod_four htype, hreg, h4]

private theorem cell_wordAddr_inj (hbase : pci.dbiBase.toNat % 4 = 0)
    {type type' : DwPcieAccessType} {offset offset' : Nat}
    (htype : Supported type) (htype' : Supported type')
    (h : offset < 2 ^ 17) (h' : offset' < 2 ^ 17) (h4 : offset % 4 = 0) (h4' : offset' % 4 = 0)
    (hcell : d.cell (wordAddr build pci type offset) = d.cell (wordAddr build pci type' offset')) :
    type = type' ∧ offset = offset' := by
  have hreg := wordAddr_toNat h
  have hreg' := wordAddr_toNat h'
  have haddr := d.aligned_inj _ _ (wordAddr_aligned build pci hbase htype h h4)
    (wordAddr_aligned build pci hbase htype' h' h4') hcell
  obtain ⟨ht, hr⟩ := formatDbiAddr_inj htype htype' (by omega) (by omega)
    (dbiAddr_injective build pci haddr)
  refine ⟨ht, ?_⟩
  rw [← hreg, hr, hreg']

theorem write_exec (c : DbiWrite) (s : Store) :
    let word := d.cell (wordAddr build pci c.type (c.reg.toNat / 4 * 4))
    (dwPcieWriteDbi build pci c.type c.reg c.val c.size).exec d.cell s =
      Function.update s word ((laneMask (c.reg.toNat % 4) c.size c.val).apply (s word)) :=
  (dwPcieWriteDbi_performs d.cell build pci c).exec s

theorem unpack_write (hbase : pci.dbiBase.toNat % 4 = 0) (c : DbiWrite) (s : Store)
    {type : DwPcieAccessType} {offset : Nat} (htype : Supported type) (hoffset : offset < 2 ^ 17) :
    unpack d build pci
        ((dwPcieWriteDbi build pci c.type c.reg c.val c.size).exec d.cell s) type offset =
      (unpack d build pci s).apply c type offset := by
  have hlanes := c.toDbiAccess.lanes_le
  have hwindow := c.inWindow
  rw [write_exec]
  simp only [unpack, ByteMem.apply, ByteMem.store]
  by_cases hword : type = c.type ∧ offset / 4 = c.reg.toNat / 4
  · obtain ⟨rfl, hdiv⟩ := hword
    have hin : (c.reg.toNat % 4 ≤ offset % 4 ∧ offset % 4 < c.reg.toNat % 4 + c.size) ↔
        (c.type = c.type ∧ c.reg.toNat ≤ offset ∧ offset < c.reg.toNat + c.size) := by
      simp only [true_and]
      omega
    have hlane : offset % 4 - c.reg.toNat % 4 = offset - c.reg.toNat := by omega
    rw [hdiv, Function.update_self, lane_laneMask _ _ _ _ _ (by omega), hlane]
    exact if_congr hin rfl rfl
  · have hne : d.cell (wordAddr build pci type (offset / 4 * 4)) ≠
        d.cell (wordAddr build pci c.type (c.reg.toNat / 4 * 4)) := by
      intro hcell
      obtain ⟨ht, ho⟩ := cell_wordAddr_inj d build pci hbase htype c.supported (by omega)
        (by omega) (by omega) (by omega) hcell
      exact hword ⟨ht, by omega⟩
    have hout : ¬ (type = c.type ∧ c.reg.toNat ≤ offset ∧ offset < c.reg.toNat + c.size) := by
      rintro ⟨ht, hle, hlt⟩
      exact hword ⟨ht, by omega⟩
    rw [Function.update_of_ne hne, if_neg hout]

theorem unpack_writeAll (hbase : pci.dbiBase.toNat % 4 = 0) (calls : List DbiWrite) (s : Store)
    {type : DwPcieAccessType} {offset : Nat} (htype : Supported type) (hoffset : offset < 2 ^ 17) :
    unpack d build pci ((writeAll build pci calls).exec d.cell s) type offset =
      calls.foldl ByteMem.apply (unpack d build pci s) type offset := by
  unfold writeAll
  rw [Program.exec_forM]
  induction calls using List.reverseRecOn with
  | nil => rfl
  | append_singleton calls c ih =>
    rw [List.foldl_append, List.foldl_append, List.foldl_cons, List.foldl_cons, List.foldl_nil,
      List.foldl_nil, unpack_write d build pci hbase c _ htype hoffset]
    simp only [ByteMem.apply, ByteMem.store, ih]

theorem writeAll_frame (calls : List DbiWrite) (s : Store) (a : BusAddr)
    (ha : ∀ type offset, Supported type → offset < 2 ^ 17 → offset % 4 = 0 →
      a ≠ d.cell (wordAddr build pci type offset)) :
    (writeAll build pci calls).exec d.cell s a = s a := by
  unfold writeAll
  rw [Program.exec_forM]
  induction calls using List.reverseRecOn with
  | nil => rfl
  | append_singleton calls c ih =>
    have hwindow := c.inWindow
    rw [List.foldl_append, List.foldl_cons, List.foldl_nil,
      (dwPcieWriteDbi_performs d.cell build pci c).exec, perform_frame, ih]
    intro u hu
    rw [List.mem_singleton.mp hu]
    exact (ha c.type _ c.supported (by omega) (by omega)).symm

theorem packs_of_unpack {m : ByteMem} {initial final : Store}
    (hbytes : ∀ type offset, Supported type → offset < 2 ^ 17 →
      unpack d build pci final type offset = m type offset)
    (hframe : ∀ a, (∀ type offset, Supported type → offset < 2 ^ 17 → offset % 4 = 0 →
      a ≠ d.cell (wordAddr build pci type offset)) → final a = initial a) :
    Packs d build pci m initial final := by
  refine ⟨?_, hframe⟩
  intro type offset htype hoffset h4
  rw [ByteMem.load, ← littleEndian_lanes (final (d.cell (wordAddr build pci type offset))) 4 rfl]
  apply littleEndian_congr
  intro i hi
  rw [← hbytes type (offset + i) htype (by omega), unpack]
  have hdiv : (offset + i) / 4 * 4 = offset := by omega
  have hmod : (offset + i) % 4 = i := by omega
  rw [hdiv, hmod]

/-- Any run of writes is the run of byte stores, packed little-endian. -/
theorem writeAll_packs (hbase : pci.dbiBase.toNat % 4 = 0) (calls : List DbiWrite) (s : Store) :
    Packs .plain build pci (calls.foldl ByteMem.apply (unpack .plain build pci s)) s
      ((writeAll build pci calls).exec Decoder.plain.cell s) :=
  packs_of_unpack .plain build pci
    (fun _ _ htype hoffset => unpack_writeAll .plain build pci hbase calls s htype hoffset)
    (fun a ha => writeAll_frame .plain build pci calls s a ha)

def mixedCalls : List DbiWrite := [
  ⟨⟨.cdm, 0x10, 4, by decide, by decide, by decide, by decide⟩, 0x11223344⟩,
  ⟨⟨.cdm, 0x12, 2, by decide, by decide, by decide, by decide⟩, 0xabcd⟩,
  ⟨⟨.atu, 0x1ffff, 1, by decide, by decide, by decide, by decide⟩, 0x7f⟩]

theorem writeAll_packs_mixed :
    let build : Build := ⟨false, false, 3, 0⟩
    let pci := (controllers build)[x16]
    pci.dbiBase.toNat % 4 = 0 ∧
    Packs .plain build pci
      (mixedCalls.foldl ByteMem.apply (unpack .plain build pci fun _ => 0)) (fun _ => 0)
      ((writeAll build pci mixedCalls).exec Decoder.plain.cell fun _ => 0) :=
  ⟨by decide, writeAll_packs _ _ (by decide) mixedCalls _⟩

end Refinement

/-! ## Reads -/

section Read
variable (build : Build) (pci : DwPcie)

theorem load_unpack (d : Decoder) (s : Store) (type : DwPcieAccessType) (reg size : Nat)
    (h : reg % 4 + size ≤ 4) :
    (unpack d build pci s).load type reg size =
      ((s (d.cell (wordAddr build pci type (reg / 4 * 4))) >>> (8 * (reg % 4))).setWidth
        (8 * size)).setWidth 32 := by
  rw [← littleEndian_lane, ByteMem.load]
  apply littleEndian_congr
  intro i hi
  have hdiv : (reg + i) / 4 = reg / 4 := by omega
  have hmod : (reg + i) % 4 = reg % 4 + i := by omega
  rw [unpack, hdiv, hmod]

private theorem wordOf_dbiAddr (hbase : pci.dbiBase.toNat % 4 = 0) {type : DwPcieAccessType}
    (htype : Supported type) {reg : U32} (hreg : reg.toNat < 2 ^ 17) :
    wordOf (dbiAddr build pci (formatDbiAddr type reg)) =
      wordOf (wordAddr build pci type (reg.toNat / 4 * 4)) := by
  obtain ⟨route, hroute⟩ := Option.isSome_iff_exists.mp htype
  have hlt := formatDbiAddr_lt htype hreg
  have hword : (BitVec.ofNat 32 (reg.toNat / 4 * 4)).toNat = reg.toNat / 4 * 4 :=
    wordAddr_toNat (by omega)
  have haddr : (wordOf (dbiAddr build pci (formatDbiAddr type reg))).addr =
      (wordOf (wordAddr build pci type (reg.toNat / 4 * 4))).addr := by
    apply BitVec.eq_of_toNat_eq
    rw [wordOf_addr_toNat, wordOf_addr_toNat]
    simp only [wordAddr, dbiAddr, BitVec.toNat_add, formatDbiAddr_toNat hroute reg hreg,
      formatDbiAddr_toNat hroute (BitVec.ofNat 32 (reg.toNat / 4 * 4)) (by omega), hword]
    omega
  exact congrArg (BusAddr.mk (busPort build pci)) haddr

theorem shifted_word_eq_load (hbase : pci.dbiBase.toNat % 4 = 0) {type : DwPcieAccessType}
    (htype : Supported type) (reg : U32) (hreg : reg.toNat < 2 ^ 17) (s : Store) (size : Nat)
    (h : reg.toNat % 4 + size ≤ 4) :
    ((s (wordOf (dbiAddr build pci (formatDbiAddr type reg))) >>> (8 * (reg.toNat % 4))).setWidth
        (8 * size)).setWidth 32 =
      (unpack .words build pci s).load type reg.toNat size := by
  rw [load_unpack build pci .words s type _ size h, wordOf_dbiAddr build pci hbase htype hreg]
  rfl

/-- What a read of any size returns: the bytes at the offset cut to the width
the size's helper takes it at. -/
theorem eval_dwPcieReadDbi (hbase : pci.dbiBase.toNat % 4 = 0) (a : DbiAccess) (s : Store) :
    (dwPcieReadDbi build pci a.type a.reg a.size).eval Decoder.words.cell s =
      (unpack .words build pci s).load a.type (a.reg.toNat % 2 ^ (8 * a.size)) a.size := by
  obtain ⟨type, reg, size, htype, hwindow, hsize, haligned⟩ := a
  dsimp only at *
  rcases hsize with rfl | rfl | rfl
  · have hcut : ((reg.setWidth 8).setWidth 32).toNat = reg.toNat % 2 ^ 8 := by
      simp only [BitVec.toNat_setWidth]
      omega
    have hshift : (reg.setWidth 8 &&& 0x3).toNat = reg.toNat % 2 ^ 8 % 4 := by
      rw [BitVec.toNat_and, BitVec.toNat_setWidth]
      exact and_three _
    have hload := shifted_word_eq_load build pci hbase htype ((reg.setWidth 8).setWidth 32)
      (by omega) s 1 (by omega)
    rw [hcut] at hload
    rw [← hload, ← hshift]
    simp only [dwPcieReadDbi, readbDbi, readDbi_eq]
    rfl
  · have hcut : ((reg.setWidth 16).setWidth 32).toNat = reg.toNat % 2 ^ 16 := by
      simp only [BitVec.toNat_setWidth]
      omega
    have hshift : (BitVec.setWidth 8 (reg.setWidth 16 &&& 0x2)).toNat =
        reg.toNat % 2 ^ 16 % 4 := by
      rw [BitVec.toNat_setWidth, BitVec.toNat_and, BitVec.toNat_setWidth]
      have hand := and_two_of_even (n := reg.toNat % 2 ^ 16) (by omega)
      change (reg.toNat % 2 ^ 16 &&& 2) % 2 ^ 8 = _
      omega
    have hload := shifted_word_eq_load build pci hbase htype ((reg.setWidth 16).setWidth 32)
      (by omega) s 2 (by omega)
    rw [hcut] at hload
    rw [← hload, ← hshift]
    simp only [dwPcieReadDbi, readwDbi, readDbi_eq]
    rfl
  · have hword : reg.toNat % 2 ^ (8 * 4) = reg.toNat := Nat.mod_eq_of_lt reg.isLt
    have hload := shifted_word_eq_load build pci hbase htype reg hwindow s 4 (by omega)
    rw [hword, ← hload, haligned, dwPcieReadDbi_four]
    simp [Program.fetch, Program.eval, Decoder.words]

private theorem load_store (m : ByteMem) (c : DbiWrite) :
    (m.apply c).load c.type c.reg.toNat c.size =
      (c.val.setWidth (8 * c.size)).setWidth 32 := by
  have hlanes := littleEndian_lane c.val 0 c.size
  simp only [Nat.zero_add, Nat.mul_zero, BitVec.ushiftRight_zero] at hlanes
  rw [← hlanes]
  apply littleEndian_congr
  intro i hi
  have hin : c.reg.toNat ≤ c.reg.toNat + i ∧ c.reg.toNat + i < c.reg.toNat + c.size := by omega
  simp [ByteMem.apply, ByteMem.store, hin]

private theorem load_store_below (m : ByteMem) (c : DbiWrite) {reg size : Nat}
    (h : reg + size ≤ c.reg.toNat) :
    (m.apply c).load c.type reg size = m.load c.type reg size := by
  apply littleEndian_congr
  intro i hi
  have hout : ¬ c.reg.toNat ≤ reg + i := by omega
  simp [ByteMem.apply, ByteMem.store, hout]

private theorem load_congr {m m' : ByteMem} (a : DbiAccess)
    (h : ∀ offset < 2 ^ 17, m a.type offset = m' a.type offset) :
    m.load a.type a.reg.toNat a.size = m'.load a.type a.reg.toNat a.size := by
  have hwindow := a.inWindow
  have hlanes := a.lanes_le
  exact littleEndian_congr fun i hi => h _ (by omega)

private theorem cut_below (a : DbiAccess) (h : ¬ a.reg.toNat < 2 ^ (8 * a.size)) :
    a.reg.toNat % 2 ^ (8 * a.size) + a.size ≤ a.reg.toNat := by
  have haligned := a.aligned
  have hreg := a.reg.isLt
  rcases a.size_mem with hsize | hsize | hsize <;> rw [hsize] at h haligned ⊢ <;> omega

theorem eval_write_read (hbase : pci.dbiBase.toNat % 4 = 0) (c : DbiWrite) (s : Store) :
    (do
        dwPcieWriteDbi build pci c.type c.reg c.val c.size
        dwPcieReadDbi build pci c.type c.reg c.size : Bus U32).eval Decoder.words.cell s =
      ((unpack .words build pci s).apply c).load c.type
        (c.reg.toNat % 2 ^ (8 * c.size)) c.size := by
  have hwindow := c.inWindow
  have hlanes := c.toDbiAccess.lanes_le
  have haligned := c.aligned
  have hcut : c.reg.toNat % 2 ^ (8 * c.size) + c.size ≤ 2 ^ 17 := by
    rcases c.size_mem with h | h | h <;> rw [h] at haligned ⊢ <;> omega
  rw [Program.eval_bind, eval_dwPcieReadDbi build pci hbase c.toDbiAccess]
  exact littleEndian_congr fun i hi =>
    unpack_write .words build pci hbase c s c.supported (by omega)

private theorem load_zeros (d : Decoder) (type : DwPcieAccessType) (reg size : Nat) :
    (unpack d build pci fun _ => 0).load type reg size = 0 := by
  apply BitVec.eq_of_getLsbD_eq
  intro bit _
  simp [ByteMem.load, getLsbD_littleEndian, unpack, lane]

def DbiAccess.ones (a : DbiAccess) : DbiWrite := ⟨a, 0xffffffff⟩

private theorem ones_cut_ne_zero (a : DbiAccess) :
    ((0xffffffff : U32).setWidth (8 * a.size)).setWidth 32 ≠ 0 := by
  rcases a.size_mem with h | h | h <;> rw [h] <;> decide

private theorem load_cut_ones (d : Decoder) (a : DbiAccess) (h : ¬ a.reg.toNat < 2 ^ (8 * a.size)) :
    ((unpack d build pci fun _ => 0).apply a.ones).load a.type
      (a.reg.toNat % 2 ^ (8 * a.size)) a.size = 0 :=
  (load_store_below _ a.ones (cut_below a h)).trans (load_zeros build pci d _ _ _)

/-- Reads of an access agree with the byte memory, in every store and after every
run of writes, and give back what was written to it, exactly if the offset fits
the width of the access. -/
theorem dwPcieReadDbi_agrees_iff (hbase : pci.dbiBase.toNat % 4 = 0) (a : DbiAccess) :
    ((∀ s, (dwPcieReadDbi build pci a.type a.reg a.size).eval Decoder.words.cell s =
        (unpack .words build pci s).load a.type a.reg.toNat a.size) ↔
      a.reg.toNat < 2 ^ (8 * a.size)) ∧
    ((∀ s calls, (dwPcieReadDbi build pci a.type a.reg a.size).eval Decoder.words.cell
          ((writeAll build pci calls).exec Decoder.words.cell s) =
        (calls.foldl ByteMem.apply (unpack .words build pci s)).load
          a.type a.reg.toNat a.size) ↔
      a.reg.toNat < 2 ^ (8 * a.size)) ∧
    ((∀ s val, (do
          dwPcieWriteDbi build pci a.type a.reg val a.size
          dwPcieReadDbi build pci a.type a.reg a.size : Bus U32).eval Decoder.words.cell s =
        (val.setWidth (8 * a.size)).setWidth 32) ↔
      a.reg.toNat < 2 ^ (8 * a.size)) := by
  let fits := a.reg.toNat < 2 ^ (8 * a.size)
  let agrees (s : Store) : Prop :=
    (dwPcieReadDbi build pci a.type a.reg a.size).eval Decoder.words.cell s =
      (unpack .words build pci s).load a.type a.reg.toNat a.size
  let givesBack (s : Store) (val : U32) : Prop := (do
      dwPcieWriteDbi build pci a.type a.reg val a.size
      dwPcieReadDbi build pci a.type a.reg a.size : Bus U32).eval Decoder.words.cell s =
    (val.setWidth (8 * a.size)).setWidth 32
  have hagrees : fits → ∀ s, agrees s := by
    intro hfits s
    change Program.eval _ _ _ = _
    rw [eval_dwPcieReadDbi build pci hbase, Nat.mod_eq_of_lt hfits]
  have hback : (∀ s, agrees s) → ∀ s val, givesBack s val := by
    intro h s val
    change Program.eval _ _ _ = _
    rw [Program.eval_bind, h, ← load_store (unpack .words build pci s) ⟨a, val⟩]
    exact load_congr a fun offset hoffset =>
      unpack_write .words build pci hbase ⟨a, val⟩ s a.supported hoffset
  -- All ones written into a zeroed store are lost when the offset is cut.
  have hfits : (∀ s val, givesBack s val) → fits := by
    intro h
    by_contra hcut
    have hread := (eval_write_read build pci hbase a.ones fun _ => 0).symm.trans
      (h (fun _ => 0) 0xffffffff)
    exact ones_cut_ne_zero a (hread.symm.trans (load_cut_ones build pci _ a hcut))
  refine ⟨⟨fun h => hfits (hback h), hagrees⟩, ⟨?_, ?_⟩, ⟨hfits, fun h => hback (hagrees h)⟩⟩
  · intro h
    exact hfits (hback fun s => h s [])
  · intro h s calls
    rw [hagrees h]
    exact load_congr a fun offset hoffset =>
      unpack_writeAll .words build pci hbase calls s a.supported hoffset

/-- Offset 0x100 as one byte: the helper takes it as 0 and misses the byte. -/
theorem byte_read_at_0x100_misses :
    let build : Build := ⟨false, false, 3, 0⟩
    let pci := (controllers build)[x16]
    let s : Store := fun a => if a = ⟨.mmio, 0xff09110100⟩ then 0xab else 0
    (dwPcieReadDbi build pci .cdm 0x100 1).eval Decoder.words.cell s = 0 ∧
      (unpack .words build pci s).load .cdm 0x100 1 = 0xab := by
  decide

theorem dwPcieReadDbi_agrees_iff_0x44 :
    let build : Build := ⟨false, false, 3, 0⟩
    let pci := (controllers build)[x16]
    pci.dbiBase.toNat % 4 = 0 ∧
    ((∀ s, (dwPcieReadDbi build pci .cdm 0x44 2).eval Decoder.words.cell s =
        (unpack .words build pci s).load .cdm 0x44 2) ↔ 0x44 < 2 ^ 16) ∧
    ((∀ s calls, (dwPcieReadDbi build pci .cdm 0x44 2).eval Decoder.words.cell
          ((writeAll build pci calls).exec Decoder.words.cell s) =
        (calls.foldl ByteMem.apply (unpack .words build pci s)).load .cdm 0x44 2) ↔
      0x44 < 2 ^ 16) ∧
    ((∀ s val, (do
          dwPcieWriteDbi build pci .cdm 0x44 val 2
          dwPcieReadDbi build pci .cdm 0x44 2 : Bus U32).eval Decoder.words.cell s =
        (val.setWidth 16).setWidth 32) ↔ 0x44 < 2 ^ 16) :=
  ⟨by decide, dwPcieReadDbi_agrees_iff _ _ (by decide)
    ⟨.cdm, 0x44, 2, by decide, by decide, by decide, by decide⟩⟩

end Read

end DwcPcie.RegisterFile
