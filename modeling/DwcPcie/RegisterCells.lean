import DwcPcie.AddressMap
import DwcPcie.Controllers

/-! The registers of the four controllers as independent cells. Controllers lie
a megabyte apart or on ports of their own, and a controller's registers fill
half a megabyte at most. -/
namespace DwcPcie.RegisterCells
open Glue Platform Dbi Atu AddressMap Controllers Mmio

theorem dbiBase_toNat (build : Build) (i : Fin 4) :
    ((controllers build).get i).dbiBase.toNat =
      if build.ipbench then 0 else 0xff09110000 + 0x100000 * i.val := by
  obtain ⟨ipbench, dpu, mode, unset⟩ := build
  cases ipbench <;> exact match i with | 0 => rfl | 1 => rfl | 2 => rfl | 3 => rfl

private theorem axiDbiPort_toNat (build : Build) (i : Fin 4) :
    ((controllers build).get i).axiDbiPort.toNat = i.val := by
  exact match i with | 0 => rfl | 1 => rfl | 2 => rfl | 3 => rfl

theorem dbiBase_aligned (build : Build) (i : Fin 4) :
    ((controllers build).get i).dbiBase.toNat % 4 = 0 := by
  rw [dbiBase_toNat]
  split <;> omega

theorem dbiAddr_controllers_inj (build : Build) {i j : Fin 4} {offset offset' : U64}
    (h : offset.toNat < 2 ^ 19) (h' : offset'.toNat < 2 ^ 19)
    (haddr : dbiAddr build ((controllers build).get i) offset =
      dbiAddr build ((controllers build).get j) offset') : i = j ∧ offset = offset' := by
  have hport := congrArg BusAddr.port haddr
  have hsum := congrArg (fun a => a.addr.toNat) haddr
  have hi := dbiBase_toNat build i
  have hj := dbiBase_toNat build j
  simp only [dbiAddr, busPort, BitVec.toNat_add] at hport hsum
  cases hbench : build.ipbench with
  | true =>
    simp only [hbench, if_true, BusPort.axi.injEq] at hport hi hj
    have hij := congrArg BitVec.toNat hport
    rw [axiDbiPort_toNat, axiDbiPort_toNat] at hij
    exact ⟨Fin.ext hij, BitVec.eq_of_toNat_eq (by omega)⟩
  | false =>
    simp only [hbench, Bool.false_eq_true, if_false] at hi hj
    exact ⟨Fin.ext (by omega), BitVec.eq_of_toNat_eq (by omega)⟩

/-- Every word of the controllers' registers has exactly one name: a controller,
a supported access type and an offset; and every word of an ATU space one as a
register of a window. -/
theorem registerMap_bijective (build : Build) :
    (∀ (i : Fin 4) (offset : U64), offset.toNat < 2 ^ 19 →
      ∃! p : Fin 4 × DwPcieAccessType × U32, Supported p.2.1 ∧ p.2.2.toNat < 2 ^ 17 ∧
        dbiAddr build ((controllers build).get p.1) (formatDbiAddr p.2.1 p.2.2) =
          dbiAddr build ((controllers build).get i) offset) ∧
    ∀ offset : U32, offset.toNat < 2 ^ 17 →
      ∃! p : DwPcieRegionType × U32 × U32, p.2.1.toNat < 256 ∧ p.2.2.toNat < 256 ∧
        ∃ dir, regionDir p.1 = some dir ∧ atuAddr p.2.1 dir p.2.2 = offset := by
  refine ⟨fun i offset hoffset => ?_, fun offset hoffset => ?_⟩
  · obtain ⟨type, reg, htype, hreg, rfl⟩ := formatDbiAddr_surj hoffset
    refine ⟨(i, type, reg), ⟨htype, hreg, rfl⟩, ?_⟩
    rintro ⟨j, type', reg'⟩ ⟨htype', hreg', haddr⟩
    obtain ⟨rfl, hsame⟩ := dbiAddr_controllers_inj build (formatDbiAddr_lt htype' hreg')
      hoffset haddr
    obtain ⟨rfl, rfl⟩ := formatDbiAddr_inj htype' htype hreg' hreg hsame
    rfl
  · obtain ⟨index, dir, reg, hindex, hdir, hreg, rfl⟩ := atuAddr_surj hoffset
    obtain ⟨region, hregion⟩ : ∃ region, regionDir region = some dir := by
      obtain hzero | hone : dir.toNat = 0 ∨ dir.toNat = 1 := by omega
      · exact ⟨.outbound, congrArg some (BitVec.eq_of_toNat_eq hzero.symm)⟩
      · exact ⟨.inbound, congrArg some (BitVec.eq_of_toNat_eq hone.symm)⟩
    refine ⟨(region, index, reg), ⟨hindex, hreg, dir, hregion, rfl⟩, ?_⟩
    rintro ⟨region', index', reg'⟩ ⟨hindex', hreg', dir', hregion', haddr⟩
    obtain ⟨rfl, rfl, rfl⟩ := atuAddr_inj hindex' hindex (regionDir_lt hregion') hdir hreg' hreg
      haddr
    obtain rfl : region' = region := regionDir_inj hregion' hregion
    rfl

@[ext] structure RegCell where
  controller : Fin 4
  type : DwPcieAccessType
  reg : U32
deriving DecidableEq

/-- A word of a supported register space. -/
structure DbiReg extends RegCell where
  supported : Supported type
  inWindow : reg.toNat < 2 ^ 17
  aligned : reg.toNat % 4 = 0

structure AtuReg where
  controller : Fin 4
  region : DwPcieRegionType
  dir : U32
  index : U32
  reg : U32
  dir_eq : regionDir region = some dir
  index_lt : index.toNat < 256
  reg_lt : reg.toNat < 256
  aligned : reg.toNat % 4 = 0

def AtuReg.toDbiReg (a : AtuReg) : DbiReg where
  controller := a.controller
  type := .atu
  reg := atuAddr a.index a.dir a.reg
  supported := rfl
  inWindow := atuAddr_lt a.index_lt (regionDir_lt a.dir_eq) a.reg_lt
  aligned := by
    have hreg := a.aligned
    rw [atuAddr_toNat _ _ _ a.index_lt (regionDir_lt a.dir_eq) a.reg_lt]
    omega

/-- A register named either way. -/
inductive RegName where
  | dbi (r : DbiReg)
  | atu (a : AtuReg)

namespace RegName

def toDbiReg : RegName → DbiReg
  | .dbi r => r
  | .atu a => a.toDbiReg

def cell (n : RegName) : RegCell := n.toDbiReg.toRegCell

def write (build : Build) (val : U32) : RegName → Bus PUnit
  | .dbi r => dwPcieWriteDbi build ((controllers build).get r.controller) r.type r.reg val 4
  | .atu a =>
      dwPcieWriteAtu build ((controllers build).get a.controller) a.region a.index a.reg 4 val

def read (build : Build) : RegName → Bus U32
  | .dbi r => dwPcieReadDbi build ((controllers build).get r.controller) r.type r.reg 4
  | .atu a => dwPcieReadAtu build ((controllers build).get a.controller) a.region a.index a.reg 4

end RegName

def RegCell.busAddr (build : Build) (c : RegCell) : BusAddr :=
  dbiAddr build ((controllers build).get c.controller) (formatDbiAddr c.type c.reg)

private theorem RegName.write_eq (build : Build) (val : U32) (n : RegName) :
    n.write build val = .put (n.cell.busAddr build) val := by
  cases n with
  | dbi r => exact dwPcieWriteDbi_four build _ r.type r.reg val
  | atu a => exact dwPcieWriteAtu_four build _ a.dir_eq a.index a.reg val

private theorem RegName.read_eq (build : Build) (n : RegName) :
    n.read build = .fetch (n.cell.busAddr build) := by
  cases n with
  | dbi r => exact dwPcieReadDbi_four build _ r.type r.reg
  | atu a => exact dwPcieReadAtu_four build _ a.dir_eq a.index a.reg

private theorem cell_busAddr_inj (d : Decoder) (build : Build) (r r' : DbiReg)
    (h : d.cell (r.busAddr build) = d.cell (r'.busAddr build)) : r.toRegCell = r'.toRegCell := by
  have haligned (r : DbiReg) : (r.busAddr build).Aligned := by
    rw [RegCell.busAddr, dbiAddr_aligned_iff build _ (dbiBase_aligned build r.controller),
      formatDbiAddr_mod_four r.supported, r.aligned]
  have haddr := d.aligned_inj _ _ (haligned r) (haligned r') h
  obtain ⟨hcontroller, hoffset⟩ := dbiAddr_controllers_inj build
    (formatDbiAddr_lt r.supported r.inWindow) (formatDbiAddr_lt r'.supported r'.inWindow) haddr
  obtain ⟨htype, hreg⟩ := formatDbiAddr_inj r.supported r'.supported r.inWindow r'.inWindow hoffset
  exact RegCell.ext hcontroller htype hreg

theorem RegName.cell_busAddr_iff (d : Decoder) (build : Build) (n n' : RegName) :
    d.cell (n.cell.busAddr build) = d.cell (n'.cell.busAddr build) ↔ n.cell = n'.cell :=
  ⟨cell_busAddr_inj d build n.toDbiReg n'.toDbiReg, fun h => by rw [h]⟩

private theorem AtuReg.toDbiReg_inj {a b : AtuReg}
    (h : (RegName.atu a).cell = (RegName.atu b).cell) :
    a.region = b.region ∧ a.index = b.index ∧ a.reg = b.reg := by
  have hoffset : atuAddr a.index a.dir a.reg = atuAddr b.index b.dir b.reg :=
    congrArg RegCell.reg h
  obtain ⟨hindex, hdir, hreg⟩ := atuAddr_inj a.index_lt b.index_lt (regionDir_lt a.dir_eq)
    (regionDir_lt b.dir_eq) a.reg_lt b.reg_lt hoffset
  have hregion : regionDir b.region = some a.dir := hdir ▸ b.dir_eq
  exact ⟨regionDir_inj a.dir_eq hregion, hindex, hreg⟩

def writeAll (build : Build) (calls : List (RegName × U32)) : Bus PUnit :=
  forM calls fun call => call.1.write build call.2

def lastWritten (calls : List (RegName × U32)) (c : RegCell) : Option U32 :=
  calls.foldl (fun last call => if call.1.cell = c then some call.2 else last) none

theorem writeAll_cell (d : Decoder) (build : Build) (calls : List (RegName × U32))
    (n : RegName) (s : Store) :
    (writeAll build calls).exec d.cell s (d.cell (n.cell.busAddr build)) =
      (lastWritten calls n.cell).getD (s (d.cell (n.cell.busAddr build))) := by
  unfold writeAll
  rw [Program.exec_forM]
  induction calls using List.reverseRecOn with
  | nil => rfl
  | append_singleton calls call ih =>
    simp only [lastWritten, List.foldl_append, List.foldl_cons, List.foldl_nil] at ih ⊢
    rw [call.1.write_eq]
    by_cases h : call.1.cell = n.cell
    · rw [if_pos h, h]
      exact Function.update_self ..
    · have hne : d.cell (n.cell.busAddr build) ≠ d.cell (call.1.cell.busAddr build) := fun heq =>
        h ((RegName.cell_busAddr_iff d build _ _).mp heq.symm)
      rw [if_neg h, ← ih]
      exact Function.update_of_ne hne ..

/-- Registers are cells: two names reach one word of the store exactly if they
name the same register, and a read gives back the last value written to it. -/
theorem registers_are_cells (d : Decoder) (build : Build) :
    (∀ n n' : RegName, d.cell (n.cell.busAddr build) = d.cell (n'.cell.busAddr build) ↔
      n.toDbiReg.controller = n'.toDbiReg.controller ∧ n.toDbiReg.type = n'.toDbiReg.type ∧
        n.toDbiReg.reg = n'.toDbiReg.reg) ∧
    (∀ a b : AtuReg, a.controller = b.controller →
      (d.cell ((RegName.atu a).cell.busAddr build) = d.cell ((RegName.atu b).cell.busAddr build) ↔
        a.region = b.region ∧ a.index = b.index ∧ a.reg = b.reg)) ∧
    (∀ calls (n : RegName) s, (n.read build).eval d.cell ((writeAll build calls).exec d.cell s) =
      (lastWritten calls n.cell).getD ((n.read build).eval d.cell s)) := by
  refine ⟨?_, ?_, ?_⟩
  · intro n n'
    rw [RegName.cell_busAddr_iff, RegCell.ext_iff]
    rfl
  · intro a b hcontroller
    rw [RegName.cell_busAddr_iff]
    refine ⟨AtuReg.toDbiReg_inj, ?_⟩
    rintro ⟨hregion, hindex, hreg⟩
    have hdir : a.dir = b.dir := Option.some.inj (a.dir_eq.symm.trans (hregion ▸ b.dir_eq))
    rw [RegCell.ext_iff]
    refine ⟨hcontroller, rfl, ?_⟩
    change atuAddr a.index a.dir a.reg = atuAddr b.index b.dir b.reg
    rw [hindex, hdir, hreg]
  · intro calls n s
    rw [n.read_eq]
    exact writeAll_cell d build calls n s

end DwcPcie.RegisterCells
