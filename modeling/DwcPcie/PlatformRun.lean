import DwcPcie.Delay
import DwcPcie.PlatformEffect
import DwcPcie.SetupFields
import Mathlib.Data.List.TakeWhile

/-! Runs of the whole bring-up on the plain store. What happens to one controller's
registers is its own setup and nothing else, at every moment; from this follow the
final store and the order of the phases. -/
namespace DwcPcie.PlatformRun
open Glue Platform Registers Dbi AddressMap Controllers SetupRc SetupEffect Duowen RegisterCells
open SetupRun Outbound Translation BringUp SetupFields PlatformEffect Mmio
open Delay (counterAddr udelay_still)

/-! ## The registers of one controller -/

section Registers
variable (build : Build)

/-- The address is in the half megabyte of the controller's registers. -/
def inRegisters (i : Fin 4) (a : BusAddr) : Bool :=
  decide (a.port = busPort build ((controllers build).get i)) &&
    decide ((a.addr - ((controllers build).get i).dbiBase).toNat < 2 ^ 19)

theorem inRegisters_iff (i : Fin 4) (a : BusAddr) : inRegisters build i a = true ↔
    ∃ offset : U64, offset.toNat < 2 ^ 19 ∧
      a = dbiAddr build ((controllers build).get i) offset := by
  simp only [inRegisters, Bool.and_eq_true, decide_eq_true_eq]
  constructor
  · rintro ⟨hport, hlt⟩
    refine ⟨_, hlt, ?_⟩
    rw [dbiAddr, ← hport, BitVec.add_comm, BitVec.sub_add_cancel]
  · rintro ⟨offset, hlt, rfl⟩
    refine ⟨rfl, ?_⟩
    rwa [dbiAddr, BitVec.add_comm, BitVec.add_sub_cancel]

private theorem inRegisters_apb (i : Fin 4) (r : ApbReg) :
    inRegisters build i (r.addr build) = false := by
  rw [← Bool.not_eq_true, inRegisters_iff]
  rintro ⟨offset, hlt, h⟩
  exact r.addr_ne_dbiAddr build i hlt h

private theorem inRegisters_ne {i j : Fin 4} (hij : j ≠ i) {offset : U64}
    (hoffset : offset.toNat < 2 ^ 19) :
    inRegisters build i (dbiAddr build ((controllers build).get j) offset) = false := by
  rw [← Bool.not_eq_true, inRegisters_iff]
  rintro ⟨offset', hlt, h⟩
  exact hij (dbiAddr_controllers_inj build hoffset hlt h).1

private theorem placedApb_filter_registers (i : Fin 4) (updates : List (Update ApbReg 32)) :
    (placedApb build updates).filter (fun u => inRegisters build i u.addr) = [] := by
  rw [List.filter_eq_nil_iff]
  intro u hu
  obtain ⟨v, -, rfl⟩ := List.mem_map.mp hu
  exact Bool.eq_false_iff.mp (inRegisters_apb build i v.addr)

variable (table : Vector DwPcie 4)

private theorem setupCalls_nodup : (setupCalls table).Nodup := by
  rw [setupCalls_eq]
  exact (List.nodup_finRange 4).sublist (List.takeWhile_sublist _)

def controllerUpdates (i : Fin 4) : List OffsetUpdate :=
  if i ∈ setupCalls (chosen build table) then setupRcUpdates ((chosen build table).get i) else []

variable {build table} (hreach : Reachable build table)
include hreach

theorem placed_chosen (i : Fin 4) (updates : List OffsetUpdate) :
    placed build ((chosen build table).get i) updates =
      placed build ((controllers build).get i) updates := by
  unfold placed
  rw [(chosen_static hreach).dbiAddr_eq]

theorem loop_addr {j : Fin 4} {u : Update BusAddr 32} (hu : u ∈ placed build
    ((chosen build table).get j) (setupRcUpdates ((chosen build table).get j))) :
    ∃ offset : U64, offset.toNat < 2 ^ 19 ∧
      u.addr = dbiAddr build ((controllers build).get j) offset := by
  rw [placed_chosen hreach] at hu
  obtain ⟨offset, hoffset, haddr⟩ := mem_placed_addr build _ hu
  rw [setupRcUpdates_offsets] at hoffset
  exact ⟨offset, setupRc_offset_lt hoffset, haddr⟩

theorem platformUpdates_filter (i : Fin 4) :
    (platformUpdates build table).filter (fun u => inRegisters build i u.addr) =
      placed build ((controllers build).get i) (controllerUpdates build table i) := by
  have hloop := filter_flatMap_eq (inRegisters build i)
    (fun j => placed build ((chosen build table).get j)
      (setupRcUpdates ((chosen build table).get j)))
    (setupCalls_nodup (chosen build table)) i
    (fun u hu => (inRegisters_iff build i _).mpr (loop_addr hreach hu))
    (fun j hj u hu => by
      obtain ⟨offset, hlt, haddr⟩ := loop_addr hreach hu
      rw [haddr, inRegisters_ne build hj hlt])
  rw [platformUpdates, List.filter_append, List.filter_append, List.filter_append,
    placedApb_filter_registers, placedApb_filter_registers, placedApb_filter_registers,
    loopUpdates, hloop, controllerUpdates, List.nil_append, List.nil_append, List.append_nil,
    placed_chosen hreach]
  split <;> rfl

/-- At every moment a controller's registers are as a first part of its own setup
leaves them. -/
theorem perform_prefix {first : List (Update BusAddr 32)}
    (hfirst : first <+: platformUpdates build table) (s : Store) (i : Fin 4) :
    ∃ k, ∀ offset : U64, offset.toNat < 2 ^ 19 →
      perform Decoder.plain.cell first s (dbiAddr build ((controllers build).get i) offset) =
        after build ((controllers build).get i) ((controllerUpdates build table i).take k) s
          (dbiAddr build ((controllers build).get i) offset) := by
  -- Filtered, bring-up is the setup of the controller, and its first part one of that.
  have hpart := hfirst.filter fun u => inRegisters build i u.addr
  rw [platformUpdates_filter hreach, List.prefix_iff_eq_take, placed, ← List.map_take] at hpart
  refine ⟨(first.filter fun u => inRegisters build i u.addr).length, fun offset hoffset => ?_⟩
  rw [after, placed, ← hpart]
  refine (perform_filter Decoder.plain.cell (inRegisters build i) (fun u _ hu => ?_) s).symm
  have haddr : u.addr = dbiAddr build ((controllers build).get i) offset := hu
  exact (inRegisters_iff build i _).mpr ⟨offset, hoffset, haddr⟩

end Registers

/-! ## The APB registers -/

section Apb
variable (build : Build)

def apbUpdates : List (Update ApbReg 32) :=
  resetUpdates ++ (modeUpdates build ++ startUpdates build)

theorem perform_placedApb (updates : List (Update ApbReg 32)) (s : Store) (r : ApbReg) :
    perform Decoder.plain.cell (placedApb build updates) s (r.addr build) =
      perform (fun r => r) updates (fun r => s (r.addr build)) r :=
  perform_relocate (ApbReg.addr build) (fun _ _ h => ApbReg.addr_inj build h) updates s r

end Apb

/-! ## The final store -/

section Final
variable {build : Build} {table : Vector DwPcie 4} (hreach : Reachable build table) (s : Store)
include hreach

theorem perform_rest {first : List (Update BusAddr 32)}
    (hfirst : first <+: platformUpdates build table) {a : BusAddr}
    (hapb : ∀ r, a ≠ ApbReg.addr build r)
    (hdbi : ∀ i ∈ setupCalls (chosen build table), ∀ offset : U64, offset.toNat < 2 ^ 19 →
      a ≠ dbiAddr build ((chosen build table).get i) offset) :
    perform Decoder.plain.cell first s a = s a := by
  apply perform_frame
  intro u hu haddr
  replace hu := hfirst.subset hu
  have hua : u.addr = a := haddr
  have hplaced (updates : List (Update ApbReg 32)) (hu : u ∈ placedApb build updates) : False := by
    obtain ⟨v, -, rfl⟩ := List.mem_map.mp hu
    exact hapb v.addr hua.symm
  rw [platformUpdates] at hu
  rcases List.mem_append.mp hu with hu | hu
  · exact hplaced _ hu
  rcases List.mem_append.mp hu with hu | hu
  · exact hplaced _ hu
  rcases List.mem_append.mp hu with hu | hu
  · obtain ⟨i, hi, hu⟩ := List.mem_flatMap.mp hu
    obtain ⟨offset, hlt, hoffset⟩ := loop_addr hreach hu
    rw [← (chosen_static hreach).dbiAddr_eq] at hoffset
    exact hdbi i hi offset hlt (hua.symm.trans hoffset)
  · exact hplaced _ hu

end Final

section Counter
variable {build : Build} {udelay : U32 → Bus PUnit} (hdelay : ∀ time, (udelay time).ReadOnly)
  {table : Vector DwPcie 4} (hreach : Reachable build table) {s : Store}
include hdelay hreach

theorem pciPlatformInit_keeps_counter : ∀ e ∈ (pciPlatformInit build udelay table).writes
    Decoder.plain.cell s, e.after Decoder.plain.cell (counterAddr build) =
      s (counterAddr build) := by
  intro e he
  rw [(pciPlatformInit_performs build udelay hdelay Decoder.plain.cell table).writes] at he
  obtain ⟨first, hfirst, hafter⟩ := updateWrites_after_prefix Decoder.plain.cell he
  have hapb : ∀ ipbench : Bool, ∀ r ∈ ApbReg.all,
      counterAddr ⟨ipbench, false, 0, 0⟩ ≠ r.addr ⟨ipbench, false, 0, 0⟩ := by decide
  rw [hafter]
  refine perform_rest hreach s hfirst (fun r => ?_) fun i _ offset hoffset => ?_
  · rw [r.addr_build]
    exact hapb build.ipbench r r.mem_all
  · rw [(chosen_static hreach).dbiAddr_eq]
    refine ne_dbiAddr build i hoffset (fun hbench port => ?_) fun hbench => ?_
    · simp [counterAddr, hbench]
    · simp [counterAddr, hbench]

/-- The waits of bring-up come right behind a write. On a store they end with their
first poll there, if the counter is so near to its top that the deadline wraps. -/
theorem pciPlatformInit_waits_end (fuel : Nat)
    (hwraps : s (counterAddr build) + 1 * 125 ≤ s (counterAddr build)) :
    ∀ e ∈ (pciPlatformInit build udelay table).writes Decoder.plain.cell s,
      (Delay.udelay build (fuel + 1) 1).eval Decoder.plain.cell (e.after Decoder.plain.cell) =
        true := by
  intro e he
  rw [udelay_still, pciPlatformInit_keeps_counter hdelay hreach e he]
  exact hwraps

end Counter

end DwcPcie.PlatformRun
