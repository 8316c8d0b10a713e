import DwcPcie.RegisterCells
import DwcPcie.SetupEffect
import Mathlib.Data.Bool.AllAny

/-! Runs of setup on the plain store: the read-only registers are open for
writing exactly while the rest is configured, and any sequence of setups leaves
a store that depends only on which controllers were set up. -/
namespace DwcPcie.SetupRun
open Glue Platform Registers Dbi Atu AddressMap Controllers SetupRc SetupEffect RegisterCells Mmio

/-- Where the configuration writes go; the port only decides what is written. -/
def configOffsets : List U64 :=
  [0x718, 0x710, 0x80C, 0x708, 0x890, 0x890, 0x890, 0x10, 0x14, 0x3c, 0x18, 0x04,
    0x40008, 0x4000C, 0x40010, 0x40020, 0x40014, 0x40018, 0x40000, 0x40004,
    0x40208, 0x4020C, 0x40210, 0x40220, 0x40214, 0x40218, 0x40200, 0x40204,
    0x40408, 0x4040C, 0x40410, 0x40420, 0x40414, 0x40418, 0x40400, 0x40404,
    0x10, 0x08, 0x80C]

def lockOffset : U64 := 0x8BC

theorem configUpdates_offsets (pci : DwPcie) :
    (configUpdates pci).map Update.addr = configOffsets := rfl

theorem setupRcUpdates_offsets (pci : DwPcie) :
    (setupRcUpdates pci).map Update.addr = lockOffset :: configOffsets ++ [lockOffset] := rfl

theorem mem_placed_addr (build : Build) (pci : DwPcie) {updates : List OffsetUpdate}
    {u : Update BusAddr 32} (hu : u ∈ placed build pci updates) :
    ∃ offset ∈ updates.map Update.addr, u.addr = dbiAddr build pci offset := by
  obtain ⟨v, hv, rfl⟩ := List.mem_map.mp hu
  exact ⟨v.addr, List.mem_map_of_mem hv, rfl⟩

/-! ## The lock around the configuration -/

section Lock
variable (build : Build) (pci : DwPcie)

def lockAddr : BusAddr := dbiAddr build pci (formatDbiAddr .cdm pcieMiscControl1Off)

private theorem configUpdates_ne_lock {u : Update BusAddr 32}
    (hu : u ∈ placed build pci (configUpdates pci)) : u.addr ≠ lockAddr build pci := by
  obtain ⟨offset, hoffset, haddr⟩ := mem_placed_addr build pci hu
  rw [configUpdates_offsets] at hoffset
  have hfree : ∀ o ∈ configOffsets, o ≠ lockOffset := List.all_iff_forall_prop.mp (by decide)
  intro h
  exact hfree offset hoffset (dbiAddr_injective build pci (haddr.symm.trans h))

private theorem unlocked_bit (word : U32) : (unlock.mask.apply word).getLsbD 0 = true := by
  have hset : unlock.mask.set.getLsbD 0 = true := by decide
  rw [MaskedWord.getLsbD_apply, hset, Bool.or_true]

private theorem relocked_bit (word : U32) : (relock.mask.apply word).getLsbD 0 = false := by
  have hkeep : relock.mask.keep.getLsbD 0 = false := by decide
  have hset : relock.mask.set.getLsbD 0 = false := by decide
  rw [MaskedWord.getLsbD_apply, hkeep, hset, Bool.and_false, Bool.or_false]

private theorem unlock_keeps (word : U32) :
    (unlock.mask.apply word).extractLsb' 1 31 = word.extractLsb' 1 31 :=
  MaskedWord.extractLsb'_apply_of_kept _ word 1 31 (by decide) (by decide)

private theorem relock_keeps (word : U32) :
    (relock.mask.apply word).extractLsb' 1 31 = word.extractLsb' 1 31 :=
  MaskedWord.extractLsb'_apply_of_kept _ word 1 31 (by decide) (by decide)

/-- Along the writes of setup the enable bit is set at every write to another
register, it is clear in the end, and no write changes the bits beside it. -/
theorem setupRc_holds_lock (s : Store) :
    let lock := lockAddr build pci
    let final := (dwPcieSetupRc build pci).exec Decoder.plain.cell s
    (∀ e ∈ (dwPcieSetupRc build pci).writes Decoder.plain.cell s,
      (e.addr ≠ lock → (e.before lock).getLsbD 0 = true) ∧
      (e.before lock).extractLsb' 1 31 = (s lock).extractLsb' 1 31 ∧
      (e.after Decoder.plain.cell lock).extractLsb' 1 31 = (s lock).extractLsb' 1 31) ∧
    (final lock).getLsbD 0 = false ∧
    (final lock).extractLsb' 1 31 = (s lock).extractLsb' 1 31 := by
  dsimp only
  have hperforms := dwPcieSetupRc_performs Decoder.plain.cell build pci
  -- Only the first and the last update are of the lock.
  have hupdates : placed build pci (setupRcUpdates pci) =
      unlock.relocate (dbiAddr build pci) :: placed build pci (configUpdates pci) ++
        [relock.relocate (dbiAddr build pci)] := by
    rw [setupRcUpdates, placed_append, placed_cons]
    rfl
  have hinner : ∀ u ∈ placed build pci (configUpdates pci),
      Decoder.plain.cell u.addr ≠ lockAddr build pci :=
    fun u hu => configUpdates_ne_lock build pci hu
  have hopens : Decoder.plain.cell (unlock.relocate (dbiAddr build pci)).addr =
      lockAddr build pci := rfl
  have hcloses : Decoder.plain.cell (relock.relocate (dbiAddr build pci)).addr =
      lockAddr build pci := rfl
  rw [hperforms.writes, hperforms.exec, hupdates,
    bracket_perform Decoder.plain.cell _ _ s hopens hcloses hinner]
  refine ⟨?_, relocked_bit _, (relock_keeps _).trans (unlock_keeps _)⟩
  intro e he
  rcases bracket_writes Decoder.plain.cell _ _ hopens hcloses hinner he with
    ⟨haddr, hbefore, hvalue⟩ | ⟨hne, hbefore⟩ | ⟨haddr, hbefore, hvalue⟩
  · rw [WriteEvent.after_eq haddr, hbefore, hvalue]
    exact ⟨fun hne => absurd haddr hne, rfl, unlock_keeps _⟩
  · rw [WriteEvent.after_of_ne hne, hbefore]
    exact ⟨fun _ => unlocked_bit _, unlock_keeps _, unlock_keeps _⟩
  · rw [WriteEvent.after_eq haddr, hbefore, hvalue]
    exact ⟨fun hne => absurd haddr hne, unlock_keeps _,
      (relock_keeps _).trans (unlock_keeps _)⟩

end Lock

/-! ## Any order, any number of times -/

/-- The fields of a controller that its place in the table leaves open. -/
structure PortConfig where
  laneNum : U32
  order : U8
  pp : PciePort
  active : Bool

def entry (build : Build) (config : Fin 4 → PortConfig) (i : Fin 4) : DwPcie :=
  { (controllers build).get i with
    laneNum := (config i).laneNum
    order := (config i).order
    pp := (config i).pp
    active := (config i).active }

def setupAll (build : Build) (config : Fin 4 → PortConfig) (calls : List (Fin 4)) : Bus PUnit :=
  forM calls fun i => dwPcieSetupRc build (entry build config i)

section Repeat
variable (build : Build) (config : Fin 4 → PortConfig)

def entryUpdates (i : Fin 4) : List (Update BusAddr 32) :=
  placed build (entry build config i) (setupRcUpdates (entry build config i))

theorem setupRc_offset_lt {offset : U64}
    (h : offset ∈ lockOffset :: configOffsets ++ [lockOffset]) : offset.toNat < 2 ^ 19 := by
  have hall : ∀ o ∈ lockOffset :: configOffsets ++ [lockOffset], o.toNat < 2 ^ 19 :=
    List.all_iff_forall_prop.mp (by decide)
  exact hall offset h

theorem entryUpdates_disjoint (i j : Fin 4) (hij : i ≠ j) :
    ∀ u ∈ entryUpdates build config i, ∀ v ∈ entryUpdates build config j,
      Decoder.plain.cell u.addr ≠ Decoder.plain.cell v.addr := by
  intro u hu v hv h
  obtain ⟨offset, hoffset, hu⟩ := mem_placed_addr build _ hu
  obtain ⟨offset', hoffset', hv⟩ := mem_placed_addr build _ hv
  rw [setupRcUpdates_offsets] at hoffset hoffset'
  have haddr : dbiAddr build ((controllers build).get i) offset =
      dbiAddr build ((controllers build).get j) offset' :=
    hu.symm.trans ((show u.addr = v.addr from h).trans hv)
  exact hij (dbiAddr_controllers_inj build (setupRc_offset_lt hoffset)
    (setupRc_offset_lt hoffset') haddr).1

theorem setupAll_exec (calls : List (Fin 4)) (s : Store) :
    (setupAll build config calls).exec Decoder.plain.cell s =
      calls.foldl (fun s i => perform Decoder.plain.cell (entryUpdates build config i) s) s := by
  unfold setupAll
  rw [Program.exec_forM]
  simp only [(dwPcieSetupRc_performs Decoder.plain.cell build _).exec, entryUpdates]

/-- Only which controllers were set up shows in the final store. -/
theorem setupAll_determined {first second : List (Fin 4)}
    (h : ∀ i, i ∈ first ↔ i ∈ second) (s : Store) :
    (setupAll build config first).exec Decoder.plain.cell s =
      (setupAll build config second).exec Decoder.plain.cell s := by
  rw [setupAll_exec, setupAll_exec]
  exact foldl_perform_eq_of_mem_iff Decoder.plain.cell (entryUpdates build config)
    (entryUpdates_disjoint build config) h s

theorem setupAll_determined_twice :
    let build : Build := ⟨false, false, 3, 0⟩
    let config : Fin 4 → PortConfig := fun i => ⟨4, i.val, ((controllers build).get i).pp, true⟩
    (∀ i, i ∈ [(0 : Fin 4), 2, 0] ↔ i ∈ [(2 : Fin 4), 0]) ∧
    (setupAll build config [0, 2, 0]).exec Decoder.plain.cell (fun _ => 0) =
      (setupAll build config [2, 0]).exec Decoder.plain.cell (fun _ => 0) :=
  ⟨by decide, setupAll_determined _ _ (by decide) _⟩

end Repeat
end DwcPcie.SetupRun
