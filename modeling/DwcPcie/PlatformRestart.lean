import DwcPcie.PlatformRun

/-! Bring-up that is started over. Attempts that a reset cut short, at whatever
write, do not show once an attempt finishes; and on a platform that is up
another bring-up disturbs only a few bits on the way, none of them in a window. -/
namespace DwcPcie.PlatformRestart
open Glue Platform Registers Dbi AddressMap Controllers SetupEffect Duowen RegisterCells SetupRun
open Outbound Translation BringUp PlatformEffect PlatformRun Mmio

/-! ## Attempts -/

/-- One attempt at bring-up: how it waits, and the table it finds. -/
structure Attempt (build : Build) where
  udelay : U32 → Bus PUnit
  readOnly : ∀ time, (udelay time).ReadOnly
  table : Vector DwPcie 4
  reachable : Reachable build table

def Attempt.run {build : Build} (attempt : Attempt build) : Bus (Vector DwPcie 4) :=
  pciPlatformInit build attempt.udelay attempt.table

theorem platformUpdates_congr {build : Build} {table table' : Vector DwPcie 4}
    (h : chosen build table = chosen build table') :
    platformUpdates build table = platformUpdates build table' := by
  rw [platformUpdates, platformUpdates, h]

/-- Under a valid link mode an attempt that finishes leaves the same store and
returns the same table as an undisturbed bring-up, however many attempts were cut
short before it, after whatever write and from whatever tables. -/
theorem pciPlatformInit_restart (build : Build) (hmode : ValidLinkMode build.defaultLinkMode)
    {s s' : Store} (h : Attempted Decoder.plain.cell (fun attempt : Attempt build => attempt.run)
      s s')
    (last first : Attempt build) :
    last.run.exec Decoder.plain.cell s' = first.run.exec Decoder.plain.cell s ∧
      last.run.eval Decoder.plain.cell s' = first.run.eval Decoder.plain.cell s := by
  have hchosen (attempt : Attempt build) :
      chosen build attempt.table = chosen build first.table :=
    chosen_eq_of_valid hmode (reachable_static attempt.reachable) (reachable_static first.reachable)
  have hperforms (attempt : Attempt build) : Performs Decoder.plain.cell attempt.run
      (platformUpdates build first.table) := by
    rw [← platformUpdates_congr (hchosen attempt)]
    exact pciPlatformInit_performs build attempt.udelay attempt.readOnly _ attempt.table
  refine ⟨?_, ?_⟩
  · rw [h.exec_eq hperforms last, (hperforms first).exec]
  · refine (pciPlatformInit_eval build last.udelay _ last.table s').trans ?_
    rw [hchosen last]
    exact (pciPlatformInit_eval build first.udelay _ first.table s).symm

theorem pciPlatformInit_restart_phy :
    let build : Build := ⟨false, false, 2, 0⟩
    let attempt : Attempt build := ⟨fun _ => pure ⟨⟩, fun _ => trivial, controllers build, .initial⟩
    let e : WriteEvent BusAddr U32 BusAddr := ⟨fun _ => 0xff, ApbReg.addr build .resetPhy, 0⟩
    attempt.run.exec Decoder.plain.cell (e.after Decoder.plain.cell) =
        attempt.run.exec Decoder.plain.cell (fun _ => 0xff) ∧
      attempt.run.eval Decoder.plain.cell (e.after Decoder.plain.cell) =
        attempt.run.eval Decoder.plain.cell fun _ => 0xff := by
  intro build attempt e
  have he : e ∈ attempt.run.writes Decoder.plain.cell fun _ => 0xff := List.mem_cons_self
  exact pciPlatformInit_restart build (by decide) (.attempt .start attempt he) attempt attempt

/-! ## The bits that a controller's setup moves -/

section Controller
variable (pci : DwPcie)

/-- Registers that setup writes more than once, and not always the same. -/
def rewritten : List U64 := [lockOffset, 0x10, 0x890, 0x80C]

/-- The bits of them that setup moves away from where it leaves them. -/
def moved : List (U32 × Nat) :=
  [(pciBaseAddress0, 2), (pcieGen3RelatedOff, 24), (pcieMiscControl1Off, 0)]

private theorem setupRcUpdates_unique {u v : OffsetUpdate} (hu : u ∈ setupRcUpdates pci)
    (hv : v ∈ setupRcUpdates pci) (haddr : u.addr = v.addr) (hrewritten : u.addr ∉ rewritten) :
    u = v := by
  have hnodup : (((setupRcUpdates pci).filter fun u => u.addr ∉ rewritten).map
      Update.addr).Nodup := by
    have hfilter : ((setupRcUpdates pci).filter fun u => u.addr ∉ rewritten).map Update.addr =
        (lockOffset :: configOffsets ++ [lockOffset]).filter (· ∉ rewritten) := by
      rw [← setupRcUpdates_offsets pci, List.filter_map]
      rfl
    rw [hfilter]
    decide
  refine List.inj_on_of_nodup_map hnodup ?_ ?_ haddr
  · exact List.mem_filter.mpr ⟨hu, decide_eq_true hrewritten⟩
  · exact List.mem_filter.mpr ⟨hv, decide_eq_true (haddr ▸ hrewritten)⟩

private theorem mem_masks {offset : U64} {masks : List (MaskedWord 32)}
    (h : ((setupRcUpdates pci).filter fun u => u.addr = offset).map Update.mask = masks)
    {u : OffsetUpdate} (hu : u ∈ setupRcUpdates pci) (haddr : u.addr = offset) :
    u.mask ∈ masks := by
  rw [← h]
  exact List.mem_map_of_mem (List.mem_filter.mpr ⟨hu, decide_eq_true haddr⟩)

/-- Masks that all leave a bit alone or make it the bit of one word. -/
def LeanTo (masks : List (MaskedWord 32)) (word : U32) (i : Nat) : Prop :=
  ∀ m ∈ masks, m.set.getLsbD i = word.getLsbD i ∨ m.keep.getLsbD i = true ∧ m.set.getLsbD i = false

instance (masks : List (MaskedWord 32)) (word : U32) (i : Nat) :
    Decidable (LeanTo masks word i) :=
  inferInstanceAs (Decidable (∀ m ∈ masks, _))

private theorem lock_leans {i : Nat} (hi : i < 32) (hne : i ≠ 0) :
    LeanTo [.orWith 0x1, .andWith 0xfffffffe] 0 i := by
  revert i
  decide

private theorem baseAddress_leans {i : Nat} (hi : i < 32) (hne : i ≠ 2) :
    LeanTo [.const 0x4, .const 0x0] 0 i := by
  revert i
  decide

private theorem gen3Related_leans {i : Nat} (hi : i < 32) (hne : i ≠ 24) :
    LeanTo [⟨0xfcffffff, 0x200⟩, ⟨0xfcffffff, 0x1000000⟩, ⟨0xfcffffff, 0x1000200⟩] 0x200 i := by
  revert i
  decide

private theorem linkWidth_leans (lanes : U32) {i : Nat} (hi : i < 32) :
    LeanTo [⟨0xffffe0ff, linkWidthBits lanes⟩, .orWith 0x20000]
      (linkWidthBits lanes ||| 0x20000) i := by
  unfold linkWidthBits
  split_ifs <;> revert i <;> decide

theorem setupRcUpdates_leans {v : OffsetUpdate} (hv : v ∈ setupRcUpdates pci) {i : Nat}
    (hmoved : ∀ p ∈ moved, v.addr = formatDbiAddr .cdm p.1 → i ≠ p.2) :
    ∃ b, ∀ u ∈ setupRcUpdates pci, u.addr = v.addr → u.mask.Leans i b := by
  by_cases hi : i < 32
  swap
  · refine ⟨false, fun u _ _ => MaskedWord.leans_of_bits (.inl ?_)⟩
    exact BitVec.getLsbD_of_ge _ _ (by omega)
  -- Where only one update writes, that update decides.
  by_cases hrewritten : v.addr ∈ rewritten
  · obtain ⟨masks, word, hmasks, hlean⟩ : ∃ masks word,
        ((setupRcUpdates pci).filter fun u => u.addr = v.addr).map Update.mask = masks ∧
          LeanTo masks word i := by
      simp only [rewritten, List.mem_cons, List.not_mem_nil, or_false] at hrewritten
      rcases hrewritten with haddr | haddr | haddr | haddr <;> rw [haddr]
      · exact ⟨_, _, rfl, lock_leans hi (hmoved (pcieMiscControl1Off, 0) (by decide) haddr)⟩
      · exact ⟨_, _, rfl, baseAddress_leans hi (hmoved (pciBaseAddress0, 2) (by decide) haddr)⟩
      · exact ⟨_, _, rfl, gen3Related_leans hi (hmoved (pcieGen3RelatedOff, 24) (by decide) haddr)⟩
      · exact ⟨_, _, rfl, linkWidth_leans pci.laneNum hi⟩
    exact ⟨word.getLsbD i, fun u hu haddr =>
      MaskedWord.leans_of_bits (hlean _ (mem_masks pci hmasks hu haddr))⟩
  · refine ⟨v.mask.set.getLsbD i, fun u hu haddr => ?_⟩
    rw [setupRcUpdates_unique pci hu hv haddr (haddr ▸ hrewritten)]
    exact MaskedWord.leans_set _ _

end Controller

/-! ## The bits that bring-up moves -/

section Platform
variable (build : Build)

def apbValue : ApbReg → U32
  | .resetCore _ => 0xff
  | .resetPhy => 0xff
  | .control => build.defaultLinkMode.setWidth 32
  | .core _ => 0xc018010

private theorem apbUpdates_mask : ∀ u ∈ apbUpdates build,
    u.mask = .const (apbValue build u.addr) ∨ u = putApb .resetPhy 0x0 := by
  simp only [apbUpdates, resetUpdates, phyHold, coreRelease, phyRelease, modeUpdates, startUpdates,
    List.mem_append, List.mem_singleton, List.mem_map]
  rintro u ((rfl | ⟨i, -, rfl⟩ | rfl) | rfl | ⟨i, -, rfl⟩)
  · exact .inr rfl
  all_goals exact .inl rfl

private theorem apbUpdates_leans {r : ApbReg} {i : Nat} (hphy : r = .resetPhy → 8 ≤ i)
    {u : Update ApbReg 32} (hu : u ∈ apbUpdates build) (haddr : u.addr = r) :
    u.mask.Leans i ((apbValue build r).getLsbD i) := by
  rcases apbUpdates_mask build u hu with hmask | rfl
  · rw [hmask, haddr]
    exact MaskedWord.leans_set _ _
  · have hones : (0xff : U32) = (BitVec.allOnes 8).setWidth 32 := by decide
    obtain rfl : .resetPhy = r := haddr
    refine MaskedWord.leans_of_bits (.inl ?_)
    rw [apbValue, hones, BitVec.getLsbD_setWidth, BitVec.getLsbD_of_ge _ i (hphy rfl),
      Bool.and_false]
    exact BitVec.getLsbD_zero

/-- The bits that a repeated bring-up moves on the way. -/
def Disturbed (table : Vector DwPcie 4) (a : BusAddr) (i : Nat) : Prop :=
  (a = ApbReg.addr build .resetPhy ∧ i < 8) ∨
  ∃ k ∈ setupCalls table, ∃ p ∈ moved,
    a = dbiAddr build (table.get k) (formatDbiAddr .cdm p.1) ∧ i = p.2

variable {build} {table : Vector DwPcie 4} (hreach : Reachable build table)
include hreach

theorem mem_platformUpdates {u : Update BusAddr 32} (hu : u ∈ platformUpdates build table) :
    (∃ v ∈ apbUpdates build, u = v.relocate (ApbReg.addr build)) ∨
    ∃ k ∈ setupCalls (chosen build table), ∃ v ∈ setupRcUpdates ((chosen build table).get k),
      u = v.relocate (dbiAddr build ((controllers build).get k)) := by
  simp only [platformUpdates, List.mem_append] at hu
  have hapb {updates : List (Update ApbReg 32)} (h : updates ⊆ apbUpdates build)
      (hu : u ∈ placedApb build updates) :
      ∃ v ∈ apbUpdates build, u = v.relocate (ApbReg.addr build) := by
    obtain ⟨v, hv, rfl⟩ := List.mem_map.mp hu
    exact ⟨v, h hv, rfl⟩
  rcases hu with hu | hu | hu | hu
  · exact .inl (hapb (by simp [apbUpdates]) hu)
  · exact .inl (hapb (by simp [apbUpdates]) hu)
  · obtain ⟨k, hk, hu⟩ := List.mem_flatMap.mp hu
    rw [placed_chosen hreach] at hu
    obtain ⟨v, hv, rfl⟩ := List.mem_map.mp hu
    exact .inr ⟨k, hk, v, hv, rfl⟩
  · exact .inl (hapb (by simp [apbUpdates]) hu)

theorem platformUpdates_leans {v : Update BusAddr 32} (hv : v ∈ platformUpdates build table)
    {i : Nat} (h : ¬ Disturbed build (chosen build table) v.addr i) :
    ∃ b, ∀ u ∈ platformUpdates build table, u.addr = v.addr → u.mask.Leans i b := by
  have hlt {k : Fin 4} {w : OffsetUpdate} (hw : w ∈ setupRcUpdates ((chosen build table).get k)) :
      w.addr.toNat < 2 ^ 19 :=
    setupRc_offset_lt (setupRcUpdates_offsets ((chosen build table).get k) ▸
      List.mem_map_of_mem hw)
  rcases mem_platformUpdates hreach hv with ⟨v, -, rfl⟩ | ⟨k, hk, v, hw, rfl⟩
  · refine ⟨(apbValue build v.addr).getLsbD i, fun u hu haddr => ?_⟩
    rcases mem_platformUpdates hreach hu with ⟨u, hx, rfl⟩ | ⟨k, -, u, hx, rfl⟩
    · refine apbUpdates_leans build (fun hphy => ?_) hx (ApbReg.addr_inj build haddr)
      by_contra hi
      exact h (.inl ⟨congrArg (ApbReg.addr build) hphy, by omega⟩)
    · exact absurd haddr.symm (v.addr.addr_ne_dbiAddr build k (hlt hx))
  · obtain ⟨b, hb⟩ := setupRcUpdates_leans ((chosen build table).get k) hw (i := i)
      fun p hp haddr hi => h (.inr ⟨k, hk, p, hp, by
        rw [(chosen_static hreach).dbiAddr_eq, ← haddr]
        rfl, hi⟩)
    refine ⟨b, fun u hu haddr => ?_⟩
    rcases mem_platformUpdates hreach hu with ⟨u, -, rfl⟩ | ⟨j, -, u, hx, rfl⟩
    · exact absurd haddr (u.addr.addr_ne_dbiAddr build k (hlt hw))
    · obtain ⟨rfl, hoffset⟩ := dbiAddr_controllers_inj build (hlt hx) (hlt hw) haddr
      exact hb u hx hoffset

theorem platformUpdates_stable {first : List (Update BusAddr 32)}
    (hfirst : first <+: platformUpdates build table) (s : Store) {a : BusAddr} {i : Nat}
    (h : ¬ Disturbed build (chosen build table) a i) :
    (perform Decoder.plain.cell first
        (perform Decoder.plain.cell (platformUpdates build table) s) a).getLsbD i =
      (perform Decoder.plain.cell (platformUpdates build table) s a).getLsbD i := by
  by_cases hany : ∃ v ∈ platformUpdates build table, v.addr = a
  · obtain ⟨v, hv, rfl⟩ := hany
    obtain ⟨b, hb⟩ := platformUpdates_leans hreach hv h
    exact perform_stable Decoder.plain.cell hfirst hb s
  · rw [perform_frame]
    exact fun u hu haddr => hany ⟨u, hfirst.subset hu, haddr⟩

theorem outbound_undisturbed (k : Fin 4) {index reg : U32} (hindex : index.toNat < 256)
    (hreg : reg ∈ outboundRegs) (i : Nat) : ¬ Disturbed build (chosen build table)
      (dbiAddr build ((controllers build).get k) (outboundOffset index reg)) i := by
  have hoffset := outboundOffset_lt hindex hreg
  rintro (⟨hapb, -⟩ | ⟨j, -, p, hp, haddr, -⟩)
  · exact ApbReg.resetPhy.addr_ne_dbiAddr build k hoffset hapb.symm
  · have hmoved : ∀ p ∈ moved, p.1.toNat < 2 ^ 17 := by decide
    have hcdm : Supported .cdm := by decide
    have hatu : Supported .atu := by decide
    rw [(chosen_static hreach).dbiAddr_eq] at haddr
    have hsame := (dbiAddr_controllers_inj build hoffset
      (formatDbiAddr_lt hcdm (hmoved p hp)) haddr).2
    exact absurd (formatDbiAddr_inj hatu hcdm (atuAddr_lt hindex (by decide) (outboundRegs_lt hreg))
      (hmoved p hp) hsame).1 (by decide)

end Platform

/-- A bring-up on a platform that is up, from the table it was left with, ends
where it started. On the way it pulses the PHY reset and moves one bit in three
registers of each controller it sets up; no other bit of the bus ever differs,
and every controller translates every address as before throughout. -/
theorem pciPlatformInit_rerun (build : Build) (udelay udelay' : U32 → Bus PUnit)
    (hdelay : ∀ time, (udelay time).ReadOnly) (hdelay' : ∀ time, (udelay' time).ReadOnly)
    {table : Vector DwPcie 4} (hreach : Reachable build table) (s : Store) :
    let up := (pciPlatformInit build udelay table).exec Decoder.plain.cell s
    let table' := (pciPlatformInit build udelay table).eval Decoder.plain.cell s
    let again := pciPlatformInit build udelay' table'
    again.exec Decoder.plain.cell up = up ∧
    ∀ e ∈ again.writes Decoder.plain.cell up,
      (∀ a i, ¬ Disturbed build table' a i →
        (e.after Decoder.plain.cell a).getLsbD i = (up a).getLsbD i) ∧
      ∀ k a, outboundTranslate build ((controllers build).get k) (e.after Decoder.plain.cell) a =
        outboundTranslate build ((controllers build).get k) up a := by
  intro up table' again
  have hup : up = perform Decoder.plain.cell (platformUpdates build table) s :=
    (pciPlatformInit_performs build udelay hdelay Decoder.plain.cell table).exec s
  have htable : table' = chosen build table :=
    pciPlatformInit_eval build udelay Decoder.plain.cell table s
  have hagain : Performs Decoder.plain.cell again (platformUpdates build table) := by
    have hchosen := (congrArg (chosen build) htable).trans (chosen_chosen build table)
    rw [← platformUpdates_congr hchosen]
    exact pciPlatformInit_performs build udelay' hdelay' Decoder.plain.cell table'
  refine ⟨?_, fun e he => ?_⟩
  · rw [hagain.exec, hup, perform_idem]
  · rw [hagain.writes] at he
    obtain ⟨first, hfirst, hafter⟩ := updateWrites_after_prefix Decoder.plain.cell he
    have hstable (a : BusAddr) (i : Nat) (h : ¬ Disturbed build table' a i) :
        (e.after Decoder.plain.cell a).getLsbD i = (up a).getLsbD i := by
      rw [hafter, hup]
      exact platformUpdates_stable hreach hfirst s (htable ▸ h)
    refine ⟨hstable, fun k a => outboundTranslate_congr build _ (fun index hindex reg hreg => ?_) a⟩
    apply BitVec.eq_of_getLsbD_eq
    intro i _
    exact hstable _ i (htable ▸ outbound_undisturbed hreach k hindex hreg i)

theorem pciPlatformInit_rerun_8800 :
    let build : Build := ⟨false, false, 2, 0⟩
    let bringUp := pciPlatformInit build fun _ => pure ⟨⟩
    let up := (bringUp (controllers build)).exec Decoder.plain.cell fun _ => 0
    let table' := (bringUp (controllers build)).eval Decoder.plain.cell fun _ => 0
    (bringUp table').exec Decoder.plain.cell up = up ∧
    ∀ e ∈ (bringUp table').writes Decoder.plain.cell up,
      (∀ a i, ¬ Disturbed build table' a i →
        (e.after Decoder.plain.cell a).getLsbD i = (up a).getLsbD i) ∧
      ∀ k a, outboundTranslate build ((controllers build).get k) (e.after Decoder.plain.cell) a =
        outboundTranslate build ((controllers build).get k) up a :=
  pciPlatformInit_rerun _ (fun _ => pure ⟨⟩) (fun _ => pure ⟨⟩) (fun _ => trivial)
    (fun _ => trivial) .initial _

end DwcPcie.PlatformRestart
