import DwcPcie.Controllers
import DwcPcie.Mmio.Windows
import DwcPcie.SetupEffect
import Mathlib.Data.Bool.AllAny

/-! The outbound windows as they stand in the registers. A window is programmed
by eight writes, and the one that enables it is the last; so at no write of a
run does an enabled window hold a part of a translation. -/
namespace DwcPcie.Outbound
open Glue Platform Registers Dbi Atu AddressMap Controllers SetupEffect Mmio

abbrev OutboundWindow := Window 64 U32

def outboundOffset (index reg : U32) : U64 := formatDbiAddr .atu (atuAddr index 0 reg)

def outboundRegs : List U32 := [
  pcieIatuLwrBaseAddrOffOutbound,
  pcieIatuUpperBaseAddrOffOutbound,
  pcieIatuLwrLimitAddrOffOutbound,
  pcieIatuUpperLimitAddrOffOutbound,
  pcieIatuLwrTargetAddrOffOutbound,
  pcieIatuUpperTargetAddrOffOutbound,
  pcieIatuRegionCtrl1OffOutbound,
  pcieIatuRegionCtrl2OffOutbound]

structure OutboundCall where
  index : U32
  type : U32
  cpuAddr : U64
  pciAddr : U64
  size : U64
  index_lt : index.toNat < 256
deriving DecidableEq

namespace OutboundCall

def updates (c : OutboundCall) : List OffsetUpdate :=
  outboundUpdates c.index c.type c.cpuAddr c.pciAddr c.size

def window (c : OutboundCall) : OutboundWindow :=
  Window.ofSize c.cpuAddr c.size c.pciAddr c.type

def words (c : OutboundCall) : List (U32 × U32) := [
  (pcieIatuLwrBaseAddrOffOutbound, lower32Bits c.cpuAddr),
  (pcieIatuUpperBaseAddrOffOutbound, upper32Bits c.cpuAddr),
  (pcieIatuLwrLimitAddrOffOutbound, lower32Bits (c.cpuAddr + c.size - 1)),
  (pcieIatuUpperLimitAddrOffOutbound, upper32Bits (c.cpuAddr + c.size - 1)),
  (pcieIatuLwrTargetAddrOffOutbound, lower32Bits c.pciAddr),
  (pcieIatuUpperTargetAddrOffOutbound, upper32Bits c.pciAddr),
  (pcieIatuRegionCtrl1OffOutbound, c.type),
  (pcieIatuRegionCtrl2OffOutbound, 0x80000000)]

theorem updates_eq (c : OutboundCall) :
    c.updates = c.words.map fun p => outboundUpdate c.index p.1 p.2 := by
  simp only [updates, outboundUpdates, words, List.map_cons, List.map_nil]

theorem words_regs (c : OutboundCall) : c.words.map Prod.fst = outboundRegs := rfl

theorem mem_updates_take {c : OutboundCall} {k : Nat} {u : OffsetUpdate}
    (hu : u ∈ c.updates.take k) :
    ∃ p ∈ c.words, p.1 ∈ outboundRegs.take k ∧ u = outboundUpdate c.index p.1 p.2 := by
  rw [updates_eq, ← List.map_take] at hu
  obtain ⟨p, hp, rfl⟩ := List.mem_map.mp hu
  refine ⟨p, List.mem_of_mem_take hp, ?_, rfl⟩
  rw [← c.words_regs, ← List.map_take]
  exact List.mem_map_of_mem hp

end OutboundCall

/-! The three windows of a port. -/

def cfg1Call (pp : PciePort) : OutboundCall :=
  ⟨0, pcieAtuTypeCfg1, pp.cfgBar1, 0x1000000000000000, 0x80000, by decide⟩

def cfg0Call (pp : PciePort) : OutboundCall :=
  ⟨1, pcieAtuTypeCfg0, pp.cfgBar0, 0x1100000000000000, 0x80000, by decide⟩

def memCall (pp : PciePort) : OutboundCall :=
  ⟨2, pcieAtuTypeMem, pp.memBase, 0x2000000000000000, pp.memSize, by decide⟩

theorem outboundRegs_lt {reg : U32} (h : reg ∈ outboundRegs) : reg.toNat < 256 := by
  have hall : ∀ r ∈ outboundRegs, r.toNat < 256 := List.all_iff_forall_prop.mp (by decide)
  exact hall reg h

theorem outboundOffset_lt {index reg : U32} (h : index.toNat < 256) (hreg : reg ∈ outboundRegs) :
    (outboundOffset index reg).toNat < 2 ^ 19 :=
  formatDbiAddr_lt (by decide) (atuAddr_lt h (by decide) (outboundRegs_lt hreg))

theorem outboundOffset_inj {index index' reg reg' : U32} (h : index.toNat < 256)
    (h' : index'.toNat < 256) (hreg : reg ∈ outboundRegs) (hreg' : reg' ∈ outboundRegs)
    (heq : outboundOffset index reg = outboundOffset index' reg') :
    index = index' ∧ reg = reg' := by
  have hdir : (0 : U32).toNat < 2 := by decide
  have hlt := outboundRegs_lt hreg
  have hlt' := outboundRegs_lt hreg'
  have htype : Supported .atu := by decide
  obtain ⟨-, hatu⟩ := formatDbiAddr_inj htype htype (atuAddr_lt h hdir hlt)
    (atuAddr_lt h' hdir hlt') heq
  obtain ⟨hindex, -, hr⟩ := atuAddr_inj h h' hdir hdir hlt hlt' hatu
  exact ⟨hindex, hr⟩

/-- No update lands in the bank of the window. -/
def Avoids (index : U32) (updates : List OffsetUpdate) : Prop :=
  ∀ u ∈ updates, ∀ reg ∈ outboundRegs, u.addr ≠ outboundOffset index reg

theorem Avoids.append {index : U32} {first second : List OffsetUpdate}
    (hfirst : Avoids index first) (hsecond : Avoids index second) :
    Avoids index (first ++ second) := by
  intro u hu
  rcases List.mem_append.mp hu with hu | hu
  · exact hfirst u hu
  · exact hsecond u hu

theorem Avoids.take {index : U32} {updates : List OffsetUpdate} (h : Avoids index updates)
    (k : Nat) : Avoids index (updates.take k) :=
  fun u hu => h u (List.mem_of_mem_take hu)

theorem OutboundCall.updates_take_avoid (c : OutboundCall) {index : U32}
    (h : index.toNat < 256) (hne : c.index ≠ index) (k : Nat) :
    Avoids index (c.updates.take k) := by
  intro u hu reg hreg heq
  obtain ⟨p, -, hp, rfl⟩ := mem_updates_take hu
  exact hne (outboundOffset_inj c.index_lt h (List.mem_of_mem_take hp) hreg heq).1

theorem OutboundCall.updates_avoid (c : OutboundCall) {index : U32} (h : index.toNat < 256)
    (hne : c.index ≠ index) : Avoids index c.updates :=
  c.updates_take_avoid h hne 8

section Decode
variable (build : Build) (pci : DwPcie)

def outboundWord (s : Store) (index reg : U32) : U32 :=
  s (dbiAddr build pci (outboundOffset index reg))

/-- What the hardware makes of the words in a bank. -/
def outboundWindow (s : Store) (index : U32) : OutboundWindow where
  base := outboundWord build pci s index pcieIatuUpperBaseAddrOffOutbound ++
    outboundWord build pci s index pcieIatuLwrBaseAddrOffOutbound
  limit := outboundWord build pci s index pcieIatuUpperLimitAddrOffOutbound ++
    outboundWord build pci s index pcieIatuLwrLimitAddrOffOutbound
  target := outboundWord build pci s index pcieIatuUpperTargetAddrOffOutbound ++
    outboundWord build pci s index pcieIatuLwrTargetAddrOffOutbound
  attr := outboundWord build pci s index pcieIatuRegionCtrl1OffOutbound
  enabled := (outboundWord build pci s index pcieIatuRegionCtrl2OffOutbound).getLsbD 31

/-- The store a list of updates of the controller's registers leaves. -/
def after (updates : List OffsetUpdate) (s : Store) : Store :=
  perform Decoder.plain.cell (placed build pci updates) s

theorem after_append (first second : List OffsetUpdate) (s : Store) :
    after build pci (first ++ second) s = after build pci second (after build pci first s) := by
  unfold after
  rw [placed_append, perform_append]

theorem outboundWord_after {index : U32} {updates : List OffsetUpdate} (h : Avoids index updates)
    {reg : U32} (hreg : reg ∈ outboundRegs) (s : Store) :
    outboundWord build pci (after build pci updates s) index reg =
      outboundWord build pci s index reg := by
  apply perform_frame
  intro u hu heq
  obtain ⟨v, hv, rfl⟩ := List.mem_map.mp hu
  exact h v hv reg hreg (dbiAddr_injective build pci heq)

theorem outboundWindow_congr {s s' : Store} {index : U32} (h : ∀ reg ∈ outboundRegs,
    outboundWord build pci s index reg = outboundWord build pci s' index reg) :
    outboundWindow build pci s index = outboundWindow build pci s' index := by
  unfold outboundWindow
  rw [h _ (by decide), h _ (by decide), h _ (by decide), h _ (by decide), h _ (by decide),
    h _ (by decide), h _ (by decide), h _ (by decide)]

theorem outboundWindow_after {index : U32} {updates : List OffsetUpdate}
    (h : Avoids index updates) (s : Store) :
    outboundWindow build pci (after build pci updates s) index =
      outboundWindow build pci s index :=
  outboundWindow_congr build pci fun _ hreg => outboundWord_after build pci h hreg s

def Programmed (s : Store) (c : OutboundCall) : Prop :=
  ∀ p ∈ c.words, outboundWord build pci s c.index p.1 = p.2

theorem Programmed.window {s : Store} {c : OutboundCall} (h : Programmed build pci s c) :
    outboundWindow build pci s c.index = c.window := by
  simp only [Programmed, OutboundCall.words, List.forall_mem_cons] at h
  obtain ⟨hbaseL, hbaseU, hlimitL, hlimitU, htargetL, htargetU, hctrl1, hctrl2, -⟩ := h
  unfold outboundWindow
  rw [hbaseL, hbaseU, hlimitL, hlimitU, htargetL, htargetU, hctrl1, hctrl2, upper_append_lower,
    upper_append_lower, upper_append_lower]
  rfl

theorem programmed_after (c : OutboundCall) (s : Store) :
    Programmed build pci (after build pci c.updates s) c := by
  let place (reg : U32) : BusAddr := dbiAddr build pci (outboundOffset c.index reg)
  have hplaced : placed build pci c.updates =
      (c.words.map fun p => (place p.1, p.2)).map fun p => ⟨p.1, .const p.2⟩ := by
    simp only [placed, c.updates_eq, List.map_map]
    rfl
  have hdistinct : ((c.words.map fun p => (place p.1, p.2)).map fun p => p.1).Nodup := by
    have hregs : outboundRegs.Nodup := by decide
    have hmap : (c.words.map fun p => (place p.1, p.2)).map (fun p => p.1) =
        outboundRegs.map place := by
      rw [← c.words_regs, List.map_map, List.map_map]
      rfl
    rw [hmap]
    refine List.Nodup.map_on (fun reg hreg reg' hreg' h => ?_) hregs
    exact (outboundOffset_inj c.index_lt c.index_lt hreg hreg'
      (dbiAddr_injective build pci h)).2
  intro p hp
  rw [after, hplaced]
  exact perform_puts Decoder.plain.cell _ s hdistinct (List.mem_map_of_mem hp)

/-! ## Every store of a run -/

def programAll (calls : List OutboundCall) : Bus PUnit :=
  forM calls fun c => dwPcieProgOutboundAtu build pci c.index c.type c.cpuAddr c.pciAddr c.size

def Consistent (calls : List OutboundCall) : Prop :=
  ∀ c ∈ calls, ∀ c' ∈ calls, c.index = c'.index → c = c'

/-- Every enabled window holds all that a finished call wrote. -/
def Intact (finished : List OutboundCall) (s : Store) : Prop :=
  ∀ r : U32, r.toNat < 256 → (outboundWindow build pci s r).enabled = true →
    ∃ c ∈ finished, c.index = r ∧ Programmed build pci s c

variable {build pci}

theorem Programmed.congr {s s' : Store} {c : OutboundCall} (h : Programmed build pci s c)
    (hword : ∀ reg ∈ outboundRegs, outboundWord build pci s' c.index reg =
      outboundWord build pci s c.index reg) : Programmed build pci s' c := by
  intro p hp
  rw [hword p.1 (c.words_regs ▸ List.mem_map_of_mem hp), h p hp]

theorem Programmed.after_take {s : Store} {c : OutboundCall} (h : Programmed build pci s c)
    (k : Nat) : after build pci (c.updates.take k) s = s := by
  apply perform_fixed
  intro u hu
  obtain ⟨v, hv, rfl⟩ := List.mem_map.mp hu
  obtain ⟨p, hp, -, rfl⟩ := OutboundCall.mem_updates_take hv
  exact (MaskedWord.apply_const _ _).trans (h p hp).symm

private theorem enabled_after_take (c : OutboundCall) {k : Nat} (hk : k < 8) (s : Store) :
    (outboundWindow build pci (after build pci (c.updates.take k) s) c.index).enabled =
      (outboundWindow build pci s c.index).enabled := by
  have hregs : pcieIatuRegionCtrl2OffOutbound ∉ outboundRegs.take k := by
    have hseven : outboundRegs.take k = (outboundRegs.take 7).take k := by
      rw [List.take_take, Nat.min_eq_left (by omega)]
    have hlast : pcieIatuRegionCtrl2OffOutbound ∉ outboundRegs.take 7 := by decide
    rw [hseven]
    exact fun h => hlast (List.mem_of_mem_take h)
  have hword : outboundWord build pci (after build pci (c.updates.take k) s) c.index
      pcieIatuRegionCtrl2OffOutbound =
        outboundWord build pci s c.index pcieIatuRegionCtrl2OffOutbound := by
    apply perform_frame
    intro u hu heq
    obtain ⟨v, hv, rfl⟩ := List.mem_map.mp hu
    obtain ⟨p, -, hmem, rfl⟩ := OutboundCall.mem_updates_take hv
    have hreg := (outboundOffset_inj c.index_lt c.index_lt (List.mem_of_mem_take hmem) (by decide)
      (dbiAddr_injective build pci heq)).2
    exact hregs (hreg ▸ hmem)
  exact congrArg (BitVec.getLsbD · 31) hword

theorem Intact.of_ne {finished : List OutboundCall} {s : Store} (h : Intact build pci finished s)
    (c : OutboundCall) (k : Nat) {r : U32} (hr : r.toNat < 256) (hne : c.index ≠ r)
    (henabled :
      (outboundWindow build pci (after build pci (c.updates.take k) s) r).enabled = true) :
    ∃ c' ∈ finished, c'.index = r ∧
      Programmed build pci (after build pci (c.updates.take k) s) c' := by
  have havoid : Avoids r (c.updates.take k) := c.updates_take_avoid hr hne k
  rw [outboundWindow_after build pci havoid] at henabled
  obtain ⟨c', hc', hindex, hprog⟩ := h r hr henabled
  subst hindex
  exact ⟨c', hc', rfl, hprog.congr fun reg hreg => outboundWord_after build pci havoid hreg s⟩

private theorem Intact.partial_call {finished : List OutboundCall} {s : Store}
    (h : Intact build pci finished s) {c : OutboundCall}
    (hsame : ∀ c' ∈ finished, c'.index = c.index → c' = c) {k : Nat} (hk : k < 8) :
    Intact build pci finished (after build pci (c.updates.take k) s) := by
  intro r hr henabled
  by_cases hne : c.index = r
  · -- If its window is enabled already, the call writes what stands there.
    subst hne
    obtain ⟨c', hc', hindex, hprog⟩ := h c.index hr (enabled_after_take c hk s ▸ henabled)
    obtain rfl := hsame c' hc' hindex
    refine ⟨c', hc', rfl, ?_⟩
    rwa [hprog.after_take]
  · exact h.of_ne c k hr hne henabled

private theorem Intact.whole_call {finished : List OutboundCall} {s : Store}
    (h : Intact build pci finished s) (c : OutboundCall) :
    Intact build pci (finished ++ [c]) (after build pci c.updates s) := by
  intro r hr henabled
  by_cases hne : c.index = r
  · exact ⟨c, by simp, hne, programmed_after build pci c s⟩
  · have hwhole : c.updates.take 8 = c.updates := rfl
    rw [← hwhole] at henabled ⊢
    obtain ⟨c', hc', hrest⟩ := h.of_ne c 8 hr hne henabled
    exact ⟨c', List.mem_append_left _ hc', hrest⟩

theorem updates_length (calls : List OutboundCall) :
    (calls.flatMap OutboundCall.updates).length = 8 * calls.length := by
  simp [List.length_flatMap, OutboundCall.updates, outboundUpdates, Nat.mul_comm]

theorem updates_take_concat (calls : List OutboundCall) (c : OutboundCall) (m : Nat) :
    ((calls ++ [c]).flatMap OutboundCall.updates).take m =
      (calls.flatMap OutboundCall.updates).take m ++ c.updates.take (m - 8 * calls.length) := by
  rw [List.flatMap_append, List.flatMap_singleton, List.take_append, updates_length]

/-- After any number of writes of a run the windows are intact for the calls that
have made all their writes. -/
theorem intact_take {calls : List OutboundCall} (hsame : Consistent calls) {s : Store}
    (hdisabled : Intact build pci [] s) (m : Nat) (hm : m ≤ 8 * calls.length) :
    Intact build pci (calls.take (m / 8))
      (after build pci ((calls.flatMap OutboundCall.updates).take m) s) := by
  induction calls using List.reverseRecOn generalizing m with
  | nil => simpa [after, placed, perform] using hdisabled
  | append_singleton calls c ih =>
    have hrest : Consistent calls := fun a ha b hb =>
      hsame a (List.mem_append_left _ ha) b (List.mem_append_left _ hb)
    have hlength := updates_length calls
    rw [List.length_append, List.length_singleton] at hm
    rw [updates_take_concat]
    -- Either the last call has not begun, or all the calls before it are done.
    rcases Nat.lt_or_ge m (8 * calls.length) with hlt | hge
    · have hnone : m - 8 * calls.length = 0 := by omega
      rw [hnone, List.take_zero, List.append_nil, List.take_append_of_le_length (by omega)]
      exact ih hrest m (by omega)
    · have hdone : (calls.flatMap OutboundCall.updates).take m =
          calls.flatMap OutboundCall.updates := List.take_of_length_le (by omega)
      have hbefore := ih hrest (8 * calls.length) (Nat.le_refl _)
      rw [Nat.mul_div_cancel_left _ (by decide), List.take_length, ← hlength,
        List.take_length] at hbefore
      rw [hdone, after_append]
      rcases Nat.lt_or_ge (m - 8 * calls.length) 8 with hpart | hwhole
      · have hcount : m / 8 = calls.length := by omega
        rw [hcount, List.take_append_of_le_length (Nat.le_refl _), List.take_length]
        refine hbefore.partial_call (fun c' hc' hindex => ?_) hpart
        exact hsame c' (List.mem_append_left _ hc') c (by simp) hindex
      · have hcount : m / 8 = calls.length + 1 := by omega
        have hall : c.updates.take (m - 8 * calls.length) = c.updates :=
          List.take_of_length_le hwhole
        rw [hcount, hall, List.take_of_length_le (by simp)]
        exact hbefore.whole_call c

theorem programmed_take {calls : List OutboundCall} (hsame : Consistent calls) (s : Store)
    (m : Nat) : ∀ c ∈ calls.take (m / 8),
      Programmed build pci (after build pci ((calls.flatMap OutboundCall.updates).take m) s) c := by
  induction calls using List.reverseRecOn with
  | nil => exact fun c hc => absurd hc (by simp)
  | append_singleton calls c ih =>
    have hrest : Consistent calls := fun a ha b hb =>
      hsame a (List.mem_append_left _ ha) b (List.mem_append_left _ hb)
    rw [updates_take_concat, after_append]
    intro c' hc'
    have hkept {c' : OutboundCall} (hmem : c' ∈ calls)
        (hprog : Programmed build pci
          (after build pci ((calls.flatMap OutboundCall.updates).take m) s) c') :
        Programmed build pci (after build pci (c.updates.take (m - 8 * calls.length))
          (after build pci ((calls.flatMap OutboundCall.updates).take m) s)) c' := by
      by_cases hindex : c.index = c'.index
      · obtain rfl := hsame c (by simp) c' (List.mem_append_left _ hmem) hindex
        rwa [hprog.after_take]
      · exact hprog.congr fun reg hreg =>
          outboundWord_after build pci (c.updates_take_avoid c'.index_lt hindex _) hreg _
    rcases Nat.lt_or_ge (m / 8) (calls.length + 1) with hlt | hge
    · rw [List.take_append_of_le_length (by omega)] at hc'
      exact hkept (List.mem_of_mem_take hc') (ih hrest c' hc')
    · have hdone : c.updates.take (m - 8 * calls.length) = c.updates :=
        List.take_of_length_le (show 8 ≤ m - 8 * calls.length by omega)
      have hall : (calls ++ [c]).take (m / 8) = calls ++ [c] :=
        List.take_of_length_le (by rw [List.length_append, List.length_singleton]; omega)
      rw [hall] at hc'
      rcases List.mem_append.mp hc' with hmem | hmem
      · refine hkept hmem (ih hrest c' ?_)
        rwa [List.take_of_length_le (by omega)]
      · rw [List.mem_singleton.mp hmem, hdone]
        exact programmed_after build pci c _

variable (build pci)

theorem programAll_performs (calls : List OutboundCall) :
    Performs Decoder.plain.cell (programAll build pci calls)
      (placed build pci (calls.flatMap OutboundCall.updates)) := by
  have hcall (c : OutboundCall) := dwPcieProgOutboundAtu_performs Decoder.plain.cell build pci
    c.index c.type c.cpuAddr c.pciAddr c.size
  have hplaced : placed build pci (calls.flatMap OutboundCall.updates) =
      calls.flatMap fun c => placed build pci c.updates := List.map_flatMap
  rw [hplaced]
  exact Performs.forM _ (fun c => placed build pci c.updates) hcall calls

/-- In the store after every write of a run an enabled window holds the whole
translation of a call, and a window with no finished call is still disabled. -/
theorem programAll_intact (calls : List OutboundCall) (s : Store)
    (hsame : ∀ c ∈ calls, ∀ c' ∈ calls, c.index = c'.index → c = c')
    (hdisabled : ∀ r : U32, r.toNat < 256 → (outboundWindow build pci s r).enabled = false) :
    let states := ((programAll build pci calls).writes Decoder.plain.cell s).map
      (WriteEvent.after Decoder.plain.cell)
    states.length = 8 * calls.length ∧
    ∀ j state, states[j]? = some state →
      let finished := calls.take ((j + 1) / 8)
      ∀ r : U32, r.toNat < 256 →
        ((outboundWindow build pci state r).enabled = true →
          ∃ c ∈ finished, c.index = r ∧ outboundWindow build pci state r =
            ⟨c.cpuAddr, c.cpuAddr + c.size - 1, c.pciAddr, c.type, true⟩) ∧
        ((∀ c ∈ finished, c.index ≠ r) → (outboundWindow build pci state r).enabled = false) := by
  dsimp only
  have hnone : Intact build pci [] s := fun r hr henabled => by
    rw [hdisabled r hr] at henabled
    cases henabled
  have hlength : (placed build pci (calls.flatMap OutboundCall.updates)).length =
      8 * calls.length := by
    rw [placed, List.length_map, updates_length]
  rw [(programAll_performs build pci calls).writes]
  refine ⟨?_, ?_⟩
  · rw [updateWrites_after, List.length_map, List.length_range, hlength]
  · intro j state hstate r hr
    obtain ⟨hj, rfl⟩ := updateWrites_after_getElem? Decoder.plain.cell hstate
    have hintact := intact_take hsame hnone (j + 1) (by omega)
    have hstate : perform Decoder.plain.cell
        ((placed build pci (calls.flatMap OutboundCall.updates)).take (j + 1)) s =
          after build pci ((calls.flatMap OutboundCall.updates).take (j + 1)) s := by
      rw [after, placed, placed, List.map_take]
    rw [hstate]
    refine ⟨fun henabled => ?_, fun hpending => ?_⟩
    · obtain ⟨c, hc, rfl, hprog⟩ := hintact r hr henabled
      exact ⟨c, hc, rfl, hprog.window build pci⟩
    · by_contra henabled
      obtain ⟨c, hc, hindex, -⟩ := hintact r hr (Bool.not_eq_false _ ▸ henabled)
      exact hpending c hc hindex

def repeatedCalls (pp : PciePort) : List OutboundCall := [cfg1Call pp, memCall pp, cfg1Call pp]

theorem programAll_intact_repeated :
    let build : Build := ⟨false, false, 3, 0⟩
    let pci := (controllers build)[x8]
    let calls := repeatedCalls pci.pp
    let states := ((programAll build pci calls).writes Decoder.plain.cell fun _ => 0).map
      (WriteEvent.after Decoder.plain.cell)
    states.length = 8 * calls.length ∧
    ∀ j state, states[j]? = some state →
      let finished := calls.take ((j + 1) / 8)
      ∀ r : U32, r.toNat < 256 →
        ((outboundWindow build pci state r).enabled = true →
          ∃ c ∈ finished, c.index = r ∧ outboundWindow build pci state r =
            ⟨c.cpuAddr, c.cpuAddr + c.size - 1, c.pciAddr, c.type, true⟩) ∧
        ((∀ c ∈ finished, c.index ≠ r) → (outboundWindow build pci state r).enabled = false) :=
  programAll_intact _ _ (repeatedCalls _) (fun _ => 0) (by decide) fun _ _ => by
    simp [outboundWindow, outboundWord]

end Decode
end DwcPcie.Outbound
