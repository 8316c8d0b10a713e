import DwcPcie.Outbound

/-! Where CPU addresses go once a controller is set up: the two configuration
windows lie over the memory window and win where they overlap it. -/
namespace DwcPcie.Translation
open Glue Platform Registers Dbi Atu AddressMap Controllers SetupRc SetupEffect Outbound Mmio

variable (build : Build) (pci : DwPcie)

/-- The hardware's translation of a CPU address: the lowest window wins. -/
def outboundTranslate (s : Store) (a : U64) : Option (U32 × U64) :=
  translate (fun r => outboundWindow build pci s (BitVec.ofNat 32 r)) maxIatuOut a

/-- The windows of a port are not empty and do not wrap. -/
structure WindowsFit (pp : PciePort) : Prop where
  mem_nonempty : 1 ≤ pp.memSize.toNat
  mem_fits : pp.memBase.toNat + pp.memSize.toNat ≤ 2 ^ 64
  cfg0_fits : pp.cfgBar0.toNat + 0x80000 ≤ 2 ^ 64
  cfg1_fits : pp.cfgBar1.toNat + 0x80000 ≤ 2 ^ 64

/-- The windows that setup leaves alone are disabled. -/
def OthersDisabled (s : Store) : Prop :=
  ∀ r : U32, 3 ≤ r.toNat → r.toNat < 256 → (outboundWindow build pci s r).enabled = false

section Calls
variable (pp : PciePort)

private theorem cfg1Call_avoids {r : U32} (hr : r.toNat < 256) (hne : 0 ≠ r) :
    Avoids r (cfg1Call pp).updates := (cfg1Call pp).updates_avoid hr hne

theorem cfg0Call_avoids {r : U32} (hr : r.toNat < 256) (hne : 1 ≠ r) :
    Avoids r (cfg0Call pp).updates := (cfg0Call pp).updates_avoid hr hne

theorem memCall_avoids {r : U32} (hr : r.toNat < 256) (hne : 2 ≠ r) :
    Avoids r (memCall pp).updates := (memCall pp).updates_avoid hr hne

end Calls

def beforeWindows (pci : DwPcie) : List OffsetUpdate := unlock :: setupUpdates pci ++ headerUpdates
def behindWindows : List OffsetUpdate := finalUpdates ++ [relock]

theorem setupRcUpdates_split : setupRcUpdates pci =
    beforeWindows pci ++ ((cfg1Call pci.pp).updates ++ ((cfg0Call pci.pp).updates ++
      ((memCall pci.pp).updates ++ behindWindows))) := by
  simp only [setupRcUpdates, configUpdates, windowUpdates, beforeWindows, behindWindows,
    List.append_assoc, List.cons_append]
  rfl

theorem avoids_of_low (offsets : List U64) {updates : List OffsetUpdate}
    (h : updates.map Update.addr = offsets)
    (hlow : offsets.all (fun o => o.toNat < 2 ^ 18) = true) {index : U32}
    (hindex : index.toNat < 256) : Avoids index updates := by
  intro u hu reg hreg heq
  have hroute : route1 .atu = some 2 := rfl
  have hmem : u.addr ∈ offsets := h ▸ List.mem_map_of_mem hu
  have hlt : u.addr.toNat < 2 ^ 18 := List.all_iff_forall_prop.mp hlow _ hmem
  have hge := formatDbiAddr_toNat hroute (atuAddr index 0 reg)
    (atuAddr_lt hindex (by decide) (outboundRegs_lt hreg))
  rw [heq, outboundOffset, hge] at hlt
  have htwo : (2 : U32).toNat = 2 := rfl
  omega

theorem beforeWindows_avoids {index : U32} (hindex : index.toNat < 256) :
    Avoids index (beforeWindows pci) :=
  avoids_of_low [0x8BC, 0x718, 0x710, 0x80C, 0x708, 0x890, 0x890, 0x890, 0x10, 0x14, 0x3c, 0x18,
    0x04] rfl (by decide) hindex

theorem behindWindows_avoids {index : U32} (hindex : index.toNat < 256) :
    Avoids index behindWindows :=
  avoids_of_low [0x10, 0x08, 0x80C, 0x8BC] rfl (by decide) hindex

theorem programmed_window_after (c : OutboundCall) {rest : List OffsetUpdate}
    (h : Avoids c.index rest) (s : Store) :
    outboundWindow build pci (after build pci (c.updates ++ rest) s) c.index = c.window := by
  rw [after_append, outboundWindow_after build pci h]
  exact (programmed_after build pci c s).window

section Windows
variable (s : Store)

theorem setupRc_exec : (dwPcieSetupRc build pci).exec Decoder.plain.cell s =
    after build pci (setupRcUpdates pci) s :=
  (dwPcieSetupRc_performs Decoder.plain.cell build pci).exec s

theorem window_cfg1 :
    outboundWindow build pci ((dwPcieSetupRc build pci).exec Decoder.plain.cell s) 0 =
      (cfg1Call pci.pp).window := by
  have hrest : Avoids 0
      ((cfg0Call pci.pp).updates ++ ((memCall pci.pp).updates ++ behindWindows)) :=
    (cfg0Call_avoids pci.pp (by decide) (by decide)).append
      ((memCall_avoids pci.pp (by decide) (by decide)).append (behindWindows_avoids (by decide)))
  rw [setupRc_exec, setupRcUpdates_split, after_append]
  exact programmed_window_after build pci (cfg1Call pci.pp) hrest _

theorem window_cfg0 :
    outboundWindow build pci ((dwPcieSetupRc build pci).exec Decoder.plain.cell s) 1 =
      (cfg0Call pci.pp).window := by
  have hrest : Avoids 1 ((memCall pci.pp).updates ++ behindWindows) :=
    (memCall_avoids pci.pp (by decide) (by decide)).append (behindWindows_avoids (by decide))
  rw [setupRc_exec, setupRcUpdates_split, after_append, after_append]
  exact programmed_window_after build pci (cfg0Call pci.pp) hrest _

theorem window_mem :
    outboundWindow build pci ((dwPcieSetupRc build pci).exec Decoder.plain.cell s) 2 =
      (memCall pci.pp).window := by
  rw [setupRc_exec, setupRcUpdates_split, after_append, after_append, after_append]
  have hrest : Avoids 2 behindWindows := behindWindows_avoids (by decide)
  exact programmed_window_after build pci (memCall pci.pp) hrest _

theorem outboundTranslate_congr {s s' : Store} (h : ∀ index : U32, index.toNat < 256 →
    ∀ reg ∈ outboundRegs,
      outboundWord build pci s index reg = outboundWord build pci s' index reg) (a : U64) :
    outboundTranslate build pci s a = outboundTranslate build pci s' a := by
  apply translate_congr
  intro r hr
  have hindex : (BitVec.ofNat 32 r).toNat < 256 := by
    have hcount : maxIatuOut = 256 := rfl
    rw [BitVec.toNat_ofNat]
    omega
  exact outboundWindow_congr build pci (h _ hindex)

theorem window_other {r : U32} (hthree : 3 ≤ r.toNat) (hr : r.toNat < 256) :
    outboundWindow build pci ((dwPcieSetupRc build pci).exec Decoder.plain.cell s) r =
      outboundWindow build pci s r := by
  have hne {index : U32} (hindex : index.toNat < 3) : index ≠ r := by
    rintro rfl
    omega
  have hall : Avoids r (setupRcUpdates pci) := by
    rw [setupRcUpdates_split]
    exact (beforeWindows_avoids pci hr).append
      ((cfg1Call_avoids pci.pp hr (hne (by decide))).append
        ((cfg0Call_avoids pci.pp hr (hne (by decide))).append
          ((memCall_avoids pci.pp hr (hne (by decide))).append (behindWindows_avoids hr))))
  rw [setupRc_exec, outboundWindow_after build pci hall]

end Windows

def portTranslate (pp : PciePort) (a : U64) : Option (U32 × U64) :=
  if Span pp.cfgBar1 0x80000 a then
    some (pcieAtuTypeCfg1, 0x1000000000000000 + (a - pp.cfgBar1))
  else if Span pp.cfgBar0 0x80000 a then
    some (pcieAtuTypeCfg0, 0x1100000000000000 + (a - pp.cfgBar0))
  else if Span pp.memBase pp.memSize a then
    some (pcieAtuTypeMem, 0x2000000000000000 + (a - pp.memBase))
  else none

theorem outboundTranslate_setupRc {pci : DwPcie} {s : Store} (hfit : WindowsFit pci.pp)
    (hothers : OthersDisabled build pci s) (a : U64) :
    outboundTranslate build pci ((dwPcieSetupRc build pci).exec Decoder.plain.cell s) a =
      portTranslate pci.pp a := by
  obtain ⟨hnonempty, hmem, hcfg0, hcfg1⟩ := hfit
  have hcfg : 1 ≤ (0x80000 : U64).toNat := by decide
  have hmatch1 : (cfg1Call pci.pp).window.Matches a ↔ Span pci.pp.cfgBar1 0x80000 a :=
    Window.ofSize_matches_iff _ _ hcfg hcfg1 a
  have hmatch0 : (cfg0Call pci.pp).window.Matches a ↔ Span pci.pp.cfgBar0 0x80000 a :=
    Window.ofSize_matches_iff _ _ hcfg hcfg0 a
  have hmatchm : (memCall pci.pp).window.Matches a ↔ Span pci.pp.memBase pci.pp.memSize a :=
    Window.ofSize_matches_iff _ _ hnonempty hmem a
  let table (r : Nat) : OutboundWindow := outboundWindow build pci
    ((dwPcieSetupRc build pci).exec Decoder.plain.cell s) (BitVec.ofNat 32 r)
  have htable0 : table 0 = (cfg1Call pci.pp).window := window_cfg1 build pci s
  have htable1 : table 1 = (cfg0Call pci.pp).window := window_cfg0 build pci s
  have htable2 : table 2 = (memCall pci.pp).window := window_mem build pci s
  have hrest : ∀ r, 3 ≤ r → r < 256 → ¬ (table r).Matches a := by
    intro r hthree hr h
    have hnat : (BitVec.ofNat 32 r).toNat = r := by
      rw [BitVec.toNat_ofNat]
      omega
    have hdisabled := hothers (BitVec.ofNat 32 r) (by omega) (by omega)
    rw [← window_other build pci s (by omega) (by omega)] at hdisabled
    exact Bool.false_ne_true (hdisabled.symm.trans h.1)
  change translate table 256 a = _
  unfold portTranslate
  -- The table and the port are searched in the same order.
  by_cases h1 : Span pci.pp.cfgBar1 0x80000 a
  · rw [if_pos h1, translate_eq_some (r := 0) (by decide) (htable0 ▸ hmatch1.mpr h1) (by simp),
      htable0]
    rfl
  by_cases h0 : Span pci.pp.cfgBar0 0x80000 a
  · rw [if_neg h1, if_pos h0, translate_eq_some (r := 1) (by decide) (htable1 ▸ hmatch0.mpr h0),
      htable1]
    · rfl
    · intro i hi
      obtain rfl : i = 0 := by omega
      rw [htable0, hmatch1]
      exact h1
  by_cases hm : Span pci.pp.memBase pci.pp.memSize a
  · rw [if_neg h1, if_neg h0, if_pos hm,
      translate_eq_some (r := 2) (by decide) (htable2 ▸ hmatchm.mpr hm), htable2]
    · rfl
    · intro i hi
      obtain rfl | rfl : i = 0 ∨ i = 1 := by omega
      · rw [htable0, hmatch1]
        exact h1
      · rw [htable1, hmatch0]
        exact h0
  · rw [if_neg h1, if_neg h0, if_neg hm]
    apply translate_eq_none
    intro r hr
    obtain rfl | rfl | rfl | hthree : r = 0 ∨ r = 1 ∨ r = 2 ∨ 3 ≤ r := by omega
    · rw [htable0, hmatch1]
      exact h1
    · rw [htable1, hmatch0]
      exact h0
    · rw [htable2, hmatchm]
      exact hm
    · exact hrest r hthree hr

/-! ## The ports of the platform -/

def windowStart (k : Fin 4) : U64 := pcieSubsysAddrStart + BitVec.ofNat 64 k * (512 * gb)

/-- A port whose configuration windows end its memory window. -/
def portAt (start : U64) : PciePort where
  cfgBar0 := start + 0x7ffff80000
  cfgBar1 := start + 0x7ffff00000
  cfgSize := 0x80000
  memBase := start
  memSize := 0x8000000000

theorem controllers_pp (k : Fin 4) : ((controllers build).get k).pp = portAt (windowStart k) := by
  exact match k with | 0 => rfl | 1 => rfl | 2 => rfl | 3 => rfl

theorem windowStart_toNat (k : Fin 4) :
    (windowStart k).toNat = 0x40000000000 + 0x8000000000 * k.val := by
  exact match k with | 0 => rfl | 1 => rfl | 2 => rfl | 3 => rfl

theorem windowStart_add_toNat (k : Fin 4) {offset : U64} (h : offset.toNat ≤ 0x8000000000) :
    (windowStart k + offset).toNat = (windowStart k).toNat + offset.toNat := by
  have hstart := windowStart_toNat k
  rw [BitVec.toNat_add]
  omega

theorem cfg0_toNat (k : Fin 4) :
    (windowStart k + 0x7ffff80000).toNat = (windowStart k).toNat + 0x7ffff80000 :=
  windowStart_add_toNat k (by decide)

theorem cfg1_toNat (k : Fin 4) :
    (windowStart k + 0x7ffff00000).toNat = (windowStart k).toNat + 0x7ffff00000 :=
  windowStart_add_toNat k (by decide)

theorem windowsFit_portAt (k : Fin 4) : WindowsFit (portAt (windowStart k)) := by
  have hstart := windowStart_toNat k
  have hcfg0 := cfg0_toNat k
  have hcfg1 := cfg1_toNat k
  unfold portAt
  constructor <;> simp only [BitVec.reduceToNat] <;> omega

/-- The half terabyte of a controller: memory, then both configuration windows. -/
def spaceTranslate (start a : U64) : Option (U32 × U64) :=
  if Span start 0x7ffff00000 a then
    some (pcieAtuTypeMem, 0x2000000000000000 + (a - start))
  else if Span (start + 0x7ffff00000) 0x80000 a then
    some (pcieAtuTypeCfg1, 0x1000000000000000 + (a - (start + 0x7ffff00000)))
  else if Span (start + 0x7ffff80000) 0x80000 a then
    some (pcieAtuTypeCfg0, 0x1100000000000000 + (a - (start + 0x7ffff80000)))
  else none

section Spans
variable (k : Fin 4) (a : U64)

theorem span_low : Span (windowStart k) 0x7ffff00000 a ↔
    (windowStart k).toNat ≤ a.toNat ∧ a.toNat < (windowStart k).toNat + 0x7ffff00000 := Iff.rfl

theorem span_cfg1 : Span (windowStart k + 0x7ffff00000) 0x80000 a ↔
    (windowStart k).toNat + 0x7ffff00000 ≤ a.toNat ∧
      a.toNat < (windowStart k).toNat + 0x7ffff80000 := by
  have hstart := cfg1_toNat k
  have hsize : (0x80000 : U64).toNat = 0x80000 := rfl
  unfold Span
  omega

theorem span_cfg0 : Span (windowStart k + 0x7ffff80000) 0x80000 a ↔
    (windowStart k).toNat + 0x7ffff80000 ≤ a.toNat ∧
      a.toNat < (windowStart k).toNat + 0x8000000000 := by
  have hstart := cfg0_toNat k
  have hsize : (0x80000 : U64).toNat = 0x80000 := rfl
  unfold Span
  omega

end Spans

private theorem portTranslate_portAt (k : Fin 4) (a : U64) :
    portTranslate (portAt (windowStart k)) a = spaceTranslate (windowStart k) a := by
  have hmem : Span (windowStart k) 0x8000000000 a ↔ (windowStart k).toNat ≤ a.toNat ∧
      a.toNat < (windowStart k).toNat + 0x8000000000 := Iff.rfl
  unfold portTranslate spaceTranslate portAt
  simp only [span_low, span_cfg1, span_cfg0, hmem]
  split_ifs <;> first | rfl | omega

private theorem spaceTranslate_eq_none {k : Fin 4} {a : U64}
    (h : ¬ Span (windowStart k) 0x8000000000 a) : spaceTranslate (windowStart k) a = none := by
  have hmem : ¬ ((windowStart k).toNat ≤ a.toNat ∧
      a.toNat < (windowStart k).toNat + 0x8000000000) := h
  unfold spaceTranslate
  simp only [span_low, span_cfg1, span_cfg0]
  rw [if_neg (by omega), if_neg (by omega), if_neg (by omega)]

private theorem spans_disjoint {i j : Fin 4} (hij : i ≠ j) {a : U64}
    (h : Span (windowStart i) 0x8000000000 a) : ¬ Span (windowStart j) 0x8000000000 a := by
  have hi := windowStart_toNat i
  have hj := windowStart_toNat j
  have hne : i.val ≠ j.val := fun h => hij (Fin.ext h)
  unfold Span at h ⊢
  simp only [BitVec.reduceToNat] at h ⊢
  omega

theorem spaceTranslate_exclusive {i j : Fin 4} (hij : i ≠ j) (a : U64) :
    spaceTranslate (windowStart i) a = none ∨ spaceTranslate (windowStart j) a = none := by
  by_cases h : Span (windowStart i) 0x8000000000 a
  · exact .inr (spaceTranslate_eq_none (spans_disjoint hij h))
  · exact .inl (spaceTranslate_eq_none h)

theorem outboundTranslate_platform {k : Fin 4} {pci : DwPcie} {s : Store}
    (hpp : pci.pp = ((controllers build).get k).pp) (hothers : OthersDisabled build pci s)
    (a : U64) :
    outboundTranslate build pci ((dwPcieSetupRc build pci).exec Decoder.plain.cell s) a =
      spaceTranslate (windowStart k) a := by
  have hport : pci.pp = portAt (windowStart k) := hpp.trans (controllers_pp build k)
  have hfit : WindowsFit pci.pp := hport ▸ windowsFit_portAt k
  rw [outboundTranslate_setupRc build hfit hothers a, hport, portTranslate_portAt]

/-- After setup every CPU address goes where the windows of the port say. On the
platform that is memory below the two configuration windows, and no address goes
through two controllers. -/
theorem setupRc_translates :
    (∀ pci s, WindowsFit pci.pp → OthersDisabled build pci s → ∀ a,
      outboundTranslate build pci ((dwPcieSetupRc build pci).exec Decoder.plain.cell s) a =
        if Span pci.pp.cfgBar1 0x80000 a then
          some (pcieAtuTypeCfg1, 0x1000000000000000 + (a - pci.pp.cfgBar1))
        else if Span pci.pp.cfgBar0 0x80000 a then
          some (pcieAtuTypeCfg0, 0x1100000000000000 + (a - pci.pp.cfgBar0))
        else if Span pci.pp.memBase pci.pp.memSize a then
          some (pcieAtuTypeMem, 0x2000000000000000 + (a - pci.pp.memBase))
        else none) ∧
    (∀ (k : Fin 4) pci s, pci.pp = ((controllers build).get k).pp →
      OthersDisabled build pci s → ∀ a,
      outboundTranslate build pci ((dwPcieSetupRc build pci).exec Decoder.plain.cell s) a =
        spaceTranslate (windowStart k) a) ∧
    (∀ i j : Fin 4, i ≠ j → ∀ a,
      spaceTranslate (windowStart i) a = none ∨ spaceTranslate (windowStart j) a = none) := by
  refine ⟨?_, ?_, ?_⟩
  · intro pci s hfit hothers a
    exact outboundTranslate_setupRc build hfit hothers a
  · intro k pci s hpp hothers a
    exact outboundTranslate_platform build hpp hothers a
  · intro i j hij a
    exact spaceTranslate_exclusive hij a

theorem setupRc_translates_x8 :
    let build : Build := ⟨false, false, 3, 0⟩
    let pci := (controllers build)[x8]
    let final := (dwPcieSetupRc build pci).exec Decoder.plain.cell fun _ => 0
    (∀ a, outboundTranslate build pci final a =
      if Span pci.pp.cfgBar1 0x80000 a then
        some (pcieAtuTypeCfg1, 0x1000000000000000 + (a - pci.pp.cfgBar1))
      else if Span pci.pp.cfgBar0 0x80000 a then
        some (pcieAtuTypeCfg0, 0x1100000000000000 + (a - pci.pp.cfgBar0))
      else if Span pci.pp.memBase pci.pp.memSize a then
        some (pcieAtuTypeMem, 0x2000000000000000 + (a - pci.pp.memBase))
      else none) ∧
    (∀ a, outboundTranslate build pci final a = spaceTranslate (windowStart 1) a) ∧
    (∀ a, spaceTranslate (windowStart 1) a = none ∨ spaceTranslate (windowStart 2) a = none) ∧
    spaceTranslate (windowStart 1) 0x4fffff80010 =
      some (pcieAtuTypeCfg0, 0x1100000000000010) := by
  intro build pci final
  have hothers : OthersDisabled build pci fun _ => 0 := by
    intro r _ _
    simp [outboundWindow, outboundWord]
  obtain ⟨hport, hplatform, hexclusive⟩ := setupRc_translates build
  exact ⟨hport pci _ (windowsFit_portAt 1) hothers, hplatform 1 pci _ rfl hothers,
    hexclusive 1 2 (by decide), by decide⟩

end DwcPcie.Translation
