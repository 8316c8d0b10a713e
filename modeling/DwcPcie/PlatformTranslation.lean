import DwcPcie.PlatformRun

/-! No address ever goes astray. The memory window of a port covers its two
configuration windows, so it would take their addresses if it were enabled
before them; since it is the last one programmed, at every write of bring-up an
address goes where it will go in the end, or nowhere. -/
namespace DwcPcie.PlatformTranslation
open Glue Platform Registers Dbi Atu Controllers SetupRc SetupEffect Duowen RegisterCells SetupRun
open Outbound Translation BringUp PlatformEffect PlatformRun Mmio

/-! ## One setup -/

section Setup
variable (build : Build) (pci : DwPcie)

/-- The windows of a port in the order they are programmed, which is that of
their indices. -/
def portCalls (pp : PciePort) : List OutboundCall := [cfg1Call pp, cfg0Call pp, memCall pp]

private theorem portCalls_index (pp : PciePort) {r : Nat} (hr : r < (portCalls pp).length) :
    ((portCalls pp)[r]).index = BitVec.ofNat 32 r := by
  match r, hr with
  | 0, _ | 1, _ | 2, _ => rfl

private theorem portCalls_consistent (pp : PciePort) : Consistent (portCalls pp) := by
  have hnodup : ((portCalls pp).map OutboundCall.index).Nodup := by
    change [(0 : U32), 1, 2].Nodup
    decide
  exact fun c hc c' hc' h => List.inj_on_of_nodup_map hnodup hc hc' h

theorem setupRcUpdates_calls : setupRcUpdates pci = beforeWindows pci ++
    ((portCalls pci.pp).flatMap OutboundCall.updates ++ behindWindows) := by
  rw [setupRcUpdates_split]
  simp [portCalls]

private theorem window_portCalls (s : Store) {r : Nat} (hr : r < (portCalls pci.pp).length) :
    outboundWindow build pci ((dwPcieSetupRc build pci).exec Decoder.plain.cell s)
      (BitVec.ofNat 32 r) = ((portCalls pci.pp)[r]).window := by
  match r, hr with
  | 0, _ => exact window_cfg1 build pci s
  | 1, _ => exact window_cfg0 build pci s
  | 2, _ => exact window_mem build pci s

private theorem outboundWindow_take (s : Store) (k : Nat) : ∃ m, m ≤ 8 * (portCalls pci.pp).length ∧
    ∀ index : U32, index.toNat < 256 →
      outboundWindow build pci (after build pci ((setupRcUpdates pci).take k) s) index =
        outboundWindow build pci (after build pci
          (((portCalls pci.pp).flatMap OutboundCall.updates).take m)
          (after build pci ((beforeWindows pci).take k) s)) index := by
  have hlength := updates_length (portCalls pci.pp)
  refine ⟨min (k - (beforeWindows pci).length) (8 * (portCalls pci.pp).length),
    Nat.min_le_right _ _, fun index hindex => ?_⟩
  rw [setupRcUpdates_calls, List.take_append, List.take_append, after_append, after_append,
    outboundWindow_after build pci ((behindWindows_avoids hindex).take _), ← hlength,
    ← List.take_eq_take_min]

/-- At every moment of a setup that finds its windows disabled an address goes
where it will go in the end, or nowhere. -/
theorem outboundTranslate_take {s : Store}
    (hdisabled : ∀ r : U32, r.toNat < 256 → (outboundWindow build pci s r).enabled = false)
    (k : Nat) (a : U64) :
    outboundTranslate build pci (after build pci ((setupRcUpdates pci).take k) s) a = none ∨
    outboundTranslate build pci (after build pci ((setupRcUpdates pci).take k) s) a =
      outboundTranslate build pci ((dwPcieSetupRc build pci).exec Decoder.plain.cell s) a := by
  obtain ⟨m, hm, hwindow⟩ := outboundWindow_take build pci s k
  have hcount : m / 8 ≤ (portCalls pci.pp).length := by omega
  have hconsistent := portCalls_consistent pci.pp
  -- Nothing before the windows enables one, so the invariant of the calls holds.
  have hintact : Intact build pci [] (after build pci ((beforeWindows pci).take k) s) := by
    intro r hr henabled
    rw [outboundWindow_after build pci ((beforeWindows_avoids pci hr).take k),
      hdisabled r hr] at henabled
    cases henabled
  have hsome := intact_take hconsistent hintact m hm
  have hdone := @programmed_take build pci _ hconsistent
    (after build pci ((beforeWindows pci).take k) s) m
  have hindex (r : Nat) (hr : r < maxIatuOut) : (BitVec.ofNat 32 r).toNat = r := by
    have hmax : maxIatuOut = 256 := rfl
    rw [BitVec.toNat_ofNat]
    omega
  have hmax : maxIatuOut = 256 := rfl
  -- The windows of the finished calls are as in the end, the others are disabled.
  refine translate_of_prefix (n := m / 8) (fun r hr hlt => ?_) fun r hr hlt => ?_
  · have hcall : (portCalls pci.pp)[r] ∈ (portCalls pci.pp).take (m / 8) :=
      List.mem_take_iff_getElem.mpr ⟨r, by omega, rfl⟩
    have hprogrammed := (hdone _ hcall).window build pci
    rw [portCalls_index] at hprogrammed
    rw [hwindow _ (by rw [hindex r hlt]; omega), hprogrammed,
      window_portCalls build pci s (by omega)]
  · by_contra henabled
    rw [Bool.not_eq_false, hwindow _ (by rw [hindex r hlt]; omega)] at henabled
    obtain ⟨c, hc, hr', -⟩ := hsome _ (by rw [hindex r hlt]; omega) henabled
    obtain ⟨j, hj, rfl⟩ := List.mem_take_iff_getElem.mp hc
    rw [portCalls_index] at hr'
    have hsame := congrArg BitVec.toNat hr'
    rw [hindex r hlt, hindex j (by omega)] at hsame
    omega

theorem outboundTranslate_disabled {s : Store}
    (hdisabled : ∀ r : U32, r.toNat < 256 → (outboundWindow build pci s r).enabled = false)
    (a : U64) : outboundTranslate build pci s a = none := by
  have hmax : maxIatuOut = 256 := rfl
  apply translate_eq_none
  rintro r hr ⟨henabled, -⟩
  rw [hdisabled _ (by rw [BitVec.toNat_ofNat]; omega)] at henabled
  cases henabled

end Setup

/-! ## Bring-up -/

section BringUp
variable {build : Build} {table : Vector DwPcie 4} (hreach : Reachable build table)
include hreach

theorem outboundWindow_chosen (i : Fin 4) (s : Store) (r : U32) :
    outboundWindow build ((chosen build table).get i) s r =
      outboundWindow build ((controllers build).get i) s r := by
  unfold outboundWindow outboundWord
  rw [(chosen_static hreach).dbiAddr_eq]

private theorem outboundTranslate_chosen (i : Fin 4) (s : Store) (a : U64) :
    outboundTranslate build ((chosen build table).get i) s a =
      outboundTranslate build ((controllers build).get i) s a := by
  unfold outboundTranslate
  simp only [outboundWindow_chosen hreach]

theorem outboundTranslate_prefix {first : List (Update BusAddr 32)}
    (hfirst : first <+: platformUpdates build table) {s : Store} (i : Fin 4)
    (hdisabled : ∀ r : U32, r.toNat < 256 →
      (outboundWindow build ((controllers build).get i) s r).enabled = false) (a : U64) :
    outboundTranslate build ((controllers build).get i) (perform Decoder.plain.cell first s) a =
        none ∨
      i ∈ setupCalls (chosen build table) ∧
        outboundTranslate build ((controllers build).get i) (perform Decoder.plain.cell first s) a =
          spaceTranslate (windowStart i) a := by
  obtain ⟨k, hk⟩ := perform_prefix hreach hfirst s i
  have hafter : outboundTranslate build ((controllers build).get i)
      (perform Decoder.plain.cell first s) a = outboundTranslate build ((controllers build).get i)
        (after build ((controllers build).get i) ((controllerUpdates build table i).take k) s) a :=
    outboundTranslate_congr build _ (fun index hindex reg hreg =>
      hk _ (outboundOffset_lt hindex hreg)) a
  rw [hafter]
  by_cases hi : i ∈ setupCalls (chosen build table)
  · rw [controllerUpdates, if_pos hi, after, ← placed_chosen hreach,
      ← outboundTranslate_chosen hreach]
    have hdisabled' : ∀ r : U32, r.toNat < 256 →
        (outboundWindow build ((chosen build table).get i) s r).enabled = false := fun r hr => by
      rw [outboundWindow_chosen hreach]
      exact hdisabled r hr
    have hfinal := outboundTranslate_platform build (chosen_static hreach i).2.2
      (fun r _ hr => hdisabled' r hr) a
    refine (outboundTranslate_take build _ hdisabled' k a).imp_right fun h => ⟨hi, ?_⟩
    exact h.trans hfinal
  · left
    rw [controllerUpdates, if_neg hi, List.take_nil]
    exact outboundTranslate_disabled build _ hdisabled a

end BringUp

/-- If bring-up finds all outbound windows disabled, then after each of its writes
every controller sends each address where the windows of its port say, or
nowhere; only controllers that are set up send any; and no two send the same. -/
theorem pciPlatformInit_translates (build : Build) (udelay : U32 → Bus PUnit)
    (hdelay : ∀ time, (udelay time).ReadOnly) {table : Vector DwPcie 4}
    (hreach : Reachable build table) {s : Store}
    (hdisabled : ∀ (i : Fin 4) (r : U32), r.toNat < 256 →
      (outboundWindow build ((controllers build).get i) s r).enabled = false) :
    ∀ e ∈ (pciPlatformInit build udelay table).writes Decoder.plain.cell s, ∀ a,
      (∀ i, outboundTranslate build ((controllers build).get i) (e.after Decoder.plain.cell) a =
          none ∨
        i ∈ setupCalls (selectLinks build build.defaultLinkMode table) ∧
        outboundTranslate build ((controllers build).get i) (e.after Decoder.plain.cell) a =
          spaceTranslate (windowStart i) a) ∧
      ∀ i j : Fin 4, i ≠ j →
        outboundTranslate build ((controllers build).get i) (e.after Decoder.plain.cell) a = none ∨
        outboundTranslate build ((controllers build).get j) (e.after Decoder.plain.cell) a =
          none := by
  intro e he a
  rw [(pciPlatformInit_performs build udelay hdelay Decoder.plain.cell table).writes] at he
  obtain ⟨first, hfirst, hafter⟩ := updateWrites_after_prefix Decoder.plain.cell he
  rw [hafter]
  have hall (i : Fin 4) := outboundTranslate_prefix hreach hfirst i (hdisabled i) a
  refine ⟨hall, fun i j hij => ?_⟩
  rcases hall i with hnone | ⟨-, hi⟩
  · exact .inl hnone
  rcases hall j with hnone | ⟨-, hj⟩
  · exact .inr hnone
  rw [hi, hj]
  exact spaceTranslate_exclusive hij a

theorem pciPlatformInit_translates_4444 :
    let build : Build := ⟨false, false, 0, 0⟩
    ∀ e ∈ (pciPlatformInit build (fun _ => pure ⟨⟩) (controllers build)).writes
        Decoder.plain.cell fun _ => 0, ∀ a,
      (∀ i, outboundTranslate build ((controllers build).get i) (e.after Decoder.plain.cell) a =
          none ∨
        i ∈ setupCalls (selectLinks build build.defaultLinkMode (controllers build)) ∧
        outboundTranslate build ((controllers build).get i) (e.after Decoder.plain.cell) a =
          spaceTranslate (windowStart i) a) ∧
      ∀ i j : Fin 4, i ≠ j →
        outboundTranslate build ((controllers build).get i) (e.after Decoder.plain.cell) a = none ∨
        outboundTranslate build ((controllers build).get j) (e.after Decoder.plain.cell) a =
          none := by
  intro build
  have hdisabled : ∀ (i : Fin 4) (r : U32), r.toNat < 256 →
      (outboundWindow build ((controllers build).get i) (fun _ => 0) r).enabled = false := by
    intro i r _
    simp [outboundWindow, outboundWord]
  exact pciPlatformInit_translates build (fun _ => pure ⟨⟩) (fun _ => trivial) .initial hdisabled

end DwcPcie.PlatformTranslation
