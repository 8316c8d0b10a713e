import DwcPcie.Duowen
import DwcPcie.SetupEffect
import Mathlib.Data.List.FinRange

/-! Which controllers are chosen, set up and started. The link modes keep the
topology of the lanes whatever came before them; the loop over the table and the
second switch agree with the choice only under the conditions shown here. -/
namespace DwcPcie.BringUp
open Glue Platform Registers Dbi Controllers SetupRc SetupEffect Duowen Mmio

/-! ## The loop over the table -/

section Prefix
variable {α : Type} {p : α → Bool}

private theorem takeWhile_eq_filter_iff (items : List α) :
    items.takeWhile p = items.filter p ↔ items.Pairwise fun a b => p b = true → p a = true := by
  induction items with
  | nil => simp
  | cons a items ih =>
    rw [List.pairwise_cons]
    by_cases ha : p a = true
    · rw [List.takeWhile_cons_of_pos ha, List.filter_cons_of_pos ha, List.cons_inj_right, ih]
      exact ⟨fun h => ⟨fun _ _ _ => ha, h⟩, fun h => h.2⟩
    · rw [List.takeWhile_cons_of_neg ha, List.filter_cons_of_neg ha]
      constructor
      · intro h
        have hnone := List.filter_eq_nil_iff.mp h.symm
        exact ⟨fun b hb hpb => absurd hpb (hnone b hb),
          List.pairwise_of_forall_mem_list fun b _ c hc hpc => absurd hpc (hnone c hc)⟩
      · rintro ⟨h, -⟩
        exact (List.filter_eq_nil_iff.mpr fun b hb hpb => ha (h b hb hpb)).symm

end Prefix

section Loop
variable {n : Nat} (controllers : Vector DwPcie n)

def isActive (i : Fin n) : Bool := (controllers.get i).active

/-- The loop sets up the active controllers from the cursor on and sticks at the
first one that is not active. -/
theorem setupLoop_eq_forM {m : Type → Type} [Monad m] [LawfulMonad m] (setup : Fin n → m PUnit)
    (rest cursor : Nat) (h : cursor + rest ≤ n) :
    setupLoop controllers setup rest cursor h =
      forM ((((List.finRange n).drop cursor).take rest).takeWhile (isActive controllers))
        setup := by
  induction rest generalizing cursor with
  | zero => rw [List.take_zero, List.takeWhile_nil, List.forM_nil, setupLoop]
  | succ rest ih =>
    have hcursor : cursor < (List.finRange n).length := by
      rw [List.length_finRange]
      omega
    have hdrop : (List.finRange n).drop cursor =
        ⟨cursor, by omega⟩ :: (List.finRange n).drop (cursor + 1) := by
      rw [List.drop_eq_getElem_cons hcursor, List.getElem_finRange]
      rfl
    rw [setupLoop, hdrop, List.take_succ_cons]
    by_cases hactive : controllers[cursor].active = true
    · have hhead : isActive controllers ⟨cursor, by omega⟩ = true := hactive
      rw [if_pos hactive, List.takeWhile_cons_of_pos hhead, List.forM_cons, ih]
    · have hhead : ¬ isActive controllers ⟨cursor, by omega⟩ = true := hactive
      rw [if_neg hactive, ih, hdrop]
      -- The remaining iterations find the cursor where it is.
      cases rest with
      | zero => rw [List.take_zero, List.takeWhile_nil, List.takeWhile_cons_of_neg hhead]
      | succ rest =>
        rw [List.take_succ_cons, List.takeWhile_cons_of_neg hhead,
          List.takeWhile_cons_of_neg hhead]

/-- The controllers the loop sets up, in the order of the calls. -/
def setupCalls : List (Fin n) :=
  ((setupActive controllers fun i => (modify fun calls => calls ++ [i] :
    StateM (List (Fin n)) PUnit)).run []).2

private theorem forM_log (calls items : List (Fin n)) :
    ((forM items fun i => (modify fun calls => calls ++ [i] : StateM (List (Fin n)) PUnit)).run
      calls).2 = calls ++ items := by
  induction items generalizing calls with
  | nil => exact (List.append_nil calls).symm
  | cons i items ih =>
    rw [List.forM_cons]
    exact (ih _).trans (by simp)

theorem setupCalls_eq : setupCalls controllers =
    (List.finRange n).takeWhile (isActive controllers) := by
  unfold setupCalls setupActive
  rw [setupLoop_eq_forM, forM_log, List.drop_zero, List.take_of_length_le (by simp),
    List.nil_append]

theorem setupActive_eq_forM {m : Type → Type} [Monad m] [LawfulMonad m] (setup : Fin n → m PUnit) :
    setupActive controllers setup = forM (setupCalls controllers) setup := by
  unfold setupActive
  rw [setupLoop_eq_forM, setupCalls_eq, List.drop_zero, List.take_of_length_le (by simp)]

/-- The loop reaches every active controller once and in order exactly if no
controller that is not active stands before an active one. -/
theorem setupCalls_complete_iff :
    setupCalls controllers = (List.finRange n).filter (fun i => (controllers.get i).active) ↔
      ∀ i j : Fin n, i < j →
        (controllers.get j).active = true → (controllers.get i).active = true := by
  rw [setupCalls_eq]
  change List.takeWhile (isActive controllers) _ = List.filter (isActive controllers) _ ↔ _
  rw [takeWhile_eq_filter_iff, List.pairwise_iff_getElem]
  simp only [List.getElem_finRange, List.length_finRange]
  exact ⟨fun h i j => h i j i.isLt j.isLt, fun h i j hi hj => h ⟨i, hi⟩ ⟨j, hj⟩⟩

end Loop

/-- A build without DPU in mode 8_4_0_4: the last controller is active and stays
behind the third one, which is not. -/
theorem setupCalls_misses_x4_1 :
    let table := selectLinks ⟨false, false, 1, 0⟩ linkMode8404 (controllers ⟨false, false, 1, 0⟩)
    table[x4_1].active = true ∧ setupCalls table = [0, 1] ∧
      setupCalls table ≠ (List.finRange 4).filter (fun i => (table.get i).active) := by
  decide

/-! ## Choice and training start -/

section Modes
variable (build : Build)

def ValidLinkMode (mode : U8) : Prop :=
  mode = linkMode4444 ∨ mode = linkMode8404 ∨ mode = linkMode8800 ∨ mode = linkMode16000

instance (mode : U8) : Decidable (ValidLinkMode mode) := inferInstanceAs (Decidable (_ ∨ _))

/-- What the first switch leaves in the table. -/
def finalLinks (mode : U8) : Option (Vector Link 4) :=
  if mode = linkMode4444 then some (links4444 build)
  else if mode = linkMode8404 then some (if build.dpu then links8800 build else links8404 build)
  else if mode = linkMode8800 then some (links8800 build)
  else if mode = linkMode16000 then some (links16000 build)
  else none

def link (controller : DwPcie) : Link :=
  ⟨controller.laneNum, controller.active, controller.order⟩

@[simp] theorem link_setLink (controller : DwPcie) (l : Link) : link (setLink controller l) = l :=
  rfl

@[simp] theorem setLinks_getElem (links : Vector Link 4) (table : Vector DwPcie 4) (i : Fin 4) :
    (setLinks links table).get i = setLink (table.get i) (links.get i) := by
  exact match i with | 0 => rfl | 1 => rfl | 2 => rfl | 3 => rfl

theorem setLinks_setLinks (first second : Vector Link 4) (table : Vector DwPcie 4) :
    setLinks second (setLinks first table) = setLinks second table := rfl

theorem selectLinks_eq (mode : U8) (table : Vector DwPcie 4) :
    selectLinks build mode table = (finalLinks build mode).elim table (setLinks · table) := by
  unfold selectLinks finalLinks
  split_ifs <;> simp [setLinks_setLinks]

theorem subsysLinkInitPre_eval (udelay : U32 → Bus PUnit) (subsystem : DuowenPcieSubsystem)
    (cell : BusAddr → BusAddr) (s : Store) :
    (subsysLinkInitPre build udelay subsystem).eval cell s =
      { subsystem with
        controller := selectLinks build subsystem.linkMode subsystem.controller } := by
  simp only [subsysLinkInitPre, Program.eval_bind]
  rfl

/-- The controllers whose training the second switch starts. -/
def startOrder (mode : U8) : List (Fin 4) :=
  if mode = linkMode4444 then if build.dpu then [2] else [2, 3, 1, 0]
  else if mode = linkMode8404 then if build.dpu then [3] else [3, 1, 0]
  else if mode = linkMode8800 then if build.dpu then [1] else [1, 0]
  else if mode = linkMode16000 then [0]
  else []

def apbPort (i : Fin 4) : U8 := #v[apbPortX16, apbPortX8, apbPortX4_0, apbPortX4_1].get i

def trainingStart (subsystem : DuowenPcieSubsystem) (i : Fin 4) : ApbWrite :=
  ⟨subsystem.cfgApb.get i.castSucc, 0xc018010, apbPort i⟩

theorem postWrites_eq (subsystem : DuowenPcieSubsystem) :
    postWrites build subsystem =
      (startOrder build build.defaultLinkMode).map (trainingStart subsystem) := by
  unfold postWrites startOrder post4444 post8404 post8800 post16000 duowenGetLinkMode
  dsimp only
  split_ifs <;> rfl

def apbAddr (addr : U64) (port : U8) : BusAddr :=
  if build.ipbench then ⟨.apb port, (addr.setWidth 32).setWidth 64⟩ else ⟨.mmio, addr⟩

theorem writeApb_eq (addr : U64) (data : U32) (port : U8) :
    writeApb build addr data port = .put (apbAddr build addr port) data := by
  unfold writeApb apbAddr
  cases build.ipbench <;> rfl

/-- A controller's own APB base, at its own port. -/
def trainingAddr (subsystem : DuowenPcieSubsystem) (i : Fin 4) : BusAddr :=
  apbAddr build (subsystem.cfgApb.get i.castSucc) (apbPort i)

theorem subsysLinkInitPost_writes (subsystem : DuowenPcieSubsystem) (cell : BusAddr → BusAddr)
    (s : Store) :
    ((subsysLinkInitPost build subsystem).writes cell s).map (fun e => (e.addr, e.value)) =
      (startOrder build build.defaultLinkMode).map
        fun i => (trainingAddr build subsystem i, 0xc018010) := by
  unfold subsysLinkInitPost
  simp only [writeApb_eq]
  rw [Program.writes_forM_put, postWrites_eq, List.map_map]
  rfl

theorem trainingAddr_injective (table : Vector DwPcie 4) :
    (trainingAddr build (instanceSubsystem build table)).Injective := by
  have hall : ∀ ipbench : Bool, ∀ i j : Fin 4,
      trainingAddr ⟨ipbench, false, 0, 0⟩ (instanceSubsystem ⟨ipbench, false, 0, 0⟩
          (controllers ⟨ipbench, false, 0, 0⟩)) i =
        trainingAddr ⟨ipbench, false, 0, 0⟩ (instanceSubsystem ⟨ipbench, false, 0, 0⟩
          (controllers ⟨ipbench, false, 0, 0⟩)) j → i = j := by decide
  intro i j h
  exact hall build.ipbench i j h

/-- The last stage issues the write that starts training on a controller. -/
def StartsTraining (subsystem : DuowenPcieSubsystem) (cell : BusAddr → BusAddr) (s : Store)
    (i : Fin 4) : Prop :=
  ∃ e ∈ (subsysLinkInitPost build subsystem).writes cell s,
    e.addr = trainingAddr build subsystem i ∧ e.value = 0xc018010

instance (subsystem : DuowenPcieSubsystem) (cell : BusAddr → BusAddr) (s : Store) (i : Fin 4) :
    Decidable (StartsTraining build subsystem cell s i) :=
  inferInstanceAs (Decidable (∃ e ∈ _, _))

theorem startsTraining_iff {subsystem : DuowenPcieSubsystem}
    (hbases : (trainingAddr build subsystem).Injective) (cell : BusAddr → BusAddr) (s : Store)
    (i : Fin 4) : StartsTraining build subsystem cell s i ↔
      i ∈ startOrder build build.defaultLinkMode := by
  have hwrites : StartsTraining build subsystem cell s i ↔
      (trainingAddr build subsystem i, 0xc018010) ∈
        ((subsysLinkInitPost build subsystem).writes cell s).map fun e => (e.addr, e.value) := by
    simp only [StartsTraining, List.mem_map, Prod.mk.injEq]
  rw [hwrites, subsysLinkInitPost_writes, List.mem_map]
  constructor
  · rintro ⟨j, hj, h⟩
    rwa [← hbases (Prod.ext_iff.mp h).1]
  · exact fun hi => ⟨i, hi, rfl⟩

theorem finalLinks_startOrder (mode : U8) (hmode : ValidLinkMode mode) :
    ∃ links, finalLinks build mode = some links ∧
      ((∀ i : Fin 4, (links.get i).active = true ↔ i ∈ startOrder build mode) ↔
        ¬ (build.dpu = true ∧ mode = linkMode8404)) := by
  -- Only DPU is read of the build, so there are eight cases.
  have hlinks : finalLinks build mode = finalLinks ⟨false, build.dpu, 0, 0⟩ mode := rfl
  have hstart : startOrder build mode = startOrder ⟨false, build.dpu, 0, 0⟩ mode := rfl
  rw [hlinks, hstart]
  cases build.dpu <;> rcases hmode with rfl | rfl | rfl | rfl <;> exact ⟨_, rfl, by decide⟩

/-- The first stage activates exactly the controllers whose training the writes of
the last stage start, except with DPU in mode 8_4_0_4. -/
theorem linkInit_agrees_iff (udelay : U32 → Bus PUnit) (table : Vector DwPcie 4)
    (cell : BusAddr → BusAddr) (s s' : Store) (hmode : ValidLinkMode build.defaultLinkMode) :
    let chosen := (subsysLinkInitPre build udelay (instanceSubsystem build table)).eval cell s
    (∀ i : Fin 4, (chosen.controller.get i).active = true ↔
        StartsTraining build chosen cell s' i) ↔
      ¬ (build.dpu = true ∧ build.defaultLinkMode = linkMode8404) := by
  intro chosen
  obtain ⟨links, hlinks, hagree⟩ := finalLinks_startOrder build _ hmode
  have hchosen : chosen = instanceSubsystem build (setLinks links table) := by
    simp only [chosen, subsysLinkInitPre_eval, selectLinks_eq, instanceSubsystem,
      duowenGetLinkMode, hlinks, Option.elim_some]
  have hactive (i : Fin 4) : (chosen.controller.get i).active = (links.get i).active := by
    rw [hchosen]
    exact congrArg DwPcie.active (setLinks_getElem links table i)
  have hstarts (i : Fin 4) : StartsTraining build chosen cell s' i ↔
      i ∈ startOrder build build.defaultLinkMode := by
    rw [hchosen]
    exact startsTraining_iff build (trainingAddr_injective build _) cell s' i
  simp only [hactive, hstarts, hagree]

theorem linkInit_agrees_iff_x16 :
    let build : Build := ⟨false, false, 3, 0⟩
    let chosen := (subsysLinkInitPre build (fun _ => pure ⟨⟩)
      (instanceSubsystem build (controllers build))).eval Decoder.plain.cell fun _ => 0
    (∀ i : Fin 4, (chosen.controller.get i).active = true ↔
        StartsTraining build chosen Decoder.plain.cell (fun _ => 0) i) ↔
      ¬ (build.dpu = true ∧ build.defaultLinkMode = linkMode8404) :=
  linkInit_agrees_iff _ _ _ _ _ _ (by decide)

/-- With DPU mode 8_4_0_4 activates the second controller and starts the last. -/
theorem linkInit_splits_dpu :
    let build : Build := ⟨false, true, 1, 0⟩
    let chosen := (subsysLinkInitPre build (fun _ => pure ⟨⟩)
      (instanceSubsystem build (controllers build))).eval Decoder.plain.cell fun _ => 0
    let writes := (subsysLinkInitPost build chosen).writes Decoder.plain.cell fun _ => 0
    chosen.controller[x8].active = true ∧ chosen.controller[x4_1].active = false ∧
      writes.map (fun e => (e.addr, e.value)) = [(⟨.mmio, 0xff09004000⟩, 0xc018010)] ∧
      ¬ ∀ i : Fin 4, (chosen.controller.get i).active = true ↔
        StartsTraining build chosen Decoder.plain.cell (fun _ => 0) i := by
  decide

end Modes

/-! ## The topology of the lanes -/

/-- Every table that calls of the first stage leave behind, whatever modes and
bases they find. -/
inductive Reachable (build : Build) : Vector DwPcie 4 → Prop
  | initial : Reachable build (controllers build)
  | pre (udelay : U32 → Bus PUnit) (subsystem : DuowenPcieSubsystem)
      (cell : BusAddr → BusAddr) (s : Store) (h : Reachable build subsystem.controller) :
      Reachable build ((subsysLinkInitPre build udelay subsystem).eval cell s).controller

structure LinkTopology (links : Fin 4 → Link) : Prop where
  inactive : ∀ i, (links i).active = false → (links i).laneNum = 0
  lanes : ∀ i, (links i).active = true →
    (links i).laneNum = 4 ∨ (links i).laneNum = 8 ∨ (links i).laneNum = 16
  orders : ((List.finRange 4).filter fun i => (links i).active).map
      (fun i => (links i).order.toNat) =
    List.range ((List.finRange 4).filter fun i => (links i).active).length
  lanes_sum : ((List.finRange 4).map fun i => (links i).laneNum.toNat).sum ≤ 16

instance (links : Fin 4 → Link) : Decidable (LinkTopology links) :=
  decidable_of_iff (_ ∧ _ ∧ _ ∧ _)
    ⟨fun ⟨hinactive, hlanes, horders, hsum⟩ => ⟨hinactive, hlanes, horders, hsum⟩,
      fun h => ⟨h.inactive, h.lanes, h.orders, h.lanes_sum⟩⟩

section Topology
variable (build : Build)

theorem controllers_topology : LinkTopology fun i => link ((controllers build).get i) := by
  have hlinks : (fun i : Fin 4 => link ((controllers build).get i)) = fun _ => ⟨0, false, 0⟩ := by
    funext i
    exact match i with | 0 => rfl | 1 => rfl | 2 => rfl | 3 => rfl
  rw [hlinks]
  decide

theorem finalLinks_topology {mode : U8} {links : Vector Link 4}
    (h : finalLinks build mode = some links) : LinkTopology fun i => links.get i := by
  have hbuild : finalLinks build mode = finalLinks ⟨false, build.dpu, 0, 0⟩ mode := rfl
  rw [hbuild] at h
  generalize build.dpu = dpu at h
  unfold finalLinks at h
  cases dpu <;> split_ifs at h <;> cases h <;> decide

theorem selectLinks_topology (mode : U8) (table : Vector DwPcie 4)
    (h : LinkTopology fun i => link (table.get i)) :
    LinkTopology fun i => link ((selectLinks build mode table).get i) := by
  rw [selectLinks_eq]
  cases hlinks : finalLinks build mode with
  | none => exact h
  | some links =>
    simp only [Option.elim_some, setLinks_getElem, link_setLink]
    exact finalLinks_topology build hlinks

theorem Reachable.topology {table : Vector DwPcie 4} (h : Reachable build table) :
    LinkTopology fun i => link (table.get i) := by
  induction h with
  | initial => exact controllers_topology build
  | pre udelay subsystem cell s h ih =>
    rw [subsysLinkInitPre_eval]
    exact selectLinks_topology build subsystem.linkMode subsystem.controller ih

end Topology

/-! ## The topology in the registers -/

section Fields
variable (build : Build) (pci : DwPcie) (s : Store)

def setupWord (reg : U32) : U32 :=
  (dwPcieSetup build pci).exec Decoder.plain.cell s (dbiAddr build pci (formatDbiAddr .cdm reg))

theorem setupWord_eq (reg : U32) : setupWord build pci s reg =
    (netMask (fun a => a) (setupUpdates pci) (formatDbiAddr .cdm reg)).apply
      (s (dbiAddr build pci (formatDbiAddr .cdm reg))) :=
  exec_placed_apply build pci (dwPcieSetup_performs Decoder.plain.cell build pci) s _

theorem setupWord_field (reg : U32) (mask : MaskedWord 32) (start len : Nat)
    (hmask : netMask (fun a => a) (setupUpdates pci) (formatDbiAddr .cdm reg) =
      MaskedWord.id.andThen mask) (hcleared : mask.keep.extractLsb' start len = 0) :
    (setupWord build pci s reg).extractLsb' start len = mask.set.extractLsb' start len := by
  rw [setupWord_eq, hmask, MaskedWord.apply_andThen, MaskedWord.apply_id,
    MaskedWord.extractLsb'_apply_of_cleared mask _ start len hcleared]

private theorem linkWidth_field (hlanes : pci.laneNum = 4 ∨ pci.laneNum = 8 ∨ pci.laneNum = 16) :
    ((setupWord build pci s pcieLinkWidthSpeedControl).extractLsb' 8 5).toNat =
      pci.laneNum.toNat := by
  have hcleared : (0xffffe0ff : U32).extractLsb' 8 5 = 0 := by decide
  rw [setupWord_field build pci s _ ⟨0xffffe0ff, linkWidthBits pci.laneNum⟩ 8 5 rfl hcleared]
  exact linkWidthBits_lanes hlanes

private theorem portLink_field (hlanes : pci.laneNum = 4 ∨ pci.laneNum = 8 ∨ pci.laneNum = 16) :
    ((setupWord build pci s pciePortLinkControl).extractLsb' 16 6).toNat =
      2 * pci.laneNum.toNat - 1 := by
  have hcleared : (0xffc0ffff : U32).extractLsb' 16 6 = 0 := by decide
  rw [setupWord_field build pci s _ ⟨0xffc0ffff, linkModeBits pci.laneNum ||| 0x80⟩ 16 6 rfl
    hcleared]
  exact linkModeBits_lanes hlanes

private theorem portForce_field :
    (setupWord build pci s pciePortForceOff).extractLsb' 0 8 = pci.order := by
  have hcleared : (0xffffff00 : U32).extractLsb' 0 8 = 0 := by decide
  rw [setupWord_field build pci s _ ⟨0xffffff00, pci.order.setWidth 32⟩ 0 8 rfl hcleared]
  exact order_field pci.order

end Fields

/-- In every reachable table lanes and link numbers fit together, and setting an
active controller up writes them into its registers. -/
theorem reachable_topology (build : Build) {table : Vector DwPcie 4} (h : Reachable build table) :
    (LinkTopology fun i => ⟨(table.get i).laneNum, (table.get i).active, (table.get i).order⟩) ∧
    ∀ i : Fin 4, (table.get i).active = true → ∀ s : Store,
      let word (reg : U32) := (dwPcieSetup build (table.get i)).exec Decoder.plain.cell s
        (dbiAddr build (table.get i) (formatDbiAddr .cdm reg))
      ((word pcieLinkWidthSpeedControl).extractLsb' 8 5).toNat = (table.get i).laneNum.toNat ∧
      ((word pciePortLinkControl).extractLsb' 16 6).toNat = 2 * (table.get i).laneNum.toNat - 1 ∧
      (word pciePortForceOff).extractLsb' 0 8 = (table.get i).order := by
  have htopology := h.topology
  refine ⟨htopology, ?_⟩
  intro i hactive s
  have hlanes := htopology.lanes i hactive
  exact ⟨linkWidth_field build (table.get i) s hlanes, portLink_field build (table.get i) s hlanes,
    portForce_field build (table.get i) s⟩

theorem reachable_topology_8404 :
    let build : Build := ⟨false, false, 1, 0⟩
    let run (mode : U8) (table : Vector DwPcie 4) : Vector DwPcie 4 :=
      ((subsysLinkInitPre build (fun _ => pure ⟨⟩) ⟨Vector.replicate 5 0, mode, table⟩).eval
        Decoder.plain.cell fun _ => 0).controller
    let table := run 1 (run 0x7f (controllers build))
    (LinkTopology fun i => ⟨(table.get i).laneNum, (table.get i).active, (table.get i).order⟩) ∧
    ∀ i : Fin 4, (table.get i).active = true → ∀ s : Store,
      let word (reg : U32) := (dwPcieSetup build (table.get i)).exec Decoder.plain.cell s
        (dbiAddr build (table.get i) (formatDbiAddr .cdm reg))
      ((word pcieLinkWidthSpeedControl).extractLsb' 8 5).toNat = (table.get i).laneNum.toNat ∧
      ((word pciePortLinkControl).extractLsb' 16 6).toNat = 2 * (table.get i).laneNum.toNat - 1 ∧
      (word pciePortForceOff).extractLsb' 0 8 = (table.get i).order := by
  intro build run table
  have hreachable : Reachable build table :=
    .pre _ ⟨_, 1, _⟩ _ _ (.pre _ ⟨_, 0x7f, _⟩ _ _ .initial)
  exact reachable_topology build hreachable

end DwcPcie.BringUp
