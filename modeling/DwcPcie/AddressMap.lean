import DwcPcie.Atu

/-! The layout of the register offsets. Three fields are joined by shifts and
ors; none of them reaches into the next, so an offset determines its fields. -/
namespace DwcPcie.AddressMap
open Glue Platform Dbi Atu

def Supported (type : DwPcieAccessType) : Prop := (route1 type).isSome

instance (type : DwPcieAccessType) : Decidable (Supported type) :=
  inferInstanceAs (Decidable (_ = _))

private theorem toNat_shiftLeft_or (high low : U32) (n : Nat) (hhigh : high.toNat * 2 ^ n < 2 ^ 32)
    (hlow : low.toNat < 2 ^ n) :
    ((high <<< n) ||| low).toNat = high.toNat * 2 ^ n + low.toNat := by
  rw [BitVec.toNat_or, BitVec.toNat_shiftLeft, Nat.shiftLeft_eq, Nat.mod_eq_of_lt hhigh,
    ← Nat.shiftLeft_eq, Nat.shiftLeft_add_eq_or_of_lt hlow]

private theorem route1_inj {type type' : DwPcieAccessType} {route : U32}
    (h : route1 type = some route) (h' : route1 type' = some route) : type = type' := by
  have heq := h.trans h'.symm
  cases type <;> cases type' <;> first
    | rfl
    | exact absurd heq (by decide)
    | cases h

theorem route1_lt {type : DwPcieAccessType} {route : U32} (h : route1 type = some route) :
    route.toNat < 4 := by
  cases type <;> simp [route1] at h <;> subst h <;> decide

/-- Whatever the register offset, space number and offset are joined by an or. -/
theorem formatDbiAddr_or {type : DwPcieAccessType} {route : U32}
    (h : route1 type = some route) (reg : U32) :
    (formatDbiAddr type reg).toNat = route.toNat * 2 ^ 17 ||| reg.toNat := by
  have hroute := route1_lt h
  have hlt : (route <<< 17 ||| reg).toNat < 2 ^ 64 :=
    Nat.lt_trans (BitVec.isLt _) (by decide)
  simp only [formatDbiAddr, h]
  rw [BitVec.toNat_setWidth, Nat.mod_eq_of_lt hlt, BitVec.toNat_or, BitVec.toNat_shiftLeft,
    Nat.shiftLeft_eq, Nat.mod_eq_of_lt (by omega)]

theorem formatDbiAddr_toNat {type : DwPcieAccessType} {route : U32}
    (h : route1 type = some route) (reg : U32) (hreg : reg.toNat < 2 ^ 17) :
    (formatDbiAddr type reg).toNat = route.toNat * 2 ^ 17 + reg.toNat := by
  rw [formatDbiAddr_or h, ← Nat.shiftLeft_eq, Nat.shiftLeft_add_eq_or_of_lt hreg]

/-- In the window of a supported space the offset determines space and register. -/
theorem formatDbiAddr_inj {type type' : DwPcieAccessType} {reg reg' : U32}
    (htype : Supported type) (htype' : Supported type')
    (hreg : reg.toNat < 2 ^ 17) (hreg' : reg'.toNat < 2 ^ 17)
    (h : formatDbiAddr type reg = formatDbiAddr type' reg') : type = type' ∧ reg = reg' := by
  obtain ⟨route, hroute⟩ := Option.isSome_iff_exists.mp htype
  obtain ⟨route', hroute'⟩ := Option.isSome_iff_exists.mp htype'
  have hnat := congrArg BitVec.toNat h
  rw [formatDbiAddr_toNat hroute reg hreg, formatDbiAddr_toNat hroute' reg' hreg'] at hnat
  have hr : route = route' := BitVec.eq_of_toNat_eq (by omega)
  subst hr
  exact ⟨route1_inj hroute hroute', BitVec.eq_of_toNat_eq (by omega)⟩

theorem formatDbiAddr_lt {type : DwPcieAccessType} (htype : Supported type) {reg : U32}
    (hreg : reg.toNat < 2 ^ 17) : (formatDbiAddr type reg).toNat < 2 ^ 19 := by
  obtain ⟨route, hroute⟩ := Option.isSome_iff_exists.mp htype
  have := route1_lt hroute
  rw [formatDbiAddr_toNat hroute reg hreg]
  omega

theorem formatDbiAddr_surj {offset : U64} (h : offset.toNat < 2 ^ 19) :
    ∃ type reg, Supported type ∧ reg.toNat < 2 ^ 17 ∧ formatDbiAddr type reg = offset := by
  have hspace : ∃ type route, route1 type = some route ∧ route.toNat = offset.toNat / 2 ^ 17 := by
    obtain hzero | hone | htwo | hthree : offset.toNat / 2 ^ 17 = 0 ∨ offset.toNat / 2 ^ 17 = 1 ∨
        offset.toNat / 2 ^ 17 = 2 ∨ offset.toNat / 2 ^ 17 = 3 := by omega
    · exact ⟨.cdm, 0, rfl, hzero.symm⟩
    · exact ⟨.shadow, 1, rfl, hone.symm⟩
    · exact ⟨.atu, 2, rfl, htwo.symm⟩
    · exact ⟨.dma, 3, rfl, hthree.symm⟩
  obtain ⟨type, route, hroute, hquotient⟩ := hspace
  have hreg : (BitVec.ofNat 32 (offset.toNat % 2 ^ 17)).toNat = offset.toNat % 2 ^ 17 := by
    rw [BitVec.toNat_ofNat]
    omega
  have hlt : (BitVec.ofNat 32 (offset.toNat % 2 ^ 17)).toNat < 2 ^ 17 := by omega
  refine ⟨type, _, Option.isSome_iff_exists.mpr ⟨route, hroute⟩, hlt, BitVec.eq_of_toNat_eq ?_⟩
  rw [formatDbiAddr_toNat hroute _ hlt]
  omega

theorem formatDbiAddr_mod_four {type : DwPcieAccessType} (htype : Supported type) (reg : U32) :
    (formatDbiAddr type reg).toNat % 4 = reg.toNat % 4 := by
  obtain ⟨route, hroute⟩ := Option.isSome_iff_exists.mp htype
  have hspace : route.toNat * 2 ^ 17 % 2 ^ 2 = 0 := by omega
  rw [formatDbiAddr_or hroute]
  change (route.toNat * 2 ^ 17 ||| reg.toNat) % 2 ^ 2 = _
  rw [Nat.or_mod_two_pow, hspace, Nat.zero_or]

theorem and_word_mask (reg : U32) : reg &&& 0xfffffffc = BitVec.ofNat 32 (reg.toNat / 4 * 4) := by
  have hmask : ∀ i < 32, (0xfffffffc : U32).getLsbD i = decide (2 ≤ i) := by decide
  have hshift : BitVec.ofNat 32 (reg.toNat / 4 * 4) = (reg >>> 2) <<< 2 := by
    apply BitVec.eq_of_toNat_eq
    simp [Nat.shiftRight_eq_div_pow, Nat.shiftLeft_eq]
  rw [hshift]
  apply BitVec.eq_of_getLsbD_eq
  intro i hi
  rw [BitVec.getLsbD_and, hmask i hi]
  by_cases h : 2 ≤ i
  · simp [h, hi, show ¬ i < 2 by omega, show 2 + (i - 2) = i by omega]
  · simp [h, show i < 2 by omega]

theorem regionDir_lt {region : DwPcieRegionType} {dir : U32} (h : regionDir region = some dir) :
    dir.toNat < 2 := by
  cases region <;> simp [regionDir] at h <;> subst h <;> decide

theorem regionDir_inj {region region' : DwPcieRegionType} {dir : U32}
    (h : regionDir region = some dir) (h' : regionDir region' = some dir) :
    region = region' := by
  have heq := h.trans h'.symm
  cases region <;> cases region' <;> first
    | rfl
    | exact absurd heq (by decide)

theorem atuAddr_toNat (index dir reg : U32) (hindex : index.toNat < 256) (hdir : dir.toNat < 2)
    (hreg : reg.toNat < 256) :
    (atuAddr index dir reg).toNat = index.toNat * 2 ^ 9 + dir.toNat * 2 ^ 8 + reg.toNat := by
  have hlow : ((dir <<< 8) ||| reg).toNat = dir.toNat * 2 ^ 8 + reg.toNat :=
    toNat_shiftLeft_or dir reg 8 (by omega) hreg
  rw [atuAddr, BitVec.or_assoc, toNat_shiftLeft_or index _ 9 (by omega) (by omega), hlow]
  omega

theorem atuAddr_inj {index index' dir dir' reg reg' : U32}
    (hindex : index.toNat < 256) (hindex' : index'.toNat < 256)
    (hdir : dir.toNat < 2) (hdir' : dir'.toNat < 2)
    (hreg : reg.toNat < 256) (hreg' : reg'.toNat < 256)
    (h : atuAddr index dir reg = atuAddr index' dir' reg') :
    index = index' ∧ dir = dir' ∧ reg = reg' := by
  have hnat := congrArg BitVec.toNat h
  rw [atuAddr_toNat index dir reg hindex hdir hreg,
    atuAddr_toNat index' dir' reg' hindex' hdir' hreg'] at hnat
  refine ⟨?_, ?_, ?_⟩ <;> apply BitVec.eq_of_toNat_eq <;> omega

theorem atuAddr_surj {offset : U32} (h : offset.toNat < 2 ^ 17) : ∃ index dir reg : U32,
    index.toNat < 256 ∧ dir.toNat < 2 ∧ reg.toNat < 256 ∧ atuAddr index dir reg = offset := by
  have hfield {n : Nat} (hn : n < 256) : (BitVec.ofNat 32 n).toNat = n := by
    rw [BitVec.toNat_ofNat]
    omega
  have hindex := hfield (n := offset.toNat / 2 ^ 9) (by omega)
  have hdir := hfield (n := offset.toNat / 2 ^ 8 % 2) (by omega)
  have hreg := hfield (n := offset.toNat % 2 ^ 8) (by omega)
  refine ⟨BitVec.ofNat 32 (offset.toNat / 2 ^ 9), BitVec.ofNat 32 (offset.toNat / 2 ^ 8 % 2),
    BitVec.ofNat 32 (offset.toNat % 2 ^ 8), by omega, by omega, by omega, ?_⟩
  apply BitVec.eq_of_toNat_eq
  rw [atuAddr_toNat _ _ _ (by omega) (by omega) (by omega)]
  omega

theorem atuAddr_lt {index dir reg : U32} (hindex : index.toNat < 256) (hdir : dir.toNat < 2)
    (hreg : reg.toNat < 256) : (atuAddr index dir reg).toNat < 2 ^ 17 := by
  rw [atuAddr_toNat index dir reg hindex hdir hreg]
  omega

theorem dbiAddr_aligned_iff (build : Build) (pci : DwPcie) (hbase : pci.dbiBase.toNat % 4 = 0)
    (offset : U64) : (dbiAddr build pci offset).Aligned ↔ offset.toNat % 4 = 0 := by
  unfold BusAddr.Aligned dbiAddr
  rw [BitVec.toNat_add]
  omega

end DwcPcie.AddressMap
