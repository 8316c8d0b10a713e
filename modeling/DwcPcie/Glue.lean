import Mathlib.Data.BitVec

/-! The integer macros of the glue header. `unsigned long` has 64 bits, so a
mask built by `genmask` is wider than the registers it is applied to. -/
namespace DwcPcie.Glue

abbrev U8 := BitVec 8
abbrev U16 := BitVec 16
abbrev U32 := BitVec 32
abbrev U64 := BitVec 64

def bitsPerLong : Nat := 64

def bit (nr : Nat) : U64 := 1 <<< nr

/-- `__builtin_ffsll`: one plus the index of the lowest set bit, 0 for 0. -/
def ffsll (x : U64) : Nat :=
  ((List.range 64).find? fun i => x.getLsbD i).elim 0 (· + 1)

def bfShf (x : U64) : Nat := ffsll x - 1

def fieldPrep (mask val : U64) : U64 := (val <<< bfShf mask) &&& mask

def genmask (h l : Nat) : U64 :=
  (~~~(0 : U64) - ((1 : U64) <<< l) + 1) &&& (~~~(0 : U64) >>> (bitsPerLong - 1 - h))

def upper32Bits (n : U64) : U32 := ((n >>> 16) >>> 16).setWidth 32
def lower32Bits (n : U64) : U32 := n.setWidth 32

/-- `val &= m` on a `uint32_t` with an `unsigned long` right-hand side. -/
def andAssign (val : U32) (m : U64) : U32 := (val.setWidth 64 &&& m).setWidth 32

/-- `val |= m` on a `uint32_t` with an `unsigned long` right-hand side. -/
def orAssign (val : U32) (m : U64) : U32 := (val.setWidth 64 ||| m).setWidth 32

@[simp] theorem andAssign_eq (val : U32) (m : U64) :
    andAssign val m = val &&& m.setWidth 32 := by
  simp [andAssign]

@[simp] theorem orAssign_eq (val : U32) (m : U64) :
    orAssign val m = val ||| m.setWidth 32 := by
  simp [orAssign]

theorem upper_append_lower (n : U64) : upper32Bits n ++ lower32Bits n = n := by
  apply BitVec.eq_of_getLsbD_eq
  intro i hi
  rw [BitVec.getLsbD_append]
  by_cases h : i < 32
  · simp [lower32Bits, h]
  · have hhigh : 32 + (i - 32) = i := by omega
    simp [upper32Bits, h, hhigh, show i - 32 < 32 by omega]

end DwcPcie.Glue
