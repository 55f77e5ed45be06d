import Picoweb.Lib.Checked

/-!
# Field arithmetic of P-256

`p256.c`: numbers of four 64-bit limbs modulo the prime of P-256. A product is folded nine times in signed limbs of
32 bits. Sums and products are checked against the size of their word. The differences of two words are computed by
a parameter `sub`, since the code lets them wrap around where it wants the borrow.
-/

namespace P256

open Checked List

/-- `u256` -/
structure U256 where
  v0 : UInt64
  v1 : UInt64
  v2 : UInt64
  v3 : UInt64
  deriving DecidableEq, Repr

/-- `P256_P` -/
def p256P : U256 := ⟨0xffffffffffffffff, 0x00000000ffffffff, 0x0000000000000000, 0xffffffff00000001⟩

def subWrapping (a b : UInt64) : Checked UInt64 := pure (a - b)

/-! ### Sums and differences -/

/-- One limb of `u256_add_raw`, with the carry in a 128-bit word. -/
def addLimb (c : ℕ) (a b : UInt64) : Checked (UInt64 × ℕ) := do
  let s ← add128 a.toNat b.toNat
  let c ← add128 c s
  return (UInt64.ofNat c, c >>> 64)

/-- `u256_add_raw` -/
def u256AddRaw (a b : U256) : Checked (U256 × UInt64) := do
  let (r0, c) ← addLimb 0 a.v0 b.v0
  let (r1, c) ← addLimb c a.v1 b.v1
  let (r2, c) ← addLimb c a.v2 b.v2
  let (r3, c) ← addLimb c a.v3 b.v3
  return (⟨r0, r1, r2, r3⟩, UInt64.ofNat c)

section

variable (sub : UInt64 → UInt64 → Checked UInt64)

/-- One limb of `u256_sub_raw`. -/
def subLimb (borrow a b : UInt64) : Checked (UInt64 × UInt64) := do
  let r ← sub (← sub a b) borrow
  let b1 : UInt64 := if a < b then 1 else 0
  let b2 : UInt64 := if borrow ≠ 0 ∧ a = b then 1 else 0
  return (r, b1 ||| b2)

/-- `u256_sub_raw` -/
def u256SubRaw (a b : U256) : Checked (U256 × UInt64) := do
  let (r0, borrow) ← subLimb sub 0 a.v0 b.v0
  let (r1, borrow) ← subLimb sub borrow a.v1 b.v1
  let (r2, borrow) ← subLimb sub borrow a.v2 b.v2
  let (r3, borrow) ← subLimb sub borrow a.v3 b.v3
  return (⟨r0, r1, r2, r3⟩, borrow)

/-- `ct_mask` -/
def ctMask (bit : UInt64) : Checked UInt64 := sub 0 (bit &&& 1)

def cmovLimb (m r a : UInt64) : UInt64 := (r &&& ~~~m) ||| (a &&& m)

/-- `u256_cmov` -/
def u256Cmov (r a : U256) (bit : UInt64) : Checked U256 := do
  let m ← ctMask sub bit
  return ⟨cmovLimb m r.v0 a.v0, cmovLimb m r.v1 a.v1, cmovLimb m r.v2 a.v2, cmovLimb m r.v3 a.v3⟩

def modAdd (a b m : U256) : Checked U256 := do
  let (s, carry) ← u256AddRaw a b
  let (t, borrow) ← u256SubRaw sub s m
  u256Cmov sub t s (borrow &&& (carry ^^^ 1))

def modSub (a b m : U256) : Checked U256 := do
  let (d, borrow) ← u256SubRaw sub a b
  let (s, _) ← u256AddRaw d m
  u256Cmov sub d s borrow

end

/-! ### Products -/

/-- One row of the product: `a` times the limbs of `b` is added, and the carry runs on to the last limb. -/
def mulRow (a : UInt64) : List UInt64 → List UInt64 → ℕ → Checked (List UInt64)
  | _, [], _ => pure []
  | [], p :: ps, carry => do
    let c ← add128 p.toNat carry
    return UInt64.ofNat c :: (← mulRow a [] ps (c >>> 64))
  | b :: bs, p :: ps, carry => do
    -- `mul_add_u64`
    let m ← mul128 a.toNat b.toNat
    let s ← add128 m p.toNat
    let c ← add128 s carry
    return UInt64.ofNat c :: (← mulRow a bs ps (c >>> 64))

/-- All rows. Each one starts a limb further on, and the limb before it is done. -/
def mulRows : List UInt64 → List UInt64 → List UInt64 → Checked (List UInt64)
  | [], _, prod => pure prod
  | a :: as, bs, prod => do
    match ← mulRow a bs prod 0 with
    | [] => pure []
    | p :: ps => return p :: (← mulRows as bs ps)

/-- The limbs of the product in halves. -/
def spread (prod : List UInt64) : List ℤ :=
  prod.flatMap fun (p : UInt64) => [(p.toUInt32.toNat : ℤ), ((p >>> 32).toUInt32.toNat : ℤ)]

def accAdd (acc : List ℤ) (j : ℕ) (h : ℤ) : Checked (List ℤ) := do
  return acc.set j (← addInt128 (acc.getD j 0) h)

def accSub (acc : List ℤ) (j : ℕ) (h : ℤ) : Checked (List ℤ) := do
  return acc.set j (← subInt128 (acc.getD j 0) h)

/-- A limb from the ninth on is taken away and comes back in four lower places. -/
def foldLimb (acc : List ℤ) (i : ℕ) : Checked (List ℤ) := do
  let h := acc.getD i 0
  let acc := acc.set i 0
  let acc ← accAdd acc (i - 8) h
  let acc ← accSub acc (i - 5) h
  let acc ← accSub acc (i - 2) h
  accAdd acc (i - 1) h

/-- The body of `normalize32`. -/
def normalizeLimb (acc : List ℤ) (i : ℕ) : Checked (List ℤ) := do
  let old := acc.getD i 0
  let rem := old % 2 ^ 32
  let acc := acc.set i rem
  let rest ← subInt128 old rem
  accAdd acc (i + 1) (rest / 2 ^ 32)

def normalize32 (acc : List ℤ) (n : ℕ) : Checked (List ℤ) := (range n).foldlM normalizeLimb acc

/-- The last limb that a pass folds. -/
def lastLimb (pass : ℕ) : ℕ := if 15 - pass < 8 then 8 else 15 - pass

def foldPass (acc : List ℤ) (pass : ℕ) : Checked (List ℤ) := do
  let acc ← (range' 8 (lastLimb pass - 7)).foldlM foldLimb acc
  normalize32 acc (lastLimb pass + 1)

def join (lo hi : ℤ) : UInt64 := UInt64.ofNat lo.toNat ||| (UInt64.ofNat hi.toNat <<< 32)

def collect (acc : List ℤ) : U256 where
  v0 := join (acc.getD 0 0) (acc.getD 1 0)
  v1 := join (acc.getD 2 0) (acc.getD 3 0)
  v2 := join (acc.getD 4 0) (acc.getD 5 0)
  v3 := join (acc.getD 6 0) (acc.getD 7 0)

/-- `mod_mul`, always modulo the prime of P-256. -/
def modMul (sub : UInt64 → UInt64 → Checked UInt64) (a b : U256) : Checked U256 := do
  let prod ← mulRows [a.v0, a.v1, a.v2, a.v3] [b.v0, b.v1, b.v2, b.v3] (replicate 8 0)
  let acc ← (range 9).foldlM foldPass (spread prod ++ replicate 15 0)
  let r := collect acc
  let (s, borrow) ← u256SubRaw sub r p256P
  u256Cmov sub r s (borrow ^^^ 1)

end P256
