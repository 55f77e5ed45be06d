import Picoweb.Lib.Checked
import Picoweb.Lib.FiveLimbs
import Picoweb.Lib.LittleEndian

/-!
# X25519

`x25519.c`: the Montgomery ladder on field elements of five limbs of 51 bits. Sums and differences are not reduced,
and products are reduced only in part. Every addition, subtraction and multiplication of limbs is checked against
the size of its word.
-/

namespace X25519

open ByteFile Checked

/-! ### Field elements -/

/-- `fe` -/
structure Fe where
  l0 : UInt64
  l1 : UInt64
  l2 : UInt64
  l3 : UInt64
  l4 : UInt64
  deriving DecidableEq, Repr

abbrev mask51 : UInt64 := 0x7ffffffffffff

def byteAt (bytes : Bytes) (i : ℕ) : UInt64 := (bytes.getD i 0).toUInt64

def feFromBytes (bytes : Bytes) : Fe where
  l0 := byteAt bytes 0 ||| (byteAt bytes 1 <<< 8) ||| (byteAt bytes 2 <<< 16) ||| (byteAt bytes 3 <<< 24) |||
    (byteAt bytes 4 <<< 32) ||| (byteAt bytes 5 <<< 40) ||| ((byteAt bytes 6 &&& 0x07) <<< 48)
  l1 := (byteAt bytes 6 >>> 3) ||| (byteAt bytes 7 <<< 5) ||| (byteAt bytes 8 <<< 13) ||| (byteAt bytes 9 <<< 21) |||
    (byteAt bytes 10 <<< 29) ||| (byteAt bytes 11 <<< 37) ||| ((byteAt bytes 12 &&& 0x3f) <<< 45)
  l2 := (byteAt bytes 12 >>> 6) ||| (byteAt bytes 13 <<< 2) ||| (byteAt bytes 14 <<< 10) |||
    (byteAt bytes 15 <<< 18) ||| (byteAt bytes 16 <<< 26) ||| (byteAt bytes 17 <<< 34) |||
    (byteAt bytes 18 <<< 42) ||| ((byteAt bytes 19 &&& 0x01) <<< 50)
  l3 := (byteAt bytes 19 >>> 1) ||| (byteAt bytes 20 <<< 7) ||| (byteAt bytes 21 <<< 15) |||
    (byteAt bytes 22 <<< 23) ||| (byteAt bytes 23 <<< 31) ||| (byteAt bytes 24 <<< 39) |||
    ((byteAt bytes 25 &&& 0x0f) <<< 47)
  l4 := (byteAt bytes 25 >>> 4) ||| (byteAt bytes 26 <<< 4) ||| (byteAt bytes 27 <<< 12) |||
    (byteAt bytes 28 <<< 20) ||| (byteAt bytes 29 <<< 28) ||| (byteAt bytes 30 <<< 36) |||
    ((byteAt bytes 31 &&& 0x7f) <<< 44)

/-- `fe_carry` -/
def feCarry (x : Fe) : Checked Fe := do
  let x1 ← add64 x.l1 (x.l0 >>> 51)
  let x2 ← add64 x.l2 (x1 >>> 51)
  let x3 ← add64 x.l3 (x2 >>> 51)
  let x4 ← add64 x.l4 (x3 >>> 51)
  let c ← mul64 (x4 >>> 51) 19
  let x0 ← add64 (x.l0 &&& mask51) c
  let x1 ← add64 (x1 &&& mask51) (x0 >>> 51)
  return ⟨x0 &&& mask51, x1, x2 &&& mask51, x3 &&& mask51, x4 &&& mask51⟩

/-- The carry out of all limbs once 19 is added: one if the number is the prime or more. -/
def quotient (t : Fe) : Checked UInt64 := do
  let q ← add64 t.l0 19
  let q ← add64 t.l1 (q >>> 51)
  let q ← add64 t.l2 (q >>> 51)
  let q ← add64 t.l3 (q >>> 51)
  let q ← add64 t.l4 (q >>> 51)
  return q >>> 51

/-- The prime is subtracted as often as the quotient says, by adding 19 and dropping the bit beyond the last limb. -/
def subtractPrime (t : Fe) (q : UInt64) : Checked Fe := do
  let t0 ← add64 t.l0 (← mul64 19 q)
  let t1 ← add64 t.l1 (t0 >>> 51)
  let t2 ← add64 t.l2 (t1 >>> 51)
  let t3 ← add64 t.l3 (t2 >>> 51)
  let t4 ← add64 t.l4 (t3 >>> 51)
  return ⟨t0 &&& mask51, t1 &&& mask51, t2 &&& mask51, t3 &&& mask51, t4 &&& mask51⟩

/-- Five limbs of 51 bits in 32 bytes. -/
def pack (t : Fe) : Bytes :=
  [t.l0.toUInt8, (t.l0 >>> 8).toUInt8, (t.l0 >>> 16).toUInt8, (t.l0 >>> 24).toUInt8, (t.l0 >>> 32).toUInt8,
    (t.l0 >>> 40).toUInt8, ((t.l0 >>> 48) ||| (t.l1 <<< 3)).toUInt8,
    (t.l1 >>> 5).toUInt8, (t.l1 >>> 13).toUInt8, (t.l1 >>> 21).toUInt8, (t.l1 >>> 29).toUInt8,
    (t.l1 >>> 37).toUInt8, ((t.l1 >>> 45) ||| (t.l2 <<< 6)).toUInt8,
    (t.l2 >>> 2).toUInt8, (t.l2 >>> 10).toUInt8, (t.l2 >>> 18).toUInt8, (t.l2 >>> 26).toUInt8,
    (t.l2 >>> 34).toUInt8, (t.l2 >>> 42).toUInt8, ((t.l2 >>> 50) ||| (t.l3 <<< 1)).toUInt8,
    (t.l3 >>> 7).toUInt8, (t.l3 >>> 15).toUInt8, (t.l3 >>> 23).toUInt8, (t.l3 >>> 31).toUInt8,
    (t.l3 >>> 39).toUInt8, ((t.l3 >>> 47) ||| (t.l4 <<< 4)).toUInt8,
    (t.l4 >>> 4).toUInt8, (t.l4 >>> 12).toUInt8, (t.l4 >>> 20).toUInt8, (t.l4 >>> 28).toUInt8,
    (t.l4 >>> 36).toUInt8, (t.l4 >>> 44).toUInt8]

/-- `fe_to_bytes` -/
def feToBytes (x : Fe) : Checked Bytes := do
  let t ← feCarry x
  let q ← quotient t
  let t ← subtractPrime t q
  return pack t

def feAdd (a b : Fe) : Checked Fe := do
  return ⟨← add64 a.l0 b.l0, ← add64 a.l1 b.l1, ← add64 a.l2 b.l2, ← add64 a.l3 b.l3, ← add64 a.l4 b.l4⟩

/-- One limb of a difference, with a bias that keeps it from being negative. -/
def subLimb (bias a b : UInt64) : Checked UInt64 := do sub64 (← add64 a bias) b

/-- `fe_sub`; the biases are the limbs of twice the prime. -/
def feSub (a b : Fe) : Checked Fe := do
  return ⟨← subLimb 0xfffffffffffda a.l0 b.l0, ← subLimb 0xffffffffffffe a.l1 b.l1,
    ← subLimb 0xffffffffffffe a.l2 b.l2, ← subLimb 0xffffffffffffe a.l3 b.l3, ← subLimb 0xffffffffffffe a.l4 b.l4⟩

/-- The carry of a 128-bit accumulator, which the code keeps in 64 bits. -/
def carryOf (r : ℕ) : UInt64 := UInt64.ofNat (r >>> 51)

def limbOf (r : ℕ) : UInt64 := UInt64.ofNat r &&& mask51

/-- The carry passes that end `fe_mul` and `fe_mul_small`. -/
def carryWide (r0 r1 r2 r3 r4 : ℕ) : Checked Fe := do
  let r1 ← add128 r1 (carryOf r0).toNat
  let r2 ← add128 r2 (carryOf r1).toNat
  let r3 ← add128 r3 (carryOf r2).toNat
  let r4 ← add128 r4 (carryOf r3).toNat
  let c ← mul64 (carryOf r4) 19
  let x0 ← add64 (limbOf r0) c
  let x1 ← add64 (limbOf r1) (x0 >>> 51)
  return ⟨x0 &&& mask51, x1, limbOf r2, limbOf r3, limbOf r4⟩

/-- One accumulator of `fe_mul`. -/
def dot (a : Fe) (b0 b1 b2 b3 b4 : ℕ) : Checked ℕ :=
  products mul128 add128 a.l0.toNat b0 a.l1.toNat b1 a.l2.toNat b2 a.l3.toNat b3 a.l4.toNat b4

/-- `fe_mul` -/
def feMul (a b : Fe) : Checked Fe := do
  let b1 ← mul128 19 b.l1.toNat
  let b2 ← mul128 19 b.l2.toNat
  let b3 ← mul128 19 b.l3.toNat
  let b4 ← mul128 19 b.l4.toNat
  let r0 ← dot a b.l0.toNat b4 b3 b2 b1
  let r1 ← dot a b.l1.toNat b.l0.toNat b4 b3 b2
  let r2 ← dot a b.l2.toNat b.l1.toNat b.l0.toNat b4 b3
  let r3 ← dot a b.l3.toNat b.l2.toNat b.l1.toNat b.l0.toNat b4
  let r4 ← dot a b.l4.toNat b.l3.toNat b.l2.toNat b.l1.toNat b.l0.toNat
  carryWide r0 r1 r2 r3 r4

def feSq (a : Fe) : Checked Fe := feMul a a

def feMulSmall (a : Fe) (b : UInt32) : Checked Fe := do
  let r0 ← mul128 a.l0.toNat b.toNat
  let r1 ← mul128 a.l1.toNat b.toNat
  let r2 ← mul128 a.l2.toNat b.toNat
  let r3 ← mul128 a.l3.toNat b.toNat
  let r4 ← mul128 a.l4.toNat b.toNat
  carryWide r0 r1 r2 r3 r4

def feSqTimes : ℕ → Fe → Checked Fe
  | 0, t => pure t
  | n + 1, t => do feSqTimes n (← feSq t)

/-- `fe_invert` -/
def feInvert (z : Fe) : Checked Fe := do
  let z2 ← feSq z
  let t ← feSqTimes 2 z2
  let z9 ← feMul t z
  let z11 ← feMul z9 z2
  let t ← feSq z11
  let z5 ← feMul t z9
  let t ← feSqTimes 5 z5
  let z10 ← feMul t z5
  let t ← feSqTimes 10 z10
  let z20 ← feMul t z10
  let t ← feSqTimes 20 z20
  let t ← feMul t z20
  let t ← feSqTimes 10 t
  let z50 ← feMul t z10
  let t ← feSqTimes 50 z50
  let z100 ← feMul t z50
  let t ← feSqTimes 100 z100
  let t ← feMul t z100
  let t ← feSqTimes 50 t
  let t ← feMul t z50
  let t ← feSqTimes 5 t
  feMul t z11

/-! ### The ladder -/

/-- One limb of `fe_cswap`. -/
def cswapLimb (swap a b : UInt64) : UInt64 × UInt64 :=
  let t := swap &&& (a ^^^ b)
  (a ^^^ t, b ^^^ t)

/-- `fe_cswap`; `swap` is all ones or zero. -/
def feCswap (swap : UInt64) (a b : Fe) : Fe × Fe :=
  let (a0, b0) := cswapLimb swap a.l0 b.l0
  let (a1, b1) := cswapLimb swap a.l1 b.l1
  let (a2, b2) := cswapLimb swap a.l2 b.l2
  let (a3, b3) := cswapLimb swap a.l3 b.l3
  let (a4, b4) := cswapLimb swap a.l4 b.l4
  (⟨a0, a1, a2, a3, a4⟩, ⟨b0, b1, b2, b3, b4⟩)

/-- What the loop of `x25519` carries along. -/
structure Ladder where
  x2 : Fe
  z2 : Fe
  x3 : Fe
  z3 : Fe
  swap : UInt64
  deriving DecidableEq, Repr

def clamp (scalar : Bytes) : Bytes :=
  let e := scalar.set 0 (scalar.getD 0 0 &&& 248)
  let e := e.set 31 (e.getD 31 0 &&& 127)
  e.set 31 (e.getD 31 0 ||| 64)

/-- Both pairs swapped as the last bit and the next one say. -/
def swapPairs (s : Ladder) : Ladder :=
  let mask := 0 - s.swap
  let (x2, x3) := feCswap mask s.x2 s.x3
  let (z2, z3) := feCswap mask s.z2 s.z3
  { s with x2 := x2, z2 := z2, x3 := x3, z3 := z3 }

def addAndDouble (x1 : Fe) (s : Ladder) : Checked Ladder := do
  let a ← feAdd s.x2 s.z2
  let aa ← feSq a
  let b ← feSub s.x2 s.z2
  let bb ← feSq b
  let e ← feSub aa bb
  let c ← feAdd s.x3 s.z3
  let d ← feSub s.x3 s.z3
  let da ← feMul d a
  let cb ← feMul c b
  let sum ← feAdd da cb
  let diff ← feSub da cb
  let x3 ← feSq sum
  let z3 ← feSq diff
  let z3 ← feMul z3 x1
  let x2 ← feMul aa bb
  let a24E ← feMulSmall e 121665
  let a24E ← feAdd aa a24E
  let z2 ← feMul e a24E
  return { s with x2 := x2, z2 := z2, x3 := x3, z3 := z3 }

/-- The body of the loop, for bit `t` of the scalar. -/
def ladderStep (x1 : Fe) (e : Bytes) (s : Ladder) (t : ℕ) : Checked Ladder :=
  let b := ((e.getD (t / 8) 0 >>> UInt8.ofNat (t % 8)) &&& 1).toUInt64
  let s := swapPairs { s with swap := s.swap ^^^ b }
  addAndDouble x1 { s with swap := b }

/-- `x25519` -/
def x25519 (scalar point : Bytes) : Checked Bytes := do
  let e := clamp scalar
  let x1 := feFromBytes point
  let s ← (List.range 255).reverse.foldlM (ladderStep x1 e) ⟨⟨1, 0, 0, 0, 0⟩, ⟨0, 0, 0, 0, 0⟩, x1, ⟨1, 0, 0, 0, 0⟩, 0⟩
  let s := swapPairs s
  let inv ← feInvert s.z2
  let r ← feMul s.x2 inv
  feToBytes r

end X25519
