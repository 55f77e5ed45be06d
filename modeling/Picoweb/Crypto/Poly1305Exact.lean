import Picoweb.Crypto.Poly1305
import Picoweb.Lib.Checked
import Picoweb.Lib.FiveLimbs
import Picoweb.Lib.LittleEndian

/-!
# Poly1305 is exact

The limbs of `poly1305.c` are only partly reduced between blocks. The functions are stated here once more with a
check of every sum and product, and they compute the polynomial modulo `2 ^ 130 - 5` for every message and every
way to hand it over.
-/

namespace Poly1305

open ByteFile Blockwise ChaCha20 Checked FiveLimbs List

/-! ### The functions with every sum and product checked -/

def addBlockChecked (hibit : Bool) (h : Limbs) (m : Bytes) : Checked Limbs := do
  let h0 ← add32 h.l0 (loadLe32 m 0 &&& limbMask)
  let h1 ← add32 h.l1 ((loadLe32 m 3 >>> 2) &&& limbMask)
  let h2 ← add32 h.l2 ((loadLe32 m 6 >>> 4) &&& limbMask)
  let h3 ← add32 h.l3 ((loadLe32 m 9 >>> 6) &&& limbMask)
  let h4 ← add32 h.l4 ((loadLe32 m 12 >>> 8) ||| (if hibit then (1 : UInt32) <<< 24 else 0))
  return ⟨h0, h1, h2, h3, h4⟩

/-- The five sums of products, as 64-bit numbers. -/
structure Wide where
  d0 : UInt64
  d1 : UInt64
  d2 : UInt64
  d3 : UInt64
  d4 : UInt64

def dotChecked (h : Limbs) (b0 b1 b2 b3 b4 : UInt32) : Checked UInt64 :=
  products mul64 add64 h.l0.toUInt64 b0.toUInt64 h.l1.toUInt64 b1.toUInt64 h.l2.toUInt64 b2.toUInt64
    h.l3.toUInt64 b3.toUInt64 h.l4.toUInt64 b4.toUInt64

def mulChecked (r h : Limbs) : Checked Wide := do
  let s1 ← mul32 r.l1 5
  let s2 ← mul32 r.l2 5
  let s3 ← mul32 r.l3 5
  let s4 ← mul32 r.l4 5
  let d0 ← dotChecked h r.l0 s4 s3 s2 s1
  let d1 ← dotChecked h r.l1 r.l0 s4 s3 s2
  let d2 ← dotChecked h r.l2 r.l1 r.l0 s4 s3
  let d3 ← dotChecked h r.l3 r.l2 r.l1 r.l0 s4
  let d4 ← dotChecked h r.l4 r.l3 r.l2 r.l1 r.l0
  return ⟨d0, d1, d2, d3, d4⟩

def carry (d : UInt64) : UInt32 := (d >>> 26).toUInt32

def low (d : UInt64) : UInt32 := d.toUInt32 &&& limbMask

def reduceChecked (d : Wide) : Checked Limbs := do
  let d1 ← add64 d.d1 (carry d.d0).toUInt64
  let d2 ← add64 d.d2 (carry d1).toUInt64
  let d3 ← add64 d.d3 (carry d2).toUInt64
  let d4 ← add64 d.d4 (carry d3).toUInt64
  let c ← mul32 (carry d4) 5
  let h0 ← add32 (low d.d0) c
  let h1 ← add32 (low d1) (h0 >>> 26)
  return ⟨h0 &&& limbMask, h1, low d2, low d3, low d4⟩

def absorbChecked (r : Limbs) (hibit : Bool) (h : Limbs) (m : Bytes) : Checked Limbs := do
  let h ← addBlockChecked hibit h m
  let d ← mulChecked r h
  reduceChecked d

def blocksChecked (ctx : Ctx) (m : Bytes) (hibit : Bool) : Checked Ctx := do
  let h ← (feed blockLen (fun (h : Checked Limbs) m => h >>= (absorbChecked ctx.r hibit · m)) (pure ctx.h) m).1
  return { ctx with h := h }

def fillChecked (ctx : Ctx) (msg : Bytes) : Checked (Ctx × Bytes) :=
  if ctx.buf = [] then pure (ctx, msg)
  else
    let take := min msg.length (blockLen - ctx.buf.length)
    let buf := ctx.buf ++ msg.take take
    if buf.length = blockLen then do
      let ctx ← blocksChecked ctx buf true
      return ({ ctx with buf := [] }, msg.drop take)
    else pure ({ ctx with buf := buf }, msg.drop take)

def bulkChecked (ctx : Ctx) (msg : Bytes) : Checked (Ctx × Bytes) :=
  if blockLen ≤ msg.length then do
    let n := msg.length / blockLen * blockLen
    let ctx ← blocksChecked ctx (msg.take n) true
    return (ctx, msg.drop n)
  else pure (ctx, msg)

def updateChecked (ctx : Ctx) (msg : Bytes) : Checked Ctx :=
  if msg = [] then pure ctx
  else do
    let (ctx, msg) ← fillChecked ctx msg
    let (ctx, msg) ← bulkChecked ctx msg
    return if msg = [] then ctx else { ctx with buf := ctx.buf ++ msg }

def padChecked (ctx : Ctx) : Checked Ctx :=
  if ctx.buf = [] then pure ctx
  else do
    let ctx' ← blocksChecked ctx (ctx.buf ++ 1 :: replicate (blockLen - (ctx.buf.length + 1)) 0) false
    return { ctx' with buf := [] }

def carryAroundChecked (h : Limbs) : Checked Limbs := do
  let h2 ← add32 h.l2 (h.l1 >>> 26)
  let h3 ← add32 h.l3 (h2 >>> 26)
  let h4 ← add32 h.l4 (h3 >>> 26)
  let c ← mul32 (h4 >>> 26) 5
  let h0 ← add32 h.l0 c
  let h1 ← add32 (h.l1 &&& limbMask) (h0 >>> 26)
  return ⟨h0 &&& limbMask, h1, h2 &&& limbMask, h3 &&& limbMask, h4 &&& limbMask⟩

/-- One of two words, as a mask of all bits or none says. -/
def select (mask h g : UInt32) : UInt32 := (h &&& ~~~mask) ||| (g &&& mask)

def subWrapping (a b : UInt32) : Checked UInt32 := pure (a - b)

/-- The prime is subtracted on trial. The differences are computed by `sub`. -/
def subtractPrimeChecked (sub : UInt32 → UInt32 → Checked UInt32) (h : Limbs) : Checked Limbs := do
  let g0 ← add32 h.l0 5
  let g1 ← add32 h.l1 (g0 >>> 26)
  let g2 ← add32 h.l2 (g1 >>> 26)
  let g3 ← add32 h.l3 (g2 >>> 26)
  let sum ← add32 h.l4 (g3 >>> 26)
  let g4 ← sub sum ((1 : UInt32) <<< 26)
  let mask ← sub (g4 >>> 31) 1
  return ⟨select mask h.l0 (g0 &&& limbMask), select mask h.l1 (g1 &&& limbMask),
    select mask h.l2 (g2 &&& limbMask), select mask h.l3 (g3 &&& limbMask), select mask h.l4 g4⟩

/-- Four words plus the pad, with the carry in the upper half of a 64-bit sum. -/
def addPadChecked (f0 f1 f2 f3 : UInt32) (s : UInt32 × UInt32 × UInt32 × UInt32) : Checked Bytes := do
  let a ← add64 f0.toUInt64 s.1.toUInt64
  let b ← add64 (← add64 f1.toUInt64 s.2.1.toUInt64) (a >>> 32)
  let c ← add64 (← add64 f2.toUInt64 s.2.2.1.toUInt64) (b >>> 32)
  let d ← add64 (← add64 f3.toUInt64 s.2.2.2.toUInt64) (c >>> 32)
  return storeLe32 a.toUInt32 ++ storeLe32 b.toUInt32 ++ storeLe32 c.toUInt32 ++ storeLe32 d.toUInt32

def tagOfChecked (h : Limbs) (s : UInt32 × UInt32 × UInt32 × UInt32) : Checked Bytes :=
  addPadChecked (h.l0 ||| (h.l1 <<< 26)) ((h.l1 >>> 6) ||| (h.l2 <<< 20)) ((h.l2 >>> 12) ||| (h.l3 <<< 14))
    ((h.l3 >>> 18) ||| (h.l4 <<< 8)) s

def finishChecked (sub : UInt32 → UInt32 → Checked UInt32) (ctx : Ctx) : Checked Bytes := do
  let ctx ← padChecked ctx
  let h ← carryAroundChecked ctx.h
  let h ← subtractPrimeChecked sub h
  tagOfChecked h ctx.s

/-- The tag of a message in pieces, by `poly1305_init`, `poly1305_update` and `poly1305_finish`. -/
def tagChecked (sub : UInt32 → UInt32 → Checked UInt32) (key : Bytes) (pieces : List Bytes) : Checked Bytes := do
  let ctx ← pieces.foldlM updateChecked (init key)
  finishChecked sub ctx

/-! ### Limbs as numbers -/

abbrev prime : ℕ := 2 ^ 130 - 5

lemma two_pow_five : ((2 : ZMod prime) ^ 26) ^ 5 = (5 : ℕ) := pow_five_eq (by norm_num)

lemma base_eq : ((2 ^ 26 : ℕ) : ZMod prime) = 2 ^ 26 := by
  rfl

namespace Limbs

def value (h : Limbs) : ℕ := FiveLimbs.value 26 h.l0.toNat h.l1.toNat h.l2.toNat h.l3.toNat h.l4.toNat

def residue (h : Limbs) : ZMod prime :=
  eval ((2 : ZMod prime) ^ 26) h.l0.toNat h.l1.toNat h.l2.toNat h.l3.toNat h.l4.toNat

lemma cast_value (h : Limbs) : (h.value : ZMod prime) = h.residue := FiveLimbs.cast_value ..

/-- What a round of carries leaves: only the second limb may be a little too large. -/
structure Reduced (h : Limbs) : Prop where
  l0 : h.l0.toNat < 2 ^ 26
  l1 : h.l1.toNat < 2 ^ 26 + 2 ^ 7
  l2 : h.l2.toNat < 2 ^ 26
  l3 : h.l3.toNat < 2 ^ 26
  l4 : h.l4.toNat < 2 ^ 26

structure Below (h : Limbs) (n : ℕ) : Prop where
  l0 : h.l0.toNat < n
  l1 : h.l1.toNat < n
  l2 : h.l2.toNat < n
  l3 : h.l3.toNat < n
  l4 : h.l4.toNat < n

end Limbs

lemma toNat_and_limbMask (a : UInt32) : (a &&& limbMask).toNat = a.toNat % 2 ^ 26 := by
  exact Nat.and_two_pow_sub_one_eq_mod a.toNat 26

lemma toNat_mod_lt (a : UInt32) : (a &&& limbMask).toNat < 2 ^ 26 := by
  rw [toNat_and_limbMask]
  exact Nat.mod_lt _ (by norm_num)

lemma toNat_shiftRight_26 (a : UInt32) : (a >>> 26).toNat = a.toNat / 2 ^ 26 := by
  exact Nat.shiftRight_eq_div_pow a.toNat 26

lemma toNat_carry {d : UInt64} (h : d.toNat < 2 ^ 58 := by omega) : (carry d).toUInt64.toNat = d.toNat / 2 ^ 26 := by
  change d.toNat >>> 26 % 2 ^ 32 = _
  omega

lemma toNat_low (d : UInt64) : (low d).toNat = d.toNat % 2 ^ 26 := by
  rw [low, toNat_and_limbMask, UInt64.toNat_toUInt32]
  omega

/-! ### A block is absorbed exactly -/

/-- The words of a block overlap; each limb takes its 26 bits from one of them. -/
lemma toNat_loadLe32 (m : Bytes) (off : ℕ) : (loadLe32 m off).toNat = leNat m / 256 ^ off % 2 ^ 32 := by
  rw [loadLe32, leNat_take, leNat_drop]
  exact Nat.mod_mod _ _

/-- The 26 bits of a limb lie in one of the words, a few bits from its start. -/
lemma toNat_limb (m : Bytes) (off : ℕ) {sh : UInt32} (hsh : sh.toNat ≤ 6) :
    ((loadLe32 m off >>> sh) &&& limbMask).toNat = leNat m / 2 ^ (8 * off + sh.toNat) % 2 ^ 26 := by
  have hword (a k : ℕ) (hk : k ≤ 6) : a % 2 ^ 32 / 2 ^ k % 2 ^ 26 = a / 2 ^ k % 2 ^ 26 := by
    interval_cases k <;> omega
  have hpow : (256 : ℕ) ^ off = 2 ^ (8 * off) := by
    rw [pow_mul]
    rfl
  have hsh' : sh.toNat % 32 = sh.toNat := Nat.mod_eq_of_lt (by omega)
  rw [toNat_and_limbMask, UInt32.toNat_shiftRight, toNat_loadLe32, hsh', Nat.shiftRight_eq_div_pow, hword _ _ hsh,
    Nat.div_div_eq_div_mul, hpow, ← pow_add]

/-- The three limbs that begin within a byte. -/
lemma toNat_inner_limbs (m : Bytes) : ((loadLe32 m 3 >>> 2) &&& limbMask).toNat = leNat m / 2 ^ 26 % 2 ^ 26 ∧
      ((loadLe32 m 6 >>> 4) &&& limbMask).toNat = leNat m / 2 ^ 52 % 2 ^ 26 ∧
      ((loadLe32 m 9 >>> 6) &&& limbMask).toNat = leNat m / 2 ^ 78 % 2 ^ 26 :=
  ⟨toNat_limb m 3 (by decide), toNat_limb m 6 (by decide), toNat_limb m 9 (by decide)⟩

/-- What a block of 16 bytes stands for, with the bit behind it. -/
def blockNumber (hibit : Bool) (m : Bytes) : ℕ := leNat m + if hibit then 2 ^ 128 else 0

variable {m : Bytes}

/-- The last limb takes what is left of the block, and the bit. -/
lemma toNat_last_limb (hibit : Bool) (hm : leNat m < 2 ^ 128) :
    ((loadLe32 m 12 >>> 8) ||| (if hibit then (1 : UInt32) <<< 24 else 0)).toNat =
      leNat m / 2 ^ 104 + if hibit then 2 ^ 24 else 0 := by
  have hword : (loadLe32 m 12 >>> 8).toNat = leNat m / 2 ^ 104 := by
    rw [UInt32.toNat_shiftRight, toNat_loadLe32]
    change _ >>> 8 = _
    omega
  have hlt : leNat m / 2 ^ 104 < 2 ^ 24 := by omega
  rw [UInt32.toNat_or, hword]
  cases hibit with
  | false => exact Nat.or_zero _
  | true =>
    have hor := Nat.two_pow_add_eq_or_of_lt hlt 1
    rw [Nat.mul_one] at hor
    change _ ||| 2 ^ 24 = _ + 2 ^ 24
    rw [Nat.or_comm, ← hor, Nat.add_comm]

lemma eval_limbs_of_block (hibit : Bool) (n : ℕ) :
    eval ((2 : ZMod prime) ^ 26) (n % 2 ^ 26) (n / 2 ^ 26 % 2 ^ 26) (n / 2 ^ 52 % 2 ^ 26)
      (n / 2 ^ 78 % 2 ^ 26) (n / 2 ^ 104 + if hibit then 2 ^ 24 else 0) =
    ((n + if hibit then 2 ^ 128 else 0 : ℕ) : ZMod prime) := by
  rw [← FiveLimbs.cast_value, FiveLimbs.value]
  congr 1
  cases hibit with
  | false =>
    simp only [Bool.false_eq_true, if_false]
    omega
  | true =>
    simp only [if_true]
    omega

variable {h r : Limbs}

lemma yields_addBlock {hibit : Bool} (hm : m.length = blockLen) (hh : h.Reduced) :
    Yields (addBlockChecked hibit h m) fun h' =>
      h'.Below (2 ^ 27 + 2 ^ 7) ∧ h'.residue = h.residue + (blockNumber hibit m : ℕ) := by
  have hlt : leNat m < 2 ^ 128 := by
    have := leNat_lt m
    rw [hm] at this
    exact this
  have h0 : (loadLe32 m 0 &&& limbMask).toNat = leNat m % 2 ^ 26 := by
    rw [toNat_and_limbMask, toNat_loadLe32]
    omega
  obtain ⟨h1, h2, h3⟩ := toNat_inner_limbs m
  have h4 := toNat_last_limb hibit hlt
  have hbit : (if hibit = true then 2 ^ 24 else 0) ≤ 2 ^ 24 := by
    split <;> omega
  obtain ⟨b0, b1, b2, b3, b4⟩ := hh
  refine .add32 rfl h0 fun a0 ha0 => ?_
  refine .add32 rfl h1 fun a1 ha1 => ?_
  refine .add32 rfl h2 fun a2 ha2 => ?_
  refine .add32 rfl h3 fun a3 ha3 => ?_
  refine .add32 rfl h4 fun a4 ha4 => ?_
  have hbelow : Limbs.Below ⟨a0, a1, a2, a3, a4⟩ (2 ^ 27 + 2 ^ 7) := by
    constructor <;> dsimp only <;> omega
  refine .pure ⟨hbelow, ?_⟩
  rw [Limbs.residue, ha0, ha1, ha2, ha3, ha4, eval_add, eval_limbs_of_block]
  rfl

/-- Products of bounded limbs add up to a bounded sum. -/
lemma yields_dot {b0 b1 b2 b3 b4 : UInt32} {n : ℕ} (hh : h.Below (2 ^ 27 + 2 ^ 7)) (hn : n ≤ 5 * 2 ^ 26)
    (h0 : b0.toNat < n := by omega) (h1 : b1.toNat < n := by omega) (h2 : b2.toNat < n := by omega)
    (h3 : b3.toNat < n := by omega) (h4 : b4.toNat < n := by omega) :
    Yields (dotChecked h b0 b1 b2 b3 b4) fun d =>
      d.toNat = h.l0.toNat * b0.toNat + h.l1.toNat * b1.toNat + h.l2.toNat * b2.toNat + h.l3.toNat * b3.toNat +
        h.l4.toNat * b4.toNat ∧ d.toNat ≤ 5 * ((2 ^ 27 + 2 ^ 7) * n) := by
  exact yields_products (fun _ _ => yields_mul64) (fun _ _ h => yields_add64 h) (by omega) ⟨hh.l0, h0⟩ ⟨hh.l1, h1⟩
    ⟨hh.l2, h2⟩ ⟨hh.l3, h3⟩ ⟨hh.l4, h4⟩

lemma yields_times_five {a : UInt32} {n : ℕ} (ha : a.toNat = n) (h : 5 * n < 2 ^ 32) :
    Yields (mul32 a 5) fun c => c.toNat = 5 * n := by
  subst ha
  rw [Nat.mul_comm] at h ⊢
  exact yields_mul32 h

/-- The limbs of the multiplier are below `2 ^ 26`. -/
abbrev Clamped (r : Limbs) : Prop := r.Below (2 ^ 26)

/-- The sums leave room for the carries, and the carry out of the last one for the factor that brings it back. -/
structure Wide.Bounded (d : Wide) : Prop where
  d0 : d.d0.toNat < 2 ^ 58 - 2 ^ 33
  d1 : d.d1.toNat < 2 ^ 58 - 2 ^ 33
  d2 : d.d2.toNat < 2 ^ 58 - 2 ^ 33
  d3 : d.d3.toNat < 2 ^ 58 - 2 ^ 33
  d4 : d.d4.toNat ≤ 5 * ((2 ^ 27 + 2 ^ 7) * 2 ^ 26)

lemma yields_mul (hr : Clamped r) (hh : h.Below (2 ^ 27 + 2 ^ 7)) : Yields (mulChecked r h) fun d =>
      d.Bounded ∧ eval ((2 : ZMod prime) ^ 26) d.d0.toNat d.d1.toNat d.d2.toNat d.d3.toNat
        d.d4.toNat = h.residue * r.residue := by
  obtain ⟨r0, r1, r2, r3, r4⟩ := hr
  refine .bind (yields_times_five rfl (by omega)) fun s1 hs1 => ?_
  refine .bind (yields_times_five rfl (by omega)) fun s2 hs2 => ?_
  refine .bind (yields_times_five rfl (by omega)) fun s3 hs3 => ?_
  refine .bind (yields_times_five rfl (by omega)) fun s4 hs4 => ?_
  refine .bind (yields_dot hh le_rfl) fun d0 hd0 => ?_
  refine .bind (yields_dot hh le_rfl) fun d1 hd1 => ?_
  refine .bind (yields_dot hh le_rfl) fun d2 hd2 => ?_
  refine .bind (yields_dot hh le_rfl) fun d3 hd3 => ?_
  refine .bind (yields_dot hh (by norm_num) r4 r3 r2 r1 r0) fun d4 hd4 => ?_
  have hroom : 5 * ((2 ^ 27 + 2 ^ 7) * (5 * 2 ^ 26)) < 2 ^ 58 - 2 ^ 33 := by norm_num
  refine .pure ⟨⟨hd0.2.trans_lt hroom, hd1.2.trans_lt hroom, hd2.2.trans_lt hroom, hd3.2.trans_lt hroom, hd4.2⟩, ?_⟩
  rw [hd0.1, hd1.1, hd2.1, hd3.1, hd4.1, hs1, hs2, hs3, hs4]
  exact eval_mul two_pow_five ..

lemma yields_reduce {d : Wide} (hd : d.Bounded) : Yields (reduceChecked d) fun h => h.Reduced ∧
      h.residue = eval ((2 : ZMod prime) ^ 26) d.d0.toNat d.d1.toNat d.d2.toNat d.d3.toNat d.d4.toNat := by
  obtain ⟨h0, h1, h2, h3, h4⟩ := hd
  refine .add64 rfl toNat_carry fun d1 hd1 => ?_
  refine .add64 rfl toNat_carry fun d2 hd2 => ?_
  refine .add64 rfl toNat_carry fun d3 hd3 => ?_
  refine .add64 rfl toNat_carry fun d4 hd4 => ?_
  refine .bind (yields_times_five toNat_carry (by omega)) fun c hc => ?_
  refine .add32 (toNat_low d.d0) hc fun a0 ha0 => ?_
  refine .add32 (toNat_low d1) (toNat_shiftRight_26 a0) fun a1 ha1 => ?_
  have hsecond : a1.toNat < 2 ^ 26 + 2 ^ 7 := by omega
  refine .pure ⟨⟨toNat_mod_lt a0, hsecond, toNat_mod_lt _, toNat_mod_lt _, toNat_mod_lt _⟩, ?_⟩
  rw [Limbs.residue, toNat_and_limbMask, ha1, toNat_low, toNat_low, toNat_low]
  rw [eval_carry_first _ _ _ base_eq (Nat.mod_add_div a0.toNat (2 ^ 26)), ha0]
  exact eval_carry two_pow_five base_eq hd1 hd2 hd3 hd4

/-- Absorbing a block is one step of Horner's rule. -/
lemma yields_absorb {hibit : Bool} (hr : Clamped r) (hm : m.length = blockLen) (hh : h.Reduced) :
    Yields (absorbChecked r hibit h m) fun h' =>
      h'.Reduced ∧ h'.residue = (h.residue + (blockNumber hibit m : ℕ)) * r.residue := by
  refine .bind (yields_addBlock hm hh) fun a ha => ?_
  refine .bind (yields_mul hr ha.1) fun d hd => ?_
  refine (yields_reduce hd.1).mono fun h' hh' => ⟨hh'.1, ?_⟩
  rw [hh'.2, hd.2, ha.2]

/-! ### The end of the computation -/

/-- The carries of the end make every limb small. -/
lemma yields_carryAround (hh : h.Reduced) :
    Yields (carryAroundChecked h) fun h' => h'.Below (2 ^ 26) ∧ h'.residue = h.residue := by
  obtain ⟨b0, b1, b2, b3, b4⟩ := hh
  refine .add32 rfl (toNat_shiftRight_26 h.l1) fun a2 ha2 => ?_
  refine .add32 rfl (toNat_shiftRight_26 a2) fun a3 ha3 => ?_
  refine .add32 rfl (toNat_shiftRight_26 a3) fun a4 ha4 => ?_
  refine .bind (yields_times_five (toNat_shiftRight_26 a4) (by omega)) fun c hc => ?_
  refine .add32 rfl hc fun a0 ha0 => ?_
  refine .add32 (toNat_and_limbMask h.l1) (toNat_shiftRight_26 a0) fun a1 ha1 => ?_
  -- a carry into the second limb means that its own carry has gone around
  have hsecond : a1.toNat < 2 ^ 26 := by omega
  refine .pure ⟨⟨toNat_mod_lt a0, hsecond, toNat_mod_lt a2, toNat_mod_lt a3, toNat_mod_lt a4⟩, ?_⟩
  rw [Limbs.residue, ha1]
  simp only [toNat_and_limbMask]
  rw [eval_carry_first _ _ _ base_eq (Nat.mod_add_div a0.toNat (2 ^ 26)), ha0]
  have hnone : h.l1.toNat = h.l1.toNat + h.l0.toNat / 2 ^ 26 := by
    rw [Nat.div_eq_of_lt b0]
    rfl
  have hcarry := eval_carry two_pow_five base_eq hnone ha2 ha3 ha4
  rw [Nat.mod_eq_of_lt b0] at hcarry
  exact hcarry

lemma select_zero (h g : UInt32) : select 0 h g = h := by
  simp [select]

lemma select_ones (h g : UInt32) : select (0 - 1) h g = g := by
  simp [select]

/-- The trial subtraction borrows, and the mask is empty. -/
lemma mask_of_lt {sum : UInt32} (h : sum.toNat < 2 ^ 26) : ((sum - ((1 : UInt32) <<< 26)) >>> 31) - 1 = 0 := by
  have hbit : (sum - ((1 : UInt32) <<< 26)) >>> 31 = 1 := by
    apply UInt32.toNat_inj.1
    change ((2 ^ 32 - 2 ^ 26 + sum.toNat) % 2 ^ 32) >>> 31 = 1
    omega
  rw [hbit]
  rfl

lemma mask_full : ((0 : UInt32) >>> 31) - 1 = 0 - 1 := rfl

lemma yields_subWrapping (a b : UInt32) : Yields (subWrapping a b) fun c => c = a - b := .pure rfl

/-- The limbs of the residue are selected. -/
lemma yields_subtractPrime (hh : h.Below (2 ^ 26)) :
    Yields (subtractPrimeChecked subWrapping h) fun h' => h'.Below (2 ^ 26) ∧ h'.value = h.value % prime := by
  have hbelow := hh
  obtain ⟨b0, b1, b2, b3, b4⟩ := hh
  have hfive : (5 : UInt32).toNat = 5 := rfl
  refine .add32 rfl hfive fun g0 hg0 => ?_
  refine .add32 rfl (toNat_shiftRight_26 g0) fun g1 hg1 => ?_
  refine .add32 rfl (toNat_shiftRight_26 g1) fun g2 hg2 => ?_
  refine .add32 rfl (toNat_shiftRight_26 g2) fun g3 hg3 => ?_
  refine .add32 rfl (toNat_shiftRight_26 g3) fun sum hsum => ?_
  refine .bind (yields_subWrapping sum _) fun g4 hg4 => ?_
  refine .bind (yields_subWrapping _ 1) fun mask hmask => ?_
  by_cases hlt : sum.toNat < 2 ^ 26
  · -- the number is below the prime and is kept
    rw [hg4, mask_of_lt hlt] at hmask
    have hvalue : h.value < prime := by
      simp only [Limbs.value, FiveLimbs.value, prime]
      omega
    simp only [hmask, select_zero]
    exact .pure ⟨hbelow, (Nat.mod_eq_of_lt hvalue).symm⟩
  · -- the number is the prime or more, and the difference is taken
    have heq : sum.toNat = 2 ^ 26 := by omega
    have hsum' : sum = (1 : UInt32) <<< 26 := UInt32.toNat_inj.1 heq
    have hzero : sum - ((1 : UInt32) <<< 26) = 0 := by
      rw [hsum']
      rfl
    rw [hzero] at hg4
    rw [hg4, mask_full] at hmask
    simp only [hg4, hmask, select_ones]
    refine .pure ⟨⟨toNat_mod_lt g0, toNat_mod_lt g1, toNat_mod_lt g2, toNat_mod_lt g3, Nat.two_pow_pos 26⟩, ?_⟩
    obtain ⟨hvalue, hsmall⟩ : h.value = FiveLimbs.value 26 (g0.toNat % 2 ^ 26) (g1.toNat % 2 ^ 26)
        (g2.toNat % 2 ^ 26) (g3.toNat % 2 ^ 26) 0 + prime ∧ h.value < 2 * prime := by
      simp only [Limbs.value, FiveLimbs.value, prime]
      omega
    rw [hvalue, Nat.add_mod_right, Nat.mod_eq_of_lt (by omega)]
    simp only [Limbs.value, toNat_and_limbMask, UInt32.toNat_zero]

lemma toNat_or_shiftLeft {a b k : UInt32} (hk : k.toNat < 32) (ha : a.toNat < 2 ^ k.toNat) :
    (a ||| (b <<< k)).toNat = a.toNat + b.toNat * 2 ^ k.toNat % 2 ^ 32 := by
  have hsplit : 2 ^ 32 = 2 ^ k.toNat * 2 ^ (32 - k.toNat) := by
    rw [← pow_add, Nat.add_sub_cancel' hk.le]
  have hmod : b.toNat * 2 ^ k.toNat % 2 ^ 32 = 2 ^ k.toNat * (b.toNat % 2 ^ (32 - k.toNat)) := by
    rw [hsplit, Nat.mul_comm, Nat.mul_mod_mul_left]
  rw [UInt32.toNat_or, UInt32.toNat_shiftLeft, Nat.mod_eq_of_lt hk, Nat.shiftLeft_eq, hmod, Nat.or_comm,
    ← Nat.two_pow_add_eq_or_of_lt ha, Nat.add_comm]

lemma toNat_shared_word {a b j k : UInt32} (ha : a.toNat / 2 ^ j.toNat < 2 ^ k.toNat)
    (hjk : j.toNat < 32 ∧ k.toNat < 32) :
    ((a >>> j) ||| (b <<< k)).toNat = a.toNat / 2 ^ j.toNat + b.toNat * 2 ^ k.toNat % 2 ^ 32 := by
  have hshift : (a >>> j).toNat = a.toNat / 2 ^ j.toNat := by
    rw [UInt32.toNat_shiftRight, Nat.mod_eq_of_lt hjk.1, Nat.shiftRight_eq_div_pow]
  rw [toNat_or_shiftLeft hjk.2 (hshift.trans_lt ha), hshift]

/-- The four words of the second half of the key. -/
def padNumber (s : UInt32 × UInt32 × UInt32 × UInt32) : ℕ :=
  s.1.toNat + s.2.1.toNat * 2 ^ 32 + s.2.2.1.toNat * 2 ^ 64 + s.2.2.2.toNat * 2 ^ 96

lemma toNat_shiftRight_32 (a : UInt64) : (a >>> 32).toNat = a.toNat / 2 ^ 32 := by
  exact Nat.shiftRight_eq_div_pow a.toNat 32

lemma leNat_four_words (a b c d : UInt32) : leNat (storeLe32 a ++ storeLe32 b ++ storeLe32 c ++ storeLe32 d) =
      a.toNat + b.toNat * 2 ^ 32 + c.toNat * 2 ^ 64 + d.toNat * 2 ^ 96 := by
  simp only [leNat_append, storeLe32, leNat_leBytes_uInt32, length_append, length_leBytes]
  omega

lemma yields_addPad (f0 f1 f2 f3 : UInt32) (s : UInt32 × UInt32 × UInt32 × UInt32) :
    Yields (addPadChecked f0 f1 f2 f3 s) fun tag =>
      tag = leBytes 16 ((f0.toNat + f1.toNat * 2 ^ 32 + f2.toNat * 2 ^ 64 + f3.toNat * 2 ^ 96 + padNumber s) %
        2 ^ 128) := by
  have hlt (a : UInt32) : a.toUInt64.toNat = a.toNat ∧ a.toNat < 2 ^ 32 := ⟨UInt32.toNat_toUInt64 a, a.toNat_lt⟩
  obtain ⟨e0, b0⟩ := hlt f0
  obtain ⟨e1, b1⟩ := hlt f1
  obtain ⟨e2, b2⟩ := hlt f2
  obtain ⟨e3, b3⟩ := hlt f3
  obtain ⟨se0, sb0⟩ := hlt s.1
  obtain ⟨se1, sb1⟩ := hlt s.2.1
  obtain ⟨se2, sb2⟩ := hlt s.2.2.1
  obtain ⟨se3, sb3⟩ := hlt s.2.2.2
  refine .bind (yields_add64 (by omega)) fun a ha => ?_
  have hca := toNat_shiftRight_32 a
  refine .bind (yields_add64 (by omega)) fun b' hb' => ?_
  refine .bind (yields_add64 (by omega)) fun b hb => ?_
  have hcb := toNat_shiftRight_32 b
  refine .bind (yields_add64 (by omega)) fun c' hc' => ?_
  refine .bind (yields_add64 (by omega)) fun c hc => ?_
  have hcc := toNat_shiftRight_32 c
  refine .bind (yields_add64 (by omega)) fun d' hd' => ?_
  refine .bind (yields_add64 (by omega)) fun d hd => ?_
  refine .pure (eq_leBytes rfl ?_)
  rw [leNat_four_words, padNumber]
  simp only [UInt64.toNat_toUInt32]
  omega

/-- The limbs are packed into words and added to the pad. -/
lemma yields_tagOf (hh : h.Below (2 ^ 26)) (s : UInt32 × UInt32 × UInt32 × UInt32) :
    Yields (tagOfChecked h s) fun tag => tag = leBytes 16 ((h.value + padNumber s) % 2 ^ 128) := by
  obtain ⟨b0, b1, b2, b3, b4⟩ := hh
  have hf0 : (h.l0 ||| (h.l1 <<< 26)).toNat = h.l0.toNat + h.l1.toNat * 2 ^ 26 % 2 ^ 32 :=
    toNat_or_shiftLeft (by decide) b0
  have hf1 : ((h.l1 >>> 6) ||| (h.l2 <<< 20)).toNat = h.l1.toNat / 2 ^ 6 + h.l2.toNat * 2 ^ 20 % 2 ^ 32 :=
    toNat_shared_word (Nat.div_lt_of_lt_mul b1) (by decide)
  have hf2 : ((h.l2 >>> 12) ||| (h.l3 <<< 14)).toNat = h.l2.toNat / 2 ^ 12 + h.l3.toNat * 2 ^ 14 % 2 ^ 32 :=
    toNat_shared_word (Nat.div_lt_of_lt_mul b2) (by decide)
  have hf3 : ((h.l3 >>> 18) ||| (h.l4 <<< 8)).toNat = h.l3.toNat / 2 ^ 18 + h.l4.toNat * 2 ^ 8 % 2 ^ 32 :=
    toNat_shared_word (Nat.div_lt_of_lt_mul b3) (by decide)
  have hwords : (h.l0 ||| (h.l1 <<< 26)).toNat + ((h.l1 >>> 6) ||| (h.l2 <<< 20)).toNat * 2 ^ 32 +
      ((h.l2 >>> 12) ||| (h.l3 <<< 14)).toNat * 2 ^ 64 + ((h.l3 >>> 18) ||| (h.l4 <<< 8)).toNat * 2 ^ 96 =
      h.value % 2 ^ 128 := by
    rw [Limbs.value, FiveLimbs.value]
    omega
  refine (yields_addPad _ _ _ _ s).mono fun tag htag => ?_
  rw [htag, hwords, Nat.mod_add_mod]

/-! ### The key -/

/-- The bits of the first half of the key that the multiplier keeps. -/
abbrev clampMask : ℕ := 0x0ffffffc0ffffffc0ffffffc0fffffff

/-- The clamped first half of a key. -/
def multiplier (key : Bytes) : ℕ := leNat (key.take 16) &&& clampMask

/-- A digit of the multiplier is the digit of the key, masked by the digit of the mask. -/
lemma multiplier_digit (key : Bytes) (k : ℕ) :
    multiplier key / 2 ^ k % 2 ^ 26 = (leNat (key.take 16) / 2 ^ k % 2 ^ 26) &&& (clampMask / 2 ^ k % 2 ^ 26) := by
  rw [multiplier, Nat.and_div_two_pow, Nat.and_mod_two_pow]

/-- A limb of the key, masked, is a digit of the multiplier. -/
lemma toNat_masked_limb {key : Bytes} {x c : UInt32} {k : ℕ}
    (hc : limbMask &&& c = c ∧ clampMask / 2 ^ k % 2 ^ 26 = c.toNat)
    (hx : (x &&& limbMask).toNat = leNat key % 2 ^ 128 / 2 ^ k % 2 ^ 26) :
    (x &&& c).toNat = multiplier key / 2 ^ k % 2 ^ 26 := by
  have hhalf : leNat (key.take 16) = leNat key % 2 ^ 128 := leNat_take key 16
  rw [multiplier_digit, hhalf, ← hx, hc.2, ← UInt32.toNat_and, UInt32.and_assoc, hc.1]

lemma init_r_digits (key : Bytes) :
    (init key).r.l0.toNat = multiplier key / 2 ^ 0 % 2 ^ 26 ∧ (init key).r.l1.toNat = multiplier key / 2 ^ 26 % 2 ^ 26 ∧
      (init key).r.l2.toNat = multiplier key / 2 ^ 52 % 2 ^ 26 ∧
      (init key).r.l3.toNat = multiplier key / 2 ^ 78 % 2 ^ 26 ∧
      (init key).r.l4.toNat = multiplier key / 2 ^ 104 % 2 ^ 26 := by
  obtain ⟨h1, h2, h3⟩ := toNat_inner_limbs key
  refine ⟨toNat_masked_limb (by decide) ?_, toNat_masked_limb (by decide) ?_, toNat_masked_limb (by decide) ?_,
    toNat_masked_limb (by decide) ?_, toNat_masked_limb (by decide) ?_⟩
  · rw [toNat_and_limbMask, toNat_loadLe32]
    omega
  · omega
  · omega
  · omega
  · rw [toNat_and_limbMask, UInt32.toNat_shiftRight, toNat_loadLe32]
    change (_ >>> 8) % _ = _
    omega

lemma clamped_init (key : Bytes) : Clamped (init key).r := by
  obtain ⟨h0, h1, h2, h3, h4⟩ := init_r_digits key
  have hlt (n : ℕ) : n % 2 ^ 26 < 2 ^ 26 := Nat.mod_lt _ (Nat.two_pow_pos 26)
  exact ⟨h0 ▸ hlt _, h1 ▸ hlt _, h2 ▸ hlt _, h3 ▸ hlt _, h4 ▸ hlt _⟩

lemma value_init_r (key : Bytes) : (init key).r.value = multiplier key := by
  obtain ⟨h0, h1, h2, h3, h4⟩ := init_r_digits key
  have hlt : multiplier key < 2 ^ 124 := (Nat.and_le_right).trans_lt (by norm_num)
  rw [Limbs.value, FiveLimbs.value]
  omega

lemma padNumber_init (key : Bytes) : padNumber (init key).s = leNat ((key.drop 16).take 16) := by
  rw [leNat_take, leNat_drop]
  simp only [padNumber, init, toNat_loadLe32]
  omega

/-! ### Whole messages -/

/-- One step of Horner's rule modulo the prime: a block with a one behind it. -/
def hornerStep (r acc : ℕ) (block : Bytes) : ℕ := (acc + leNat (block ++ [1])) * r % prime

/-- Horner's rule over the blocks of a message, the last of which may be short. -/
def horner (r : ℕ) (msg : Bytes) : ℕ :=
  let fed := feed blockLen (hornerStep r) 0 msg
  if fed.2 = [] then fed.1 else hornerStep r fed.1 fed.2

def tag (key msg : Bytes) : Bytes :=
  leBytes 16 ((horner (multiplier key) msg + leNat ((key.drop 16).take 16)) % 2 ^ 128)

/-- The multiplier and the accumulator are within their bounds. -/
structure Sound (ctx : Ctx) : Prop where
  r : Clamped ctx.r
  h : ctx.h.Reduced

lemma sound_init (key : Bytes) : Sound (init key) where
  r := clamped_init key
  h := by constructor <;> norm_num [init]

variable {ctx : Ctx}

/-- A checked accumulator that fits and is the one of the code. -/
def Follows (x : Checked Limbs) (h : Limbs) : Prop := Yields x fun h' => h' = h ∧ h.Reduced

lemma Follows.absorb {hibit : Bool} (hr : Clamped r) {x : Checked Limbs} (hm : m.length = blockLen) (hx : Follows x h) :
    Follows (x >>= (absorbChecked r hibit · m)) (absorb r hibit h m) := by
  refine .bind hx fun h' hh' => ?_
  obtain ⟨rfl, hreduced⟩ := hh'
  obtain ⟨hfits, hreduced', -⟩ := yields_absorb hr hm hreduced
  exact ⟨hfits, rfl, hreduced'⟩

lemma yields_blocks (hctx : Sound ctx) (m : Bytes) (hibit : Bool) :
    Yields (blocksChecked ctx m hibit) fun c => c = blocks ctx m hibit ∧ Sound c := by
  have hstart : Follows (pure ctx.h) ctx.h := .pure ⟨rfl, hctx.h⟩
  have hrel : Follows (feed blockLen (fun x m => x >>= (absorbChecked ctx.r hibit · m)) (pure ctx.h) m).1
      (feed blockLen (absorb ctx.r hibit) ctx.h m).1 :=
    (feed_rel (by decide) (fun _ _ _ hm hx => hx.absorb hctx.r hm) hstart).1
  refine .bind hrel fun h hh => ?_
  obtain ⟨rfl, hreduced⟩ := hh
  exact .pure ⟨rfl, hctx.r, hreduced⟩

lemma yields_fill (hctx : Sound ctx) (msg : Bytes) :
    Yields (fillChecked ctx msg) fun c => c = fill ctx msg ∧ Sound c.1 := by
  rw [fillChecked, fill]
  split
  · exact .pure ⟨rfl, hctx⟩
  · dsimp only
    split
    · refine .bind (yields_blocks hctx _ true) fun c hc => ?_
      obtain ⟨rfl, hsound⟩ := hc
      exact .pure ⟨rfl, hsound.r, hsound.h⟩
    · exact .pure ⟨rfl, hctx.r, hctx.h⟩

lemma yields_bulk (hctx : Sound ctx) (msg : Bytes) :
    Yields (bulkChecked ctx msg) fun c => c = bulk ctx msg ∧ Sound c.1 := by
  rw [bulkChecked, bulk]
  split
  · refine .bind (yields_blocks hctx _ true) fun c hc => ?_
    obtain ⟨rfl, hsound⟩ := hc
    exact .pure ⟨rfl, hsound⟩
  · exact .pure ⟨rfl, hctx⟩

lemma yields_update (hctx : Sound ctx) (msg : Bytes) :
    Yields (updateChecked ctx msg) fun c => c = update ctx msg ∧ Sound c := by
  rw [updateChecked, update]
  split
  · exact .pure ⟨rfl, hctx⟩
  · refine .bind (yields_fill hctx msg) fun c hc => ?_
    obtain ⟨rfl, hfill⟩ := hc
    refine .bind (yields_bulk hfill _) fun c hc => ?_
    obtain ⟨rfl, hbulk⟩ := hc
    refine .pure ⟨rfl, ?_⟩
    split
    · exact hbulk
    · exact ⟨hbulk.r, hbulk.h⟩

lemma yields_pad (hctx : Sound ctx) : Yields (padChecked ctx) fun c => c = pad ctx ∧ Sound c := by
  rw [padChecked, pad]
  split
  · exact .pure ⟨rfl, hctx⟩
  · refine .bind (yields_blocks hctx _ false) fun c hc => ?_
    obtain ⟨rfl, hsound⟩ := hc
    exact .pure ⟨rfl, hsound.r, hsound.h⟩

lemma yields_updates (hctx : Sound ctx) (pieces : List Bytes) :
    Yields (pieces.foldlM updateChecked ctx) fun c => c = pieces.foldl update ctx ∧ Sound c := by
  induction pieces generalizing ctx with
  | nil => exact .pure ⟨rfl, hctx⟩
  | cons piece pieces ih =>
    refine .bind (yields_update hctx piece) fun c hc => ?_
    obtain ⟨rfl, hsound⟩ := hc
    exact ih hsound

/-! ### The polynomial of a message -/

/-- The accumulator is that of Horner's rule, modulo the prime. -/
def Accumulates (h : Limbs) (acc : ℕ) : Prop := h.Reduced ∧ h.residue = (acc : ℕ) ∧ acc < prime

lemma prime_pos : 0 < prime := by norm_num

lemma Accumulates.step {h' : Limbs} {acc n : ℕ} (hacc : Accumulates h acc) (hreduced : h'.Reduced)
    (hh : h'.residue = (h.residue + (n : ℕ)) * r.residue) : Accumulates h' ((acc + n) * r.value % prime) := by
  refine ⟨hreduced, ?_, Nat.mod_lt _ prime_pos⟩
  rw [hh, hacc.2.1, ZMod.natCast_mod, ← Limbs.cast_value]
  push_cast
  rfl

lemma blockNumber_true (hm : m.length = blockLen) : blockNumber true m = leNat (m ++ [1]) := by
  rw [leNat_append, hm]
  rfl

lemma accumulates_absorb {acc : ℕ} (hr : Clamped r) (hm : m.length = blockLen)
    (hacc : Accumulates h acc) : Accumulates (absorb r true h m) (hornerStep r.value acc m) := by
  obtain ⟨-, hreduced, hh⟩ := yields_absorb hr hm hacc.1
  rw [blockNumber_true hm] at hh
  exact hacc.step hreduced hh

/-- What is left of the message is a block with a one and zeros behind it. -/
lemma accumulates_pad (hr : Clamped ctx.r) (hbuf : ctx.buf.length < blockLen) {acc : ℕ} (hacc : Accumulates ctx.h acc) :
    Accumulates (pad ctx).h (if ctx.buf = [] then acc else hornerStep ctx.r.value acc ctx.buf) := by
  rw [pad]
  split
  · exact hacc
  · generalize hm : ctx.buf ++ 1 :: replicate (blockLen - (ctx.buf.length + 1)) 0 = m
    have hlen : m.length = blockLen := by
      rw [← hm, length_append, length_cons, length_replicate]
      omega
    have hone : (feed blockLen (absorb ctx.r false) ctx.h m).1 = absorb ctx.r false ctx.h m := by
      rw [feed_of_le (by decide) hlen.ge, take_of_length_le hlen.le, drop_eq_nil_of_le hlen.le,
        feed_of_lt (by decide)]
    have hnumber : blockNumber false m = leNat (ctx.buf ++ [1]) := by
      rw [blockNumber, ← hm, leNat_append, leNat_append, leNat, leNat_replicate_zero]
      rfl
    obtain ⟨-, hreduced, hh⟩ := yields_absorb hr hlen hacc.1
    rw [hnumber] at hh
    change Accumulates (feed blockLen (absorb ctx.r false) ctx.h m).1 _
    rw [hone]
    exact hacc.step hreduced hh

/-- Updates do not touch the key. -/
lemma foldl_update_eq_fed (hbuf : ctx.buf.length < blockLen) (pieces : List Bytes) :
    pieces.foldl update ctx = ctx.fed pieces.flatten := by
  induction pieces generalizing ctx with
  | nil => exact (Ctx.fed_nil hbuf).symm
  | cons piece pieces ih =>
    rw [foldl_cons, update_eq_fed hbuf, ih (Ctx.length_buf_fed piece), Ctx.fed_fed, flatten_cons]

lemma accumulates_zero : Accumulates ⟨0, 0, 0, 0, 0⟩ 0 := by
  refine ⟨by constructor <;> norm_num, ?_, prime_pos⟩
  simp [Limbs.residue, eval]

lemma accumulates_feed (hr : Clamped r) {acc : ℕ} (hacc : Accumulates h acc) (msg : Bytes) :
    Accumulates (feed blockLen (absorb r true) h msg).1 (feed blockLen (hornerStep r.value) acc msg).1 ∧
      (feed blockLen (absorb r true) h msg).2 = (feed blockLen (hornerStep r.value) acc msg).2 := by
  apply feed_rel (P := Accumulates) (Nat.zero_lt_succ _) _ hacc
  intro h acc m hm hacc
  exact accumulates_absorb hr hm hacc

/-- At the end of a message the accumulator is that of Horner's rule. -/
lemma accumulates_horner (key : Bytes) (pieces : List Bytes) :
    Accumulates (pad (pieces.foldl update (init key))).h (horner (multiplier key) pieces.flatten) := by
  have hbuf : (init key).buf.length < blockLen := Nat.zero_lt_succ _
  have hr := clamped_init key
  obtain ⟨hacc, hrest⟩ := accumulates_feed hr accumulates_zero pieces.flatten
  have hpad := @accumulates_pad ((init key).fed pieces.flatten) hr (Ctx.length_buf_fed pieces.flatten) _ hacc
  rw [foldl_update_eq_fed hbuf, horner, ← value_init_r, ← hrest]
  exact hpad

lemma s_pad (ctx : Ctx) : (pad ctx).s = ctx.s := by
  rw [pad]
  split <;> rfl

lemma val_finishChecked (hctx : Sound ctx) : (finishChecked subWrapping ctx).val = finish ctx := by
  have hpad : (padChecked ctx).val = pad ctx := (yields_pad hctx).2.1
  change tagOf (subtractPrime (carryAround (padChecked ctx).val.h)) (padChecked ctx).val.s = _
  rw [hpad]
  rfl

/-- The tag is the residue of the accumulator plus the pad. -/
lemma yields_finish (hctx : Sound ctx) {acc : ℕ} (hacc : Accumulates (pad ctx).h acc) :
    Yields (finishChecked subWrapping ctx) fun tag => tag = leBytes 16 ((acc + padNumber ctx.s) % 2 ^ 128) := by
  refine .bind (yields_pad hctx) fun c hc => ?_
  obtain ⟨rfl, hsound⟩ := hc
  refine .bind (yields_carryAround hsound.h) fun h hh => ?_
  refine .bind (yields_subtractPrime hh.1) fun h' hh' => ?_
  have hcast : (h.value : ZMod prime) = acc := by
    rw [Limbs.cast_value, hh.2, hacc.2.1]
  have hvalue : h'.value = acc := by
    rw [hh'.2, (ZMod.natCast_eq_natCast_iff' _ _ _).1 hcast, Nat.mod_eq_of_lt hacc.2.2]
  refine (yields_tagOf hh'.1 (pad ctx).s).mono fun tag htag => ?_
  rw [htag, hvalue, s_pad]

lemma s_foldl_update (key : Bytes) (pieces : List Bytes) : (pieces.foldl update (init key)).s = (init key).s := by
  have hbuf : (init key).buf.length < blockLen := Nat.zero_lt_succ _
  rw [foldl_update_eq_fed hbuf]
  rfl

/-- For every key, message and division of the message over updates the tag is that of the specification, and no
sum or product of 32 or 64 bits overflows. -/
theorem tag_exact (key : Bytes) (pieces : List Bytes) :
    finish (pieces.foldl update (init key)) = tag key pieces.flatten ∧
      tagChecked subWrapping key pieces = ⟨finish (pieces.foldl update (init key)), true⟩ := by
  obtain ⟨hfits, heq, hsound⟩ := yields_updates (sound_init key) pieces
  rw [heq] at hsound
  obtain ⟨hfits', hfinish⟩ := yields_finish hsound (accumulates_horner key pieces)
  have hval := val_finishChecked hsound
  rw [s_foldl_update, padNumber_init] at hfinish
  refine ⟨hval.symm.trans hfinish, ?_⟩
  change Checked.mk (finishChecked subWrapping (pieces.foldlM updateChecked (init key)).val).val
    ((pieces.foldlM updateChecked (init key)).fits &&
      (finishChecked subWrapping (pieces.foldlM updateChecked (init key)).val).fits) = _
  rw [heq, hval, hfits, hfits']
  rfl

/-- The borrow of the trial subtraction: with an empty message the accumulator is below the prime. -/
theorem trial_subtraction_wraps : ∃ key : Bytes, key.length = 32 ∧ (tagChecked sub32 key []).fits = false :=
  ⟨replicate 32 0, rfl, by decide⟩

end Poly1305
