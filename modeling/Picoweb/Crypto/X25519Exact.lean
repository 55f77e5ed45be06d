import Picoweb.Crypto.X25519

/-!
# X25519 is exact

The ladder of RFC 7748 over the integers modulo `2 ^ 255 - 19`, and that `x25519.c` computes it: each operation on
limbs stands for one of the field as long as its operands are within bounds, and it keeps its result within them.
-/

namespace X25519

open ByteFile Checked FiveLimbs List

/-! ### The ladder of RFC 7748 -/

abbrev prime : ℕ := 2 ^ 255 - 19

/-- The variables of the loop. -/
structure RfcLadder where
  x2 : ZMod prime
  z2 : ZMod prime
  x3 : ZMod prime
  z3 : ZMod prime
  swap : Bool

def RfcLadder.cswap (s : RfcLadder) : RfcLadder :=
  if s.swap then { s with x2 := s.x3, x3 := s.x2, z2 := s.z3, z3 := s.z2 } else s

/-- `a24` is `(486662 - 2) / 4`. -/
def RfcLadder.addAndDouble (x1 : ZMod prime) (s : RfcLadder) : RfcLadder :=
  let a := s.x2 + s.z2
  let aa := a ^ 2
  let b := s.x2 - s.z2
  let bb := b ^ 2
  let e := aa - bb
  let c := s.x3 + s.z3
  let d := s.x3 - s.z3
  let da := d * a
  let cb := c * b
  { s with
    x3 := (da + cb) ^ 2
    z3 := x1 * (da - cb) ^ 2
    x2 := aa * bb
    z2 := e * (aa + 121665 * e) }

def RfcLadder.step (x1 : ZMod prime) (k : ℕ) (s : RfcLadder) (t : ℕ) : RfcLadder :=
  let kt := k.testBit t
  let s := RfcLadder.cswap { s with swap := s.swap ^^ kt }
  RfcLadder.addAndDouble x1 { s with swap := kt }

/-- The scalar: its three low bits and its high bit are cleared, and bit 254 is set. -/
def decodeScalar (scalar : Bytes) : ℕ := 2 ^ 254 + leNat scalar % 2 ^ 254 / 8 * 8

/-- The coordinate: its high bit is ignored, and it need not be below the prime. -/
def decodeUCoordinate (point : Bytes) : ZMod prime := ((leNat point % 2 ^ 255 : ℕ) : ZMod prime)

def montgomeryLadder (k : ℕ) (u : ZMod prime) : ZMod prime :=
  let s := (range 255).reverse.foldl (RfcLadder.step u k) ⟨1, 0, u, 1, false⟩
  s.cswap.x2 * s.cswap.z2 ^ (prime - 2)

/-- The canonical encoding of the result. -/
def rfc7748 (scalar point : Bytes) : Bytes :=
  leBytes 32 (montgomeryLadder (decodeScalar scalar) (decodeUCoordinate point)).val

/-! ### Field elements as numbers -/

lemma two_pow_five : ((2 : ZMod prime) ^ 51) ^ 5 = (19 : ℕ) := pow_five_eq (by norm_num)

lemma base_eq : ((2 ^ 51 : ℕ) : ZMod prime) = 2 ^ 51 := by
  rfl

namespace Fe

def residue (a : Fe) : ZMod prime :=
  eval ((2 ^ 51 : ℕ) : ZMod prime) a.l0.toNat a.l1.toNat a.l2.toNat a.l3.toNat a.l4.toNat

lemma residue_eq (a : Fe) :
    a.residue = eval (2 ^ 51) a.l0.toNat a.l1.toNat a.l2.toNat a.l3.toNat a.l4.toNat := by
  rw [residue, Nat.cast_pow, Nat.cast_ofNat]

def value (a : Fe) : ℕ := FiveLimbs.value 51 a.l0.toNat a.l1.toNat a.l2.toNat a.l3.toNat a.l4.toNat

lemma cast_value (a : Fe) : (a.value : ZMod prime) = a.residue := by
  rw [residue_eq]
  exact FiveLimbs.cast_value ..

structure Below (a : Fe) (n : ℕ) : Prop where
  l0 : a.l0.toNat < n
  l1 : a.l1.toNat < n
  l2 : a.l2.toNat < n
  l3 : a.l3.toNat < n
  l4 : a.l4.toNat < n

lemma Below.mono {a : Fe} {m n : ℕ} (h : a.Below m) (hmn : m ≤ n) : a.Below n :=
  ⟨h.l0.trans_le hmn, h.l1.trans_le hmn, h.l2.trans_le hmn, h.l3.trans_le hmn, h.l4.trans_le hmn⟩

/-- What products leave: limbs hardly above 51 bits, standing for a field element. -/
structure Tight (a : Fe) (x : ZMod prime) : Prop where
  below : a.Below (2 ^ 51 + 2 ^ 13)
  residue : a.residue = x

/-- What sums and differences of those leave. -/
structure Loose (a : Fe) (x : ZMod prime) : Prop where
  below : a.Below (2 ^ 53)
  residue : a.residue = x

lemma Tight.loose {a : Fe} {x : ZMod prime} (h : a.Tight x) : a.Loose x := ⟨h.below.mono (by norm_num), h.residue⟩

end Fe

lemma toNat_and_mask51 (a : UInt64) : (a &&& mask51).toNat = a.toNat % 2 ^ 51 := by
  exact Nat.and_two_pow_sub_one_eq_mod a.toNat 51

lemma toNat_shiftRight_51 (a : UInt64) : (a >>> 51).toNat = a.toNat / 2 ^ 51 := by
  exact Nat.shiftRight_eq_div_pow a.toNat 51

lemma toNat_carryOf {r : ℕ} (h : r < 2 ^ 115 := by omega) : (carryOf r).toNat = r / 2 ^ 51 := by
  rw [carryOf, UInt64.toNat_ofNat']
  omega

lemma toNat_limbOf (r : ℕ) : (limbOf r).toNat = r % 2 ^ 51 := by
  rw [limbOf, toNat_and_mask51, UInt64.toNat_ofNat']
  omega

variable {a b : Fe} {x y : ZMod prime}

lemma yields_feAdd (ha : a.Tight x) (hb : b.Tight y) : Yields (feAdd a b) (Fe.Loose · (x + y)) := by
  obtain ⟨⟨a0, a1, a2, a3, a4⟩, hx⟩ := ha
  obtain ⟨⟨b0, b1, b2, b3, b4⟩, hy⟩ := hb
  refine .bind (yields_add64 (by omega)) fun c0 h0 => ?_
  refine .bind (yields_add64 (by omega)) fun c1 h1 => ?_
  refine .bind (yields_add64 (by omega)) fun c2 h2 => ?_
  refine .bind (yields_add64 (by omega)) fun c3 h3 => ?_
  refine .bind (yields_add64 (by omega)) fun c4 h4 => ?_
  have hbelow : Fe.Below ⟨c0, c1, c2, c3, c4⟩ (2 ^ 53) := by
    constructor <;> dsimp only <;> omega
  refine .pure ⟨hbelow, ?_⟩
  rw [Fe.residue_eq, h0, h1, h2, h3, h4, eval_add, ← hx, ← hy]
  rfl

/-- A limb of a difference plus the limb subtracted is the other limb plus the bias. -/
lemma yields_subLimb {bias c d : UInt64} (hc : c.toNat < 2 ^ 51 + 2 ^ 13) (hd : d.toNat < 2 ^ 51 + 2 ^ 13)
    (hlow : 2 ^ 51 + 2 ^ 13 ≤ bias.toNat) (hhigh : bias.toNat < 2 ^ 52) :
    Yields (subLimb bias c d) fun l => l.toNat + d.toNat = c.toNat + bias.toNat ∧ l.toNat < 2 ^ 53 := by
  refine .bind (yields_add64 (by omega)) fun s hs => ?_
  refine (yields_sub64 (by omega)).mono fun l hl => ?_
  omega

/-- The biases make up a multiple of the prime. -/
lemma eval_bias : eval ((2 : ZMod prime) ^ 51) (0xfffffffffffda : UInt64).toNat
    (0xffffffffffffe : UInt64).toNat (0xffffffffffffe : UInt64).toNat (0xffffffffffffe : UInt64).toNat
    (0xffffffffffffe : UInt64).toNat = 0 := by
  have hvalue : FiveLimbs.value 51 0xfffffffffffda 0xffffffffffffe 0xffffffffffffe 0xffffffffffffe
      0xffffffffffffe = prime * 2 := by
    norm_num [FiveLimbs.value]
  have hcast := congrArg (Nat.cast (R := ZMod prime)) hvalue
  exact hcast

lemma yields_feSub (ha : a.Tight x) (hb : b.Tight y) : Yields (feSub a b) (Fe.Loose · (x - y)) := by
  obtain ⟨⟨a0, a1, a2, a3, a4⟩, hx⟩ := ha
  obtain ⟨⟨b0, b1, b2, b3, b4⟩, hy⟩ := hb
  refine .bind (yields_subLimb a0 b0 (by decide) (by decide)) fun c0 h0 => ?_
  refine .bind (yields_subLimb a1 b1 (by decide) (by decide)) fun c1 h1 => ?_
  refine .bind (yields_subLimb a2 b2 (by decide) (by decide)) fun c2 h2 => ?_
  refine .bind (yields_subLimb a3 b3 (by decide) (by decide)) fun c3 h3 => ?_
  refine .bind (yields_subLimb a4 b4 (by decide) (by decide)) fun c4 h4 => ?_
  refine .pure ⟨⟨h0.2, h1.2, h2.2, h3.2, h4.2⟩, ?_⟩
  have hsum : Fe.residue ⟨c0, c1, c2, c3, c4⟩ + b.residue = a.residue + 0 := by
    rw [← eval_bias, Fe.residue_eq, Fe.residue_eq, Fe.residue_eq, ← eval_add, ← eval_add]
    simp only [h0.1, h1.1, h2.1, h3.1, h4.1]
  rw [add_zero, hx, hy] at hsum
  exact eq_sub_of_add_eq hsum

/-! ### Products -/

lemma yields_times_19 {c : UInt64} {n : ℕ} (hc : c.toNat = n) (h : n * 19 < 2 ^ 64 := by omega) :
    Yields (mul64 c 19) fun d => d.toNat = 19 * n := by
  subst hc
  rw [Nat.mul_comm 19]
  exact yields_mul64 h

/-- The carry passes: what is carried out of the last limb comes back times 19. -/
lemma yields_carryWide {r0 r1 r2 r3 r4 : ℕ} (h0 : r0 < 2 ^ 114) (h1 : r1 < 2 ^ 114) (h2 : r2 < 2 ^ 114)
    (h3 : r3 < 2 ^ 114) (h4 : r4 ≤ 5 * 2 ^ 106) :
    Yields (carryWide r0 r1 r2 r3 r4) (Fe.Tight · (eval ((2 : ZMod prime) ^ 51) r0 r1 r2 r3 r4)) := by
  refine .add128 toNat_carryOf fun s1 hs1 => ?_
  refine .add128 toNat_carryOf fun s2 hs2 => ?_
  refine .add128 toNat_carryOf fun s3 hs3 => ?_
  refine .add128 toNat_carryOf fun s4 hs4 => ?_
  refine .bind (yields_times_19 toNat_carryOf) fun c hc => ?_
  refine .add64 (toNat_limbOf r0) hc fun x0 hx0 => ?_
  refine .add64 (toNat_limbOf s1) (toNat_shiftRight_51 x0) fun x1 hx1 => ?_
  have hm0 := toNat_and_mask51 x0
  have hl2 := toNat_limbOf s2
  have hl3 := toNat_limbOf s3
  have hl4 := toNat_limbOf s4
  have hbelow : Fe.Below ⟨x0 &&& mask51, x1, limbOf s2, limbOf s3, limbOf s4⟩ (2 ^ 51 + 2 ^ 13) := by
    constructor <;> dsimp only <;> omega
  refine .pure ⟨hbelow, ?_⟩
  rw [Fe.residue_eq, hm0, hx1, hl2, hl3, hl4]
  rw [eval_carry_first _ _ _ base_eq (Nat.mod_add_div x0.toNat (2 ^ 51)), hx0]
  exact eval_carry two_pow_five base_eq hs1 hs2 hs3 hs4

lemma yields_dot {b0 b1 b2 b3 b4 n : ℕ} (ha : a.Below (2 ^ 53)) (hn : n ≤ 19 * 2 ^ 53)
    (h0 : b0 < n := by omega) (h1 : b1 < n := by omega) (h2 : b2 < n := by omega) (h3 : b3 < n := by omega)
    (h4 : b4 < n := by omega) : Yields (dot a b0 b1 b2 b3 b4) fun r =>
      r = a.l0.toNat * b0 + a.l1.toNat * b1 + a.l2.toNat * b2 + a.l3.toNat * b3 + a.l4.toNat * b4 ∧
        r ≤ 5 * (2 ^ 53 * n) := by
  exact @yields_products ℕ _ _ id (2 ^ 128) (2 ^ 53) n _ _ _ _ _ _ _ _ _ _ (fun _ _ h => yields_mul128 h)
    (fun _ _ h => yields_add128 h) (by omega) ⟨ha.l0, h0⟩ ⟨ha.l1, h1⟩ ⟨ha.l2, h2⟩ ⟨ha.l3, h3⟩ ⟨ha.l4, h4⟩

lemma yields_feMul (ha : a.Loose x) (hb : b.Loose y) : Yields (feMul a b) (Fe.Tight · (x * y)) := by
  obtain ⟨ha, hx⟩ := ha
  obtain ⟨⟨h0, h1, h2, h3, h4⟩, hy⟩ := hb
  refine .bind (yields_mul128 (by omega)) fun b1 hb1 => ?_
  refine .bind (yields_mul128 (by omega)) fun b2 hb2 => ?_
  refine .bind (yields_mul128 (by omega)) fun b3 hb3 => ?_
  refine .bind (yields_mul128 (by omega)) fun b4 hb4 => ?_
  refine .bind (yields_dot ha le_rfl) fun r0 hr0 => ?_
  refine .bind (yields_dot ha le_rfl) fun r1 hr1 => ?_
  refine .bind (yields_dot ha le_rfl) fun r2 hr2 => ?_
  refine .bind (yields_dot ha le_rfl) fun r3 hr3 => ?_
  refine .bind (yields_dot ha (by norm_num) h4 h3 h2 h1 h0) fun r4 hr4 => ?_
  have hcarry := yields_carryWide (hr0.2.trans_lt (by norm_num)) (hr1.2.trans_lt (by norm_num))
    (hr2.2.trans_lt (by norm_num)) (hr3.2.trans_lt (by norm_num)) (hr4.2.trans_eq (by norm_num))
  rw [hr0.1, hr1.1, hr2.1, hr3.1, hr4.1, hb1, hb2, hb3, hb4, eval_mul two_pow_five] at hcarry
  rw [← hx, ← hy, hr0.1, hr1.1, hr2.1, hr3.1, hr4.1, hb1, hb2, hb3, hb4]
  exact hcarry

lemma yields_feSq (ha : a.Loose x) : Yields (feSq a) (Fe.Tight · (x ^ 2)) := by
  rw [pow_two]
  exact yields_feMul ha ha

lemma yields_feMulSmall (ha : a.Loose x) {c : UInt32} (hc : c.toNat < 2 ^ 17) :
    Yields (feMulSmall a c) (Fe.Tight · (x * (c.toNat : ℕ))) := by
  obtain ⟨⟨h0, h1, h2, h3, h4⟩, hx⟩ := ha
  have hp {n : ℕ} (hn : n < 2 ^ 53) : n * c.toNat ≤ 2 ^ 53 * 2 ^ 17 := Nat.mul_le_mul hn.le hc.le
  have p0 := hp h0
  have p1 := hp h1
  have p2 := hp h2
  have p3 := hp h3
  have p4 := hp h4
  refine .bind (yields_mul128 (by omega)) fun r0 hr0 => ?_
  refine .bind (yields_mul128 (by omega)) fun r1 hr1 => ?_
  refine .bind (yields_mul128 (by omega)) fun r2 hr2 => ?_
  refine .bind (yields_mul128 (by omega)) fun r3 hr3 => ?_
  refine .bind (yields_mul128 (by omega)) fun r4 hr4 => ?_
  subst hr0 hr1 hr2 hr3 hr4
  refine (yields_carryWide (by omega) (by omega) (by omega) (by omega) (by omega)).mono fun d hd => ?_
  refine ⟨hd.below, hd.residue.trans ?_⟩
  rw [← hx]
  simp only [eval, Fe.residue_eq]
  push_cast
  ring

/-! ### The inverse -/

lemma yields_feSqTimes (n : ℕ) (ha : a.Tight x) : Yields (feSqTimes n a) (Fe.Tight · (x ^ 2 ^ n)) := by
  induction n generalizing a x with
  | zero =>
    refine .pure ?_
    rw [pow_zero, pow_one]
    exact ha
  | succ n ih =>
    refine .bind (yields_feSq ha.loose) fun b hb => ?_
    refine (ih hb).mono fun c hc => ?_
    rw [pow_succ', pow_mul]
    exact hc

lemma yields_feMul_pow {e f : ℕ} (ha : a.Tight (x ^ e)) (hb : b.Tight (x ^ f)) :
    Yields (feMul a b) (Fe.Tight · (x ^ (e + f))) := by
  rw [pow_add]
  exact yields_feMul ha.loose hb.loose

lemma yields_feSq_pow {e : ℕ} (ha : a.Tight (x ^ e)) : Yields (feSq a) (Fe.Tight · (x ^ (e * 2))) := by
  rw [pow_mul]
  exact yields_feSq ha.loose

lemma yields_feSqTimes_pow {e : ℕ} (n : ℕ) (ha : a.Tight (x ^ e)) :
    Yields (feSqTimes n a) (Fe.Tight · (x ^ (e * 2 ^ n))) := by
  rw [pow_mul]
  exact yields_feSqTimes n ha

/-- The chain of squarings and products ends at the exponent `prime - 2`. -/
lemma yields_feInvert (ha : a.Tight x) : Yields (feInvert a) (Fe.Tight · (x ^ (prime - 2))) := by
  have h1 : a.Tight (x ^ 1) := by
    rw [pow_one]
    exact ha
  refine .bind (yields_feSq ha.loose) fun z2 h2 => ?_
  refine .bind (yields_feSqTimes_pow 2 h2) fun t ht => ?_
  refine .bind (yields_feMul_pow ht h1) fun z9 h9 => ?_
  refine .bind (yields_feMul_pow h9 h2) fun z11 h11 => ?_
  refine .bind (yields_feSq_pow h11) fun t ht => ?_
  refine .bind (yields_feMul_pow ht h9) fun z5 h5 => ?_
  refine .bind (yields_feSqTimes_pow 5 h5) fun t ht => ?_
  refine .bind (yields_feMul_pow ht h5) fun z10 h10 => ?_
  refine .bind (yields_feSqTimes_pow 10 h10) fun t ht => ?_
  refine .bind (yields_feMul_pow ht h10) fun z20 h20 => ?_
  refine .bind (yields_feSqTimes_pow 20 h20) fun t ht => ?_
  refine .bind (yields_feMul_pow ht h20) fun t ht => ?_
  refine .bind (yields_feSqTimes_pow 10 ht) fun t ht => ?_
  refine .bind (yields_feMul_pow ht h10) fun z50 h50 => ?_
  refine .bind (yields_feSqTimes_pow 50 h50) fun t ht => ?_
  refine .bind (yields_feMul_pow ht h50) fun z100 h100 => ?_
  refine .bind (yields_feSqTimes_pow 100 h100) fun t ht => ?_
  refine .bind (yields_feMul_pow ht h100) fun t ht => ?_
  refine .bind (yields_feSqTimes_pow 50 ht) fun t ht => ?_
  refine .bind (yields_feMul_pow ht h50) fun t ht => ?_
  refine .bind (yields_feSqTimes_pow 5 ht) fun t ht => ?_
  refine (yields_feMul_pow ht h11).mono fun z hz => ?_
  exact hz

/-! ### One step of the ladder -/

lemma cswapLimb_zero (c d : UInt64) : cswapLimb 0 c d = (c, d) := by
  simp [cswapLimb]

lemma cswapLimb_ones (c d : UInt64) : cswapLimb (0 - 1) c d = (d, c) := by
  have h : (0 - 1 : UInt64) &&& (c ^^^ d) = c ^^^ d := by simp
  have hc : c ^^^ (c ^^^ d) = d := by rw [← UInt64.xor_assoc, UInt64.xor_self, UInt64.zero_xor]
  have hd : d ^^^ (c ^^^ d) = c := by rw [UInt64.xor_comm c d, ← UInt64.xor_assoc, UInt64.xor_self, UInt64.zero_xor]
  rw [cswapLimb, h, hc, hd]

lemma feCswap_zero (a b : Fe) : feCswap 0 a b = (a, b) := by
  simp only [feCswap, cswapLimb_zero]

lemma feCswap_ones (a b : Fe) : feCswap (0 - 1) a b = (b, a) := by
  simp only [feCswap, cswapLimb_ones]

def bitWord (b : Bool) : UInt64 := if b then 1 else 0

lemma bitWord_xor (c d : Bool) : bitWord c ^^^ bitWord d = bitWord (c ^^ d) := by
  cases c <;> cases d <;> rfl

/-- The loop variables of the code stand for those of the specification. -/
structure Stands (s : Ladder) (r : RfcLadder) : Prop where
  x2 : s.x2.Tight r.x2
  z2 : s.z2.Tight r.z2
  x3 : s.x3.Tight r.x3
  z3 : s.z3.Tight r.z3
  swap : s.swap = bitWord r.swap

variable {s : Ladder} {r : RfcLadder}

lemma swapPairs_of_zero (h : s.swap = 0) : swapPairs s = s := by
  have hmask : 0 - s.swap = 0 := by rw [h]; rfl
  rw [swapPairs, hmask, feCswap_zero, feCswap_zero]

lemma swapPairs_of_one (h : s.swap = 1) : swapPairs s = { s with x2 := s.x3, z2 := s.z3, x3 := s.x2, z3 := s.z2 } := by
  rw [swapPairs, h, feCswap_ones, feCswap_ones]

lemma Stands.swapPairs (h : Stands s r) : Stands (swapPairs s) r.cswap := by
  have hword := h.swap
  rw [RfcLadder.cswap]
  split
  · next hswap =>
    rw [hswap] at hword
    rw [swapPairs_of_one hword]
    exact ⟨h.x3, h.z3, h.x2, h.z2, h.swap⟩
  · next hswap =>
    rw [Bool.not_eq_true] at hswap
    rw [hswap] at hword
    rw [swapPairs_of_zero hword]
    exact h

lemma Stands.addAndDouble {x1 : Fe} {u : ZMod prime} (h : Stands s r) (hu : x1.Tight u) :
    Yields (addAndDouble x1 s) (Stands · (r.addAndDouble u)) := by
  refine .bind (yields_feAdd h.x2 h.z2) fun a ha => ?_
  refine .bind (yields_feSq ha) fun aa haa => ?_
  refine .bind (yields_feSub h.x2 h.z2) fun b hb => ?_
  refine .bind (yields_feSq hb) fun bb hbb => ?_
  refine .bind (yields_feSub haa hbb) fun e he => ?_
  refine .bind (yields_feAdd h.x3 h.z3) fun c hc => ?_
  refine .bind (yields_feSub h.x3 h.z3) fun d hd => ?_
  refine .bind (yields_feMul hd ha) fun da hda => ?_
  refine .bind (yields_feMul hc hb) fun cb hcb => ?_
  refine .bind (yields_feAdd hda hcb) fun sum hsum => ?_
  refine .bind (yields_feSub hda hcb) fun diff hdiff => ?_
  refine .bind (yields_feSq hsum) fun x3 hx3 => ?_
  refine .bind (yields_feSq hdiff) fun sq hsq => ?_
  refine .bind (yields_feMul hsq.loose hu.loose) fun z3 hz3 => ?_
  refine .bind (yields_feMul haa.loose hbb.loose) fun x2 hx2 => ?_
  refine .bind (yields_feMulSmall he (by decide)) fun small hsmall => ?_
  refine .bind (yields_feAdd haa hsmall) fun a24E ha24E => ?_
  refine .bind (yields_feMul he ha24E) fun z2 hz2 => ?_
  refine .pure ⟨hx2, ⟨hz2.below, ?_⟩, hx3, ⟨hz3.below, ?_⟩, h.swap⟩
  · rw [hz2.residue]
    dsimp only [RfcLadder.addAndDouble]
    have ha24 : (((121665 : UInt32).toNat : ℕ) : ZMod prime) = 121665 := by
      change ((121665 : ℕ) : ZMod prime) = 121665
      rfl
    rw [ha24]
    ring
  · rw [hz3.residue]
    dsimp only [RfcLadder.addAndDouble]
    ring

/-- The bit that the loop takes from the bytes of the scalar. -/
lemma toUInt64_bit (e : Bytes) (t : ℕ) :
    ((e.getD (t / 8) 0 >>> UInt8.ofNat (t % 8)) &&& 1).toUInt64 = bitWord ((leNat e).testBit t) := by
  have hshift : t % 8 % 2 ^ 8 % 8 = t % 8 := by omega
  rw [testBit_leNat]
  generalize e.getD (t / 8) 0 = b
  apply UInt64.toNat_inj.1
  rw [UInt8.toNat_toUInt64, UInt8.toNat_and, UInt8.toNat_shiftRight, UInt8.toNat_ofNat', hshift]
  change b.toNat >>> (t % 8) &&& 1 = _
  rw [Nat.and_one_is_mod, Nat.testBit_eq_decide_div_mod_eq, Nat.shiftRight_eq_div_pow]
  rcases Nat.mod_two_eq_zero_or_one (b.toNat / 2 ^ (t % 8)) with h | h
  · rw [h]
    rfl
  · rw [h]
    rfl

lemma Stands.ladderStep {x1 : Fe} {u : ZMod prime} {e : Bytes} (h : Stands s r) (hu : x1.Tight u) (t : ℕ) :
    Yields (ladderStep x1 e s t) (Stands · (r.step u (leNat e) t)) := by
  have hswap : s.swap ^^^ bitWord ((leNat e).testBit t) = bitWord (r.swap ^^ (leNat e).testBit t) := by
    rw [h.swap, bitWord_xor]
  have hpairs : Stands { s with swap := s.swap ^^^ bitWord ((leNat e).testBit t) }
      { r with swap := r.swap ^^ (leNat e).testBit t } := ⟨h.x2, h.z2, h.x3, h.z3, hswap⟩
  obtain ⟨x2, z2, x3, z3, -⟩ := hpairs.swapPairs
  rw [X25519.ladderStep, toUInt64_bit]
  exact Stands.addAndDouble ⟨x2, z2, x3, z3, rfl⟩ hu

lemma Stands.ladder {x1 : Fe} {u : ZMod prime} {e : Bytes} (hu : x1.Tight u) (bits : List ℕ) (h : Stands s r) :
    Yields (bits.foldlM (X25519.ladderStep x1 e) s) (Stands · (bits.foldl (RfcLadder.step u (leNat e)) r)) := by
  induction bits generalizing s r with
  | nil => exact .pure h
  | cons t bits ih => exact .bind (h.ladderStep hu t) fun s' hs' => ih hs'

/-! ### The scalar -/

lemma toNat_and_248 (b : UInt8) : (b &&& 248).toNat = b.toNat / 8 * 8 := by
  have h : ∀ n < 256, n &&& 248 = n / 8 * 8 := by decide +kernel
  exact h b.toNat b.toNat_lt

lemma toNat_and_127 (b : UInt8) : (b &&& 127).toNat = b.toNat % 128 := by
  exact Nat.and_two_pow_sub_one_eq_mod b.toNat 7

lemma toNat_or_64 {b : UInt8} (hb : b.toNat < 128) : (b ||| 64).toNat = b.toNat % 64 + 64 := by
  have h : ∀ n < 128, n ||| 64 = n % 64 + 64 := by decide +kernel
  exact h b.toNat hb

/-- The clamped bytes are those of the clamped number. -/
lemma leNat_clamp {scalar : Bytes} (h : scalar.length = 32) : leNat (clamp scalar) = decodeScalar scalar := by
  rw [clamp, decodeScalar]
  generalize he : scalar.set 0 (scalar.getD 0 0 &&& 248) = e
  generalize hf : e.set 31 (e.getD 31 0 &&& 127) = f
  have hle : e.length = 32 := by rw [← he, length_set, h]
  have hlf : f.length = 32 := by rw [← hf, length_set, hle]
  have hfirst : 0 < scalar.length := by omega
  have hlast : 31 < e.length := by omega
  have hlast' : 31 < f.length := by omega
  have hlow := leNat_set hfirst (scalar.getD 0 0 &&& 248)
  have hhigh := leNat_set hlast (e.getD 31 0 &&& 127)
  have hset := leNat_set hlast' (f.getD 31 0 ||| 64)
  have hn := leNat_lt scalar
  have h0 := toNat_getD scalar 0
  have h31 := toNat_getD e 31
  have hf31 := toNat_getD f 31
  rw [he, toNat_and_248] at hlow
  rw [hf, toNat_and_127] at hhigh
  rw [h] at hn
  have hsmall : (f.getD 31 0).toNat < 128 := by omega
  rw [toNat_or_64 hsmall] at hset
  omega

lemma window_byteAt (bytes : Bytes) (i : ℕ) : Window (byteAt bytes i) (leNat bytes) (8 * i) 8 := by
  rw [Window, byteAt, UInt8.toNat_toUInt64, toNat_getD]

lemma or_byteAt {bytes : Bytes} {c : UInt64} {k w : ℕ} (hc : Window c (leNat bytes) k w) (i : ℕ) (sh : UInt64)
    (hi : 8 * i = k + w := by decide) (hsh : sh.toNat = w := by decide) (hw : w ≤ 56 := by decide) :
    Window (c ||| (byteAt bytes i <<< sh)) (leNat bytes) k (w + 8) :=
  hc.or_shift (hi ▸ window_byteAt bytes i) hsh (by omega) (by omega)

/-- The limbs of a point take 51 bits each. -/
lemma window_feFromBytes (bytes : Bytes) :
    Window (feFromBytes bytes).l0 (leNat bytes) 0 51 ∧ Window (feFromBytes bytes).l1 (leNat bytes) 51 51 ∧
      Window (feFromBytes bytes).l2 (leNat bytes) 102 51 ∧ Window (feFromBytes bytes).l3 (leNat bytes) 153 51 ∧
      Window (feFromBytes bytes).l4 (leNat bytes) 204 51 := by
  have hbyte := window_byteAt bytes
  refine ⟨?_, ?_, ?_, ?_, ?_⟩
  · have h := or_byteAt (hbyte 0) 1 8
    have h := or_byteAt h 2 16
    have h := or_byteAt h 3 24
    have h := or_byteAt h 4 32
    have h := or_byteAt h 5 40
    exact h.or_shift ((hbyte 6).and_mask 0x07 3)
  · have h := or_byteAt ((hbyte 6).shiftRight 3 5) 7 5
    have h := or_byteAt h 8 13
    have h := or_byteAt h 9 21
    have h := or_byteAt h 10 29
    have h := or_byteAt h 11 37
    exact h.or_shift ((hbyte 12).and_mask 0x3f 6)
  · have h := or_byteAt ((hbyte 12).shiftRight 6 2) 13 2
    have h := or_byteAt h 14 10
    have h := or_byteAt h 15 18
    have h := or_byteAt h 16 26
    have h := or_byteAt h 17 34
    have h := or_byteAt h 18 42
    exact h.or_shift ((hbyte 19).and_mask 0x01 1)
  · have h := or_byteAt ((hbyte 19).shiftRight 1 7) 20 7
    have h := or_byteAt h 21 15
    have h := or_byteAt h 22 23
    have h := or_byteAt h 23 31
    have h := or_byteAt h 24 39
    exact h.or_shift ((hbyte 25).and_mask 0x0f 4)
  · have h := or_byteAt ((hbyte 25).shiftRight 4 4) 26 4
    have h := or_byteAt h 27 12
    have h := or_byteAt h 28 20
    have h := or_byteAt h 29 28
    have h := or_byteAt h 30 36
    exact h.or_shift ((hbyte 31).and_mask 0x7f 7)

lemma tight_feFromBytes (bytes : Bytes) : (feFromBytes bytes).Tight (decodeUCoordinate bytes) := by
  obtain ⟨h0, h1, h2, h3, h4⟩ := window_feFromBytes bytes
  have hbelow : (feFromBytes bytes).Below (2 ^ 51) := ⟨h0.lt, h1.lt, h2.lt, h3.lt, h4.lt⟩
  refine ⟨hbelow.mono (by norm_num), ?_⟩
  rw [← Fe.cast_value, Fe.value, h0, h1, h2, h3, h4, FiveLimbs.value]
  congr 1
  omega

/-! ### From limbs to bytes -/

/-- The bytes of a number whose limbs are full. -/
lemma pack_eq {t : Fe} (ht : t.Below (2 ^ 51)) : pack t = leBytes 32 t.value := by
  obtain ⟨b0, b1, b2, b3, b4⟩ := ht
  -- the last byte has a bit more than the last limb
  obtain ⟨h0, h1, h2, h3, h4, h4'⟩ : Window t.l0 t.value 0 51 ∧ Window t.l1 t.value 51 51 ∧
      Window t.l2 t.value 102 51 ∧ Window t.l3 t.value 153 51 ∧ Window t.l4 t.value 204 51 ∧
      Window t.l4 t.value 204 52 := by
    simp only [Window, Fe.value, FiveLimbs.value]
    omega
  have next {a b : UInt8} {as bs : Bytes} (h : a = b) (hs : as = bs) : a :: as = b :: bs := congrArg₂ _ h hs
  rw [leBytes_eq_map]
  -- one byte after the other; four of them take bits of two limbs
  refine next h0.toUInt8 ?_
  refine next (h0.byte 8) ?_
  refine next (h0.byte 16) ?_
  refine next (h0.byte 24) ?_
  refine next (h0.byte 32) ?_
  refine next (h0.byte 40) ?_
  refine next ((h0.shiftRight 48 3).or_shift h1).toUInt8 ?_
  refine next (h1.byte 5) ?_
  refine next (h1.byte 13) ?_
  refine next (h1.byte 21) ?_
  refine next (h1.byte 29) ?_
  refine next (h1.byte 37) ?_
  refine next ((h1.shiftRight 45 6).or_shift h2).toUInt8 ?_
  refine next (h2.byte 2) ?_
  refine next (h2.byte 10) ?_
  refine next (h2.byte 18) ?_
  refine next (h2.byte 26) ?_
  refine next (h2.byte 34) ?_
  refine next (h2.byte 42) ?_
  refine next ((h2.shiftRight 50 1).or_shift h3).toUInt8 ?_
  refine next (h3.byte 7) ?_
  refine next (h3.byte 15) ?_
  refine next (h3.byte 23) ?_
  refine next (h3.byte 31) ?_
  refine next (h3.byte 39) ?_
  refine next ((h3.shiftRight 47 4).or_shift h4).toUInt8 ?_
  refine next (h4.byte 4) ?_
  refine next (h4.byte 12) ?_
  refine next (h4.byte 20) ?_
  refine next (h4.byte 28) ?_
  refine next (h4.byte 36) ?_
  refine next (h4'.byte 44) ?_
  rfl

/-- What `fe_carry` makes of a product: full limbs, but for a carry into the second one. -/
structure Carried (t : Fe) (x : ZMod prime) : Prop where
  l0 : t.l0.toNat < 2 ^ 51
  l1 : t.l1.toNat ≤ 2 ^ 51
  l2 : t.l2.toNat < 2 ^ 51
  l3 : t.l3.toNat < 2 ^ 51
  l4 : t.l4.toNat < 2 ^ 51
  residue : t.residue = x

lemma toNat_mask51_lt (c : UInt64) : (c &&& mask51).toNat < 2 ^ 51 := by
  rw [toNat_and_mask51]
  exact Nat.mod_lt _ (Nat.two_pow_pos 51)

lemma yields_feCarry (ha : a.Tight x) : Yields (feCarry a) (Carried · x) := by
  obtain ⟨⟨b0, b1, b2, b3, b4⟩, hx⟩ := ha
  refine .add64 rfl (toNat_shiftRight_51 a.l0) fun x1 h1 => ?_
  refine .add64 rfl (toNat_shiftRight_51 x1) fun x2 h2 => ?_
  refine .add64 rfl (toNat_shiftRight_51 x2) fun x3 h3 => ?_
  refine .add64 rfl (toNat_shiftRight_51 x3) fun x4 h4 => ?_
  refine .bind (yields_times_19 (toNat_shiftRight_51 x4)) fun c hc => ?_
  refine .add64 (toNat_and_mask51 a.l0) hc fun x0 h0 => ?_
  refine .add64 (toNat_and_mask51 x1) (toNat_shiftRight_51 x0) fun x1' h1' => ?_
  have hsecond : x1'.toNat ≤ 2 ^ 51 := by omega
  refine .pure ⟨toNat_mask51_lt x0, hsecond, toNat_mask51_lt x2, toNat_mask51_lt x3, toNat_mask51_lt x4, ?_⟩
  rw [Fe.residue_eq, h1']
  simp only [toNat_and_mask51]
  rw [eval_carry_first _ _ _ base_eq (Nat.mod_add_div x0.toNat (2 ^ 51)), h0, ← hx]
  exact eval_carry two_pow_five base_eq h1 h2 h3 h4

variable {t : Fe}

/-- The quotient by the prime, from the carry out of the last limb. -/
lemma yields_quotient (ht : Carried t x) : Yields (quotient t) fun q => q.toNat = (t.value + 19) / 2 ^ 255 := by
  obtain ⟨b0, b1, b2, b3, b4, -⟩ := ht
  have h19 : (19 : UInt64).toNat = 19 := rfl
  refine .add64 rfl h19 fun q0 h0 => ?_
  refine .add64 rfl (toNat_shiftRight_51 q0) fun q1 h1 => ?_
  refine .add64 rfl (toNat_shiftRight_51 q1) fun q2 h2 => ?_
  refine .add64 rfl (toNat_shiftRight_51 q2) fun q3 h3 => ?_
  refine .add64 rfl (toNat_shiftRight_51 q3) fun q4 h4 => ?_
  refine .pure ?_
  rw [toNat_shiftRight_51, Fe.value, FiveLimbs.value]
  omega

/-- Adding 19 for the quotient and dropping what lies beyond 255 bits subtracts the prime. -/
lemma add_quotient_mod {v : ℕ} (hv : v < 2 * prime) : (v + 19 * ((v + 19) / 2 ^ 255)) % 2 ^ 255 = v % prime := by
  by_cases hlt : v < prime
  · have hq : (v + 19) / 2 ^ 255 = 0 := Nat.div_eq_of_lt (by simp only [prime] at hlt; omega)
    rw [hq, Nat.add_zero, Nat.mod_eq_of_lt hlt, Nat.mod_eq_of_lt (hlt.trans (by norm_num))]
  · obtain ⟨d, rfl⟩ := Nat.exists_eq_add_of_le (Nat.not_lt.1 hlt)
    have hd : d < prime := by omega
    have hsum : prime + d + 19 = 2 ^ 255 + d := by
      simp only [prime]
      omega
    have hq : (prime + d + 19) / 2 ^ 255 = 1 := by
      omega
    rw [hq, hsum, Nat.add_mod_left, Nat.add_mod_left, Nat.mod_eq_of_lt hd,
      Nat.mod_eq_of_lt (hd.trans (by norm_num))]

lemma yields_subtractPrime (ht : Carried t x) {q : UInt64} (hq : q.toNat = (t.value + 19) / 2 ^ 255) :
    Yields (subtractPrime t q) fun t' => t'.Below (2 ^ 51) ∧ t'.value = t.value % prime := by
  obtain ⟨b0, b1, b2, b3, b4, -⟩ := ht
  have h19 : (19 : UInt64).toNat = 19 := rfl
  have hvalue : t.value = t.l0.toNat + t.l1.toNat * 2 ^ 51 + t.l2.toNat * 2 ^ 102 + t.l3.toNat * 2 ^ 153 +
      t.l4.toNat * 2 ^ 204 := rfl
  refine .bind (yields_mul64 (by rw [h19]; omega)) fun s hs => ?_
  rw [h19] at hs
  refine .add64 rfl hs fun t0 h0 => ?_
  refine .add64 rfl (toNat_shiftRight_51 t0) fun t1 h1 => ?_
  refine .add64 rfl (toNat_shiftRight_51 t1) fun t2 h2 => ?_
  refine .add64 rfl (toNat_shiftRight_51 t2) fun t3 h3 => ?_
  refine .add64 rfl (toNat_shiftRight_51 t3) fun t4 h4 => ?_
  refine .pure ⟨⟨toNat_mask51_lt t0, toNat_mask51_lt t1, toNat_mask51_lt t2, toNat_mask51_lt t3,
    toNat_mask51_lt t4⟩, ?_⟩
  have hdigits : Fe.value ⟨t0 &&& mask51, t1 &&& mask51, t2 &&& mask51, t3 &&& mask51, t4 &&& mask51⟩ =
      (t.value + 19 * q.toNat) % 2 ^ 255 := by
    simp only [Fe.value, FiveLimbs.value, toNat_and_mask51]
    omega
  have hbound : t.value < 2 * prime := by
    simp only [prime]
    omega
  rw [hdigits, hq, add_quotient_mod hbound]

/-- `fe_to_bytes` gives the canonical encoding. -/
lemma yields_feToBytes (ha : a.Tight x) : Yields (feToBytes a) fun bytes => bytes = leBytes 32 x.val := by
  refine .bind (yields_feCarry ha) fun t ht => ?_
  refine .bind (yields_quotient ht) fun q hq => ?_
  refine .bind (yields_subtractPrime ht hq) fun t' ht' => ?_
  refine .pure ?_
  have hval : x.val = t.value % prime := by
    rw [← ht.residue, ← Fe.cast_value, ZMod.val_natCast]
  rw [pack_eq ht'.1, ht'.2, hval]

lemma tight_one : Fe.Tight ⟨1, 0, 0, 0, 0⟩ 1 := by
  refine ⟨by constructor <;> decide, ?_⟩
  simp [Fe.residue_eq, eval]

lemma tight_zero : Fe.Tight ⟨0, 0, 0, 0, 0⟩ 0 := by
  refine ⟨by constructor <;> decide, ?_⟩
  simp [Fe.residue_eq, eval]

lemma Stands.result (h : Stands s r) : Yields (do
      let inv ← feInvert (X25519.swapPairs s).z2
      let r ← feMul (X25519.swapPairs s).x2 inv
      feToBytes r) fun bytes => bytes = leBytes 32 (r.cswap.x2 * r.cswap.z2 ^ (prime - 2)).val := by
  have hswapped := h.swapPairs
  refine .bind (yields_feInvert hswapped.z2) fun inv hinv => ?_
  refine .bind (yields_feMul hswapped.x2.loose hinv.loose) fun r hr => ?_
  exact yields_feToBytes hr

lemma yields_x25519 {scalar : Bytes} (point : Bytes) (hscalar : scalar.length = 32) :
    Yields (x25519 scalar point) fun bytes => bytes = rfc7748 scalar point := by
  have hu := tight_feFromBytes point
  have hstart : Stands ⟨⟨1, 0, 0, 0, 0⟩, ⟨0, 0, 0, 0, 0⟩, feFromBytes point, ⟨1, 0, 0, 0, 0⟩, 0⟩
      ⟨1, 0, decodeUCoordinate point, 1, false⟩ := ⟨tight_one, tight_zero, hu, tight_one, rfl⟩
  rw [rfc7748, ← leNat_clamp hscalar]
  refine .bind (Stands.ladder hu (range 255).reverse hstart) fun s hs => ?_
  exact hs.result

/-- For every scalar and every point encoding the result is the canonical encoding of what the ladder of RFC 7748
gives, and in the whole computation no sum, difference or product of limbs exceeds its word. -/
theorem x25519_exact (scalar point : Bytes) (hscalar : scalar.length = 32) :
    x25519 scalar point = ⟨rfc7748 scalar point, true⟩ :=
  (yields_x25519 point hscalar).eq_mk

/-- A point encoding of all ones is neither canonical nor without its top bit. -/
theorem x25519_exact_all_ones : (replicate 32 (0 : UInt8)).length = 32 ∧
      x25519 (replicate 32 0) (replicate 32 255) =
        ⟨rfc7748 (replicate 32 0) (replicate 32 255), true⟩ :=
  ⟨length_replicate, x25519_exact _ _ length_replicate⟩

end X25519
