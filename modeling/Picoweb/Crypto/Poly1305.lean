import Picoweb.Crypto.ChaCha20

/-!
# Poly1305

`poly1305.c`: the one-time authenticator on five limbs of 26 bits. A message may be handed over in pieces;
up to 15 bytes wait in a buffer for the rest of their block.
-/

namespace Poly1305

open ByteFile Blockwise ChaCha20 List

structure Limbs where
  l0 : UInt32
  l1 : UInt32
  l2 : UInt32
  l3 : UInt32
  l4 : UInt32
  deriving DecidableEq, Repr

/-- `poly1305_ctx_t` -/
structure Ctx where
  r : Limbs
  h : Limbs
  s : UInt32 × UInt32 × UInt32 × UInt32
  buf : Bytes
  deriving DecidableEq, Repr

def init (key : Bytes) : Ctx where
  -- `r` is clamped
  r :=
    { l0 := loadLe32 key 0 &&& 0x03ffffff
      l1 := (loadLe32 key 3 >>> 2) &&& 0x03ffff03
      l2 := (loadLe32 key 6 >>> 4) &&& 0x03ffc0ff
      l3 := (loadLe32 key 9 >>> 6) &&& 0x03f03fff
      l4 := (loadLe32 key 12 >>> 8) &&& 0x000fffff }
  h := ⟨0, 0, 0, 0, 0⟩
  s := (loadLe32 key 16, loadLe32 key 20, loadLe32 key 24, loadLe32 key 28)
  buf := []

abbrev limbMask : UInt32 := 0x03ffffff

def addBlock (hibit : Bool) (h : Limbs) (m : Bytes) : Limbs where
  l0 := h.l0 + (loadLe32 m 0 &&& limbMask)
  l1 := h.l1 + ((loadLe32 m 3 >>> 2) &&& limbMask)
  l2 := h.l2 + ((loadLe32 m 6 >>> 4) &&& limbMask)
  l3 := h.l3 + ((loadLe32 m 9 >>> 6) &&& limbMask)
  l4 := h.l4 + ((loadLe32 m 12 >>> 8) ||| (if hibit then (1 : UInt32) <<< 24 else 0))

/-- The accumulator times `r`, carried over once around. -/
def mulReduce (r h : Limbs) : Limbs :=
  let s1 := r.l1 * 5
  let s2 := r.l2 * 5
  let s3 := r.l3 * 5
  let s4 := r.l4 * 5
  let mul (a b : UInt32) : UInt64 := a.toUInt64 * b.toUInt64
  let d0 := mul h.l0 r.l0 + mul h.l1 s4 + mul h.l2 s3 + mul h.l3 s2 + mul h.l4 s1
  let d1 := mul h.l0 r.l1 + mul h.l1 r.l0 + mul h.l2 s4 + mul h.l3 s3 + mul h.l4 s2
  let d2 := mul h.l0 r.l2 + mul h.l1 r.l1 + mul h.l2 r.l0 + mul h.l3 s4 + mul h.l4 s3
  let d3 := mul h.l0 r.l3 + mul h.l1 r.l2 + mul h.l2 r.l1 + mul h.l3 r.l0 + mul h.l4 s4
  let d4 := mul h.l0 r.l4 + mul h.l1 r.l3 + mul h.l2 r.l2 + mul h.l3 r.l1 + mul h.l4 r.l0
  let carry (d : UInt64) : UInt32 := (d >>> 26).toUInt32
  let low (d : UInt64) : UInt32 := d.toUInt32 &&& limbMask
  let d1 := d1 + (carry d0).toUInt64
  let d2 := d2 + (carry d1).toUInt64
  let d3 := d3 + (carry d2).toUInt64
  let d4 := d4 + (carry d3).toUInt64
  let h0 := low d0 + carry d4 * 5
  { l0 := h0 &&& limbMask
    l1 := low d1 + (h0 >>> 26)
    l2 := low d2
    l3 := low d3
    l4 := low d4 }

/-- The body of the loop of `poly1305_blocks`. -/
def absorb (r : Limbs) (hibit : Bool) (h : Limbs) (m : Bytes) : Limbs := mulReduce r (addBlock hibit h m)

abbrev blockLen : ℕ := 16

/-- `poly1305_blocks` -/
def blocks (ctx : Ctx) (m : Bytes) (hibit : Bool) : Ctx :=
  { ctx with h := (feed blockLen (absorb ctx.r hibit) ctx.h m).1 }

/-- The buffered part of a block is filled first. -/
def fill (ctx : Ctx) (msg : Bytes) : Ctx × Bytes :=
  if ctx.buf = [] then (ctx, msg)
  else
    let take := min msg.length (blockLen - ctx.buf.length)
    let buf := ctx.buf ++ msg.take take
    if buf.length = blockLen then ({ blocks ctx buf true with buf := [] }, msg.drop take)
    else ({ ctx with buf := buf }, msg.drop take)

/-- Then full blocks straight from the message. -/
def bulk (ctx : Ctx) (msg : Bytes) : Ctx × Bytes :=
  if blockLen ≤ msg.length then
    let n := msg.length / blockLen * blockLen
    (blocks ctx (msg.take n) true, msg.drop n)
  else (ctx, msg)

/-- `poly1305_update` -/
def update (ctx : Ctx) (msg : Bytes) : Ctx :=
  if msg = [] then ctx
  else
    let (ctx, msg) := fill ctx msg
    let (ctx, msg) := bulk ctx msg
    if msg = [] then ctx else { ctx with buf := ctx.buf ++ msg }

/-- `poly1305_finish` pads what is left of the message by its own high bit. -/
def pad (ctx : Ctx) : Ctx :=
  if ctx.buf = [] then ctx
  else
    { blocks ctx (ctx.buf ++ 1 :: replicate (blockLen - (ctx.buf.length + 1)) 0) false with buf := [] }

/-- The carries of `poly1305_finish`. -/
def carryAround (h : Limbs) : Limbs :=
  let h2 := h.l2 + (h.l1 >>> 26)
  let h3 := h.l3 + (h2 >>> 26)
  let h4 := h.l4 + (h3 >>> 26)
  let h0 := h.l0 + (h4 >>> 26) * 5
  { l0 := h0 &&& limbMask
    l1 := (h.l1 &&& limbMask) + (h0 >>> 26)
    l2 := h2 &&& limbMask
    l3 := h3 &&& limbMask
    l4 := h4 &&& limbMask }

/-- The accumulator less the prime, unless that is negative. -/
def subtractPrime (h : Limbs) : Limbs :=
  let g0 := h.l0 + 5
  let g1 := h.l1 + (g0 >>> 26)
  let g2 := h.l2 + (g1 >>> 26)
  let g3 := h.l3 + (g2 >>> 26)
  let g4 := h.l4 + (g3 >>> 26) - ((1 : UInt32) <<< 26)
  let mask := (g4 >>> 31) - 1
  let select (h g : UInt32) : UInt32 := (h &&& ~~~mask) ||| (g &&& mask)
  { l0 := select h.l0 (g0 &&& limbMask)
    l1 := select h.l1 (g1 &&& limbMask)
    l2 := select h.l2 (g2 &&& limbMask)
    l3 := select h.l3 (g3 &&& limbMask)
    l4 := select h.l4 g4 }

/-- The accumulator plus `s`, as 16 bytes. -/
def tagOf (h : Limbs) (s : UInt32 × UInt32 × UInt32 × UInt32) : Bytes :=
  let f0 := h.l0 ||| (h.l1 <<< 26)
  let f1 := (h.l1 >>> 6) ||| (h.l2 <<< 20)
  let f2 := (h.l2 >>> 12) ||| (h.l3 <<< 14)
  let f3 := (h.l3 >>> 18) ||| (h.l4 <<< 8)
  let a := f0.toUInt64 + s.1.toUInt64
  let b := f1.toUInt64 + s.2.1.toUInt64 + (a >>> 32)
  let c := f2.toUInt64 + s.2.2.1.toUInt64 + (b >>> 32)
  let d := f3.toUInt64 + s.2.2.2.toUInt64 + (c >>> 32)
  storeLe32 a.toUInt32 ++ storeLe32 b.toUInt32 ++ storeLe32 c.toUInt32 ++ storeLe32 d.toUInt32

/-- `poly1305_finish` -/
def finish (ctx : Ctx) : Bytes :=
  let ctx := pad ctx
  tagOf (subtractPrime (carryAround ctx.h)) ctx.s

lemma length_finish (ctx : Ctx) : (finish ctx).length = 16 := by
  simp only [finish, tagOf, length_append, storeLe32, length_leBytes]

/-! ### Messages in pieces -/

/-- All of the data at once, behind what is in the buffer. -/
def Ctx.fed (ctx : Ctx) (data : Bytes) : Ctx :=
  let f := feed blockLen (absorb ctx.r true) ctx.h (ctx.buf ++ data)
  { ctx with h := f.1, buf := f.2 }

section Update

variable {ctx : Ctx}

lemma Ctx.fed_nil (hbuf : ctx.buf.length < blockLen) : ctx.fed [] = ctx := by
  rw [Ctx.fed, append_nil, feed_of_lt hbuf]

lemma Ctx.fed_fed (a b : Bytes) : (ctx.fed a).fed b = ctx.fed (a ++ b) := by
  simp only [Ctx.fed]
  rw [← append_assoc, feed_append (by decide) (a := ctx.buf ++ a)]

lemma Ctx.length_buf_fed (data : Bytes) : (ctx.fed data).buf.length < blockLen :=
  length_feed_lt (by decide)

/-- Whole blocks may be absorbed on their own. -/
lemma Ctx.fed_blocks {n : ℕ} {a : Bytes} (ha : (ctx.buf ++ a).length = blockLen * n) (b : Bytes) :
    Ctx.fed { blocks ctx (ctx.buf ++ a) true with buf := [] } b = ctx.fed (a ++ b) := by
  have hsplit : feed blockLen (absorb ctx.r true) ctx.h (ctx.buf ++ a ++ b) =
      feed blockLen (absorb ctx.r true) (feed blockLen (absorb ctx.r true) ctx.h (ctx.buf ++ a)).1 b :=
    feed_append_of_dvd (by decide) ha
  simp only [Ctx.fed, blocks, nil_append]
  rw [← append_assoc, hsplit]

/-- Once the buffer is filled, or left short, the rest of the message is still to come. -/
lemma fill_spec (hbuf : ctx.buf.length < blockLen) (msg : Bytes) :
    ((fill ctx msg).1.buf = [] ∨ (fill ctx msg).2 = []) ∧ (fill ctx msg).1.buf.length < blockLen ∧
      (fill ctx msg).1.fed (fill ctx msg).2 = ctx.fed msg := by
  rw [fill]
  split
  · rename_i hnil
    exact ⟨.inl hnil, hbuf, rfl⟩
  · dsimp only
    split
    · rename_i hfull
      refine ⟨.inl rfl, Nat.zero_lt_succ _, ?_⟩
      have hfed := Ctx.fed_blocks (n := 1) hfull (msg.drop (min msg.length (blockLen - ctx.buf.length)))
      rw [take_append_drop] at hfed
      exact hfed
    · -- too little for a block: all of the message went to the buffer
      rename_i hshort
      have htake : (msg.take (min msg.length (blockLen - ctx.buf.length))).length =
          min msg.length (blockLen - ctx.buf.length) := by
        rw [length_take, Nat.min_eq_left (Nat.min_le_left _ _)]
      rw [length_append] at hshort
      have hall : min msg.length (blockLen - ctx.buf.length) = msg.length := by omega
      rw [hall, take_length, drop_length]
      refine ⟨.inr rfl, ?_, ?_⟩
      · rw [length_append]
        omega
      · simp only [Ctx.fed, append_nil]

/-- Full blocks leave a message shorter than a block. -/
lemma bulk_spec (hbuf : ctx.buf = []) (msg : Bytes) : (bulk ctx msg).1.buf = [] ∧ (bulk ctx msg).2.length < blockLen ∧
      (bulk ctx msg).1.fed (bulk ctx msg).2 = ctx.fed msg := by
  rw [bulk]
  split
  · refine ⟨hbuf, ?_, ?_⟩
    · rw [length_drop]
      simp only [blockLen]
      omega
    · have hwhole : (ctx.buf ++ msg.take (msg.length / blockLen * blockLen)).length =
          blockLen * (msg.length / blockLen) := by
        rw [hbuf, nil_append, length_take, Nat.min_eq_left (Nat.div_mul_le_self _ _), Nat.mul_comm]
      have hfed := Ctx.fed_blocks hwhole (msg.drop (msg.length / blockLen * blockLen))
      rw [take_append_drop] at hfed
      rw [← hfed]
      simp only [blocks, hbuf, nil_append]
  · rename_i hshort
    exact ⟨hbuf, Nat.not_le.1 hshort, rfl⟩

/-- `poly1305_update` absorbs what all of the data so far makes full blocks of and keeps the rest. -/
theorem update_eq_fed (hbuf : ctx.buf.length < blockLen) (msg : Bytes) : update ctx msg = ctx.fed msg := by
  have hrest {c : Ctx} {m : Bytes} (hm : (c.buf ++ m).length < blockLen) :
      (if m = [] then c else { c with buf := c.buf ++ m }) = c.fed m := by
    rw [Ctx.fed, feed_of_lt hm]
    split
    · rename_i hnil
      rw [hnil, append_nil]
    · rfl
  rw [update]
  split
  · rename_i hnil
    rw [hnil, Ctx.fed_nil hbuf]
  · obtain ⟨hdone, hshort, hfill⟩ := fill_spec hbuf msg
    dsimp only
    rw [← hfill]
    rcases hdone with hempty | hnil
    · obtain ⟨hempty', hshort', hbulk⟩ := bulk_spec hempty (fill ctx msg).2
      rw [← hbulk, hrest]
      rw [hempty']
      exact hshort'
    · rw [hnil]
      have hbulk (c : Ctx) : bulk c [] = (c, []) := rfl
      rw [hbulk, hrest]
      rw [append_nil]
      exact hshort

lemma update_append (hbuf : ctx.buf.length < blockLen) (a b : Bytes) :
    update (update ctx a) b = update ctx (a ++ b) := by
  rw [update_eq_fed hbuf, update_eq_fed hbuf, update_eq_fed (Ctx.length_buf_fed a), Ctx.fed_fed]

end Update

end Poly1305
