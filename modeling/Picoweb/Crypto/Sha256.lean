import Picoweb.Lib.Blockwise

/-!
# SHA-256, HMAC and HKDF

`sha256.c`, `hmac.c` and `hkdf.c`. A message may be hashed in pieces: what counts is the message they make
up.
-/

namespace Sha256

open ByteFile Blockwise List

/-! ### Compression -/

/-- The hash state, and the working registers. -/
structure Regs where
  a : UInt32
  b : UInt32
  c : UInt32
  d : UInt32
  e : UInt32
  f : UInt32
  g : UInt32
  h : UInt32
  deriving DecidableEq, Repr

def roundConstants : List UInt32 :=
  [0x428a2f98, 0x71374491, 0xb5c0fbcf, 0xe9b5dba5, 0x3956c25b, 0x59f111f1, 0x923f82a4, 0xab1c5ed5,
    0xd807aa98, 0x12835b01, 0x243185be, 0x550c7dc3, 0x72be5d74, 0x80deb1fe, 0x9bdc06a7, 0xc19bf174,
    0xe49b69c1, 0xefbe4786, 0x0fc19dc6, 0x240ca1cc, 0x2de92c6f, 0x4a7484aa, 0x5cb0a9dc, 0x76f988da,
    0x983e5152, 0xa831c66d, 0xb00327c8, 0xbf597fc7, 0xc6e00bf3, 0xd5a79147, 0x06ca6351, 0x14292967,
    0x27b70a85, 0x2e1b2138, 0x4d2c6dfc, 0x53380d13, 0x650a7354, 0x766a0abb, 0x81c2c92e, 0x92722c85,
    0xa2bfe8a1, 0xa81a664b, 0xc24b8b70, 0xc76c51a3, 0xd192e819, 0xd6990624, 0xf40e3585, 0x106aa070,
    0x19a4c116, 0x1e376c08, 0x2748774c, 0x34b0bcb5, 0x391c0cb3, 0x4ed8aa4a, 0x5b9cca4f, 0x682e6ff3,
    0x748f82ee, 0x78a5636f, 0x84c87814, 0x8cc70208, 0x90befffa, 0xa4506ceb, 0xbef9a3f7, 0xc67178f2]

def rotr32 (x n : UInt32) : UInt32 := (x >>> n) ||| (x <<< (32 - n))

def bigSigma0 (x : UInt32) : UInt32 := rotr32 x 2 ^^^ rotr32 x 13 ^^^ rotr32 x 22

def bigSigma1 (x : UInt32) : UInt32 := rotr32 x 6 ^^^ rotr32 x 11 ^^^ rotr32 x 25

def smallSigma0 (x : UInt32) : UInt32 := rotr32 x 7 ^^^ rotr32 x 18 ^^^ (x >>> 3)

def smallSigma1 (x : UInt32) : UInt32 := rotr32 x 17 ^^^ rotr32 x 19 ^^^ (x >>> 10)

def ch (x y z : UInt32) : UInt32 := (x &&& y) ^^^ (~~~x &&& z)

def maj (x y z : UInt32) : UInt32 := (x &&& y) ^^^ (x &&& z) ^^^ (y &&& z)

def loadBe32 (bytes : Bytes) (off : ℕ) : UInt32 := UInt32.ofNat (leNat ((bytes.drop off).take 4).reverse)

def storeBe32 (w : UInt32) : Bytes := (leBytes 4 w.toNat).reverse

/-- The message schedule; `n` words are still to come. -/
def extend : ℕ → List UInt32 → List UInt32
  | 0, w => w
  | n + 1, w =>
    let i := w.length
    extend n (w ++ [smallSigma1 (w.getD (i - 2) 0) + w.getD (i - 7) 0 + smallSigma0 (w.getD (i - 15) 0) +
      w.getD (i - 16) 0])

def round (r : Regs) (kw : UInt32 × UInt32) : Regs :=
  let t1 := r.h + bigSigma1 r.e + ch r.e r.f r.g + kw.1 + kw.2
  let t2 := bigSigma0 r.a + maj r.a r.b r.c
  ⟨t1 + t2, r.a, r.b, r.c, r.d + t1, r.e, r.f, r.g⟩

/-- `compress_one` -/
def compressOne (state : Regs) (block : Bytes) : Regs :=
  let w := extend 48 ((range 16).map fun i => loadBe32 block (i * 4))
  let r := (roundConstants.zip w).foldl round state
  ⟨state.a + r.a, state.b + r.b, state.c + r.c, state.d + r.d, state.e + r.e, state.f + r.f, state.g + r.g,
    state.h + r.h⟩

/-! ### Hashing -/

abbrev blockLen : ℕ := 64
abbrev digestLen : ℕ := 32

/-- `sha256_ctx` -/
structure Ctx where
  state : Regs
  bitlen : UInt64
  buf : Bytes
  deriving DecidableEq, Repr

def init : Ctx where
  state := ⟨0x6a09e667, 0xbb67ae85, 0x3c6ef372, 0xa54ff53a, 0x510e527f, 0x9b05688c, 0x1f83d9ab, 0x5be0cd19⟩
  bitlen := 0
  buf := []

/-- Full blocks straight from the data; the rest is stashed. -/
def absorbRest (c : Ctx) (data : Bytes) : Ctx :=
  let n := data.length / blockLen * blockLen
  let c := if blockLen ≤ data.length then { c with state := (feed blockLen compressOne c.state (data.take n)).1 }
    else c
  let rest := if blockLen ≤ data.length then data.drop n else data
  if rest = [] then c else { c with buf := rest }

/-- `sha256_update` -/
def update (c : Ctx) (data : Bytes) : Ctx :=
  let c := { c with bitlen := c.bitlen + UInt64.ofNat data.length * 8 }
  if c.buf = [] then absorbRest c data
  else
    let need := blockLen - c.buf.length
    if data.length < need then { c with buf := c.buf ++ data }
    else absorbRest { c with state := compressOne c.state (c.buf ++ data.take need), buf := [] } (data.drop need)

/-- `sha256_final` -/
def final (c : Ctx) : Bytes :=
  let buf := c.buf ++ [0x80]
  let c := if 56 < buf.length then
      { c with state := compressOne c.state (buf ++ replicate (blockLen - buf.length) 0), buf := [] }
    else { c with buf := buf }
  let r := compressOne c.state (c.buf ++ replicate (56 - c.buf.length) 0 ++ (leBytes 8 c.bitlen.toNat).reverse)
  [r.a, r.b, r.c, r.d, r.e, r.f, r.g, r.h].flatMap storeBe32

def sha256 (data : Bytes) : Bytes := final (update init data)

lemma length_final (c : Ctx) : (final c).length = digestLen := by
  simp [final, storeBe32]

lemma length_sha256 (data : Bytes) : (sha256 data).length = digestLen := length_final _

example : sha256 [0x61, 0x62, 0x63] =
    [0xba, 0x78, 0x16, 0xbf, 0x8f, 0x01, 0xcf, 0xea, 0x41, 0x41, 0x40, 0xde, 0x5d, 0xae, 0x22, 0x23,
      0xb0, 0x03, 0x61, 0xa3, 0x96, 0x17, 0x7a, 0x9c, 0xb4, 0x10, 0xff, 0x61, 0xf2, 0x00, 0x15, 0xad] := by
  decide +kernel

/-! ### Messages in pieces -/

/-- All of the data at once, behind what is in the buffer. -/
def Ctx.fed (c : Ctx) (data : Bytes) : Ctx :=
  let f := feed blockLen compressOne c.state (c.buf ++ data)
  ⟨f.1, c.bitlen + UInt64.ofNat data.length * 8, f.2⟩

section Update

variable {c : Ctx}

lemma absorbRest_eq (hbuf : c.buf = []) (data : Bytes) : absorbRest c data =
      { c with
        state := (feed blockLen compressOne c.state data).1
        buf := (feed blockLen compressOne c.state data).2 } := by
  by_cases hlen : blockLen ≤ data.length
  · have hwhole : (data.take (data.length / blockLen * blockLen)).length = blockLen * (data.length / blockLen) := by
      rw [length_take, Nat.min_eq_left (Nat.div_mul_le_self _ _), Nat.mul_comm]
    have hshort : (data.drop (data.length / blockLen * blockLen)).length < blockLen := by
      rw [length_drop]
      simp only [blockLen]
      omega
    have hsplit : feed blockLen compressOne c.state data =
        ((feed blockLen compressOne c.state (data.take (data.length / blockLen * blockLen))).1,
          data.drop (data.length / blockLen * blockLen)) := by
      conv_lhs => rw [← take_append_drop (data.length / blockLen * blockLen) data]
      rw [feed_append_of_dvd (by decide) hwhole, feed_of_lt hshort]
    simp only [absorbRest, if_pos hlen]
    rw [hsplit]
    split
    · rename_i hnil
      rw [hnil, ← hbuf]
    · rfl
  · have hshort : feed blockLen compressOne c.state data = (c.state, data) := feed_of_lt (Nat.not_le.1 hlen)
    simp only [absorbRest, if_neg hlen]
    rw [hshort]
    split
    · rename_i hnil
      rw [hnil, ← hbuf]
    · rfl

/-- `sha256_update` absorbs what all of the data so far makes full blocks of and keeps the rest. -/
theorem update_eq_fed (hbuf : c.buf.length < blockLen) (data : Bytes) : update c data = c.fed data := by
  rw [update]
  dsimp only
  split
  · rename_i hnil
    rw [absorbRest_eq (by exact hnil), Ctx.fed, hnil, nil_append]
  · split
    · have hlt : (c.buf ++ data).length < blockLen := by
        rw [length_append]
        omega
      rw [Ctx.fed, feed_of_lt hlt]
    · have hblock : (c.buf ++ data.take (blockLen - c.buf.length)).length = blockLen := by
        rw [length_append, length_take]
        omega
      have hfirst : feed blockLen compressOne c.state (c.buf ++ data.take (blockLen - c.buf.length)) =
          (compressOne c.state (c.buf ++ data.take (blockLen - c.buf.length)), []) := by
        rw [feed_of_le (by decide) hblock.ge, take_of_length_le hblock.le, drop_eq_nil_of_le hblock.le,
          feed_of_lt (by decide)]
      have hsplit : feed blockLen compressOne c.state (c.buf ++ data) =
          feed blockLen compressOne (compressOne c.state (c.buf ++ data.take (blockLen - c.buf.length)))
            (data.drop (blockLen - c.buf.length)) := by
        conv_lhs => rw [← take_append_drop (blockLen - c.buf.length) data, ← append_assoc]
        rw [feed_append_of_dvd (by decide) (n := 1) (by rw [hblock, Nat.mul_one]), hfirst]
      rw [absorbRest_eq rfl, Ctx.fed, hsplit]

lemma length_buf_update (hbuf : c.buf.length < blockLen) (data : Bytes) : (update c data).buf.length < blockLen := by
  rw [update_eq_fed hbuf]
  exact length_feed_lt (by decide)

lemma update_append (hbuf : c.buf.length < blockLen) (a b : Bytes) : update (update c a) b = update c (a ++ b) := by
  have hfed : update (update c a) b = (update c a).fed b := update_eq_fed (length_buf_update hbuf a) b
  rw [hfed, update_eq_fed hbuf, update_eq_fed hbuf]
  simp only [Ctx.fed, length_append, UInt64.ofNat_add]
  rw [← append_assoc, feed_append (by decide) (a := c.buf ++ a)]
  rw [UInt64.add_mul, UInt64.add_assoc]

end Update

lemma update_init_append (a b : Bytes) : update (update init a) b = update init (a ++ b) :=
  update_append (by decide) a b

/-! ### HMAC -/

/-- `hmac_sha256_ctx` -/
structure Hmac where
  inner : Ctx
  outer : Ctx

def hmacInit (key : Bytes) : Hmac :=
  let key := if blockLen < key.length then sha256 key else key
  let kprime := key ++ replicate (blockLen - key.length) 0
  ⟨update init (kprime.map (· ^^^ 0x36)), update init (kprime.map (· ^^^ 0x5c))⟩

def Hmac.update (h : Hmac) (data : Bytes) : Hmac := { h with inner := Sha256.update h.inner data }

def Hmac.final (h : Hmac) : Bytes := Sha256.final (Sha256.update h.outer (Sha256.final h.inner))

def hmacSha256 (key data : Bytes) : Bytes := ((hmacInit key).update data).final

lemma foldl_update_init (first : Bytes) (pieces : List Bytes) :
    pieces.foldl update (update init first) = update init (first ++ pieces.flatten) := by
  induction pieces generalizing first with
  | nil => rw [flatten_nil, append_nil, foldl_nil]
  | cons piece pieces ih => rw [foldl_cons, update_init_append, ih, flatten_cons, append_assoc]

lemma foldl_hmacUpdate (h : Hmac) (pieces : List Bytes) :
    pieces.foldl Hmac.update h = { h with inner := pieces.foldl update h.inner } := by
  induction pieces generalizing h with
  | nil => rfl
  | cons piece pieces ih => exact ih (h.update piece)

/-- A message may be handed over in any pieces, to the hash and to the HMAC. -/
theorem sha256_hmacSha256_pieces (key : Bytes) (pieces : List Bytes) :
    final (pieces.foldl update init) = sha256 pieces.flatten ∧
      (pieces.foldl Hmac.update (hmacInit key)).final = hmacSha256 key pieces.flatten := by
  constructor
  · exact congrArg final (foldl_update_init [] pieces)
  · have hinner (k : Bytes) := foldl_update_init k pieces
    simp only [← update_init_append] at hinner
    rw [foldl_hmacUpdate, hmacInit, hinner]
    rfl

/-- `hkdf_extract` -/
def hkdfExtract (salt ikm : Bytes) : Bytes :=
  hmacSha256 (if salt = [] then replicate digestLen 0 else salt) ikm

/-- The loop of `hkdf_expand`: `t` is the last block, `left` what is still to be written. -/
def expandLoop (prk info : Bytes) : ℕ → Bytes → UInt8 → ℕ → Bytes
  | 0, _, _, _ => []
  | fuel + 1, t, counter, left =>
    if left = 0 then []
    else
      let t := ((((hmacInit prk).update t).update info).update [counter]).final
      t.take left ++ expandLoop prk info fuel t (counter + 1) (left - min left digestLen)

/-- `hkdf_expand` -/
def hkdfExpand (prk info : Bytes) (outLen : ℕ) : Option Bytes :=
  if 255 * digestLen < outLen then none else some (expandLoop prk info outLen [] 1 outLen)

end Sha256
