import Picoweb.Crypto.ChaChaPoly

/-!
# AES-128 in Galois/counter mode

`aes.c` encrypts one block, and `aes_gcm.c` makes an authenticated cipher of it: a keystream from a counter that
is encrypted, and a polynomial hash over the additional data and the sealed text. What was sealed opens, and
nothing else opens under its tag.
-/

namespace Aes

open ByteFile

/-- `SBOX` -/
def sbox : Bytes := [0x63, 0x7c, 0x77, 0x7b, 0xf2, 0x6b, 0x6f, 0xc5, 0x30, 0x01, 0x67, 0x2b, 0xfe, 0xd7, 0xab, 0x76,
  0xca, 0x82, 0xc9, 0x7d, 0xfa, 0x59, 0x47, 0xf0, 0xad, 0xd4, 0xa2, 0xaf, 0x9c, 0xa4, 0x72, 0xc0,
  0xb7, 0xfd, 0x93, 0x26, 0x36, 0x3f, 0xf7, 0xcc, 0x34, 0xa5, 0xe5, 0xf1, 0x71, 0xd8, 0x31, 0x15,
  0x04, 0xc7, 0x23, 0xc3, 0x18, 0x96, 0x05, 0x9a, 0x07, 0x12, 0x80, 0xe2, 0xeb, 0x27, 0xb2, 0x75,
  0x09, 0x83, 0x2c, 0x1a, 0x1b, 0x6e, 0x5a, 0xa0, 0x52, 0x3b, 0xd6, 0xb3, 0x29, 0xe3, 0x2f, 0x84,
  0x53, 0xd1, 0x00, 0xed, 0x20, 0xfc, 0xb1, 0x5b, 0x6a, 0xcb, 0xbe, 0x39, 0x4a, 0x4c, 0x58, 0xcf,
  0xd0, 0xef, 0xaa, 0xfb, 0x43, 0x4d, 0x33, 0x85, 0x45, 0xf9, 0x02, 0x7f, 0x50, 0x3c, 0x9f, 0xa8,
  0x51, 0xa3, 0x40, 0x8f, 0x92, 0x9d, 0x38, 0xf5, 0xbc, 0xb6, 0xda, 0x21, 0x10, 0xff, 0xf3, 0xd2,
  0xcd, 0x0c, 0x13, 0xec, 0x5f, 0x97, 0x44, 0x17, 0xc4, 0xa7, 0x7e, 0x3d, 0x64, 0x5d, 0x19, 0x73,
  0x60, 0x81, 0x4f, 0xdc, 0x22, 0x2a, 0x90, 0x88, 0x46, 0xee, 0xb8, 0x14, 0xde, 0x5e, 0x0b, 0xdb,
  0xe0, 0x32, 0x3a, 0x0a, 0x49, 0x06, 0x24, 0x5c, 0xc2, 0xd3, 0xac, 0x62, 0x91, 0x95, 0xe4, 0x79,
  0xe7, 0xc8, 0x37, 0x6d, 0x8d, 0xd5, 0x4e, 0xa9, 0x6c, 0x56, 0xf4, 0xea, 0x65, 0x7a, 0xae, 0x08,
  0xba, 0x78, 0x25, 0x2e, 0x1c, 0xa6, 0xb4, 0xc6, 0xe8, 0xdd, 0x74, 0x1f, 0x4b, 0xbd, 0x8b, 0x8a,
  0x70, 0x3e, 0xb5, 0x66, 0x48, 0x03, 0xf6, 0x0e, 0x61, 0x35, 0x57, 0xb9, 0x86, 0xc1, 0x1d, 0x9e,
  0xe1, 0xf8, 0x98, 0x11, 0x69, 0xd9, 0x8e, 0x94, 0x9b, 0x1e, 0x87, 0xe9, 0xce, 0x55, 0x28, 0xdf,
  0x8c, 0xa1, 0x89, 0x0d, 0xbf, 0xe6, 0x42, 0x68, 0x41, 0x99, 0x2d, 0x0f, 0xb0, 0x54, 0xbb, 0x16]

/-- `RCON` -/
def rcon : Bytes := [0x00, 0x01, 0x02, 0x04, 0x08, 0x10, 0x20, 0x40, 0x80, 0x1b, 0x36]

def sub (b : UInt8) : UInt8 := sbox.getD b.toNat 0

def rd32be (p : Bytes) (off : ℕ) : UInt32 :=
  ((p.getD off 0).toUInt32 <<< 24) ||| ((p.getD (off + 1) 0).toUInt32 <<< 16) |||
    ((p.getD (off + 2) 0).toUInt32 <<< 8) ||| (p.getD (off + 3) 0).toUInt32

/-- The bytes of a word of the round keys, as `AddRoundKey` takes them. -/
def wordBytes (k : UInt32) : Bytes := [(k >>> 24).toUInt8, (k >>> 16).toUInt8, (k >>> 8).toUInt8, k.toUInt8]

def subWord (w : UInt32) : UInt32 := rd32be ((wordBytes w).map sub) 0

def rotWord (w : UInt32) : UInt32 := (w <<< 8) ||| (w >>> 24)

def xtime (a : UInt8) : UInt8 := (a <<< 1) ^^^ (if a &&& 0x80 ≠ 0 then 0x1b else 0)

def expandWord (rk : List UInt32) (i : ℕ) : List UInt32 :=
  let t := rk.getD (i - 1) 0
  let t := if i % 4 = 0 then subWord (rotWord t) ^^^ ((rcon.getD (i / 4) 0).toUInt32 <<< 24) else t
  rk ++ [rk.getD (i - 4) 0 ^^^ t]

/-- `aes128_init` -/
def init (key : Bytes) : List UInt32 :=
  (List.range' 4 40).foldl expandWord [rd32be key 0, rd32be key 4, rd32be key 8, rd32be key 12]

def addRoundKey (rk : List UInt32) (round : ℕ) (s : Bytes) : Bytes :=
  List.zipWith (· ^^^ ·) s ([0, 1, 2, 3].flatMap fun c => wordBytes (rk.getD (round * 4 + c) 0))

/-- Row `r` of the column-major state moves left by `r`. -/
def shiftRows (s : Bytes) : Bytes := [0, 5, 10, 15, 4, 9, 14, 3, 8, 13, 2, 7, 12, 1, 6, 11].map fun i => s.getD i 0

def mixColumn (s : Bytes) (c : ℕ) : Bytes :=
  let a0 := s.getD (c * 4) 0
  let a1 := s.getD (c * 4 + 1) 0
  let a2 := s.getD (c * 4 + 2) 0
  let a3 := s.getD (c * 4 + 3) 0
  [xtime a0 ^^^ a3 ^^^ a2 ^^^ xtime a1 ^^^ a1, xtime a1 ^^^ a0 ^^^ a3 ^^^ xtime a2 ^^^ a2,
    xtime a2 ^^^ a1 ^^^ a0 ^^^ xtime a3 ^^^ a3, xtime a3 ^^^ a2 ^^^ a1 ^^^ xtime a0 ^^^ a0]

def mixColumns (s : Bytes) : Bytes := [0, 1, 2, 3].flatMap (mixColumn s)

/-- Columns are not mixed in the last round. -/
def round (rk : List UInt32) (s : Bytes) (n : ℕ) : Bytes :=
  let s := shiftRows (s.map sub)
  let s := if n ≠ 10 then mixColumns s else s
  addRoundKey rk n s

/-- `aes128_encrypt_block` -/
def encryptBlock (rk : List UInt32) (block : Bytes) : Bytes :=
  (List.range' 1 10).foldl (round rk) (addRoundKey rk 0 block)

lemma length_addRoundKey (rk : List UInt32) (n : ℕ) {s : Bytes} (hs : s.length = 16) :
    (addRoundKey rk n s).length = 16 := by
  simp [addRoundKey, wordBytes, hs]

lemma length_round (rk : List UInt32) (s : Bytes) (n : ℕ) : (round rk s n).length = 16 := by
  apply length_addRoundKey
  split <;> rfl

@[simp] lemma length_encryptBlock (rk : List UInt32) (block : Bytes) : (encryptBlock rk block).length = 16 := by
  exact length_round ..

end Aes

namespace AesGcm

open ByteFile Blockwise ChaChaPoly

abbrev ivLen : ℕ := 12

abbrev tagLen : ℕ := 16

def xor16 (a b : Bytes) : Bytes := (List.range 16).map fun i => a.getD i 0 ^^^ b.getD i 0

/-- A bit shifted out at the end comes back as the reduction polynomial. -/
def halve (v : Bytes) : Bytes :=
  let shifted := (List.range 16).map fun j =>
    if j = 0 then v.getD 0 0 >>> 1 else (v.getD j 0 >>> 1) ||| ((v.getD (j - 1) 0 &&& 1) <<< 7)
  if v.getD 15 0 &&& 1 ≠ 0 then shifted.modify 0 (· ^^^ 0xe1) else shifted

def gf128Bit (y : Bytes) (zv : Bytes × Bytes) (i : ℕ) : Bytes × Bytes :=
  let z := if (y.getD (i / 8) 0 >>> UInt8.ofNat (7 - i % 8)) &&& 1 ≠ 0 then xor16 zv.1 zv.2 else zv.1
  (z, halve zv.2)

/-- `gf128_mul` -/
def gf128Mul (x y : Bytes) : Bytes := ((List.range 128).foldl (gf128Bit y) (List.replicate 16 0, x)).1

def ghashBlock (h : Bytes) (y blk : Bytes) : Bytes := gf128Mul (xor16 y blk) h

def ghashPart (h : Bytes) (y data : Bytes) : Bytes :=
  let (y, rest) := feed 16 (ghashBlock h) y data
  if rest = [] then y else ghashBlock h y (rest ++ List.replicate (16 - rest.length) 0)

def be64 (n : ℕ) : Bytes := (leBytes 8 n).reverse

def ghash (h aad ct : Bytes) : Bytes :=
  let y := ghashPart h (List.replicate 16 0) aad
  let y := ghashPart h y ct
  ghashBlock h y (be64 (aad.length * 8) ++ be64 (ct.length * 8))

/-- Counts up the byte at each place until one does not come out as zero. -/
def countUp : List ℕ → Bytes → Bytes
  | [], cb => cb
  | i :: places, cb =>
    let b := cb.getD i 0 + 1
    if b ≠ 0 then cb.set i b else countUp places (cb.set i b)

/-- The 32-bit counter at the end of the block. -/
def inc (cb : Bytes) : Bytes := countUp [15, 14, 13, 12] cb

/-- The loop of `gctr` over the blocks; the last one may be short. -/
def gctrLoop (enc : Bytes → Bytes) : ℕ → Bytes → Bytes → Bytes
  | 0, _, _ => []
  | fuel + 1, cb, data =>
    if data.length < 16 then List.zipWith (· ^^^ ·) data (enc cb)
    else List.zipWith (· ^^^ ·) (data.take 16) (enc cb) ++ gctrLoop enc fuel (inc cb) (data.drop 16)

def gctr (rk : List UInt32) (j0 data : Bytes) : Bytes :=
  gctrLoop (Aes.encryptBlock rk) (data.length + 1) (inc j0) data

/-- `J0` for an IV of 96 bits. -/
def startBlock (iv : Bytes) : Bytes := iv.take 12 ++ [0, 0, 0, 1]

def tagOf (rk : List UInt32) (iv aad ct : Bytes) : Bytes :=
  let h := Aes.encryptBlock rk (List.replicate 16 0)
  xor16 (Aes.encryptBlock rk (startBlock iv)) (ghash h aad ct)

/-- `aes128_gcm_seal`: the sealed text and its tag. -/
def gcmSeal (key iv aad pt : Bytes) : Bytes × Bytes :=
  let rk := Aes.init key
  let ct := gctr rk (startBlock iv) pt
  (ct, tagOf rk iv aad ct)

/-- `aes128_gcm_open` -/
def gcmOpen (key iv aad ct tag : Bytes) : Option Bytes :=
  let rk := Aes.init key
  if consttimeEq (tagOf rk iv aad ct) tag then some (gctr rk (startBlock iv) ct) else none

/-! ### Opening -/

lemma zipWith_xor_twice {data run : Bytes} (hlen : data.length ≤ run.length) :
    List.zipWith (· ^^^ ·) (List.zipWith (· ^^^ ·) data run) run = data := by
  induction data generalizing run with
  | nil => rfl
  | cons b bs ih =>
    cases run with
    | nil => simp at hlen
    | cons r run =>
      rw [List.zipWith_cons_cons, List.zipWith_cons_cons, UInt8.xor_assoc, UInt8.xor_self, UInt8.xor_zero,
        ih (Nat.le_of_succ_le_succ hlen)]

variable {enc : Bytes → Bytes}

lemma length_gctrLoop (henc : ∀ b, (enc b).length = 16) (cb : Bytes) {fuel : ℕ} {data : Bytes}
    (hfuel : data.length < fuel) :
    (gctrLoop enc fuel cb data).length = data.length := by
  induction fuel generalizing cb data with
  | zero => omega
  | succ fuel ih =>
    rw [gctrLoop]
    split
    · rw [List.length_zipWith, henc]
      omega
    · rw [List.length_append, List.length_zipWith, henc, List.length_take, ih, List.length_drop]
      · omega
      · rw [List.length_drop]
        omega

lemma gctrLoop_gctrLoop (henc : ∀ b, (enc b).length = 16) {fuel : ℕ} {cb data : Bytes} (hfuel : data.length < fuel) :
    gctrLoop enc fuel cb (gctrLoop enc fuel cb data) = data := by
  induction fuel generalizing cb data with
  | zero => omega
  | succ fuel ih =>
    have hlen := length_gctrLoop henc cb hfuel
    rw [gctrLoop, hlen]
    by_cases hlt : data.length < 16
    · rw [if_pos hlt, gctrLoop, if_pos hlt]
      apply zipWith_xor_twice
      rw [henc]
      omega
    · have htake : (List.zipWith (· ^^^ ·) (data.take 16) (enc cb)).length = 16 := by
        rw [List.length_zipWith, henc, List.length_take]
        omega
      have hrest : (data.drop 16).length < fuel := by
        rw [List.length_drop]
        omega
      rw [if_neg hlt, gctrLoop, if_neg hlt, List.take_left' htake, List.drop_left' htake, ih hrest,
        zipWith_xor_twice (by rw [henc, List.length_take]; omega), List.take_append_drop]

@[simp] lemma length_gctr (rk : List UInt32) (j0 data : Bytes) : (gctr rk j0 data).length = data.length :=
  length_gctrLoop (Aes.length_encryptBlock rk) _ (Nat.lt_succ_self _)

@[simp] lemma gctr_gctr (rk : List UInt32) (j0 data : Bytes) : gctr rk j0 (gctr rk j0 data) = data := by
  rw [gctr, length_gctr]
  exact gctrLoop_gctrLoop (Aes.length_encryptBlock rk) (Nat.lt_succ_self _)

@[simp] lemma length_xor16 (a b : Bytes) : (xor16 a b).length = 16 := by
  rw [xor16, List.length_map, List.length_range]

@[simp] lemma length_tagOf (rk : List UInt32) (iv aad ct : Bytes) : (tagOf rk iv aad ct).length = tagLen :=
  length_xor16 ..

@[simp] lemma length_gcmSeal_fst (key iv aad pt : Bytes) : (gcmSeal key iv aad pt).1.length = pt.length :=
  length_gctr ..

@[simp] lemma length_gcmSeal_snd (key iv aad pt : Bytes) : (gcmSeal key iv aad pt).2.length = tagLen :=
  length_tagOf ..

lemma gcmOpen_gcmSeal (key iv aad pt : Bytes) :
    gcmOpen key iv aad (gcmSeal key iv aad pt).1 (gcmSeal key iv aad pt).2 = some pt := by
  simp [gcmOpen, gcmSeal]

/-- What was sealed does not open under an IV whose first block is encrypted to another first byte. -/
lemma gcmOpen_eq_none {key iv iv' : Bytes} (aad pt : Bytes)
    (h : (Aes.encryptBlock (Aes.init key) (startBlock iv')).getD 0 0 ≠
      (Aes.encryptBlock (Aes.init key) (startBlock iv)).getD 0 0) :
    gcmOpen key iv' aad (gcmSeal key iv aad pt).1 (gcmSeal key iv aad pt).2 = none := by
  refine if_neg fun heq => h ?_
  have htag := congrArg (·.getD 0 0) (eq_of_consttimeEq ((length_tagOf ..).trans (length_gcmSeal_snd ..).symm) heq)
  simpa [gcmSeal, tagOf, xor16] using htag

end AesGcm
