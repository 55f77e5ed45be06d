import Picoweb.Lib.BoundedReader
import Picoweb.Lib.LittleEndian

/-!
# Integers of variable length

`varint.c`: the two highest bits of the first byte say whether a number takes one, two, four or eight bytes. What
was encoded is read back, whatever stands around it.
-/

namespace Quic

open ByteFile Bounded List

/-- A number in `n` bytes, the highest first. -/
def beBytes (n v : ℕ) : Bytes := (leBytes n v).reverse

def beNat (bytes : Bytes) : ℕ := leNat bytes.reverse

@[simp] lemma length_beBytes (n v : ℕ) : (beBytes n v).length = n := by
  rw [beBytes, length_reverse, length_leBytes]

lemma beNat_beBytes (n v : ℕ) : beNat (beBytes n v) = v % 256 ^ n := by
  rw [beNat, beBytes, reverse_reverse, leNat_leBytes]

lemma beNat_cons (b : UInt8) (bytes : Bytes) : beNat (b :: bytes) = b.toNat * 256 ^ bytes.length + beNat bytes := by
  rw [beNat, beNat, reverse_cons, leNat_append, length_reverse]
  simp only [leNat]
  ring

def varintMax : ℕ := 2 ^ 62 - 1

/-- `quic_varint_size`; zero where the number is too large. -/
def varintSize (v : ℕ) : ℕ :=
  if v ≤ 0x3f then 1
  else if v ≤ 0x3fff then 2
  else if v ≤ 0x3fffffff then 4
  else if v ≤ varintMax then 8
  else 0

/-- The highest bits of the first byte, for a number of bytes. -/
def varintMark : ℕ → UInt8
  | 2 => 0x40
  | 4 => 0x80
  | 8 => 0xc0
  | _ => 0

/-- `quic_varint_encode` -/
def varintEncode (cap v : ℕ) : Option Bytes :=
  let n := varintSize v
  if n = 0 ∨ cap < n then none else some ((beBytes n v).modify 0 fun b => varintMark n ||| b)

/-- The loop of `quic_varint_decode` over the bytes behind the first. -/
def varintRest (msg : Bytes) (pos : ℕ) : ℕ → ℕ → Parse ℕ
  | 0, x => pure x
  | n + 1, x => do
    let b ← fetch msg pos
    varintRest msg (pos + 1) n (x * 256 + b.toNat)

/-- `quic_varint_decode` at a position behind which `len` bytes are left: the number and how many bytes it takes.
Every caller gives up where the code returns zero. -/
def varintDecode (msg : Bytes) (pos len : ℕ) : Parse (ℕ × ℕ) :=
  if len = 0 then reject
  else do
    let b ← fetch msg pos
    let n := 2 ^ (b >>> 6).toNat
    if len < n then reject
    else do
      let v ← varintRest msg (pos + 1) (n - 1) (b &&& 0x3f).toNat
      pure (v, n)

section Reading

variable {msg : Bytes} {pos len : ℕ}

lemma varintRest_ensures {n x k : ℕ} (h : pos + n ≤ msg.length) (hx : x < 2 ^ k) :
    Ensures (varintRest msg pos n x) fun v => v < 2 ^ (k + 8 * n) := by
  induction n generalizing pos x k with
  | zero => exact hx
  | succ n ih =>
    refine .fetch (by omega) fun b _ => ?_
    have hb := b.toNat_lt
    have hpow : 2 ^ (k + 8) = 2 ^ k * 256 := pow_add 2 k 8
    have hsum : k + 8 * (n + 1) = k + 8 + 8 * n := by omega
    rw [hsum]
    exact ih (by omega) (by omega)

/-- What is read lies in the bytes that are left, and is below `2 ^ 62`. -/
lemma varintDecode_ensures (h : pos + len ≤ msg.length) :
    Ensures (varintDecode msg pos len) fun r => r.1 < 2 ^ 62 ∧ 1 ≤ r.2 ∧ r.2 ≤ 8 ∧ r.2 ≤ len := by
  refine .check fun hlen => ?_
  refine .fetch (by omega) fun b _ => ?_
  refine .check fun hn => ?_
  have hshift : (b >>> 6).toNat ≤ 3 := by
    have hb := b.toNat_lt
    rw [UInt8.toNat_shiftRight]
    have h6 : (6 : UInt8).toNat % 8 = 6 := rfl
    rw [h6]
    omega
  have hmask : (b &&& 0x3f).toNat < 2 ^ 6 := by
    exact Nat.and_lt_two_pow _ (by decide)
  have hpos : 1 ≤ 2 ^ (b >>> 6).toNat := Nat.one_le_two_pow
  have h8 : 2 ^ (b >>> 6).toNat ≤ 8 := Nat.pow_le_pow_right (by decide) hshift
  refine .bind (varintRest_ensures (by omega) hmask) fun v hv => ?_
  refine ⟨hv.trans_le (Nat.pow_le_pow_right (by decide) (by omega)), hpos, h8, by omega⟩

lemma varintRest_eq {bytes rest : Bytes} (hmsg : msg.drop pos = bytes ++ rest) (x : ℕ) :
    varintRest msg pos bytes.length x = .ok (x * 256 ^ bytes.length + beNat bytes) := by
  induction bytes generalizing pos x with
  | nil => simp [varintRest, beNat, leNat, pure, Except.pure]
  | cons b bytes ih =>
    obtain ⟨hb, hnext⟩ := fetch_of_drop hmsg
    rw [length_cons, varintRest, hb]
    refine (ih hnext _).trans ?_
    rw [beNat_cons]
    ring_nf

/-- The mark is taken off again. -/
lemma unmark_varintMark : ∀ n ∈ [1, 2, 4, 8], ∀ k < 64, 2 ^ ((varintMark n ||| UInt8.ofNat k) >>> 6).toNat = n ∧
    ((varintMark n ||| UInt8.ofNat k) &&& 0x3f).toNat = k := by
  decide +kernel

lemma varintSize_cases {v : ℕ} (h : varintSize v ≠ 0) : varintSize v ∈ [1, 2, 4, 8] ∧
    v < 64 * 256 ^ (varintSize v - 1) := by
  unfold varintSize varintMax at *
  split_ifs at * <;> simp <;> omega

/-- What was encoded is read back, wherever it stands and whatever follows it. -/
theorem varintDecode_varintEncode {cap v : ℕ} {enc rest : Bytes} (h : varintEncode cap v = some enc)
    (hmsg : msg.drop pos = enc ++ rest) : varintDecode msg pos (enc.length + rest.length) = .ok (v, enc.length) := by
  simp only [varintEncode, Option.ite_none_left_eq_some, not_or, Option.some.injEq] at h
  obtain ⟨⟨hsize, -⟩, rfl⟩ := h
  obtain ⟨hn, hv⟩ := varintSize_cases hsize
  generalize varintSize v = n at *
  obtain ⟨m, rfl⟩ := Nat.exists_eq_succ_of_ne_zero hsize
  obtain ⟨b, bytes, hbytes⟩ := exists_of_length_succ _ (length_beBytes m.succ v)
  obtain rfl : bytes.length = m := by simpa [hbytes] using length_beBytes m.succ v
  have hnat := beNat_beBytes bytes.length.succ v
  rw [Nat.succ_sub_one] at hv
  rw [hbytes, beNat_cons, Nat.mod_eq_of_lt (by rw [pow_succ]; omega)] at hnat
  have hb : b.toNat < 64 := by
    by_contra hge
    have hle := Nat.mul_le_mul_right (256 ^ bytes.length) (not_lt.mp hge)
    omega
  obtain ⟨hmark, hmask⟩ := unmark_varintMark _ hn b.toNat hb
  rw [UInt8.ofNat_toNat] at hmark hmask
  rw [hbytes] at hmsg ⊢
  obtain ⟨hfirst, hrest⟩ := fetch_of_drop hmsg
  rw [varintDecode, if_neg (by simp), hfirst]
  dsimp only [bind, Except.bind]
  rw [hmark, hmask, if_neg (by simp; omega), Nat.succ_sub_one, varintRest_eq hrest, hnat]
  simp [pure, Except.pure]

/-- A number of two bytes behind another byte. -/
theorem varintDecode_varintEncode_two : varintDecode [9, 0x7b, 0xbd, 7] 1 3 = .ok (15293, 2) :=
  @varintDecode_varintEncode [9, 0x7b, 0xbd, 7] 1 8 15293 [0x7b, 0xbd] [7] (by decide) rfl

end Reading

end Quic
