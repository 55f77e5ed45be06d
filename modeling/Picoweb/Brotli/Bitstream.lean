import Picoweb.Lib.BitReader
import Picoweb.Lib.ByteFile

/-!
# The bit writer and the bit reader

`bitw_t` collects bits in a 64-bit accumulator and moves whole bytes to the output while there is
room. The writing functions of the encoder never look at the writer, so each of them is modelled by
the `bw_put` calls it makes, in order.
-/

namespace Brotli

open Bits ByteFile List

/-! ### Writer -/

/-- `bitw_t`: `buf` holds the bytes written so far. -/
structure Bitw where
  buf : Bytes
  cap : ℕ
  accum : ℕ
  nbits : ℕ
  deriving DecidableEq, Repr

namespace Bitw

def pos (w : Bitw) : ℕ := w.buf.length

def init (cap : ℕ) : Bitw := { buf := [], cap, accum := 0, nbits := 0 }

/-- The loop of `bw_flush_accum`, at most `fuel` bytes. -/
def flushBytes : ℕ → Bitw → Bitw
  | 0, w => w
  | fuel + 1, w =>
    if 8 ≤ w.nbits ∧ w.pos < w.cap then
      flushBytes fuel { w with
        buf := w.buf ++ [UInt8.ofNat (w.accum &&& 0xFF)]
        accum := w.accum >>> 8
        nbits := w.nbits - 8 }
    else w

def flushAccum (w : Bitw) : Bitw := flushBytes (w.nbits / 8) w

/-- `bw_put`: the accumulator is a `uint64_t`, so what is shifted past bit 63 is lost. -/
def put (w : Bitw) (val n : ℕ) : Bitw :=
  let w := { w with accum := w.accum ||| (val <<< w.nbits) % 2 ^ 64, nbits := w.nbits + n }
  if 48 ≤ w.nbits then w.flushAccum else w

def finish (w : Bitw) : Bitw :=
  let w := w.flushAccum
  if 0 < w.nbits ∧ w.pos < w.cap then
    { w with buf := w.buf ++ [UInt8.ofNat (w.accum &&& 0xFF)], accum := 0, nbits := 0 }
  else w

/-- `bw_ok` -/
def ok (w : Bitw) : Bool := w.pos ≤ w.cap

end Bitw

/-- One `bw_put` call: the value and its width. -/
abbrev Put := ℕ × ℕ

variable {ps : List Put}

namespace Put

def bits (puts : List Put) : List Bool := puts.flatMap fun p => lsb p.2 p.1

/-- The bytes that a sequence of calls fills, the last one perhaps in part. -/
def size (puts : List Put) : ℕ := ((bits puts).length + 7) / 8

/-- Every value is within its width. -/
def Narrow (puts : List Put) : Prop := ∀ p ∈ puts, p.1 < 2 ^ p.2

/-- The bits waiting in the accumulator after a call of width `n`. -/
def pendingAfter (pending n : ℕ) : ℕ := if 48 ≤ pending + n then (pending + n) % 8 else pending + n

/-- No value reaches past the 64 bits of the accumulator. -/
def Lossless : ℕ → List Put → Prop
  | _, [] => True
  | pending, (val, n) :: puts => val <<< pending < 2 ^ 64 ∧ Lossless (pendingAfter pending n) puts

instance decidableLossless : ∀ pending puts, Decidable (Lossless pending puts)
  | _, [] => isTrue trivial
  | pending, (_, n) :: puts =>
    have := decidableLossless (pendingAfter pending n) puts
    inferInstanceAs (Decidable (_ ∧ _))

@[simp] lemma bits_nil : bits [] = [] := rfl

@[simp] lemma bits_cons (p : Put) (puts : List Put) : bits (p :: puts) = lsb p.2 p.1 ++ bits puts := rfl

@[simp] lemma bits_append (ps qs : List Put) : bits (ps ++ qs) = bits ps ++ bits qs := by
  simp [bits]

@[simp] lemma narrow_nil : Narrow [] := by simp [Narrow]

@[simp] lemma narrow_cons {p : Put} {puts : List Put} : Narrow (p :: puts) ↔ p.1 < 2 ^ p.2 ∧ Narrow puts := by
  simp [Narrow]

@[simp] lemma narrow_append {qs : List Put} : Narrow (ps ++ qs) ↔ Narrow ps ∧ Narrow qs := by
  simp only [Narrow, mem_append, or_imp, forall_and]

end Put

variable {bs : List Bool}

namespace Bitw

def puts (w : Bitw) (ps : List Put) : Bitw := ps.foldl (fun w p => w.put p.1 p.2) w

@[simp] lemma puts_nil (w : Bitw) : w.puts [] = w := rfl

@[simp] lemma puts_cons (w : Bitw) (p : Put) (ps : List Put) : w.puts (p :: ps) = (w.put p.1 p.2).puts ps := rfl

/-- All calls on a fresh writer, then `bw_finish`. -/
def write (cap : ℕ) (ps : List Put) : Bitw := ((init cap).puts ps).finish

/-! #### How many bits there are -/

/-- The bits written or waiting. -/
def total (w : Bitw) : ℕ := 8 * w.pos + w.nbits

/-- What flushing does, whatever the accumulator holds. -/
structure Flushed (w w' : Bitw) : Prop where
  cap : w'.cap = w.cap
  total : w'.total = w.total
  pos : w.pos ≤ w.cap → w'.pos ≤ w'.cap

lemma flushBytes_flushed (fuel : ℕ) (w : Bitw) : Flushed w (flushBytes fuel w) := by
  induction fuel generalizing w with
  | zero => exact ⟨rfl, rfl, id⟩
  | succ fuel ih =>
    rw [flushBytes]
    split_ifs with h
    · obtain ⟨hcap, htotal, hpos⟩ := ih { w with
        buf := w.buf ++ [UInt8.ofNat (w.accum &&& 0xFF)], accum := w.accum >>> 8, nbits := w.nbits - 8 }
      refine ⟨hcap, htotal.trans ?_, fun _ => hpos ?_⟩
      · simp only [total, pos, length_append, length_singleton]
        omega
      · simp only [pos, length_append, length_singleton] at h ⊢
        omega
    · exact ⟨rfl, rfl, id⟩

variable {w : Bitw}

lemma flushBytes_stops {fuel : ℕ} (hfuel : w.nbits < 8 * (fuel + 1)) (hpos : w.pos ≤ w.cap) :
    (flushBytes fuel w).nbits < 8 ∨ (flushBytes fuel w).pos = w.cap := by
  induction fuel generalizing w with
  | zero => exact .inl (by simpa [flushBytes] using hfuel)
  | succ fuel ih =>
    rw [flushBytes]
    split_ifs with h
    · refine ih (by simp only; omega) ?_
      simp only [pos, length_append, length_singleton] at h ⊢
      omega
    · omega

lemma flushAccum_flushed (w : Bitw) : Flushed w w.flushAccum := flushBytes_flushed _ w

lemma flushAccum_stops (hpos : w.pos ≤ w.cap) : w.flushAccum.nbits < 8 ∨ w.flushAccum.pos = w.cap :=
  flushBytes_stops (by omega) hpos

lemma nbits_flushAccum (hpos : w.pos ≤ w.cap) (hroom : w.total ≤ 8 * w.cap) : w.flushAccum.nbits = w.nbits % 8 := by
  have htotal := (flushAccum_flushed w).total
  simp only [total] at htotal hroom
  rcases flushAccum_stops hpos with h | h <;> omega

/-- A call puts its bits into the accumulator and flushes that, if at all. -/
lemma put_flushed (w : Bitw) (val n : ℕ) :
    Flushed { w with accum := w.accum ||| (val <<< w.nbits) % 2 ^ 64, nbits := w.nbits + n } (w.put val n) := by
  simp only [put]
  split_ifs
  · exact flushAccum_flushed _
  · exact ⟨rfl, rfl, id⟩

@[simp] lemma cap_put (w : Bitw) (val n : ℕ) : (w.put val n).cap = w.cap := (put_flushed w val n).cap

lemma total_put (w : Bitw) (val n : ℕ) : (w.put val n).total = w.total + n :=
  (put_flushed w val n).total.trans (Nat.add_assoc ..).symm

lemma pos_put_le (val n : ℕ) (hpos : w.pos ≤ w.cap) : (w.put val n).pos ≤ w.cap :=
  ((put_flushed w val n).pos hpos).trans_eq (cap_put w val n)

@[simp] lemma cap_puts (w : Bitw) (ps : List Put) : (w.puts ps).cap = w.cap := by
  induction ps generalizing w with
  | nil => rfl
  | cons p ps ih => rw [puts_cons, ih, cap_put]

lemma total_puts (w : Bitw) (ps : List Put) : (w.puts ps).total = w.total + (Put.bits ps).length := by
  induction ps generalizing w with
  | nil => rfl
  | cons p ps ih => rw [puts_cons, ih, total_put, Put.bits_cons, length_append, length_lsb, add_assoc]

lemma pos_puts_le (ps : List Put) (hpos : w.pos ≤ w.cap) : (w.puts ps).pos ≤ w.cap := by
  induction ps generalizing w with
  | nil => exact hpos
  | cons p ps ih => simpa using ih (w := w.put p.1 p.2) (by simpa using pos_put_le _ _ hpos)

/-- A few bits wait in the accumulator, whatever the room. -/
lemma nbits_puts (h : w.nbits + (Put.bits ps).length < 48) : (w.puts ps).nbits = w.nbits + (Put.bits ps).length := by
  induction ps generalizing w with
  | nil => rfl
  | cons p ps ih =>
    simp only [Put.bits_cons, length_append, length_lsb] at h ⊢
    have hput : (w.put p.1 p.2).nbits = w.nbits + p.2 := by
      simp only [put]
      rw [if_neg (by omega)]
    rw [puts_cons, ih (by omega), hput, add_assoc]

/-- The writer fills the output with what it was given and stops where the room ends. -/
lemma pos_write (cap : ℕ) (ps : List Put) : (write cap ps).pos = min cap (Put.size ps) := by
  have hsum : ((init cap).puts ps).total = (Put.bits ps).length := by
    rw [total_puts]
    simp [total, pos, init]
  have hcap : ((init cap).puts ps).cap = cap := cap_puts _ _
  have hpos : ((init cap).puts ps).pos ≤ ((init cap).puts ps).cap := by
    simpa using pos_puts_le ps (w := init cap) (Nat.zero_le _)
  rw [write, Put.size]
  generalize (init cap).puts ps = w at hsum hcap hpos
  have hstop := flushAccum_stops hpos
  obtain ⟨hcap', htotal, hle⟩ := flushAccum_flushed w
  simp only [total] at htotal hsum
  simp only [finish]
  split_ifs with h
  · simp only [pos, length_append, length_singleton] at *
    omega
  · omega

lemma cap_write (cap : ℕ) (ps : List Put) : (write cap ps).cap = cap := by
  have hflush : ((init cap).puts ps).flushAccum.cap = cap :=
    (flushAccum_flushed _).cap.trans (cap_puts _ _)
  simp only [write, finish]
  split_ifs <;> exact hflush

/-- `bw_ok` never fails: a writer that runs out of room stops in front of its end. -/
lemma ok_write (cap : ℕ) (ps : List Put) : (write cap ps).ok = true := by
  rw [ok, pos_write, cap_write]
  exact decide_eq_true (min_le_left _ _)

/-! #### Which bits they are -/

/-- The writer stands for the bit string `bs`. -/
structure Holds (w : Bitw) (bs : List Bool) : Prop where
  bits : ofBytes w.buf ++ lsb w.nbits w.accum = bs
  accum_lt : w.accum < 2 ^ w.nbits

lemma holds_init (cap : ℕ) : Holds (init cap) [] := ⟨rfl, by simp [init]⟩

lemma toNat_low_byte (a : ℕ) : (UInt8.ofNat (a &&& 0xFF)).toNat = a % 256 := by
  have h : a &&& 0xFF = a % 2 ^ 8 := Nat.and_two_pow_sub_one_eq_mod a 8
  simp [h]

lemma Holds.flushBytes (h : w.Holds bs) (fuel : ℕ) : (flushBytes fuel w).Holds bs := by
  induction fuel generalizing w with
  | zero => exact h
  | succ fuel ih =>
    rw [Bitw.flushBytes]
    split_ifs with hc
    · -- the low byte of the accumulator moves to the end of the buffer
      obtain ⟨n, hn⟩ : ∃ n, w.nbits = 8 + n := ⟨w.nbits - 8, by omega⟩
      have hbits := h.bits
      have hlt := h.accum_lt
      rw [hn, pow_add] at hlt
      rw [hn, lsb_add] at hbits
      refine ih ⟨?_, ?_⟩
      · have hlow : lsb 8 (w.accum % 256) = lsb 8 w.accum := by
          have := lsb_value (lsb 8 w.accum)
          rwa [value_lsb, length_lsb] at this
        simp only [ofBytes_append, ofBytes_cons, ofBytes_nil, append_nil, toNat_low_byte, hlow,
          hn, Nat.add_sub_cancel_left, Nat.shiftRight_eq_div_pow]
        rw [append_assoc, hbits]
      · simp only [hn, Nat.add_sub_cancel_left, Nat.shiftRight_eq_div_pow]
        exact Nat.div_lt_of_lt_mul hlt
    · exact h

lemma Holds.flushAccum (h : w.Holds bs) : w.flushAccum.Holds bs :=
  h.flushBytes _

lemma Holds.put (h : w.Holds bs) {val n : ℕ} (hval : val < 2 ^ n)
    (hfit : val <<< w.nbits < 2 ^ 64) : (w.put val n).Holds (bs ++ lsb n val) := by
  have hput : Holds { w with accum := w.accum ||| (val <<< w.nbits) % 2 ^ 64, nbits := w.nbits + n }
      (bs ++ lsb n val) := by
    refine ⟨?_, ?_⟩
    · rw [Nat.mod_eq_of_lt hfit, or_shiftLeft val h.accum_lt, lsb_add_mul _ _ h.accum_lt, ← append_assoc, h.bits]
    · rw [Nat.mod_eq_of_lt hfit, or_shiftLeft val h.accum_lt, pow_add]
      calc w.accum + 2 ^ w.nbits * val < 2 ^ w.nbits * (val + 1) := by
            rw [mul_add, mul_one, add_comm]
            exact Nat.add_lt_add_left h.accum_lt _
        _ ≤ 2 ^ w.nbits * 2 ^ n := Nat.mul_le_mul_left _ hval
  simp only [Bitw.put]
  split_ifs
  · exact hput.flushAccum
  · exact hput

lemma nbits_put (val n : ℕ) (hpos : w.pos ≤ w.cap) (hroom : w.total + n ≤ 8 * w.cap) :
    (w.put val n).nbits = Put.pendingAfter w.nbits n := by
  simp only [put, Put.pendingAfter]
  split_ifs with h
  · refine nbits_flushAccum hpos ?_
    simp only [total, pos] at hroom ⊢
    omega
  · rfl

/-- As long as there is room and nothing is lost, the calls append their bits. -/
lemma Holds.puts (h : w.Holds bs) (hpos : w.pos ≤ w.cap) (hnarrow : Put.Narrow ps) (hloss : Put.Lossless w.nbits ps)
    (hroom : w.total + (Put.bits ps).length ≤ 8 * w.cap) : (w.puts ps).Holds (bs ++ Put.bits ps) := by
  induction ps generalizing w bs with
  | nil => simpa using h
  | cons p ps ih =>
    simp only [Put.narrow_cons] at hnarrow
    simp only [Put.bits_cons, length_append, length_lsb] at hroom
    rw [Put.bits_cons, ← append_assoc]
    refine ih (h.put hnarrow.1 hloss.1) (by simpa using pos_put_le p.1 p.2 hpos) hnarrow.2 ?_ ?_
    · rw [nbits_put _ _ hpos (by omega)]
      exact hloss.2
    · rw [total_put, cap_put]
      omega

lemma Holds.finish (h : w.Holds bs) (hpos : w.pos ≤ w.cap)
    (hroom : w.total ≤ 8 * w.cap) : ∃ pad, ofBytes w.finish.buf = bs ++ replicate pad false := by
  have hflush := h.flushAccum
  obtain ⟨hcap, htotal, -⟩ := flushAccum_flushed w
  have hnbits := nbits_flushAccum hpos hroom
  simp only [total] at htotal hroom
  simp only [Bitw.finish]
  generalize w.flushAccum = w' at *
  split_ifs with hc
  · refine ⟨8 - w'.nbits, ?_⟩
    have hlt : w'.accum < 256 := lt_of_lt_of_le hflush.accum_lt
      (by simpa using Nat.pow_le_pow_right (n := 2) (by omega) (show w'.nbits ≤ 8 by omega))
    have hsplit := lsb_add_mul (8 - w'.nbits) 0 hflush.accum_lt
    rw [Nat.add_sub_cancel' (by omega), mul_zero, add_zero, lsb_zero_right] at hsplit
    rw [ofBytes_append, ofBytes_cons, ofBytes_nil, append_nil, toNat_low_byte,
      Nat.mod_eq_of_lt hlt, hsplit, ← append_assoc, hflush.bits]
  · -- nothing is waiting: otherwise the buffer would be full with bits left over
    have hzero : w'.nbits = 0 := by omega
    refine ⟨0, ?_⟩
    have := hflush.bits
    simpa [hzero, lsb] using this

/-- A sequence of calls that fits is in the output, padded to a whole byte. -/
theorem bits_write {cap : ℕ} (hsize : Put.size ps ≤ cap) (hnarrow : Put.Narrow ps) (hloss : Put.Lossless 0 ps) :
    ∃ pad, ofBytes (write cap ps).buf = Put.bits ps ++ replicate pad false := by
  simp only [Put.size] at hsize
  have hzero : (init cap).total = 0 := rfl
  have hcap : ((init cap).puts ps).cap = cap := cap_puts _ _
  have hpos := pos_puts_le ps (w := init cap) (Nat.zero_le _)
  refine Holds.finish ?_ (by simpa using hpos) (by rw [total_puts, hcap]; omega)
  exact (holds_init cap).puts (Nat.zero_le _) hnarrow hloss (by rw [hzero]; simp only [init]; omega)

/-- A sequence of whole bytes leaves nothing waiting. -/
theorem write_aligned {cap : ℕ} (hsize : Put.size ps ≤ cap) (hnarrow : Put.Narrow ps)
    (hloss : Put.Lossless 0 ps) (haligned : 8 ∣ (Put.bits ps).length) :
    write cap ps = ⟨(write cap ps).buf, cap, 0, 0⟩ ∧ ofBytes (write cap ps).buf = Put.bits ps := by
  simp only [Put.size] at hsize
  have hinit : (init cap).total = 0 := rfl
  have hcap : ((init cap).puts ps).cap = cap := cap_puts _ _
  have htotal : ((init cap).puts ps).total = (Put.bits ps).length := by
    rw [total_puts, hinit, zero_add]
  have hpos : ((init cap).puts ps).pos ≤ ((init cap).puts ps).cap := by
    simpa using pos_puts_le ps (w := init cap) (Nat.zero_le _)
  have hholds : ((init cap).puts ps).flushAccum.Holds ([] ++ Put.bits ps) :=
    ((holds_init cap).puts (Nat.zero_le _) hnarrow hloss (by rw [hinit]; simp only [init]; omega)).flushAccum
  have hnbits := nbits_flushAccum hpos (by rw [htotal, hcap]; omega)
  have hflushed := (flushAccum_flushed ((init cap).puts ps)).cap
  simp only [write, finish]
  generalize ((init cap).puts ps).flushAccum = w at *
  have hzero : w.nbits = 0 := by
    simp only [total] at htotal
    omega
  obtain ⟨hbits, haccum⟩ := hholds
  obtain ⟨buf, cap', accum, nbits⟩ := w
  simp_all

/-- What is written does not depend on the capacity, once it fits. -/
theorem write_buf_eq {cap cap' : ℕ} (hsize : Put.size ps ≤ cap)
    (hsize' : Put.size ps ≤ cap') (hnarrow : Put.Narrow ps) (hloss : Put.Lossless 0 ps) :
    (write cap ps).buf = (write cap' ps).buf := by
  obtain ⟨pad, hpad⟩ := bits_write hsize hnarrow hloss
  obtain ⟨pad', hpad'⟩ := bits_write hsize' hnarrow hloss
  have hlen : (write cap ps).buf.length = (write cap' ps).buf.length := by
    rw [← pos, ← pos, pos_write, pos_write, min_eq_right hsize, min_eq_right hsize']
  have hbits := congrArg length hpad
  have hbits' := congrArg length hpad'
  simp only [length_ofBytes, length_append, length_replicate] at hbits hbits'
  refine ofBytes_injective ?_
  rw [hpad, hpad', show pad = pad' by omega]

end Bitw

/-! ### Reader -/

/-- One bit of the input, as `br_read` fetches it. -/
def bitAt (p : Bytes) (bi : ℕ) : ℕ := (p.getD (bi >>> 3) 0).toNat >>> (bi &&& 7) &&& 1

def brRead (n : ℕ) : Reader ℕ := fun r =>
  if 24 < n ∨ 8 * r.bytes.length < r.bit + n then none
  else some ((range n).foldl (fun v i => v ||| bitAt r.bytes (r.bit + i) <<< i) 0, r.advance n)

lemma bitAt_of_getElem? {p : Bytes} {bi : ℕ} {b : Bool} (h : (ofBytes p)[bi]? = some b) : bitAt p bi = b.toNat := by
  have hmod : bi &&& 7 = bi % 8 := Nat.and_two_pow_sub_one_eq_mod bi 3
  have hdiv : bi >>> 3 = bi / 8 := by rw [Nat.shiftRight_eq_div_pow]
  rw [← Nat.div_add_mod bi 8, getElem?_ofBytes p (bi / 8) (Nat.mod_lt _ (by norm_num))] at h
  obtain ⟨byte, hbyte, rfl⟩ := Option.map_eq_some_iff.1 h
  rw [bitAt, hdiv, hmod, getD_eq_getElem?_getD, hbyte, Nat.testBit]
  rcases Nat.mod_two_eq_zero_or_one (byte.toNat >>> (bi % 8)) with hb | hb <;>
    simp [hb]

/-- The loop of `br_read` collects the value of the bits ahead. -/
lemma foldl_bitAt {r : Cursor} {rest : List Bool} (h : r.At (bs ++ rest)) :
    (range bs.length).foldl (fun v i => v ||| bitAt r.bytes (r.bit + i) <<< i) 0 = value bs := by
  induction bs using reverseRecOn generalizing rest with
  | nil => rfl
  | append_singleton bs b ih =>
    have hbit : bitAt r.bytes (r.bit + bs.length) = b.toNat := by
      refine bitAt_of_getElem? ?_
      rw [h.getElem?]
      simp
    have hinit := ih (show r.At (bs ++ b :: rest) by simpa using h)
    rw [length_append, length_singleton, range_succ, foldl_append, hinit,
      foldl_cons, hbit, or_shiftLeft _ (value_lt bs), value_append]
    simp [value]

lemma reads_brRead {n v : ℕ} (hv : v < 2 ^ n := by norm_num) (hn : n ≤ 24 := by norm_num) :
    Reads (brRead n) (lsb n v) v := by
  intro r rest hr
  have hbit := hr.bit_add
  have hloop := foldl_bitAt hr
  rw [length_lsb, value_lsb_of_lt hv] at hloop
  simp only [length_append, length_lsb] at hbit
  rw [brRead, if_neg (by omega), hloop, length_lsb]

end Brotli
