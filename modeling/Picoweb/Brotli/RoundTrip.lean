import Picoweb.Brotli.Stream

/-!
# Round trip

A stored stream is a byte-aligned header, the input and one closing byte. Together with the compressed
stream it gives the round trip of `brotli_encode` and `brotli_decode`, with the two ways in which the
output is cut short when the room ends inside it.
-/

namespace Brotli

open Bits ByteFile Option

/-! ### Stored streams -/

def storedPad (len : ℕ) : ℕ := 8 - (Put.bits (storedPuts len)).length % 8

def alignedPuts (len : ℕ) : List Put := storedPuts len ++ [(0, storedPad len)]

def storedHeader (len : ℕ) : Bytes := (Bitw.write (Put.size (storedPuts len)) (alignedPuts len)).buf

lemma length_bits_storedPuts (len : ℕ) : (Put.bits (storedPuts len)).length = 5 + 4 * mlenNibbles (len - 1) := by
  simp [storedPuts, mlenPuts]
  omega

section Stored

variable {len : ℕ} (hsize : len ≤ 2 ^ 24) (hpos : 0 < len)

include hsize hpos

lemma narrow_alignedPuts : Put.Narrow (alignedPuts len) := by
  obtain ⟨hlo, hhi, hlt⟩ := mlenNibbles_spec hsize hpos
  have hmn : mlenNibbles (len - 1) - 4 < 2 ^ 2 := by omega
  simp only [alignedPuts, storedPuts, mlenPuts, Put.narrow_append, Put.narrow_cons, Put.narrow_nil, and_true]
  exact ⟨⟨⟨by norm_num, hmn, hlt⟩, by norm_num⟩, by positivity⟩

lemma lossless_alignedPuts : Put.Lossless 0 (alignedPuts len) := by
  obtain ⟨hlo, hhi, hlt⟩ := mlenNibbles_spec hsize hpos
  simp only [alignedPuts, storedPuts, mlenPuts, List.cons_append, List.nil_append]
  generalize mlenNibbles (len - 1) = n at *
  obtain rfl | rfl | rfl : n = 4 ∨ n = 5 ∨ n = 6 := by omega
  all_goals
    simp only [Put.Lossless, Put.pendingAfter]
    norm_num
    omega

omit hsize hpos in
lemma size_alignedPuts (len : ℕ) :
    8 ∣ (Put.bits (alignedPuts len)).length ∧ Put.size (alignedPuts len) = Put.size (storedPuts len) := by
  have hbits := length_bits_storedPuts len
  simp only [alignedPuts, storedPad, Put.size, Put.bits_append, Put.bits_cons, Put.bits_nil,
    List.append_nil, List.length_append, length_lsb]
  omega

lemma ofBytes_storedHeader : ofBytes (storedHeader len) = Put.bits (alignedPuts len) := by
  obtain ⟨haligned, hfit⟩ := size_alignedPuts len
  exact (Bitw.write_aligned hfit.le (narrow_alignedPuts hsize hpos) (lossless_alignedPuts hsize hpos) haligned).2

lemma length_storedHeader : (storedHeader len).length = Put.size (storedPuts len) := by
  have hbits := congrArg List.length (ofBytes_storedHeader hsize hpos)
  obtain ⟨haligned, hfit⟩ := size_alignedPuts len
  rw [length_ofBytes] at hbits
  rw [← hfit, Put.size]
  omega

/-- With room for it the header stands at the start and nothing is left in the accumulator. -/
lemma write_alignedPuts {cap : ℕ} (hcap : Put.size (storedPuts len) ≤ cap) :
    Bitw.write cap (alignedPuts len) = ⟨storedHeader len, cap, 0, 0⟩ := by
  obtain ⟨haligned, hfit⟩ := size_alignedPuts len
  have hnarrow := narrow_alignedPuts hsize hpos
  have hloss := lossless_alignedPuts hsize hpos
  obtain ⟨hwrite, -⟩ := Bitw.write_aligned (hfit.le.trans hcap) hnarrow hloss haligned
  rw [hwrite, storedHeader, Bitw.write_buf_eq (hfit.le.trans hcap) hfit.le hnarrow hloss]

end Stored

lemma stored_write {len : ℕ} (hsize : len ≤ 2 ^ 24) (hpos : 0 < len) (cap : ℕ) :
    let w := (Bitw.init cap).puts (storedPuts len)
    (if 0 < w.nbits ∧ 8 - w.nbits % 8 < 8 then w.put 0 (8 - w.nbits % 8) else w).finish =
      Bitw.write cap (alignedPuts len) := by
  obtain ⟨hlo, hhi, -⟩ := mlenNibbles_spec hsize hpos
  have hbits := length_bits_storedPuts len
  have hinit : (Bitw.init cap).nbits = 0 := rfl
  have hnbits : ((Bitw.init cap).puts (storedPuts len)).nbits = (Put.bits (storedPuts len)).length := by
    rw [Bitw.nbits_puts (by omega), hinit, zero_add]
  simp only [hnbits]
  rw [if_pos (by omega), Bitw.write, alignedPuts, Bitw.puts, Bitw.puts, List.foldl_append]
  rfl

/-- The two closing bits reach the output only where there is room for one more byte. -/
lemma stored_close (buf : Bytes) (cap : ℕ) : (((⟨buf, cap, 0, 0⟩ : Bitw).put 1 1).put 1 1).finish.buf =
      if buf.length < cap then buf ++ [3] else buf := by
  have hput : ((⟨buf, cap, 0, 0⟩ : Bitw).put 1 1).put 1 1 = ⟨buf, cap, 3, 2⟩ := by
    simp [Bitw.put]
  have hflush : (⟨buf, cap, 3, 2⟩ : Bitw).flushAccum = ⟨buf, cap, 3, 2⟩ := by
    simp [Bitw.flushAccum, Bitw.flushBytes]
  simp only [hput, Bitw.finish, hflush, Bitw.pos, Nat.ofNat_pos, true_and]
  split_ifs <;> rfl

lemma encodeStored_eq {input : Bytes} (hsize : input.length ≤ 0xFFFFFF) (hpos : 0 < input.length) (cap : ℕ) :
    encodeStored input cap =
      if cap < Put.size (storedPuts input.length) + input.length then none
      else if cap = Put.size (storedPuts input.length) + input.length then
        some (storedHeader input.length ++ input)
      else some (storedHeader input.length ++ input ++ [3]) := by
  have hsize' : input.length ≤ 2 ^ 24 := by omega
  have hlen := length_storedHeader hsize' hpos
  obtain ⟨-, hfit⟩ := size_alignedPuts input.length
  rw [encodeStored, if_neg (by omega)]
  simp only [stored_write hsize' hpos]
  by_cases hcap : Put.size (storedPuts input.length) ≤ cap
  · rw [write_alignedPuts hsize' hpos hcap]
    simp only [Bitw.pos, stored_close, List.length_append]
    split_ifs <;> first | rfl | omega
  · rw [Bitw.pos_write, if_pos (by omega), if_pos (by omega)]

lemma decodeLoop_close {c : Cursor} {rest : List Bool} (hc : c.At (lsb 8 3 ++ rest))
    (len room fuel : ℕ) (out : Bytes) : ∃ c', decodeLoop len room (fuel + 1) out c = some (out, c') := by
  have hbits : c.At (lsb 1 1 ++ (lsb 1 1 ++ (lsb 6 0 ++ rest))) := hc
  rw [decodeLoop, (reads_brRead).run_bind hbits, if_pos one_ne_zero,
    (reads_brRead).run_bind hbits.advance]
  exact ⟨_, rfl⟩

lemma brotliDecode_stored {input : Bytes} (hsize : input.length ≤ 2 ^ 24) (hpos : 0 < input.length)
    {room : ℕ} (hroom : input.length ≤ room) :
    brotliDecode (storedHeader input.length ++ input ++ [3]) room = some input := by
  obtain ⟨hlo, hhi, hlt⟩ := mlenNibbles_spec hsize hpos
  have hlen := length_storedHeader hsize hpos
  have hbytes := ofBytes_storedHeader hsize hpos
  have hbits := length_bits_storedPuts input.length
  have hstart : ((Put.bits (storedPuts input.length)).length + 7) / 8 = (storedHeader input.length).length :=
    hlen.symm
  generalize hout : storedHeader input.length ++ input ++ [3] = out
  have hat : (⟨out, 0⟩ : Cursor).At (Put.bits (alignedPuts input.length) ++ ofBytes (input ++ [3])) :=
    ⟨[], by rw [← hbytes, ← ofBytes_append, ← List.append_assoc, hout, List.nil_append], rfl⟩
  simp only [alignedPuts, storedPuts, mlenPuts, List.cons_append, List.nil_append, Put.bits_cons, List.append_assoc] at hat
  generalize mlenNibbles (input.length - 1) = n at *
  have hmn : n - 4 < 2 ^ 2 := by omega
  have hwidth : (4 + (n - 4)) * 4 = n * 4 := by omega
  rw [brotliDecode, decodeStream, (reads_expectZero).run_bind hat]
  replace hat := hat.advance
  rw [decodeLoop, (reads_brRead).run_bind hat, if_neg (by simp), pure_bind]
  replace hat := hat.advance
  beta_reduce
  rw [if_neg (by simp), (reads_brRead hmn).run_bind hat, if_neg (by omega), hwidth]
  replace hat := hat.advance
  rw [(reads_brRead hlt (by omega)).run_bind hat, if_pos rfl]
  replace hat := hat.advance
  rw [(reads_brRead).run_bind hat]
  beta_reduce
  rw [if_pos one_ne_zero, Nat.sub_add_cancel hpos]
  -- the header ends at its length in bits, the input starts at its length in bytes
  have hcursor : (⟨out, 0⟩ : Cursor).advance (1 + 1 + 2 + n * 4 + 1) = ⟨out, 5 + 4 * n⟩ := by
    simp only [Cursor.advance, Cursor.mk.injEq, true_and]
    omega
  simp only [Cursor.advance_advance, length_lsb, hcursor]
  have hstored : decodeStored input.length room [] ⟨out, 5 + 4 * n⟩ =
      some (input, ⟨out, 8 * ((storedHeader input.length).length + input.length)⟩) := by
    subst hout
    simp only [decodeStored, ← hbits, hstart]
    rw [if_neg (by simp; omega), List.append_assoc, List.drop_left, List.take_left]
    rfl
  have hclose : (⟨out, 8 * ((storedHeader input.length).length + input.length)⟩ : Cursor).At (lsb 8 3 ++ []) := by
    subst hout
    exact ⟨ofBytes (storedHeader input.length ++ input), by simp, by simp [mul_add]⟩
  obtain ⟨fuel, hfuel⟩ : ∃ fuel, 8 * out.length = fuel + 1 := ⟨8 * out.length - 1, by
    subst hout; simp; omega⟩
  obtain ⟨c', hrun⟩ := decodeLoop_close hclose out.length room fuel input
  rw [Reader.bind_eq hstored, hfuel, hrun]
  rfl

/-! ### Round trip -/

/-- The commands of the compressed stream, where the encoder keeps it. -/
def keptCommands (alloc : Bool) (input : Bytes) (cap : ℕ) : Option (List LzCmd) :=
  (lzParse alloc input).filter fun cmds => min cap (Put.size (streamPuts input cmds)) < input.length

/-- The room does not end inside the stream that the encoder writes. -/
def Fits (alloc : Bool) (input : Bytes) (cap : ℕ) : Prop :=
  input ≠ [] →
    match keptCommands alloc input cap with
    | some cmds => Put.size (streamPuts input cmds) ≤ cap
    | none => input.length ≤ 0xFFFFFF → cap ≠ Put.size (storedPuts input.length) + input.length

/-- A compressed stream is one that the decoder agrees with. -/
def Agreeable (alloc : Bool) (input : Bytes) (cap : ℕ) : Prop :=
  ∀ cmds, keptCommands alloc input cap = some cmds → Regular input cmds

/-- What the encoder returns decodes to the input, and is not cut short: with more room it is the same. -/
def RoundTrips (alloc : Bool) (input : Bytes) (cap : ℕ) : Prop :=
  ∀ out, brotliEncode alloc input cap = some out →
    (∀ room, input.length ≤ room → brotliDecode out room = some input) ∧
      ∀ larger, cap ≤ larger → brotliEncode alloc input larger = some out

section

variable {alloc : Bool} {input : Bytes} {cap : ℕ}

lemma brotliEncode_eq (hpos : 0 < input.length) (hsize : input.length ≤ 16 * 1024 * 1024) : brotliEncode alloc input cap =
      match keptCommands alloc input cap with
      | some cmds => some (Bitw.write cap (streamPuts input cmds)).buf
      | none => encodeStored input cap := by
  rw [brotliEncode, if_neg (by omega), if_neg (by omega), keptCommands]
  cases lzParse alloc input with
  | none => rfl
  | some cmds =>
    simp only [Bitw.ok_write, Bitw.pos_write, filter_some, Bool.not_true, Bool.false_eq_true,
      if_false, decide_eq_true_eq]
    by_cases hlt : min cap (Put.size (streamPuts input cmds)) < input.length
    · rw [if_neg (by omega), if_pos hlt]
    · rw [if_pos (by omega), if_neg hlt]

lemma keptCommands_eq_some {cmds : List LzCmd} : keptCommands alloc input cap = some cmds ↔
      lzParse alloc input = some cmds ∧ min cap (Put.size (streamPuts input cmds)) < input.length := by
  simp [keptCommands]

/-- With more room a stream that was too long stays too long. -/
lemma keptCommands_none_mono {larger : ℕ} (h : keptCommands alloc input cap = none) (hcap : cap ≤ larger) :
    keptCommands alloc input larger = none := by
  rw [eq_none_iff_forall_ne_some] at h ⊢
  intro cmds hkept
  obtain ⟨hparse, hlt⟩ := keptCommands_eq_some.1 hkept
  refine h cmds (keptCommands_eq_some.2 ⟨hparse, lt_of_le_of_lt ?_ hlt⟩)
  exact min_le_min_right _ hcap

lemma roundTrips_empty : RoundTrips alloc [] cap := by
  intro out hout
  rw [brotliEncode, if_pos List.length_nil] at hout
  split_ifs at hout with hcap
  obtain rfl := some.inj hout
  refine ⟨fun room _ => rfl, fun larger hlarger => ?_⟩
  rw [brotliEncode, if_pos List.length_nil, if_neg (by omega)]

section Compressed

variable {cmds : List LzCmd} (hpos : 0 < input.length) (hsize : input.length ≤ 16 * 1024 * 1024)
  (hkept : keptCommands alloc input cap = some cmds)

include hpos hsize hkept

lemma roundTrips_compressed (hfits : Put.size (streamPuts input cmds) ≤ cap)
    (hregular : Regular input cmds) : RoundTrips alloc input cap := by
  obtain ⟨hparse, hlt⟩ := keptCommands_eq_some.1 hkept
  have hcovers := lzParse_covers hparse
  have hnarrow := narrow_streamPuts hregular (by omega) hcovers hpos
  intro out hout
  rw [brotliEncode_eq hpos hsize, hkept] at hout
  obtain rfl := some.inj hout
  constructor
  · intro room hroom
    obtain ⟨pad, hbits⟩ := Bitw.bits_write hfits hnarrow hregular.lossless
    have hrun := reads_decodeStream hregular (by omega) hcovers
      (Bitw.write cap (streamPuts input cmds)).buf.length hpos hroom ⟨_, 0⟩ _ ⟨[], hbits, rfl⟩
    rw [brotliDecode, hrun, map_some]
  · intro larger hlarger
    have hkept' : keptCommands alloc input larger = some cmds :=
      keptCommands_eq_some.2 ⟨hparse, by omega⟩
    rw [brotliEncode_eq hpos hsize, hkept']
    exact congrArg some (Bitw.write_buf_eq (hfits.trans hlarger) hfits hnarrow hregular.lossless)

/-- A compressed stream that ends with the room is shorter than with more of it. -/
lemma not_roundTrips_compressed (hcut : cap < Put.size (streamPuts input cmds)) : ¬RoundTrips alloc input cap := by
  intro h
  obtain ⟨hparse, hlt⟩ := keptCommands_eq_some.1 hkept
  have hout : brotliEncode alloc input cap = some (Bitw.write cap (streamPuts input cmds)).buf := by
    rw [brotliEncode_eq hpos hsize, hkept]
  have hlen : (Bitw.write cap (streamPuts input cmds)).buf.length = cap := by
    rw [← Bitw.pos, Bitw.pos_write, min_eq_left hcut.le]
  have hmore := (h _ hout).2 _ hcut.le
  generalize (Bitw.write cap (streamPuts input cmds)).buf = out at *
  rw [brotliEncode_eq hpos hsize] at hmore
  cases hlarge : keptCommands alloc input (Put.size (streamPuts input cmds)) with
  | some cmds' =>
    obtain ⟨hparse', -⟩ := keptCommands_eq_some.1 hlarge
    obtain rfl := some.inj (hparse'.symm.trans hparse)
    rw [hlarge] at hmore
    have hlen' := congrArg List.length (some.inj hmore)
    rw [← Bitw.pos, Bitw.pos_write] at hlen'
    omega
  | none =>
    -- the whole stream would not be shorter than the input, so the input is stored
    rw [hlarge] at hmore
    by_cases hmax : input.length ≤ 0xFFFFFF
    · simp only [encodeStored_eq hmax hpos] at hmore
      split_ifs at hmore
      all_goals
        obtain rfl := some.inj hmore
        simp only [List.length_append] at hlen
        omega
    · simp only [encodeStored, if_pos (show input.length = 0 ∨ 0xFFFFFF < input.length by omega),
        reduceCtorEq] at hmore

end Compressed

section Stored

variable (hpos : 0 < input.length) (hsize : input.length ≤ 16 * 1024 * 1024)
  (hkept : keptCommands alloc input cap = none)

include hpos hsize hkept

lemma roundTrips_stored (hfits : input.length ≤ 0xFFFFFF →
    cap ≠ Put.size (storedPuts input.length) + input.length) : RoundTrips alloc input cap := by
  intro out hout
  simp only [brotliEncode_eq hpos hsize, hkept] at hout
  have hmax : input.length ≤ 0xFFFFFF := by
    by_contra hlarge
    simp only [encodeStored, if_pos (show input.length = 0 ∨ 0xFFFFFF < input.length by omega), reduceCtorEq] at hout
  specialize hfits hmax
  rw [encodeStored_eq hmax hpos] at hout
  split_ifs at hout with hroom
  obtain rfl := some.inj hout
  refine ⟨fun room => brotliDecode_stored (by omega) hpos, fun larger hlarger => ?_⟩
  simp only [brotliEncode_eq hpos hsize, keptCommands_none_mono hkept hlarger, encodeStored_eq hmax hpos]
  rw [if_neg (by omega), if_neg (by omega)]

/-- Where the room ends with the input, the closing byte of a stored stream is missing. -/
lemma not_roundTrips_stored (hmax : input.length ≤ 0xFFFFFF)
    (hcut : cap = Put.size (storedPuts input.length) + input.length) : ¬RoundTrips alloc input cap := by
  intro h
  have hout : brotliEncode alloc input cap = some (storedHeader input.length ++ input) := by
    simp only [brotliEncode_eq hpos hsize, hkept, encodeStored_eq hmax hpos]
    rw [if_neg (by omega), if_pos hcut]
  have hmore := (h _ hout).2 (cap + 1) (Nat.le_succ cap)
  simp only [brotliEncode_eq hpos hsize, keptCommands_none_mono hkept (Nat.le_succ cap),
    encodeStored_eq hmax hpos] at hmore
  rw [if_neg (by omega), if_neg (by omega)] at hmore
  simpa using congrArg List.length (some.inj hmore)

end Stored

end

/-- Every stream that fits and that the decoder agrees with comes back, and one that comes back fits. -/
theorem brotli_round_trip (alloc : Bool) (input : Bytes) (cap : ℕ) (hsize : input.length ≤ 16 * 1024 * 1024) :
    (Fits alloc input cap ∧ Agreeable alloc input cap → RoundTrips alloc input cap) ∧
      (RoundTrips alloc input cap → Fits alloc input cap) := by
  by_cases hne : input = []
  · subst hne
    exact ⟨fun _ => roundTrips_empty, fun _ h => absurd rfl h⟩
  have hpos := List.length_pos_of_ne_nil hne
  constructor
  · rintro ⟨hfits, hagree⟩
    specialize hfits hne
    cases hkept : keptCommands alloc input cap with
    | some cmds =>
      simp only [hkept] at hfits
      exact roundTrips_compressed hpos hsize hkept hfits (hagree cmds hkept)
    | none =>
      simp only [hkept] at hfits
      exact roundTrips_stored hpos hsize hkept hfits
  · intro h _
    cases hkept : keptCommands alloc input cap with
    | some cmds =>
      refine not_lt.1 fun hcut => ?_
      exact not_roundTrips_compressed hpos hsize hkept hcut h
    | none =>
      intro hmax hcut
      exact not_roundTrips_stored hpos hsize hkept hmax hcut h

set_option maxRecDepth 100000 in
/-- A run of one byte, which the encoder writes as one literal and one copy. -/
theorem brotli_round_trip_run : RoundTrips true (List.replicate 40 97) 1000 := by
  have hkept : keptCommands true (List.replicate 40 97) 1000 = some [⟨1, 39, 1⟩] := by decide +kernel
  have hfits : Fits true (List.replicate 40 97) 1000 := by
    intro _
    rw [hkept]
    decide +kernel
  have hagree : Agreeable true (List.replicate 40 97) 1000 := by
    intro cmds hcmds
    obtain rfl := some.inj (hkept.symm.trans hcmds)
    exact ⟨by decide +kernel, by decide +kernel, by decide +kernel, by decide +kernel, by decide +kernel⟩
  exact (brotli_round_trip true (List.replicate 40 97) 1000 (by simp)).1 ⟨hfits, hagree⟩

/-- An input that ends in ten literals. -/
def longTail : Bytes := List.replicate 40 97 ++ [98, 98, 98, 98, 99, 99, 99, 99, 98, 99]

/-- An input over four bytes, of which the first by far the most frequent. -/
def fourBytes : Bytes := (List.replicate 6 [97, 98, 97, 99, 97, 100, 97, 97]).flatten

set_option maxRecDepth 100000 in
/-- One byte of room gets the first byte of the stream; ten literals at the end are announced with the
code of a shorter run; four symbols of which one has a code of one bit are read as equally long. -/
theorem brotli_not_round_trip :
    brotliEncode true (List.replicate 40 97) 1 = some [226] ∧ brotliDecode [226] 40 = none ∧
    brotliEncode true longTail 1000 = some [34, 6, 0, 0, 100, 152, 216, 88, 1, 224, 76, 64, 3, 84, 253, 55] ∧
    brotliDecode [34, 6, 0, 0, 100, 152, 216, 88, 1, 224, 76, 64, 3, 84, 253, 55] 50 = none ∧
    brotliEncode true fourBytes 1000 = some [226, 5, 0, 0, 116, 152, 216, 24, 217, 240, 39, 36, 130, 196, 48] ∧
    ∃ out, brotliDecode [226, 5, 0, 0, 116, 152, 216, 24, 217, 240, 39, 36, 130, 196, 48] 48 =
      some out ∧ out.length = 48 ∧ out ≠ fourBytes := by
  refine ⟨by decide +kernel, by decide +kernel, by decide +kernel, by decide +kernel, by decide +kernel, ?_⟩
  have hsome : (brotliDecode [226, 5, 0, 0, 116, 152, 216, 24, 217, 240, 39, 36, 130, 196, 48] 48).any
      fun out => out.length = 48 ∧ out ≠ fourBytes := by decide +kernel
  obtain ⟨out, hout, hwrong⟩ := any_eq_true _ _ |>.1 hsome
  exact ⟨out, hout, by simpa using hwrong⟩

end Brotli
