import Picoweb.Brotli.Commands

/-!
# Streams

`brotli_encode` writes one compressed meta-block, or a stored one where that would not be shorter, and
`brotli_decode` reads both. What the encoder returns is the input again as long as the stream fits, the
accumulator loses nothing, no alphabet gets the lopsided code and the input does not end in a long run
of literals; each of the four can fail.
-/

namespace Brotli

open Bits ByteFile List

/-! ### Encoder -/

def mlenNibbles (mlen : ℕ) : ℕ := if mlen < 1 <<< 16 then 4 else if mlen < 1 <<< 20 then 5 else 6

/-- MNIBBLES and MLEN for a meta-block of `len` bytes. -/
def mlenPuts (len : ℕ) : List Put :=
  [(mlenNibbles (len - 1) - 4, 2), (len - 1, mlenNibbles (len - 1) * 4)]

/-- The header of a stored meta-block, up to the padding. -/
def storedPuts (len : ℕ) : List Put := [(0, 1), (0, 1)] ++ mlenPuts len ++ [(1, 1)]

/-- `encode_stored`. Its length limit makes the loop over chunks run once. -/
def encodeStored (input : Bytes) (cap : ℕ) : Option Bytes :=
  if input.length = 0 ∨ 0xFFFFFF < input.length then none
  else
    let w := (Bitw.init cap).puts (storedPuts input.length)
    let pad := 8 - w.nbits % 8
    let w := if 0 < w.nbits ∧ pad < 8 then w.put 0 pad else w
    let w := w.finish
    if cap < w.pos + input.length then none
    else
      let w := { w with buf := w.buf ++ input }
      some ((w.put 1 1).put 1 1).finish.buf

/-- The three codes of a compressed meta-block, with their headers. -/
def litPrefix (input : Bytes) (cmds : List LzCmd) : List Put × List HCode :=
  prefixFor (countSymbols 256 (litSymbols input 0 cmds)) 8

def icPrefix (cmds : List LzCmd) : List Put × List HCode :=
  prefixFor (countSymbols 704 (icSymbols cmds)) 10

def distPrefix (cmds : List LzCmd) : List Put × List HCode :=
  prefixFor (countSymbols 64 (distSymbols cmds)) 6

def streamCodes (input : Bytes) (cmds : List LzCmd) : Codes :=
  ⟨(litPrefix input cmds).2, (icPrefix cmds).2, (distPrefix cmds).2⟩

/-- Block types, distance parameters, context mode and tree counts: all the simplest. -/
def simplestPuts : List Put := [(0, 1), (0, 1), (0, 1), (0, 2), (0, 4), (0, 2), (0, 1), (0, 1)]

/-- Everything that `brotli_encode` puts for a compressed stream. -/
def streamPuts (input : Bytes) (cmds : List LzCmd) : List Put :=
  [(0, 1), (1, 1), (0, 1)] ++ mlenPuts input.length ++ simplestPuts ++ (litPrefix input cmds).1 ++
    (icPrefix cmds).1 ++ (distPrefix cmds).1 ++ dataPuts (streamCodes input cmds) input 0 cmds

/-- `brotli_encode`; `alloc` says whether the match finder gets its memory. -/
def brotliEncode (alloc : Bool) (input : Bytes) (cap : ℕ) : Option Bytes :=
  if input.length = 0 then (if cap < 1 then none else some [0x06])
  else if 16 * 1024 * 1024 < input.length then none
  else
    match lzParse alloc input with
    | none => encodeStored input cap
    | some cmds =>
      let w := Bitw.write cap (streamPuts input cmds)
      if !w.ok then encodeStored input cap
      else if input.length ≤ w.pos then encodeStored input cap
      else some w.buf

/-! ### Decoder -/

/-- Reads a field that has to be zero. -/
def expectZero (n : ℕ) : Reader Unit := do
  let v ← brRead n
  if v ≠ 0 then failure else pure ()

/-- The fields before the prefix codes, which the decoder only accepts as the encoder writes them. -/
def expectSimplest : Reader Unit := do
  expectZero 1
  expectZero 1
  expectZero 1
  expectZero 2
  expectZero 4
  expectZero 2
  expectZero 1
  expectZero 1

/-- `decode_compressed_meta` on an input of `len` bytes. -/
def decodeCompressedMeta (len mlen outCap : ℕ) (out : Bytes) : Reader Bytes := do
  expectSimplest
  let lit ← readPrefixCode 256 8
  let ic ← readPrefixCode 704 10
  let dist ← readPrefixCode 64 6
  let stop := out.length + mlen
  if outCap < stop then failure
  else do
    let out ← decodeCommands ⟨lit, ic, dist⟩ outCap stop (mlen + 8 * len + 1) out
    if out.length = stop then pure out else failure

/-- The branch of `brotli_decode` for a stored meta-block. -/
def decodeStored (mlen outCap : ℕ) (out : Bytes) : Reader Bytes := fun r =>
  let start := (r.bit + 7) / 8
  if r.bytes.length < start + mlen ∨ outCap < out.length + mlen then none
  else some (out ++ (r.bytes.drop start).take mlen, { r with bit := 8 * (start + mlen) })

/-- The loop of `brotli_decode`, which reads at least one bit in each round. -/
def decodeLoop (len outCap : ℕ) : ℕ → Bytes → Reader Bytes
  | 0, _ => failure
  | fuel + 1, out => do
    let islast ← brRead 1
    let islastempty ← if islast ≠ 0 then brRead 1 else pure 0
    if islastempty ≠ 0 then pure out
    else do
      let mn ← brRead 2
      if 2 < mn then failure
      else do
        let mlenM1 ← brRead ((4 + mn) * 4)
        let isuncompressed ← if islast = 0 then brRead 1 else pure 0
        if isuncompressed ≠ 0 then do
          let out ← decodeStored (mlenM1 + 1) outCap out
          decodeLoop len outCap fuel out
        else do
          let out ← decodeCompressedMeta len (mlenM1 + 1) outCap out
          if islast ≠ 0 then pure out else decodeLoop len outCap fuel out

def decodeStream (len outCap : ℕ) : Reader Bytes := do
  expectZero 1
  decodeLoop len outCap (8 * len + 1) []

def brotliDecode (input : Bytes) (outCap : ℕ) : Option Bytes :=
  (decodeStream input.length outCap ⟨input, 0⟩).map Prod.fst

/-! ### Compressed streams -/

lemma reads_expectZero {n : ℕ} (hn : n ≤ 24 := by norm_num) : Reads (expectZero n) (lsb n 0) () := by
  have hread := (reads_brRead (Nat.two_pow_pos n) hn).bind
    (g := fun v => if v ≠ 0 then failure else pure ()) (Reads.pure ())
  rwa [append_nil] at hread

lemma reads_expectSimplest : Reads expectSimplest (Put.bits simplestPuts) () := by
  refine (reads_expectZero).bind ((reads_expectZero).bind ?_)
  refine (reads_expectZero).bind ((reads_expectZero).bind ?_)
  refine (reads_expectZero).bind ((reads_expectZero).bind ?_)
  exact (reads_expectZero).bind reads_expectZero

lemma mlenNibbles_spec {len : ℕ} (hlen : len ≤ 2 ^ 24) (hpos : 0 < len) :
    4 ≤ mlenNibbles (len - 1) ∧ mlenNibbles (len - 1) ≤ 6 ∧ len - 1 < 2 ^ (mlenNibbles (len - 1) * 4) := by
  simp only [mlenNibbles]
  split_ifs with h16 h20
  · exact ⟨le_rfl, by norm_num, h16⟩
  · exact ⟨by norm_num, by norm_num, h20⟩
  · exact ⟨by norm_num, le_rfl, by omega⟩

/-- The code built for the symbols of an alphabet is read back and reads each of them. -/
lemma prefixFor_countSymbols {nsym alphaBits : ℕ} {syms : List ℕ}
    (hfits : 0 < nsym ∧ nsym ≤ 704 ∧ nsym ≤ 2 ^ alphaBits ∧ alphaBits ≤ 24)
    (heven : ¬Lopsided (countSymbols nsym syms)) (hlt : ∀ s ∈ syms, s < nsym) :
    Put.Narrow (prefixFor (countSymbols nsym syms) alphaBits).1 ∧
      ∃ h, Reads (readPrefixCode nsym alphaBits) (Put.bits (prefixFor (countSymbols nsym syms) alphaBits).1) h ∧
        ∀ s ∈ syms, Reads (hdecSymbol h)
          (Put.bits [huffPut (prefixFor (countSymbols nsym syms) alphaBits).2 s]) s := by
  have hlen := length_countSymbols nsym syms
  obtain ⟨hpos, hmax, hsym, hbits⟩ := hfits
  rw [← hlen] at hpos hmax hsym
  obtain ⟨h, hread, hagrees⟩ := prefixFor_agrees hmax hpos hsym hbits heven
  rw [hlen] at hread
  exact ⟨narrow_prefixFor hmax hpos hsym, h, hread, fun s hs =>
    hagrees s (mem_usedSymbols_countSymbols nsym syms (hlt s hs) hs)⟩

/-- What makes the decoder agree with the compressed stream of an input. -/
structure Regular (input : Bytes) (cmds : List LzCmd) : Prop where
  last : ShortLast cmds
  lit : ¬Lopsided (countSymbols 256 (litSymbols input 0 cmds))
  ic : ¬Lopsided (countSymbols 704 (icSymbols cmds))
  dist : ¬Lopsided (countSymbols 64 (distSymbols cmds))
  lossless : Put.Lossless 0 (streamPuts input cmds)

/-- The part of the stream after the length of the meta-block. -/
def metaPuts (input : Bytes) (cmds : List LzCmd) : List Put :=
  simplestPuts ++ (litPrefix input cmds).1 ++ (icPrefix cmds).1 ++ (distPrefix cmds).1 ++
    dataPuts (streamCodes input cmds) input 0 cmds

lemma streamPuts_eq (input : Bytes) (cmds : List LzCmd) : streamPuts input cmds =
      [(0, 1), (1, 1), (0, 1)] ++ (mlenPuts input.length ++ metaPuts input cmds) := by
  simp [streamPuts, metaPuts]

section Compressed

variable {input : Bytes} {cmds : List LzCmd} (hregular : Regular input cmds)

include hregular

lemma litPrefix_spec : Put.Narrow (litPrefix input cmds).1 ∧
    ∃ h, Reads (readPrefixCode 256 8) (Put.bits (litPrefix input cmds).1) h ∧ ∀ s ∈ litSymbols input 0 cmds,
        Reads (hdecSymbol h) (Put.bits [huffPut (litPrefix input cmds).2 s]) s :=
  prefixFor_countSymbols (by norm_num) hregular.lit (litSymbols_lt input 0 cmds)

lemma icPrefix_spec : Put.Narrow (icPrefix cmds).1 ∧
    ∃ h, Reads (readPrefixCode 704 10) (Put.bits (icPrefix cmds).1) h ∧
      ∀ s ∈ icSymbols cmds, Reads (hdecSymbol h) (Put.bits [huffPut (icPrefix cmds).2 s]) s :=
  prefixFor_countSymbols (by norm_num) hregular.ic (icSymbols_lt cmds)

lemma distPrefix_spec : Put.Narrow (distPrefix cmds).1 ∧
    ∃ h, Reads (readPrefixCode 64 6) (Put.bits (distPrefix cmds).1) h ∧
      ∀ s ∈ distSymbols cmds, Reads (hdecSymbol h) (Put.bits [huffPut (distPrefix cmds).2 s]) s :=
  prefixFor_countSymbols (by norm_num) hregular.dist (distSymbols_lt cmds)

variable (hsize : input.length ≤ 2 ^ 24) (hcovers : Covers input 0 cmds)

include hsize hcovers

lemma reads_decodeCompressedMeta (len : ℕ) {room : ℕ} (hroom : input.length ≤ room) :
    Reads (decodeCompressedMeta len input.length room []) (Put.bits (metaPuts input cmds)) input := by
  obtain ⟨-, lit, hlit, hlits⟩ := litPrefix_spec hregular
  obtain ⟨-, ic, hic, hics⟩ := icPrefix_spec hregular
  obtain ⟨-, dist, hdist, hdists⟩ := distPrefix_spec hregular
  have hread : ReadsSymbols ⟨lit, ic, dist⟩ (streamCodes input cmds) (litSymbols input 0 cmds)
      (icSymbols cmds) (distSymbols cmds) := ⟨hlits, hics, hdists⟩
  have hcount := hcovers.length_le
  have hdata : Reads (decodeCommands ⟨lit, ic, dist⟩ room input.length (input.length + 8 * len + 1) (input.take 0))
      (Put.bits (dataPuts (streamCodes input cmds) input 0 cmds)) input :=
    reads_decodeCommands hsize hroom hcovers hregular.last hread (by omega)
  simp only [metaPuts, Put.bits_append, append_assoc]
  refine reads_expectSimplest.bind (hlit.bind (hic.bind (hdist.bind ?_)))
  simp only [length_nil, zero_add]
  rw [if_neg (by omega), ← append_nil (Put.bits (dataPuts _ _ _ _))]
  refine hdata.bind ?_
  rw [if_pos rfl]
  exact Reads.pure input

lemma reads_decodeStream (len : ℕ) {room : ℕ} (hpos : 0 < input.length) (hroom : input.length ≤ room) :
    Reads (decodeStream len room) (Put.bits (streamPuts input cmds)) input := by
  obtain ⟨hlo, hhi, hlt⟩ := mlenNibbles_spec hsize hpos
  have hmeta := reads_decodeCompressedMeta hregular hsize hcovers len hroom
  rw [streamPuts_eq]
  simp only [mlenPuts, cons_append, nil_append, Put.bits_cons]
  generalize mlenNibbles (input.length - 1) = n at *
  have hmn : n - 4 < 2 ^ 2 := by omega
  refine (reads_expectZero).bind ?_
  -- ISLAST, ISLASTEMPTY, then the length
  refine (reads_brRead).bind ?_
  refine (reads_brRead).bind ?_
  refine (reads_brRead hmn).bind ?_
  rw [if_neg (by omega), show (4 + (n - 4)) * 4 = n * 4 by omega]
  refine (reads_brRead hlt (by omega)).bind ?_
  refine Reads.bind_nil (Reads.pure 0) ?_
  rw [Nat.sub_add_cancel hpos, ← append_nil (Put.bits (metaPuts _ _))]
  refine hmeta.bind ?_
  exact Reads.pure input

lemma narrow_streamPuts (hpos : 0 < input.length) : Put.Narrow (streamPuts input cmds) := by
  obtain ⟨hlo, hhi, hlt⟩ := mlenNibbles_spec hsize hpos
  have hmn : mlenNibbles (input.length - 1) - 4 < 2 ^ 2 := by omega
  rw [streamPuts_eq, metaPuts, mlenPuts, simplestPuts]
  simp only [Put.narrow_append, Put.narrow_cons, Put.narrow_nil, and_true]
  exact ⟨by norm_num, ⟨hmn, hlt⟩, ⟨⟨⟨by norm_num, (litPrefix_spec hregular).1⟩,
    (icPrefix_spec hregular).1⟩, (distPrefix_spec hregular).1⟩, narrow_dataPuts hsize hcovers⟩

end Compressed

end Brotli
