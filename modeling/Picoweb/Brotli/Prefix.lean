import Picoweb.Brotli.ComplexCode

/-!
# Prefix codes

`write_prefix` chooses between the two kinds of header and `read_prefix_code` tells them apart by the
first two bits. The header is read back whatever the frequencies are, with one exception: for four
symbols the encoder may announce the lopsided code and then use the even one.
-/

namespace Brotli

open Bits PrefixCode

def buildLengths (freq : List ℕ) : List ℕ := buildLengthsEx freq 15

/-- `write_prefix`, with the codes that the encoder goes on with. -/
def writePrefix (freq lens : List ℕ) (alphaBits : ℕ) (codes : List HCode) : List Put × List HCode :=
  if countUsed freq ≤ 4 then (writeSimpleCode lens alphaBits, simpleCodes freq)
  else (writeComplexCode lens, codes)

def readPrefixCode (nsym alphaBits : ℕ) : Reader Hdec :=
  if 704 < nsym then failure
  else do
    let hskip ← brRead 2
    if hskip = 1 then readSimpleCode nsym alphaBits else readComplexCode nsym hskip

/-- The code for an alphabet with these frequencies, as `brotli_encode` writes it. -/
def prefixFor (freq : List ℕ) (alphaBits : ℕ) : List Put × List HCode :=
  writePrefix freq (buildLengths freq) alphaBits (assignCodes (buildLengths freq))

/-- Four symbols are in use and the first of them was given a length of one bit. -/
def Lopsided (freq : List ℕ) : Prop :=
  countUsed freq = 4 ∧ (buildLengths freq).getD ((usedSymbols freq).getD 0 0) 0 = 1
deriving Decidable

section PrefixFor

variable {freq : List ℕ} {alphaBits : ℕ} (hlen : freq.length ≤ 704)

include hlen

lemma buildLengths_spec : IsLengths freq 15 (buildLengths freq) := by
  have hcount : countUsed freq ≤ freq.length := List.countP_le_length
  exact buildLengthsEx_spec (by norm_num) (by omega) (by omega)

lemma length_buildLengths : (buildLengths freq).length = freq.length := by
  simpa [mask] using congrArg List.length (buildLengths_spec hlen).mask

/-- The header of a simple code, up to the symbols' lengths. -/
lemma reads_simplePrefix (hpos : 0 < freq.length) (hsym : freq.length ≤ 2 ^ alphaBits)
    (hbits : alphaBits ≤ 24) (hfew : countUsed freq ≤ 4) {h : Hdec}
    (htail : Reads (simpleHdec freq.length (listedSymbols (buildLengths freq)))
      (Put.bits (treeSelect (buildLengths freq))) h) :
    Reads (readPrefixCode freq.length alphaBits) (Put.bits (prefixFor freq alphaBits).1) h ∧
      (prefixFor freq alphaBits).2 = simpleCodes freq := by
  obtain ⟨bs, hput, hread⟩ := reads_writeSimpleCode (buildLengths_spec hlen).mask hpos hsym hbits htail
  rw [readPrefixCode, if_neg (by omega), prefixFor, writePrefix, if_pos hfew, hput]
  exact ⟨(reads_brRead).bind hread, rfl⟩

/-- The decoder reads the header and then agrees with the encoder on every symbol in use. -/
theorem prefixFor_agrees (hpos : 0 < freq.length) (hsym : freq.length ≤ 2 ^ alphaBits)
    (hbits : alphaBits ≤ 24) (heven : ¬Lopsided freq) :
    ∃ h, Reads (readPrefixCode freq.length alphaBits) (Put.bits (prefixFor freq alphaBits).1) h ∧
      Agrees h (prefixFor freq alphaBits).2 freq := by
  have hlens := buildLengths_spec hlen
  by_cases hfew : countUsed freq ≤ 4
  · obtain ⟨h, htail, hagrees⟩ := simpleHdec_agrees hlens.mask hfew fun hfour hone => heven ⟨hfour, hone⟩
    obtain ⟨hread, hcodes⟩ := reads_simplePrefix hlen hpos hsym hbits hfew htail
    exact ⟨h, hread, hcodes ▸ hagrees⟩
  · obtain ⟨h, skip, bs, hput, hskip, hskip1, hread, hagrees⟩ := complexCode_agrees hlens (by omega)
    rw [readPrefixCode, if_neg (by omega), prefixFor, writePrefix, if_neg hfew]
    refine ⟨h, ?_, hagrees⟩
    rw [hput]
    refine (reads_brRead (by omega)).bind ?_
    rw [if_neg hskip1, ← length_buildLengths hlen]
    exact hread

lemma narrow_prefixFor (hpos : 0 < freq.length) (hsym : freq.length ≤ 2 ^ alphaBits) :
    Put.Narrow (prefixFor freq alphaBits).1 := by
  have hlens := buildLengths_spec hlen
  rw [prefixFor, writePrefix]
  split_ifs
  · exact narrow_writeSimpleCode hlens.mask hpos hsym
  · exact narrow_writeComplexCode hlens.le

lemma prefixFor_lopsided (hpos : 0 < freq.length) (hsym : freq.length ≤ 2 ^ alphaBits)
    (hbits : alphaBits ≤ 24) (hlop : Lopsided freq) :
    ¬∃ h, Reads (readPrefixCode freq.length alphaBits) (Put.bits (prefixFor freq alphaBits).1) h ∧
      Agrees h (prefixFor freq alphaBits).2 freq := by
  rintro ⟨h, hread, hagrees⟩
  obtain ⟨h', htail, hdiffers⟩ := simpleHdec_lopsided (buildLengths_spec hlen).mask hlop.1 hlop.2
  obtain ⟨hread', hcodes⟩ := reads_simplePrefix hlen hpos hsym hbits hlop.1.le htail
  rw [← List.append_nil (Put.bits _)] at hread
  obtain ⟨rfl, -⟩ := hread'.unique hread
  exact hdiffers (hcodes ▸ hagrees)

/-- A prefix code survives its transmission exactly where the encoder does not announce the lopsided
code. -/
theorem prefix_survives_iff (hpos : 0 < freq.length) (hsym : freq.length ≤ 2 ^ alphaBits) (hbits : alphaBits ≤ 24) :
    (∃ h, Reads (readPrefixCode freq.length alphaBits) (Put.bits (prefixFor freq alphaBits).1) h ∧
      Agrees h (prefixFor freq alphaBits).2 freq) ↔ ¬Lopsided freq :=
  ⟨fun h hlop => prefixFor_lopsided hlen hpos hsym hbits hlop h, prefixFor_agrees hlen hpos hsym hbits⟩

end PrefixFor

theorem prefix_survives_four : ∃ h, Reads (readPrefixCode 4 2) (Put.bits (prefixFor [1, 1, 1, 1] 2).1) h ∧
      Agrees h (prefixFor [1, 1, 1, 1] 2).2 [1, 1, 1, 1] :=
  (@prefix_survives_iff [1, 1, 1, 1] 2 (by decide) (by decide) (by decide) (by decide)).2 (by decide +kernel)

/-- Four distances in use, the first of them most of the time. -/
def steepFreq : List ℕ := [4, 1, 1, 1] ++ List.replicate 60 0

theorem steep_prefix_lost : ¬∃ h, Reads (readPrefixCode steepFreq.length 6) (Put.bits (prefixFor steepFreq 6).1) h ∧
      Agrees h (prefixFor steepFreq 6).2 steepFreq :=
  prefixFor_lopsided (by decide) (by decide) (by decide) (by decide) (by decide +kernel)

end Brotli
