import Picoweb.Brotli.Huffman

/-!
# Simple prefix codes

With at most four symbols in use the header lists the symbols, and their lengths follow from their
number. The encoder then gives up the codes that it had computed and uses the ones implied by the
header.
-/

namespace Brotli

open Bits PrefixCode List

/-! ### Encoder and decoder -/

/-- The symbols that a simple code lists: at most four, and the first one if none is in use. They
are collected in ascending order, so that the sort of the source changes nothing. -/
def listedSymbols (lens : List ℕ) : List ℕ :=
  let used := (usedSymbols lens).take 4
  if used = [] then [0] else used

def treeSelect (lens : List ℕ) : List Put :=
  if (listedSymbols lens).length = 4 then
    [(if lens.getD ((listedSymbols lens).getD 0 0) 0 = 1 then 1 else 0, 1)]
  else []

def writeSimpleCode (lens : List ℕ) (alphaBits : ℕ) : List Put :=
  [(1, 2), ((listedSymbols lens).length - 1, 2)] ++ (listedSymbols lens).map (fun s => (s, alphaBits)) ++
    treeSelect lens

/-- The codes that `write_prefix` leaves after a simple code. It has cleared `lens` before it looks
for a first symbol of length one. -/
def simpleCodes (freq : List ℕ) : List HCode :=
  let cleared := replicate freq.length 0
  let codes : List HCode := replicate freq.length ⟨0, 0⟩
  match (usedSymbols freq).take 4 with
  | [a, b] => setEntries codes [(a, ⟨0, 1⟩), (b, ⟨1, 1⟩)]
  | [a, b, c] => setEntries codes [(a, ⟨0, 1⟩), (b, ⟨2, 2⟩), (c, ⟨3, 2⟩)]
  | [a, b, c, d] =>
    if cleared.getD a 0 = 1 then
      setEntries codes [(a, ⟨0, 1⟩), (b, ⟨2, 2⟩), (c, ⟨6, 3⟩), (d, ⟨7, 3⟩)]
    else setEntries codes [(a, ⟨0, 2⟩), (b, ⟨1, 2⟩), (c, ⟨2, 2⟩), (d, ⟨3, 2⟩)]
  | _ => codes

def readSymbols (nsym alphaBits : ℕ) : ℕ → Reader (List ℕ)
  | 0 => pure []
  | n + 1 => do
    let sym ← brRead alphaBits
    if nsym ≤ sym then failure
    else do
      let rest ← readSymbols nsym alphaBits n
      pure (sym :: rest)

def simpleHdec (nsym : ℕ) (used : List ℕ) : Reader Hdec :=
  let lens := replicate nsym 0
  match used with
  | [a] => do
    let h ← hdecBuild lens
    pure { h with singleSymbol := some a }
  | [a, b] => hdecBuild (setEntries lens [(a, 1), (b, 1)])
  | [a, b, c] => hdecBuild (setEntries lens [(a, 1), (b, 2), (c, 2)])
  | [a, b, c, d] => do
    let treeSel ← brRead 1
    if treeSel ≠ 0 then hdecBuild (setEntries lens [(a, 1), (b, 2), (c, 3), (d, 3)])
    else hdecBuild (setEntries lens [(a, 2), (b, 2), (c, 2), (d, 2)])
  | _ => failure

/-- The branch of `read_prefix_code` for simple codes. -/
def readSimpleCode (nsym alphaBits : ℕ) : Reader Hdec := do
  let nsymM1 ← brRead 2
  let used ← readSymbols nsym alphaBits (nsymM1 + 1)
  simpleHdec nsym used

/-- The decoder's table reads what the encoder writes for every symbol in use. -/
def Agrees (h : Hdec) (codes : List HCode) (freq : List ℕ) : Prop :=
  ∀ s ∈ usedSymbols freq, Reads (hdecSymbol h) (Put.bits [bwHuff (codes.getD s ⟨0, 0⟩)]) s

/-! ### Lengths given for a few symbols -/

section Sparse

variable {lens : List ℕ} {entries : List (ℕ × ℕ)}

lemma count_take_set {k v s l : ℕ} (hk : lens[k]? = some 0) (hl : l ≠ 0) : ((lens.set k v).take s).count l =
      (lens.take s).count l + if k < s ∧ v = l then 1 else 0 := by
  obtain ⟨hlt, hget⟩ := List.getElem?_eq_some_iff.1 hk
  rw [take_set]
  by_cases hks : k < s
  · have hlen : k < (lens.take s).length := by simp; omega
    rw [count_set hlen, getElem_take, hget]
    simp [hks, Ne.symm hl]
  · rw [set_eq_of_length_le (by simp; omega)]
    simp [hks]

lemma kraft_set {top k v : ℕ} (hk : lens[k]? = some 0) : kraft top (lens.set k v) = kraft top lens + share top v := by
  obtain ⟨hlt, hget⟩ := List.getElem?_eq_some_iff.1 hk
  have hsplit : lens = lens.take k ++ 0 :: lens.drop (k + 1) := by
    rw [← hget, ← drop_eq_getElem_cons hlt, take_append_drop]
  rw [set_eq_take_append_cons_drop, if_pos hlt]
  conv_rhs => rw [hsplit]
  simp only [kraft_append, kraft_cons, share_zero]
  omega

/-- Entries that are set after a first one still find a zero. -/
lemma zero_at_tail {e : ℕ × ℕ} (hzero : ∀ e' ∈ e :: entries, lens[e'.1]? = some 0)
    (hnodup : ((e :: entries).map Prod.fst).Nodup) : ∀ e' ∈ entries, (lens.set e.1 e.2)[e'.1]? = some 0 := by
  intro e' he'
  rw [map_cons, nodup_cons] at hnodup
  have hne : e.1 ≠ e'.1 := fun h => hnodup.1 (h ▸ mem_map_of_mem he')
  rw [getElem?_set_ne hne]
  exact hzero e' (mem_cons_of_mem _ he')

lemma count_take_setEntries {s l : ℕ} (hzero : ∀ e ∈ entries, lens[e.1]? = some 0)
    (hnodup : (entries.map Prod.fst).Nodup) (hl : l ≠ 0) : ((setEntries lens entries).take s).count l =
      (lens.take s).count l + entries.countP fun e => e.1 < s ∧ e.2 = l := by
  induction entries generalizing lens with
  | nil => simp
  | cons e entries ih =>
    have htail := zero_at_tail hzero hnodup
    rw [setEntries_cons, ih htail (nodup_cons.1 hnodup).2, count_take_set (hzero e mem_cons_self) hl, countP_cons]
    simp only [decide_eq_true_eq]
    omega

lemma kraft_setEntries {top : ℕ} (hzero : ∀ e ∈ entries, lens[e.1]? = some 0)
    (hnodup : (entries.map Prod.fst).Nodup) :
    kraft top (setEntries lens entries) = kraft top lens + kraft top (entries.map Prod.snd) := by
  induction entries generalizing lens with
  | nil => simp
  | cons e entries ih =>
    rw [setEntries_cons, ih (zero_at_tail hzero hnodup) (nodup_cons.1 hnodup).2,
      kraft_set (hzero e mem_cons_self), map_cons, kraft_cons]
    omega

end Sparse

variable {lens freq : List ℕ}

/-- The code space does not depend on where the symbols are. -/
lemma firstCode_congr {lens' : List ℕ} (h : ∀ b ≠ 0, lens.count b = lens'.count b) (l : ℕ) :
    firstCode lens l = firstCode lens' l := by
  induction l with
  | zero => rfl
  | succ b ih =>
    rw [firstCode, firstCode, ih]
    split_ifs with hb
    · rfl
    · rw [h b hb]

/-- The entries of a simple code: distinct symbols of the alphabet with lengths that fill the space. -/
structure SimpleEntries (nsym : ℕ) (entries : List (ℕ × ℕ)) : Prop where
  nodup : (entries.map Prod.fst).Nodup
  lt : ∀ e ∈ entries, e.1 < nsym
  len : ∀ e ∈ entries, e.2 ≠ 0 ∧ e.2 ≤ 15
  kraft : PrefixCode.kraft 15 (entries.map Prod.snd) ≤ 2 ^ 15

namespace SimpleEntries

variable {nsym : ℕ} {entries : List (ℕ × ℕ)} (he : SimpleEntries nsym entries)

include he

lemma zero_at : ∀ e ∈ entries, (replicate nsym 0)[e.1]? = some 0 := fun e hmem => by
  simp [he.lt e hmem]

lemma code_eq {l : ℕ} (s : ℕ) (hl : l ≠ 0) : code (setEntries (replicate nsym 0) entries) l s =
      firstCode (entries.map Prod.snd) l + entries.countP fun e => e.1 < s ∧ e.2 = l := by
  have hcount : ∀ b ≠ 0, (setEntries (replicate nsym 0) entries).count b = (entries.map Prod.snd).count b := by
    intro b hb
    have h := count_take_setEntries (s := nsym) he.zero_at he.nodup hb
    rw [take_of_length_le (by simp), take_of_length_le (by simp)] at h
    rw [h, count_replicate, if_neg (by simpa using Ne.symm hb), zero_add, count, countP_map]
    refine countP_congr fun e hmem => ?_
    simp [he.lt e hmem]
  rw [code, firstCode_congr hcount, count_take_setEntries he.zero_at he.nodup hl, take_replicate,
    count_replicate, if_neg (by simpa using Ne.symm hl), zero_add]

lemma le_fifteen : ∀ l ∈ setEntries (replicate nsym 0) entries, l ≤ 15 := by
  intro l hl
  rcases mem_setEntries hl with h | ⟨e, hmem, rfl⟩
  · simp [eq_of_mem_replicate h]
  · exact (he.len e hmem).2

lemma exists_hdec : ∃ h, hdecBuild (setEntries (replicate nsym 0) entries) = some h :=
  ⟨_, hdecBuild_eq he.le_fifteen⟩

/-- The decoder reads the word that the numbers of smaller symbols imply. -/
lemma reads {h : Hdec} (hbuild : hdecBuild (setEntries (replicate nsym 0) entries) = some h)
    {e : ℕ × ℕ} (hmem : e ∈ entries) {c : HCode} (hlen : c.len = e.2)
    (hcode : c.code = firstCode (entries.map Prod.snd) e.2 + entries.countP fun e' => e'.1 < e.1 ∧ e'.2 = e.2) :
    Reads (hdecSymbol h) (Put.bits [bwHuff c]) e.1 := by
  have hkraft : PrefixCode.kraft 15 (setEntries (replicate nsym 0) entries) ≤ 2 ^ 15 := by
    rw [kraft_setEntries he.zero_at he.nodup, kraft_replicate_zero, zero_add]
    exact he.kraft
  have hget : (setEntries (replicate nsym 0) entries)[e.1]? = some e.2 :=
    getElem?_setEntries_of_mem he.nodup hmem (by simpa using he.lt e hmem)
  have hread := reads_hdecSymbol hkraft he.le_fifteen hbuild hget (he.len e hmem).1
  rwa [word, he.code_eq _ (he.len e hmem).1, ← hcode, ← hlen, ← bits_bwHuff, ← append_nil (lsb _ _)] at hread

end SimpleEntries

/-! ### The header -/

section Header

variable {nsym alphaBits : ℕ} (hsym : nsym ≤ 2 ^ alphaBits) (hbits : alphaBits ≤ 24)

include hsym hbits

lemma reads_readSymbols {used : List ℕ} (hlt : ∀ s ∈ used, s < nsym) :
    Reads (readSymbols nsym alphaBits used.length) (Put.bits (used.map fun s => (s, alphaBits))) used := by
  induction used with
  | nil => exact Reads.pure []
  | cons s used ih =>
    simp only [forall_mem_cons] at hlt
    refine (reads_brRead (hlt.1.trans_le hsym) hbits).bind ?_
    rw [if_neg (not_le.2 hlt.1)]
    exact (ih hlt.2).bind_pure (cons s)

lemma reads_readSimpleCode {used : List ℕ} {bs : List Bool} {h : Hdec} (hne : used ≠ [])
    (hfew : used.length ≤ 4) (hlt : ∀ s ∈ used, s < nsym) (htail : Reads (simpleHdec nsym used) bs h) :
    Reads (readSimpleCode nsym alphaBits)
      (lsb 2 (used.length - 1) ++ (Put.bits (used.map fun s => (s, alphaBits)) ++ bs)) h := by
  have hpos := length_pos_iff.2 hne
  refine (reads_brRead (by omega)).bind ?_
  rw [Nat.sub_add_cancel hpos]
  exact (reads_readSymbols hsym hbits hlt).bind htail

end Header

lemma getD_setEntries_of_mem {entries : List (ℕ × HCode)} {n : ℕ} {e : ℕ × HCode}
    (hnodup : (entries.map Prod.fst).Nodup) (hmem : e ∈ entries) (hlt : e.1 < n) :
    (setEntries (replicate n ⟨0, 0⟩) entries).getD e.1 ⟨0, 0⟩ = e.2 := by
  rw [getD_eq_getElem?_getD, getElem?_setEntries_of_mem hnodup hmem (by simpa using hlt), Option.getD_some]

/-- The lengths are cleared when the encoder looks for a first symbol of length one. -/
lemma getD_replicate_ne_one (n a : ℕ) : (replicate n 0).getD a 0 ≠ 1 := by
  rw [getD_eq_getElem?_getD, getElem?_replicate]
  split_ifs <;> simp

/-- A simple code with at least two symbols: `coded` has them with the codes of the encoder, and each code is
the one that the decoder derives from the lengths. -/
lemma agrees_of_coded (coded : List (ℕ × HCode)) (hused : usedSymbols freq = coded.map Prod.fst)
    (hcodes : simpleCodes freq = setEntries (replicate freq.length ⟨0, 0⟩) coded)
    (hlens : SimpleEntries freq.length (coded.map fun e => (e.1, e.2.len)))
    (hcode : ∀ e ∈ coded, e.2.code = firstCode (coded.map fun e => e.2.len) e.2.len +
      coded.countP fun e' => e'.1 < e.1 ∧ e'.2.len = e.2.len) :
    ∃ h, hdecBuild (setEntries (replicate freq.length 0) (coded.map fun e => (e.1, e.2.len))) =
      some h ∧ Agrees h (simpleCodes freq) freq := by
  obtain ⟨h, hbuild⟩ := hlens.exists_hdec
  refine ⟨h, hbuild, fun s hs => ?_⟩
  obtain ⟨e, hmem, rfl⟩ := mem_map.1 (hused ▸ hs)
  have hnodup : (coded.map Prod.fst).Nodup := hused ▸ (pairwise_usedSymbols freq).imp LT.lt.ne
  rw [hcodes, getD_setEntries_of_mem hnodup hmem (lt_of_mem_usedSymbols hs)]
  refine hlens.reads hbuild (mem_map_of_mem hmem) rfl ?_
  rw [hcode e hmem, map_map, countP_map]
  rfl

/-- The table for the listed symbols agrees with the codes of the encoder, unless the header
announces the lopsided code for four symbols. -/
lemma simpleHdec_agrees (hmask : mask lens = mask freq) (hfew : countUsed freq ≤ 4)
    (hfour : countUsed freq = 4 → lens.getD ((usedSymbols freq).getD 0 0) 0 ≠ 1) :
    ∃ h, Reads (simpleHdec freq.length (listedSymbols lens)) (Put.bits (treeSelect lens)) h ∧
      Agrees h (simpleCodes freq) freq := by
  have hlt : ∀ s ∈ usedSymbols freq, s < freq.length := fun s => lt_of_mem_usedSymbols
  have hasc := pairwise_usedSymbols freq
  have hlen := length_usedSymbols freq
  rw [← hlen] at hfew hfour
  have hsingle : ∀ a, ∃ h : Hdec, Reads (simpleHdec freq.length [a]) [] h ∧ h.singleSymbol = some a := by
    intro a
    have hnone : SimpleEntries freq.length [] := ⟨by simp, by simp, by simp, by simp⟩
    obtain ⟨h, hbuild⟩ := hnone.exists_hdec
    refine ⟨{ h with singleSymbol := some a }, ?_, rfl⟩
    exact (Reads.lift hbuild).bind_nil (Reads.pure _)
  simp only [treeSelect, listedSymbols, usedSymbols_congr hmask]
  match hused : usedSymbols freq with
  | [] =>
    obtain ⟨h, hread, -⟩ := hsingle 0
    exact ⟨h, by simpa using hread, fun s hs => by simp [hused] at hs⟩
  | [a] =>
    obtain ⟨h, hread, hh⟩ := hsingle a
    refine ⟨h, by simpa using hread, fun s hs => ?_⟩
    obtain rfl : s = a := by simpa [hused] using hs
    have hnone : (simpleCodes freq).getD s ⟨0, 0⟩ = ⟨0, 0⟩ := by
      simp only [simpleCodes, hused, take_succ_cons, take_nil]
      rw [getD_eq_getElem?_getD, getElem?_replicate]
      split_ifs <;> rfl
    rw [hnone, hdecSymbol, hh]
    exact Reads.pure s
  | [a, b] =>
    simp only [hused, pairwise_cons, forall_mem_cons] at hasc hlt
    obtain ⟨⟨hab, -⟩, -⟩ := hasc
    obtain ⟨h, hbuild, hagrees⟩ := agrees_of_coded [(a, ⟨0, 1⟩), (b, ⟨1, 1⟩)] hused (by simp [simpleCodes, hused])
      ⟨by simp [hab.ne], by simp [hlt], by simp, show kraft 15 [1, 1] ≤ 2 ^ 15 by decide⟩
      (by simp [firstCode, countP_cons, hab, hab.not_gt])
    exact ⟨h, Reads.lift hbuild, hagrees⟩
  | [a, b, c] =>
    simp only [hused, pairwise_cons, forall_mem_cons] at hasc hlt
    obtain ⟨⟨hab, hac, -⟩, ⟨hbc, -⟩, -⟩ := hasc
    obtain ⟨h, hbuild, hagrees⟩ := agrees_of_coded [(a, ⟨0, 1⟩), (b, ⟨2, 2⟩), (c, ⟨3, 2⟩)] hused
      (by simp [simpleCodes, hused])
      ⟨by simp [ne_of_lt, *], by simp [hlt], by simp, show kraft 15 [1, 2, 2] ≤ 2 ^ 15 by decide⟩
      (by simp [firstCode, countP_cons, hbc, hbc.not_gt])
    exact ⟨h, Reads.lift hbuild, hagrees⟩
  | [a, b, c, d] =>
    simp only [hused, pairwise_cons, forall_mem_cons] at hasc hlt
    obtain ⟨⟨hab, hac, had, -⟩, ⟨hbc, hbd, -⟩, ⟨hcd, -⟩, -⟩ := hasc
    rw [hused] at hfour
    have hfirst : lens.getD a 0 ≠ 1 := hfour rfl
    obtain ⟨h, hbuild, hagrees⟩ :=
      agrees_of_coded [(a, ⟨0, 2⟩), (b, ⟨1, 2⟩), (c, ⟨2, 2⟩), (d, ⟨3, 2⟩)] hused
        (by simp only [simpleCodes, hused, take_succ_cons, take_zero, if_neg (getD_replicate_ne_one _ a)])
        ⟨by simp [ne_of_lt, *], by simp [hlt], by simp, show kraft 15 [2, 2, 2, 2] ≤ 2 ^ 15 by decide⟩
        (by simp [firstCode, countP_cons, not_lt_of_gt, *])
    refine ⟨h, ?_, hagrees⟩
    have htree : (if lens.getD a 0 = 1 then 1 else 0) = 0 := if_neg hfirst
    simp only [take_succ_cons, reduceCtorEq, if_false, getD_cons_zero, htree]
    refine (reads_brRead).bind ?_
    exact Reads.lift hbuild
  | _ :: _ :: _ :: _ :: _ :: _ =>
    rw [hused] at hfew
    simp only [length_cons] at hfew
    omega

lemma listedSymbols_spec (hmask : mask lens = mask freq) (hpos : 0 < freq.length) :
    listedSymbols lens ≠ [] ∧ (listedSymbols lens).length ≤ 4 ∧ ∀ s ∈ listedSymbols lens, s < freq.length := by
  rw [listedSymbols]
  split_ifs with hnil
  · simpa using hpos
  · refine ⟨hnil, by simp, fun s hs => ?_⟩
    rw [usedSymbols_congr hmask] at hs
    exact lt_of_mem_usedSymbols (mem_of_mem_take hs)

/-- Where the header announces the lopsided code, the decoder gives the first symbol a word of one bit
and the encoder one of two bits. -/
lemma simpleHdec_lopsided (hmask : mask lens = mask freq) (hfour : countUsed freq = 4)
    (hone : lens.getD ((usedSymbols freq).getD 0 0) 0 = 1) :
    ∃ h, Reads (simpleHdec freq.length (listedSymbols lens)) (Put.bits (treeSelect lens)) h ∧
      ¬Agrees h (simpleCodes freq) freq := by
  have hlt : ∀ s ∈ usedSymbols freq, s < freq.length := fun s => lt_of_mem_usedSymbols
  have hasc := pairwise_usedSymbols freq
  rw [← length_usedSymbols] at hfour
  obtain ⟨a, b, c, d, hused⟩ := length_eq_four.1 hfour
  simp only [hused, pairwise_cons, forall_mem_cons] at hasc hlt
  obtain ⟨⟨hab, hac, had, -⟩, ⟨hbc, hbd, -⟩, ⟨hcd, -⟩, -⟩ := hasc
  rw [hused, getD_cons_zero] at hone
  have hentries : SimpleEntries freq.length [(a, 1), (b, 2), (c, 3), (d, 3)] :=
    ⟨by simp [ne_of_lt, *], by simp [hlt], by simp, show kraft 15 [1, 2, 3, 3] ≤ 2 ^ 15 by decide⟩
  obtain ⟨h, hbuild⟩ := hentries.exists_hdec
  refine ⟨h, ?_, fun hagrees => ?_⟩
  · simp only [treeSelect, listedSymbols, usedSymbols_congr hmask, hused, take_succ_cons,
      reduceCtorEq, if_false, getD_cons_zero, hone]
    exact (reads_brRead).bind (Reads.lift hbuild)
  · have hread := hentries.reads hbuild mem_cons_self (c := ⟨0, 1⟩) rfl (by simp [firstCode])
    have hcode : (simpleCodes freq).getD a ⟨0, 0⟩ = ⟨0, 2⟩ := by
      simp only [simpleCodes, hused, take_succ_cons, take_zero, if_neg (getD_replicate_ne_one _ a)]
      exact getD_setEntries_of_mem (e := (a, ⟨0, 2⟩)) (by simp [ne_of_lt, *]) mem_cons_self hlt.1
    have hwritten := hagrees a (by simp [hused])
    rw [hcode] at hwritten
    exact absurd (hread.unique (t := [false]) hwritten).2 (by simp)

lemma reads_writeSimpleCode {alphaBits : ℕ} {h : Hdec} (hmask : mask lens = mask freq)
    (hpos : 0 < freq.length) (hsym : freq.length ≤ 2 ^ alphaBits) (hbits : alphaBits ≤ 24)
    (htail : Reads (simpleHdec freq.length (listedSymbols lens)) (Put.bits (treeSelect lens)) h) :
    ∃ bs, Put.bits (writeSimpleCode lens alphaBits) = lsb 2 1 ++ bs ∧
      Reads (readSimpleCode freq.length alphaBits) bs h := by
  obtain ⟨hne, hle, hlt⟩ := listedSymbols_spec hmask hpos
  refine ⟨_, ?_, reads_readSimpleCode hsym hbits hne hle hlt htail⟩
  simp [writeSimpleCode]

lemma narrow_writeSimpleCode {alphaBits : ℕ} (hmask : mask lens = mask freq)
    (hpos : 0 < freq.length) (hsym : freq.length ≤ 2 ^ alphaBits) : Put.Narrow (writeSimpleCode lens alphaBits) := by
  obtain ⟨-, hle, hlt⟩ := listedSymbols_spec hmask hpos
  simp only [writeSimpleCode, Put.narrow_append, Put.narrow_cons, Put.narrow_nil, and_true]
  refine ⟨⟨⟨by norm_num, by omega⟩, fun p hp => ?_⟩, fun p hp => ?_⟩
  · obtain ⟨s, hs, rfl⟩ := mem_map.1 hp
    exact (hlt s hs).trans_le hsym
  · rw [treeSelect] at hp
    split_ifs at hp
    · obtain rfl := mem_singleton.1 hp
      simp
    · obtain rfl := mem_singleton.1 hp
      simp
    · cases hp

end Brotli
