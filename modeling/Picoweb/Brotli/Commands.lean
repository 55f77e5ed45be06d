import Picoweb.Brotli.Prefix
import Picoweb.Brotli.Lz

/-!
# Commands

The body of a compressed meta-block: for each command the combined insert-and-copy symbol with the
extra bits of both lengths, the literals, and the distance of the copy. A command without a copy is
written with a symbol that can only express the first eight insert codes.
-/

namespace Brotli

open Bits ByteFile List

/-! ### Length and distance codes -/

/-- Base and number of extra bits of each insert length code. -/
def kInsLen : List (ℕ × ℕ) :=
  [(0, 0), (1, 0), (2, 0), (3, 0), (4, 0), (5, 0), (6, 1), (8, 1),
   (10, 2), (14, 2), (18, 3), (26, 3), (34, 4), (50, 4), (66, 5), (98, 5),
   (130, 6), (194, 7), (322, 8), (578, 9), (1090, 10), (2114, 12),
   (6210, 14), (22594, 24)]

/-- Base and number of extra bits of each copy length code. -/
def kCopyLen : List (ℕ × ℕ) :=
  [(2, 0), (3, 0), (4, 0), (5, 0), (6, 0), (7, 0), (8, 0), (9, 0),
   (10, 1), (12, 1), (14, 2), (18, 2), (22, 3), (30, 3), (38, 4), (54, 4),
   (70, 5), (102, 5), (134, 6), (198, 7), (326, 8), (582, 9),
   (1094, 10), (2118, 24)]

/-- A code with the value and the width of its extra bits. -/
structure Coded where
  code : ℕ
  extra : ℕ
  ebits : ℕ
  deriving DecidableEq, Repr

/-- The search for a length code, from the last entry of the table down. -/
def findCode (table : List (ℕ × ℕ)) (v : ℕ) : ℕ → Coded
  | 0 => ⟨0, 0, 0⟩
  | i + 1 =>
    let e := table.getD i (0, 0)
    if e.1 ≤ v then ⟨i, v - e.1, e.2⟩ else findCode table v i

def findInsCode (v : ℕ) : Coded := findCode kInsLen v 24

def findCopyCode (v : ℕ) : Coded := findCode kCopyLen v 24

/-- The number of extra bits and the offset of a distance code. -/
def distBits (hcode : ℕ) : ℕ := 1 + hcode >>> 1

def distOffset (hcode : ℕ) : ℕ := (2 + (hcode &&& 1)) <<< distBits hcode - 4

def findDistCode (dist : ℕ) : Coded :=
  if dist = 0 then ⟨0, 0, 0⟩
  else
    let d := dist - 1
    match (range 48).find? fun hcode =>
        distOffset hcode ≤ d ∧ d - distOffset hcode < 1 <<< distBits hcode with
    | some hcode => ⟨16 + hcode, d - distOffset hcode, distBits hcode⟩
    | none => ⟨16, 0, 0⟩

def icSymbol (ic cc : ℕ) (useDist : Bool) : ℕ :=
  let val := ic % 8 * 8 + cc % 8
  if !useDist then (if cc < 8 then val else 64 + val)
  else if ic < 8 then
    (if cc < 8 then 128 + val else if cc < 16 then 192 + val else 384 + val)
  else if ic < 16 then
    (if cc < 8 then 256 + val else if cc < 16 then 320 + val else 512 + val)
  else if cc < 8 then 448 + val
  else if cc < 16 then 576 + val
  else 640 + val

/-- The insert code, the copy code and whether there is a distance. -/
def decodeIcSymbol (sym : ℕ) : Option (ℕ × ℕ × Bool) :=
  if 704 ≤ sym then none
  else if sym < 64 then some (sym >>> 3, sym &&& 7, false)
  else if sym < 128 then some ((sym - 64) >>> 3, 8 + (sym - 64 &&& 7), false)
  else if sym < 192 then some ((sym - 128) >>> 3, sym - 128 &&& 7, true)
  else if sym < 256 then some ((sym - 192) >>> 3, 8 + (sym - 192 &&& 7), true)
  else if sym < 320 then some (8 + (sym - 256) >>> 3, sym - 256 &&& 7, true)
  else if sym < 384 then some (8 + (sym - 320) >>> 3, 8 + (sym - 320 &&& 7), true)
  else if sym < 448 then some ((sym - 384) >>> 3, 16 + (sym - 384 &&& 7), true)
  else if sym < 512 then some (16 + (sym - 448) >>> 3, sym - 448 &&& 7, true)
  else if sym < 576 then some (8 + (sym - 512) >>> 3, 16 + (sym - 512 &&& 7), true)
  else if sym < 640 then some (16 + (sym - 576) >>> 3, 8 + (sym - 576 &&& 7), true)
  else some (16 + (sym - 640) >>> 3, 16 + (sym - 640 &&& 7), true)

/-! ### Encoder -/

def LzCmd.hasDist (c : LzCmd) : Bool := 0 < c.copyLen

def LzCmd.copyCode (c : LzCmd) : Coded := if c.copyLen ≠ 0 then findCopyCode c.copyLen else ⟨0, 0, 0⟩

def LzCmd.symbol (c : LzCmd) : ℕ := icSymbol (findInsCode c.insLen).code c.copyCode.code c.hasDist

/-- The literals of a command that starts at `lp`. -/
def LzCmd.literals (c : LzCmd) (input : Bytes) (lp : ℕ) : Bytes := (input.drop lp).take c.insLen

def LzCmd.next (c : LzCmd) (input : Bytes) (lp : ℕ) : ℕ :=
  lp + (c.literals input lp).length + if c.hasDist then c.copyLen else 0

structure Codes where
  lit : List HCode
  ic : List HCode
  dist : List HCode

/-- Extra bits are only put if there are any. -/
def extraPuts (c : Coded) : List Put := if 0 < c.ebits then [(c.extra, c.ebits)] else []

def huffPut (codes : List HCode) (s : ℕ) : Put := bwHuff (codes.getD s ⟨0, 0⟩)

def commandPuts (codes : Codes) (input : Bytes) (lp : ℕ) (c : LzCmd) : List Put :=
  huffPut codes.ic c.symbol :: extraPuts (findInsCode c.insLen) ++ (if c.hasDist then extraPuts c.copyCode else []) ++
    (c.literals input lp).map (fun b => huffPut codes.lit b.toNat) ++
    if c.hasDist then
      huffPut codes.dist (findDistCode c.distance).code :: extraPuts (findDistCode c.distance)
    else []

def dataPuts (codes : Codes) (input : Bytes) : ℕ → List LzCmd → List Put
  | _, [] => []
  | lp, c :: cmds => commandPuts codes input lp c ++ dataPuts codes input (c.next input lp) cmds

def litSymbols (input : Bytes) : ℕ → List LzCmd → List ℕ
  | _, [] => []
  | lp, c :: cmds => (c.literals input lp).map UInt8.toNat ++ litSymbols input (c.next input lp) cmds

def icSymbols (cmds : List LzCmd) : List ℕ := cmds.map LzCmd.symbol

def distSymbols (cmds : List LzCmd) : List ℕ :=
  (cmds.filter LzCmd.hasDist).map fun c => (findDistCode c.distance).code

/-! ### Decoder -/

def decodeDistance (dc : ℕ) : Reader ℕ :=
  if dc < 16 ∨ 64 ≤ dc then failure
  else do
    let extra ← brRead (distBits (dc - 16))
    pure (distOffset (dc - 16) + extra + 1)

/-- The loop of `copy_match` for overlapping ranges. -/
def copyBytes : ℕ → ℕ → Bytes → Bytes
  | 0, _, out => out
  | n + 1, src, out => copyBytes n (src + 1) (out ++ [out.getD src 0])

def copyMatch (outCap : ℕ) (out : Bytes) (dist len : ℕ) : Option Bytes :=
  if dist = 0 ∨ out.length < dist ∨ outCap < out.length + len then none
  else
    let src := out.length - dist
    if len ≤ dist then some (out ++ (out.drop src).take len) else some (copyBytes len src out)

def readLiterals (lit : Hdec) : ℕ → Bytes → Reader Bytes
  | 0, out => pure out
  | n + 1, out => do
    let sym ← hdecSymbol lit
    if 255 < sym then failure else readLiterals lit n (out ++ [UInt8.ofNat sym])

structure Hdecs where
  lit : Hdec
  ic : Hdec
  dist : Hdec

def readLength (table : List (ℕ × ℕ)) (code : ℕ) : Reader ℕ := do
  let extra ← brRead (table.getD code (0, 0)).2
  pure ((table.getD code (0, 0)).1 + extra)

def decodeCopy (dist : Hdec) (outCap stop copyLen : ℕ) (out : Bytes) : Reader Bytes := do
  let dc ← hdecSymbol dist
  let d ← decodeDistance dc
  let out ← copyMatch outCap out d copyLen
  if stop < out.length then failure else pure out

/-- One round of the loop of `decode_compressed_meta`. -/
def decodeCommand (h : Hdecs) (outCap stop : ℕ) (out : Bytes) : Reader Bytes := do
  let sym ← hdecSymbol h.ic
  match decodeIcSymbol sym with
  | none => failure
  | some (ic, cc, explicitDist) => do
    let insLen ← readLength kInsLen ic
    let copyLen ← if explicitDist then readLength kCopyLen cc else pure 0
    if stop < out.length + insLen then failure
    else do
      let out ← readLiterals h.lit insLen out
      if explicitDist then decodeCopy h.dist outCap stop copyLen out else pure out

/-- The loop of `decode_compressed_meta`. A round that neither writes nor reads repeats for ever. -/
def decodeCommands (h : Hdecs) (outCap stop : ℕ) : ℕ → Bytes → Reader Bytes
  | 0, _ => failure
  | fuel + 1, out =>
    if out.length < stop then do
      let out ← decodeCommand h outCap stop out
      decodeCommands h outCap stop fuel out
    else pure out

/-! ### The codes are inverted -/

/-- A length table whose ranges follow each other without gap. -/
def Contiguous (table : List (ℕ × ℕ)) : Prop :=
  ∀ i < 23, (table.getD (i + 1) (0, 0)).1 = (table.getD i (0, 0)).1 + 2 ^ (table.getD i (0, 0)).2

lemma findCode_spec {table : List (ℕ × ℕ)} (htable : Contiguous table) {v : ℕ} (n : ℕ) (hn : n + 1 ≤ 24)
    (hmin : (table.getD 0 (0, 0)).1 ≤ v) (hmax : v < (table.getD n (0, 0)).1 + 2 ^ (table.getD n (0, 0)).2) :
    (findCode table v (n + 1)).code ≤ n ∧
      (table.getD (findCode table v (n + 1)).code (0, 0)).1 + (findCode table v (n + 1)).extra = v ∧
      (table.getD (findCode table v (n + 1)).code (0, 0)).2 = (findCode table v (n + 1)).ebits ∧
      (findCode table v (n + 1)).extra < 2 ^ (findCode table v (n + 1)).ebits := by
  induction n with
  | zero =>
    rw [findCode]
    simp only [if_pos hmin]
    exact ⟨le_rfl, by omega, trivial, by omega⟩
  | succ n ih =>
    rw [findCode]
    by_cases h : (table.getD (n + 1) (0, 0)).1 ≤ v
    · simp only [if_pos h]
      exact ⟨le_rfl, by omega, trivial, by omega⟩
    · simp only [if_neg h]
      rw [htable n (by omega)] at h
      obtain ⟨hcode, hrest⟩ := ih (by omega) (by omega)
      exact ⟨by omega, hrest⟩

/-- What a length code stands for. -/
structure CodesLength (table : List (ℕ × ℕ)) (c : Coded) (v : ℕ) : Prop where
  code : c.code < 24
  value : (table.getD c.code (0, 0)).1 + c.extra = v
  ebits : (table.getD c.code (0, 0)).2 = c.ebits
  extra : c.extra < 2 ^ c.ebits
  ebits_le : c.ebits ≤ 24

lemma ebits_le (table : List (ℕ × ℕ)) (h : ∀ e ∈ table, e.2 ≤ 24) (i : ℕ) : (table.getD i (0, 0)).2 ≤ 24 := by
  rw [getD_eq_getElem?_getD]
  cases hget : table[i]? with
  | none => simp
  | some e => exact h e (mem_of_getElem? hget)

lemma codesLength_findCode {table : List (ℕ × ℕ)} (htable : Contiguous table) (hbits : ∀ e ∈ table, e.2 ≤ 24) {v : ℕ}
    (hmin : (table.getD 0 (0, 0)).1 ≤ v) (hmax : v < (table.getD 23 (0, 0)).1 + 2 ^ (table.getD 23 (0, 0)).2) :
    CodesLength table (findCode table v 24) v := by
  obtain ⟨hcode, hvalue, hebits, hextra⟩ := findCode_spec htable 23 le_rfl hmin hmax
  exact ⟨Nat.lt_succ_of_le hcode, hvalue, hebits, hextra, hebits ▸ ebits_le table hbits _⟩

lemma findInsCode_spec {v : ℕ} (hv : v ≤ 2 ^ 24) : CodesLength kInsLen (findInsCode v) v :=
  codesLength_findCode (by unfold Contiguous; decide) (by decide) (Nat.zero_le v) (lt_of_le_of_lt hv (by decide))

lemma findCopyCode_spec {v : ℕ} (hmin : 2 ≤ v) (hv : v ≤ 2 ^ 24) : CodesLength kCopyLen (findCopyCode v) v :=
  codesLength_findCode (by unfold Contiguous; decide) (by decide) hmin (lt_of_le_of_lt hv (by decide))

lemma findInsCode_lt_eight {v : ℕ} (hv : v < 10) : (findInsCode v).code < 8 := by
  have hspec := findInsCode_spec (v := v) (by omega)
  have hbase : ∀ i < 24, 8 ≤ i → 10 ≤ (kInsLen.getD i (0, 0)).1 := by decide
  by_contra h
  have := hbase _ hspec.code (by omega)
  have := hspec.value
  omega

lemma exists_distCode {d : ℕ} (n : ℕ) (hn : n ≤ 30) (hd : d < distOffset n) :
    ∃ hcode < n, distOffset hcode ≤ d ∧ d - distOffset hcode < 1 <<< distBits hcode := by
  have hstep : ∀ i < 30, distOffset (i + 1) = distOffset i + 1 <<< distBits i := by decide
  induction n with
  | zero => exact absurd hd (Nat.not_lt_zero d)
  | succ n ih =>
    rw [hstep n (by omega)] at hd
    rcases Nat.lt_or_ge d (distOffset n) with h | h
    · obtain ⟨hcode, hlt, hrange⟩ := ih (by omega) h
      exact ⟨hcode, by omega, hrange⟩
    · exact ⟨n, Nat.lt_succ_self n, h, by omega⟩

/-- What a distance code stands for. -/
structure CodesDist (c : Coded) (dist : ℕ) : Prop where
  min : 16 ≤ c.code
  max : c.code < 64
  value : distOffset (c.code - 16) + c.extra + 1 = dist
  ebits : distBits (c.code - 16) = c.ebits
  extra : c.extra < 2 ^ c.ebits
  ebits_le : c.ebits ≤ 24

variable {dist pos : ℕ}

lemma findDistCode_spec (hpos : 0 < dist) (hwin : dist ≤ winSize) : CodesDist (findDistCode dist) dist := by
  obtain ⟨hcode, hlt, hrange⟩ := exists_distCode (d := dist - 1) 30 le_rfl
    (lt_of_lt_of_le (by omega) (hwin.trans (by decide)))
  have hfound : ((range 48).find? fun hcode =>
      decide (distOffset hcode ≤ dist - 1 ∧ dist - 1 - distOffset hcode < 1 <<< distBits hcode)).isSome :=
    find?_isSome.2 ⟨hcode, mem_range.2 (by omega), by simpa using hrange⟩
  obtain ⟨found, hf⟩ := Option.isSome_iff_exists.1 hfound
  have hin := mem_range.1 (mem_of_find?_eq_some hf)
  have hbits : ∀ i < 48, distBits i ≤ 24 := by decide
  have hp := find?_some hf
  simp only [decide_eq_true_eq, Nat.shiftLeft_eq, one_mul] at hp
  simp only [findDistCode, if_neg hpos.ne', hf]
  refine ⟨by simp, by simp only; omega, ?_, ?_, hp.2, hbits found hin⟩
  · simp only [Nat.add_sub_cancel_left]
    omega
  · simp only [Nat.add_sub_cancel_left]

lemma decodeIcSymbol_icSymbol :
    ∀ ic < 24, ∀ cc < 24, decodeIcSymbol (icSymbol ic cc true) = some (ic, cc, true) := by decide

lemma decodeIcSymbol_icSymbol_last : ∀ ic < 8, decodeIcSymbol (icSymbol ic 0 false) = some (ic, 0, false) := by decide

lemma icSymbol_lt : ∀ ic < 24, ∀ cc < 24, ∀ useDist, icSymbol ic cc useDist < 704 := by decide

/-! ### One command -/

lemma bits_extraPuts (c : Coded) : Put.bits (extraPuts c) = lsb c.ebits c.extra := by
  rw [extraPuts]
  split_ifs with h
  · simp
  · obtain h0 : c.ebits = 0 := by omega
    simp [h0, lsb]

lemma narrow_extraPuts {c : Coded} (h : c.extra < 2 ^ c.ebits) : Put.Narrow (extraPuts c) := by
  rw [extraPuts]
  split_ifs
  · simpa using h
  · exact Put.narrow_nil

lemma reads_readLength {table : List (ℕ × ℕ)} {c : Coded} {v : ℕ} (h : CodesLength table c v) :
    Reads (readLength table c.code) (Put.bits (extraPuts c)) v := by
  rw [bits_extraPuts, readLength, h.ebits]
  have hread := (reads_brRead h.extra h.ebits_le).bind_pure fun extra => (table.getD c.code (0, 0)).1 + extra
  rwa [h.value] at hread

lemma reads_decodeDistance {c : Coded} (h : CodesDist c dist) :
    Reads (decodeDistance c.code) (Put.bits (extraPuts c)) dist := by
  have hmin := h.min
  have hmax := h.max
  rw [bits_extraPuts, decodeDistance, if_neg (by omega), h.ebits]
  have hread := (reads_brRead h.extra h.ebits_le).bind_pure fun extra => distOffset (c.code - 16) + extra + 1
  rwa [h.value] at hread

variable {input : Bytes}

lemma take_succ_getD {n : ℕ} (hn : n < input.length) : input.take (n + 1) = input.take n ++ [input.getD n 0] := by
  rw [take_add_one, getD_eq_getElem?_getD, getElem?_eq_getElem hn]
  rfl

lemma copyBytes_spec {src : ℕ} (n : ℕ) (hlt : src < pos) (hfits : pos + n ≤ input.length)
    (hsame : ∀ k < n, input.getD (src + k) 0 = input.getD (pos + k) 0) :
    copyBytes n src (input.take pos) = input.take (pos + n) := by
  induction n generalizing src pos with
  | zero => rfl
  | succ n ih =>
    have hbyte : (input.take pos).getD src 0 = input.getD pos 0 := by
      rw [getD_eq_getElem?_getD, getElem?_take_of_lt hlt]
      exact hsame 0 (Nat.succ_pos n)
    rw [copyBytes, hbyte, ← take_succ_getD (by omega), ih (by omega) (by omega), Nat.add_right_comm, add_assoc]
    intro k hk
    have := hsame (k + 1) (by omega)
    rwa [← add_assoc, ← add_assoc, Nat.add_right_comm, Nat.add_right_comm pos] at this

/-- Copying without overlap is copying byte by byte. -/
lemma append_take_eq_copyBytes (n : ℕ) {out : Bytes} {src : ℕ} (h : src + n ≤ out.length) :
    copyBytes n src out = out ++ (out.drop src).take n := by
  induction n generalizing src out with
  | zero => simp [copyBytes]
  | succ n ih =>
    have hlt : src < out.length := by omega
    rw [copyBytes, ih (by simp; omega), drop_append_of_le_length (by omega),
      take_append_of_le_length (by simp; omega), drop_eq_getElem_cons hlt, take_succ_cons,
      getD_eq_getElem?_getD, getElem?_eq_getElem hlt, Option.getD_some, append_assoc,
      singleton_append]

/-- A copy of a match extends the output by the next bytes of the input. -/
lemma copyMatch_spec {ip len outCap : ℕ} (h : IsMatch input ip len dist)
    (hcap : ip + len ≤ outCap) : copyMatch outCap (input.take ip) dist len = some (input.take (ip + len)) := by
  have hpos := h.dist_pos
  have hdist := h.dist_le
  have hfits := h.fits
  have hlen : (input.take ip).length = ip := length_take_of_le (by omega)
  have hcopy := copyBytes_spec len (show ip - dist < ip by omega) hfits h.same
  rw [copyMatch, hlen, if_neg (by omega)]
  simp only
  split_ifs with hover
  · rw [← append_take_eq_copyBytes _ (by omega), hcopy]
  · rw [hcopy]

lemma reads_readLiterals {lit : Hdec} {codes : List HCode} (n : ℕ) (hfits : pos + n ≤ input.length)
    (hread : ∀ b ∈ (input.drop pos).take n, Reads (hdecSymbol lit) (Put.bits [huffPut codes b.toNat]) b.toNat) :
    Reads (readLiterals lit n (input.take pos))
      (Put.bits (((input.drop pos).take n).map fun b => huffPut codes b.toNat)) (input.take (pos + n)) := by
  induction n generalizing pos with
  | zero => exact Reads.pure _
  | succ n ih =>
    have hlt : pos < input.length := by omega
    have hget : input.getD pos 0 = input[pos] := by
      rw [getD_eq_getElem?_getD, getElem?_eq_getElem hlt, Option.getD_some]
    rw [drop_eq_getElem_cons hlt, take_succ_cons] at hread ⊢
    rw [forall_mem_cons] at hread
    have hsym := hread.1
    rw [Put.bits_cons, Put.bits_nil, append_nil] at hsym
    refine hsym.bind ?_
    have hbyte : ¬255 < input[pos].toNat := not_lt.2 (Nat.le_of_lt_succ input[pos].toNat_lt)
    rw [if_neg hbyte, UInt8.ofNat_toNat, ← hget, ← take_succ_getD hlt]
    have hrest := ih (show pos + 1 + n ≤ input.length by omega) hread.2
    rwa [Nat.add_right_comm] at hrest

/-- The tables read every symbol of the three alphabets that occurs. -/
structure ReadsSymbols (h : Hdecs) (codes : Codes) (lits ics dists : List ℕ) : Prop where
  lit : ∀ s ∈ lits, Reads (hdecSymbol h.lit) (Put.bits [huffPut codes.lit s]) s
  ic : ∀ s ∈ ics, Reads (hdecSymbol h.ic) (Put.bits [huffPut codes.ic s]) s
  dist : ∀ s ∈ dists, Reads (hdecSymbol h.dist) (Put.bits [huffPut codes.dist s]) s

section Command

variable {h : Hdecs} {codes : Codes} {input : Bytes} {outCap : ℕ}

lemma copy_codes {ip len : ℕ} (hsize : input.length ≤ 2 ^ 24) (hmatch : IsMatch input ip len dist) (pos : ℕ) :
    CodesLength kInsLen (findInsCode (ip - pos)) (ip - pos) ∧ CodesLength kCopyLen (findCopyCode len) len ∧
      CodesDist (findDistCode dist) dist := by
  have hmin : 4 ≤ len := hmatch.min
  have hfits := hmatch.fits
  exact ⟨findInsCode_spec (by omega), findCopyCode_spec (by omega) (by omega),
    findDistCode_spec hmatch.dist_pos hmatch.window⟩

lemma hasDist_copy {ip len : ℕ} (hmatch : IsMatch input ip len dist) (n : ℕ) :
    LzCmd.hasDist ⟨n, len, dist⟩ = true ∧ LzCmd.copyCode ⟨n, len, dist⟩ = findCopyCode len := by
  have hpos : 0 < len := lt_of_lt_of_le (by decide) hmatch.min
  exact ⟨decide_eq_true hpos, if_pos hpos.ne'⟩

lemma reads_copyCommand (hsize : input.length ≤ 2 ^ 24) (hcap : input.length ≤ outCap)
    {ip len : ℕ} (hpos : pos ≤ ip) (hmatch : IsMatch input ip len dist)
    (hread : ReadsSymbols h codes ((LzCmd.literals ⟨ip - pos, len, dist⟩ input pos).map UInt8.toNat)
      [LzCmd.symbol ⟨ip - pos, len, dist⟩] [(findDistCode dist).code]) :
    Reads (decodeCommand h outCap input.length (input.take pos))
      (Put.bits (commandPuts codes input pos ⟨ip - pos, len, dist⟩)) (input.take (ip + len)) := by
  have hfits := hmatch.fits
  obtain ⟨hins, hcopy, hdist⟩ := copy_codes hsize hmatch pos
  obtain ⟨hhas, hcode⟩ := hasDist_copy hmatch (ip - pos)
  have hsym := hread.ic _ mem_cons_self
  have hdsym := hread.dist _ mem_cons_self
  rw [Put.bits_cons, Put.bits_nil, append_nil] at hsym hdsym
  have hlits := reads_readLiterals (ip - pos) (show pos + (ip - pos) ≤ input.length by omega)
    fun b hb => hread.lit _ (mem_map_of_mem hb)
  rw [Nat.add_sub_cancel' hpos] at hlits
  have hdecode : decodeIcSymbol (LzCmd.symbol ⟨ip - pos, len, dist⟩) =
      some ((findInsCode (ip - pos)).code, (findCopyCode len).code, true) := by
    rw [LzCmd.symbol, hhas, hcode]
    exact decodeIcSymbol_icSymbol _ hins.code _ hcopy.code
  simp only [commandPuts, hhas, hcode, if_true, Put.bits_append, Put.bits_cons, append_assoc]
  refine hsym.bind ?_
  rw [hdecode]
  refine (reads_readLength hins).bind ((reads_readLength hcopy).bind ?_)
  beta_reduce
  rw [if_neg (by rw [length_take]; omega)]
  refine hlits.bind (hdsym.bind ?_)
  rw [← append_nil (Put.bits (extraPuts _))]
  refine (reads_decodeDistance hdist).bind ((Reads.lift (copyMatch_spec hmatch (by omega))).bind_nil ?_)
  rw [if_neg (by rw [length_take]; omega)]
  exact Reads.pure _

/-- The last command has no copy, and is read back as long as its code is among the first eight. -/
lemma reads_lastCommand (hpos : pos < input.length) (hshort : input.length - pos < 10)
    (hread : ReadsSymbols h codes ((LzCmd.literals ⟨input.length - pos, 0, 0⟩ input pos).map UInt8.toNat)
      [LzCmd.symbol ⟨input.length - pos, 0, 0⟩] []) :
    Reads (decodeCommand h outCap input.length (input.take pos))
      (Put.bits (commandPuts codes input pos ⟨input.length - pos, 0, 0⟩)) input := by
  have hins := findInsCode_spec (v := input.length - pos) (by omega)
  have hsym := hread.ic _ mem_cons_self
  rw [Put.bits_cons, Put.bits_nil, append_nil] at hsym
  have hlits := reads_readLiterals (input.length - pos) (show pos + (input.length - pos) ≤ input.length by omega)
    fun b hb => hread.lit _ (mem_map_of_mem hb)
  rw [Nat.add_sub_cancel' hpos.le, take_length] at hlits
  have hdecode : decodeIcSymbol (LzCmd.symbol ⟨input.length - pos, 0, 0⟩) =
      some ((findInsCode (input.length - pos)).code, 0, false) :=
    decodeIcSymbol_icSymbol_last _ (findInsCode_lt_eight hshort)
  have hhas : LzCmd.hasDist ⟨input.length - pos, 0, 0⟩ = false := rfl
  simp only [commandPuts, hhas, Bool.false_eq_true, if_false, Put.bits_append, Put.bits_cons, cons_append, append_nil]
  refine hsym.bind ?_
  rw [hdecode]
  refine (reads_readLength hins).bind ((Reads.pure 0).bind_nil ?_)
  beta_reduce
  rw [if_neg (by rw [length_take]; omega)]
  exact hlits.bind_pure id

/-! ### All commands -/

/-- Where the commands without a copy are short enough for their code. -/
def ShortLast (cmds : List LzCmd) : Prop := ∀ c ∈ cmds, c.copyLen = 0 → c.insLen < 10
deriving Decidable

lemma Covers.length_le {cmds : List LzCmd} (hcovers : Covers input pos cmds) : cmds.length + pos ≤ input.length := by
  induction hcovers with
  | done => simp
  | literals hlt => simpa [add_comm] using hlt
  | copy hpos hmatch _ ih =>
    have hmin : 4 ≤ _ := hmatch.min
    rw [length_cons]
    omega

lemma next_copy {ip len : ℕ} (hpos : pos ≤ ip) (hmatch : IsMatch input ip len dist) :
    LzCmd.next ⟨ip - pos, len, dist⟩ input pos = ip + len := by
  have hfits := hmatch.fits
  have hlen : (LzCmd.literals ⟨ip - pos, len, dist⟩ input pos).length = ip - pos := by
    rw [LzCmd.literals, length_take, length_drop]
    simp only
    omega
  rw [LzCmd.next, if_pos (hasDist_copy hmatch _).1]
  simp only
  omega

/-- The decoder reads back a command list that describes the input. -/
theorem reads_decodeCommands (hsize : input.length ≤ 2 ^ 24) (hcap : input.length ≤ outCap)
    {cmds : List LzCmd} (hcovers : Covers input pos cmds) (hshort : ShortLast cmds)
    (hread : ReadsSymbols h codes (litSymbols input pos cmds) (icSymbols cmds) (distSymbols cmds))
    {fuel : ℕ} (hfuel : cmds.length < fuel) : Reads (decodeCommands h outCap input.length fuel (input.take pos))
      (Put.bits (dataPuts codes input pos cmds)) input := by
  induction hcovers generalizing fuel with
  | done =>
    obtain ⟨fuel, rfl⟩ : ∃ n, fuel = n + 1 := ⟨fuel - 1, by omega⟩
    rw [take_length, decodeCommands, if_neg (lt_irrefl _)]
    exact Reads.pure input
  | @literals pos hlt =>
    obtain ⟨fuel, rfl⟩ : ∃ n, fuel = n + 2 := ⟨fuel - 2, by simp at hfuel; omega⟩
    have hlast : Reads (decodeCommand h outCap input.length (input.take pos)) _ _ :=
      reads_lastCommand hlt (hshort _ mem_cons_self rfl)
        ⟨by simpa [litSymbols] using hread.lit, by simpa [icSymbols] using hread.ic, by simp⟩
    rw [decodeCommands, if_pos (by rw [length_take]; omega), dataPuts, Put.bits_append]
    refine hlast.bind ?_
    rw [decodeCommands, if_neg (lt_irrefl _)]
    exact Reads.pure input
  | @copy pos ip len dist cmds hpos hmatch rest ih =>
    obtain ⟨fuel, rfl⟩ : ∃ n, fuel = n + 1 := ⟨fuel - 1, by omega⟩
    have hmin : 4 ≤ len := hmatch.min
    have hfits := hmatch.fits
    have hdists : distSymbols (⟨ip - pos, len, dist⟩ :: cmds) = (findDistCode dist).code :: distSymbols cmds := by
      simp [distSymbols, hasDist_copy hmatch]
    obtain ⟨hlit, hic, hdist⟩ := hread
    rw [litSymbols, next_copy hpos hmatch, forall_mem_append] at hlit
    rw [hdists, forall_mem_cons] at hdist
    rw [icSymbols, map_cons, forall_mem_cons] at hic
    have hone := reads_copyCommand hsize hcap hpos hmatch ⟨hlit.1, by simpa using hic.1, by simpa using hdist.1⟩
    rw [decodeCommands, if_pos (by rw [length_take]; omega), dataPuts, next_copy hpos hmatch, Put.bits_append]
    exact hone.bind (ih (fun c hc => hshort c (mem_cons_of_mem _ hc)) ⟨hlit.2, hic.2, hdist.2⟩
      (by simp at hfuel; omega))

end Command

lemma litSymbols_lt (input : Bytes) (lp : ℕ) (cmds : List LzCmd) : ∀ s ∈ litSymbols input lp cmds, s < 256 := by
  induction cmds generalizing lp with
  | nil => simp [litSymbols]
  | cons c cmds ih =>
    rw [litSymbols, forall_mem_append]
    refine ⟨fun s hs => ?_, ih _⟩
    obtain ⟨b, -, rfl⟩ := mem_map.1 hs
    exact b.toNat_lt

lemma findCode_code_lt (table : List (ℕ × ℕ)) (v n : ℕ) : (findCode table v (n + 1)).code < n + 1 := by
  induction n with
  | zero =>
    simp only [findCode]
    split_ifs <;> simp
  | succ n ih =>
    rw [findCode]
    split_ifs
    · simp
    · omega

lemma icSymbols_lt (cmds : List LzCmd) : ∀ s ∈ icSymbols cmds, s < 704 := by
  intro s hs
  obtain ⟨c, -, rfl⟩ := mem_map.1 hs
  refine icSymbol_lt _ (findCode_code_lt _ _ 23) _ ?_ _
  rw [LzCmd.copyCode]
  split_ifs
  · exact findCode_code_lt _ _ 23
  · simp

lemma distSymbols_lt (cmds : List LzCmd) : ∀ s ∈ distSymbols cmds, s < 64 := by
  intro s hs
  obtain ⟨c, -, rfl⟩ := mem_map.1 hs
  rw [findDistCode]
  split_ifs
  · simp
  · simp only
    split
    · rename_i hcode hf
      have := mem_range.1 (mem_of_find?_eq_some hf)
      simp only
      omega
    · simp

lemma narrow_huffPuts {α : Type} (codes : List HCode) (f : α → ℕ) (xs : List α) :
    Put.Narrow (xs.map fun x => huffPut codes (f x)) := by
  intro p hp
  obtain ⟨x, -, rfl⟩ := mem_map.1 hp
  exact bwHuff_lt _

lemma narrow_dataPuts {codes : Codes} {cmds : List LzCmd}
    (hsize : input.length ≤ 2 ^ 24) (hcovers : Covers input pos cmds) :
    Put.Narrow (dataPuts codes input pos cmds) := by
  induction hcovers with
  | done => exact Put.narrow_nil
  | @literals pos hlt =>
    have hins := findInsCode_spec (v := input.length - pos) (by omega)
    have hhas : LzCmd.hasDist ⟨input.length - pos, 0, 0⟩ = false := rfl
    simp only [dataPuts, commandPuts, hhas, Bool.false_eq_true, if_false, Put.narrow_append,
      Put.narrow_cons, Put.narrow_nil, cons_append, and_true]
    exact ⟨bwHuff_lt _, narrow_extraPuts hins.extra, narrow_huffPuts _ _ _⟩
  | @copy pos ip len dist cmds hpos hmatch rest ih =>
    obtain ⟨hins, hcopy, hdist⟩ := copy_codes hsize hmatch pos
    obtain ⟨hhas, hcode⟩ := hasDist_copy hmatch (ip - pos)
    rw [dataPuts, next_copy hpos hmatch]
    simp only [commandPuts, hhas, hcode, if_true, Put.narrow_append, Put.narrow_cons, cons_append]
    refine ⟨bwHuff_lt _, ⟨⟨⟨?_, ?_⟩, narrow_huffPuts _ _ _⟩, bwHuff_lt _, ?_⟩, ih⟩
    · exact narrow_extraPuts hins.extra
    · exact narrow_extraPuts hcopy.extra
    · exact narrow_extraPuts hdist.extra

end Brotli
