import Picoweb.Lib.BoundedReader
import Picoweb.Lib.Reassembly

/-!
# Reassembly of CRYPTO and STREAM frames

`crypto_stream.c` puts the payloads of frames into one buffer at their offsets. A bitmap says which
bytes have arrived, and after each frame the prefix without a gap is extended. `stream.c` adds the end
of a stream, which the FIN bit of a frame fixes.
-/

namespace Quic

open ByteFile Bounded Reassembly List

/-! ### The bitmap -/

/-- `bm_get`: bit `i & 7` of byte `i >> 3`. -/
def bmGet (bm : Bytes) (i : ℕ) : Bool := (bm.getD (i / 8) 0).toNat.testBit (i % 8)

def bmSet (bm : Bytes) (i : ℕ) : Bytes := bm.modify (i / 8) (· ||| (1 <<< UInt8.ofNat (i % 8)))

@[simp] lemma length_bmSet (bm : Bytes) (i : ℕ) : (bmSet bm i).length = bm.length := length_modify ..

lemma testBit_or_shift (b : UInt8) {k : ℕ} (hk : k < 8) (j : ℕ) :
    (b ||| (1 <<< UInt8.ofNat k)).toNat.testBit j = (b.toNat.testBit j || decide (j = k)) := by
  have hpow : ((1 : UInt8) <<< UInt8.ofNat k).toNat = 2 ^ k := by
    have : ∀ k < 8, ((1 : UInt8) <<< UInt8.ofNat k).toNat = 2 ^ k := by decide
    exact this k hk
  rw [UInt8.toNat_or, hpow, Nat.testBit_or, Nat.testBit_two_pow]
  congr 1
  simp only [eq_comm]

lemma bmGet_bmSet {bm : Bytes} {i : ℕ} (hi : i / 8 < bm.length) (j : ℕ) :
    bmGet (bmSet bm i) j = (bmGet bm j || decide (j = i)) := by
  rw [bmGet, bmGet, bmSet]
  by_cases hbyte : j / 8 = i / 8
  · have hset : (bm.modify (i / 8) (· ||| (1 <<< UInt8.ofNat (i % 8)))).getD (j / 8) 0 =
        bm.getD (j / 8) 0 ||| (1 <<< UInt8.ofNat (i % 8)) := by
      simp [hbyte, getElem?_eq_getElem hi]
    rw [hset, testBit_or_shift _ (Nat.mod_lt _ (by decide))]
    congr 1
    rw [decide_eq_decide]
    omega
  · have hsame : (bm.modify (i / 8) (· ||| (1 <<< UInt8.ofNat (i % 8)))).getD (j / 8) 0 = bm.getD (j / 8) 0 := by
      simp [Ne.symm hbyte]
    have hne : j ≠ i := fun h => hbyte (by rw [h])
    rw [hsame, decide_eq_false hne, Bool.or_false]

lemma bmGet_zeros (n i : ℕ) : bmGet (replicate n 0) i = false := by
  have hbyte : (replicate n (0 : UInt8)).getD (i / 8) 0 = 0 := by
    rw [getD_eq_getElem?_getD, getElem?_replicate]
    split <;> rfl
  rw [bmGet, hbyte]
  exact Nat.zero_testBit _

/-! ### The buffer of a CRYPTO stream -/

/-- `quic_crypto_rx_t`; the capacities are the lengths of its two buffers. -/
structure CryptoRx where
  data : Bytes
  bitmap : Bytes
  contigLen : ℕ
  highest : ℕ
  consumed : ℕ
  deriving DecidableEq, Repr

namespace CryptoRx

/-- `quic_crypto_rx_init` clears the bitmap and leaves the data as it is. -/
def init (data : Bytes) (bitmapCap : ℕ) : CryptoRx where
  data := data
  bitmap := replicate bitmapCap 0
  contigLen := 0
  highest := 0
  consumed := 0

/-- New bytes, only bytes that were there, or an error. -/
inductive Staged
  | fresh
  | duplicate
  | error
  deriving DecidableEq, Repr

def store (rx : CryptoRx) (pos : ℕ) (b : UInt8) : CryptoRx :=
  { rx with data := rx.data.set pos b, bitmap := bmSet rx.bitmap pos }

/-- The loop over the payload. A byte that is there already has to be the same. -/
def stageBytes : Bytes → ℕ → CryptoRx → Bool → Staged × CryptoRx
  | [], _, rx, sawNew => (if sawNew then .fresh else .duplicate, rx)
  | b :: payload, pos, rx, sawNew =>
    if bmGet rx.bitmap pos then
      if rx.data.getD pos 0 ≠ b then (.error, rx) else stageBytes payload (pos + 1) rx sawNew
    else stageBytes payload (pos + 1) (rx.store pos b) true

/-- The loop that moves the prefix on, for at most `n` bytes. -/
def extend (bm : Bytes) : ℕ → ℕ → ℕ
  | 0, contig => contig
  | n + 1, contig => if bmGet bm contig then extend bm n (contig + 1) else contig

/-- `quic_crypto_rx_stage` -/
def stage (rx : CryptoRx) (offset : ℕ) (payload : Bytes) : Staged × CryptoRx :=
  if payload.length = 0 then (.duplicate, rx)
  else if rx.data.length < offset ∨ rx.data.length - offset < payload.length then (.error, rx)
  else if rx.bitmap.length < sizeAdd (sizeAdd offset payload.length) 7 / 8 then (.error, rx)
  else
    match stageBytes payload offset rx false with
    | (.error, rx) => (.error, rx)
    | (rc, rx) =>
      let highest := max rx.highest (offset + payload.length)
      (rc, { rx with
        highest := highest
        contigLen := extend rx.bitmap (highest - rx.contigLen) rx.contigLen })

/-- `quic_crypto_rx_peek`; nothing stands for the null pointer. -/
def peek (rx : CryptoRx) : Option Bytes :=
  if rx.contigLen ≤ rx.consumed then none
  else some ((rx.data.drop rx.consumed).take (rx.contigLen - rx.consumed))

/-- `quic_crypto_rx_advance` -/
def advance (rx : CryptoRx) (n : ℕ) : CryptoRx :=
  { rx with consumed := rx.consumed + min n (sizeSub rx.contigLen rx.consumed) }

end CryptoRx

/-! ### The buffer of a stream -/

/-- `quic_stream_rx_t` -/
structure StreamRx where
  inUse : Bool
  streamId : ℕ
  finSeen : Bool
  finalSize : ℕ
  rx : CryptoRx
  deriving DecidableEq, Repr

namespace StreamRx

abbrev rxCap : ℕ := 16384

abbrev bitmapCap : ℕ := (rxCap + 7) / 8

/-- `quic_stream_rx_init` -/
def init (streamId : ℕ) : StreamRx where
  inUse := true
  streamId := streamId
  finSeen := false
  finalSize := 0
  rx := .init (replicate rxCap 0) bitmapCap

/-- What is left to do once the final size is checked. -/
def ingestBytes (s : StreamRx) (offset : ℕ) (data : Bytes) (fin : Bool) : CryptoRx.Staged × StreamRx :=
  if data.length = 0 then (if fin then .fresh else .duplicate, s)
  else
    let (rc, rx) := s.rx.stage offset data
    (rc, { s with rx := rx })

/-- `quic_stream_rx_ingest` -/
def ingest (s : StreamRx) (offset : ℕ) (data : Bytes) (fin : Bool) : CryptoRx.Staged × StreamRx :=
  if s.inUse = false then (.error, s)
  else if sizeAdd offset data.length < offset then (.error, s)
  else
    let stop := sizeAdd offset data.length
    if s.finSeen then
      if s.finalSize < stop then (.error, s)
      else if fin ∧ stop ≠ s.finalSize then (.error, s)
      else s.ingestBytes offset data fin
    else if fin then
      if stop < s.rx.highest then (.error, s)
      else { s with finSeen := true, finalSize := stop }.ingestBytes offset data fin
    else s.ingestBytes offset data fin

def peek (s : StreamRx) : Option Bytes := if s.inUse then s.rx.peek else none

def advance (s : StreamRx) (n : ℕ) : StreamRx := if s.inUse then { s with rx := s.rx.advance n } else s

/-- `quic_stream_rx_is_complete` -/
def isComplete (s : StreamRx) : Bool := s.inUse && s.finSeen && s.rx.contigLen = s.finalSize

end StreamRx

/-! ### What the buffers hold of a string -/

def cut (s : Bytes) (off len : ℕ) : Bytes := (s.drop off).take len

variable {len off : ℕ}

lemma length_cut {s : Bytes} (h : off + len ≤ s.length) : (cut s off len).length = len := by
  rw [cut, length_take, length_drop, Nat.min_eq_left (Nat.le_sub_of_add_le' h)]

lemma cut_isPrefix (s : Bytes) (off len : ℕ) : cut s off len <+: s.drop off := take_prefix _ _

namespace CryptoRx

variable {rx : CryptoRx} {s : Bytes} {R : Set ℕ}

/-- The bitmap marks the positions of a set, and there the data is that of the string. -/
structure Holds (rx : CryptoRx) (s : Bytes) (R : Set ℕ) : Prop where
  arrived : ∀ i, bmGet rx.bitmap i = true ↔ i ∈ R
  same : ∀ i ∈ R, rx.data.getD i 0 = s.getD i 0
  fits : s.length ≤ rx.data.length
  mapped : (rx.data.length + 7) / 8 ≤ rx.bitmap.length

lemma Holds.store (h : rx.Holds s R) {pos : ℕ} (hpos : pos < s.length) :
    (rx.store pos (s.getD pos 0)).Holds s (insert pos R) where
  arrived i := by
    have hbyte : pos / 8 < rx.bitmap.length := by
      have := h.fits
      have := h.mapped
      omega
    change bmGet (bmSet rx.bitmap pos) i = true ↔ _
    rw [bmGet_bmSet hbyte, Bool.or_eq_true, decide_eq_true_eq, h.arrived i, Set.mem_insert_iff, or_comm]
  same i hi := by
    change (rx.data.set pos (s.getD pos 0)).getD i 0 = _
    rw [getD_eq_getElem?_getD, getElem?_set]
    split
    · next heq =>
      rw [if_pos (heq ▸ hpos.trans_le h.fits), heq]
      rfl
    · next hne =>
      exact h.same i (hi.resolve_left fun heq => hne heq.symm)
  fits := h.fits.trans_eq (length_set ..).symm
  mapped := by
    change ((rx.data.set pos _).length + 7) / 8 ≤ (bmSet rx.bitmap pos).length
    rw [length_set, length_bmSet]
    exact h.mapped

/-- Only the data and the bitmap differ, and the data is as long as it was. -/
structure Beside (rx rx' : CryptoRx) : Prop where
  contigLen : rx'.contigLen = rx.contigLen
  highest : rx'.highest = rx.highest
  consumed : rx'.consumed = rx.consumed
  cap : rx'.data.length = rx.data.length

/-- A payload that agrees with the string is staged without a conflict. -/
lemma Holds.stageBytes {payload : Bytes} {pos : ℕ} (sawNew : Bool) (h : rx.Holds s R)
    (hpayload : payload <+: s.drop pos) :
    ∃ rc rx', CryptoRx.stageBytes payload pos rx sawNew = (rc, rx') ∧ rc ≠ .error ∧
      rx'.Holds s (R ∪ Set.Ico pos (pos + payload.length)) ∧ rx.Beside rx' := by
  induction payload generalizing pos rx R sawNew with
  | nil =>
    refine ⟨_, rx, rfl, ?_, ?_, ⟨rfl, rfl, rfl, rfl⟩⟩
    · split <;> decide
    · rw [length_nil, Nat.add_zero, Set.Ico_self, Set.union_empty]
      exact h
  | cons b payload ih =>
    obtain ⟨rest, hrest⟩ := hpayload
    have hpos : pos < s.length := by
      by_contra hge
      rw [drop_eq_nil_of_le (Nat.not_lt.1 hge)] at hrest
      cases hrest
    rw [drop_eq_getElem_cons hpos] at hrest
    obtain ⟨hb, htail⟩ := cons.inj hrest
    have hbyte : b = s.getD pos 0 := by
      rw [hb, getD_eq_getElem?_getD, getElem?_eq_getElem hpos]
      rfl
    have hnext : payload <+: s.drop (pos + 1) := ⟨rest, htail⟩
    have hset : insert pos R ∪ Set.Ico (pos + 1) (pos + 1 + payload.length) =
        R ∪ Set.Ico pos (pos + (b :: payload).length) := by
      ext i
      simp only [Set.mem_union, Set.mem_insert_iff, Set.mem_Ico, length_cons]
      by_cases hi : i ∈ R
      · simp [hi]
      · simp only [hi, or_false, false_or]
        omega
    rw [CryptoRx.stageBytes]
    split
    · next hmark =>
      -- the byte is there, and it is the string's
      have hmem : pos ∈ R := (h.arrived pos).1 hmark
      have hsame : rx.data.getD pos 0 = b := (h.same pos hmem).trans hbyte.symm
      obtain ⟨rc, rx', hrun, hrc, hholds, hbeside⟩ := ih sawNew h hnext
      rw [← hset, Set.insert_eq_of_mem hmem]
      rw [if_neg (not_not_intro hsame)]
      exact ⟨rc, rx', hrun, hrc, hholds, hbeside⟩
    · obtain ⟨rc, rx', hrun, hrc, hholds, hbeside⟩ := ih true (h.store hpos) hnext
      rw [← hset, hbyte]
      refine ⟨rc, rx', hrun, hrc, hholds, hbeside.contigLen, hbeside.highest, hbeside.consumed, ?_⟩
      exact hbeside.cap.trans (length_set ..)

/-- The prefix is moved on to the first byte that is missing. -/
lemma extend_spec {bm : Bytes} {n contig : ℕ} (hbelow : ∀ i < contig, bmGet bm i = true)
    (hstop : bmGet bm (contig + n) = false) :
    (∀ i < extend bm n contig, bmGet bm i = true) ∧ bmGet bm (extend bm n contig) = false := by
  induction n generalizing contig with
  | zero => exact ⟨hbelow, hstop⟩
  | succ n ih =>
    rw [extend]
    split
    · next hmark =>
      apply ih
      · intro i hi
        rcases Nat.lt_succ_iff_lt_or_eq.1 hi with hlt | rfl
        · exact hbelow i hlt
        · exact hmark
      · rw [Nat.add_right_comm]
        exact hstop
    · next hclear =>
      exact ⟨hbelow, Bool.eq_false_iff.2 hclear⟩

/-! ### The buffer refines the abstract one -/

/-- The buffer holds what has arrived, its prefix ends at the first gap, and as much was consumed as was taken. -/
structure Refines (rx : CryptoRx) (s : Bytes) (b : Buffer) : Prop where
  holds : rx.Holds s b.received
  below : b.received ⊆ Set.Iio rx.highest
  highest : rx.highest ≤ s.length
  contig : rx.contigLen = b.gapFree
  consumed : rx.consumed = b.taken
  taken : b.taken ≤ b.gapFree
  addressable : rx.data.length < 2 ^ 64

def step (s : Bytes) (rx : CryptoRx) : Event → CryptoRx
  | .slice off len _ => (rx.stage off (cut s off len)).2
  | .peek => rx
  | .advance n => rx.advance n

variable {b : Buffer}

lemma refines_init {data : Bytes} {bitmapCap : ℕ} (hcap : data.length < 2 ^ 64)
    (hmap : (data.length + 7) / 8 ≤ bitmapCap) (hs : s.length ≤ data.length) :
    (init data bitmapCap).Refines s .empty where
  holds :=
    { arrived := fun i => by
        change bmGet (replicate bitmapCap 0) i = true ↔ i ∈ (∅ : Set ℕ)
        rw [bmGet_zeros]
        simp
      same := fun i hi => absurd hi (Set.notMem_empty i)
      fits := hs
      mapped := hmap.trans_eq length_replicate.symm }
  below := Set.empty_subset _
  highest := Nat.zero_le _
  contig := Buffer.gapFree_empty.symm
  consumed := rfl
  taken := Nat.zero_le _
  addressable := hcap

lemma Refines.gapFree_le_highest (h : rx.Refines s b) : b.gapFree ≤ rx.highest := Buffer.gapFree_le h.below

/-- The checks before the loop are passed by every slice of the string. -/
lemma Refines.stage_eq (h : rx.Refines s b) (hlen : 0 < len) (hs : off + len ≤ s.length) :
    rx.stage off (cut s off len) =
      match stageBytes (cut s off len) off rx false with
      | (.error, rx) => (.error, rx)
      | (rc, rx) =>
        (rc, { rx with
          highest := max rx.highest (off + len)
          contigLen := extend rx.bitmap (max rx.highest (off + len) - rx.contigLen) rx.contigLen }) := by
  have hfits := hs.trans h.holds.fits
  have hmapped : sizeAdd (sizeAdd off len) 7 / 8 ≤ rx.bitmap.length := by
    have hle : sizeAdd (sizeAdd off len) 7 ≤ off + len + 7 :=
      (Nat.mod_le _ _).trans (Nat.add_le_add_right (Nat.mod_le _ _) 7)
    have := h.holds.mapped
    omega
  rw [stage, length_cut hs, if_neg hlen.ne', if_neg (by omega), if_neg (Nat.not_lt.2 hmapped)]

/-- The end of a slice, or what was the end before, lies beyond everything received. -/
lemma Refines.below_slice (h : rx.Refines s b) (off len : ℕ) :
    b.received ∪ Set.Ico off (off + len) ⊆ Set.Iio (max rx.highest (off + len)) := by
  rintro i (hi | hi)
  · exact Set.mem_Iio.2 (lt_max_of_lt_left (Set.mem_Iio.1 (h.below hi)))
  · exact Set.mem_Iio.2 (lt_max_of_lt_right hi.2)

/-- After the loop over the payload the prefix is moved on to the first gap of what has arrived. -/
lemma Refines.extend_eq (h : rx.Refines s b) {rx' : CryptoRx} (last : Bool)
    (hholds : rx'.Holds s (b.received ∪ Set.Ico off (off + len))) :
    extend rx'.bitmap (max rx.highest (off + len) - rx.contigLen) rx.contigLen =
      (b.step (.slice off len last)).gapFree := by
  have hstart : rx.contigLen ≤ max rx.highest (off + len) := by
    rw [h.contig]
    exact le_max_of_le_left h.gapFree_le_highest
  have hbelow : ∀ i < rx.contigLen, bmGet rx'.bitmap i = true := by
    intro i hi
    rw [h.contig] at hi
    exact (hholds.arrived i).2 (.inl (Buffer.mem_of_lt_gapFree hi))
  have hstop : bmGet rx'.bitmap (rx.contigLen + (max rx.highest (off + len) - rx.contigLen)) = false := by
    rw [Nat.add_sub_cancel' hstart, Bool.eq_false_iff]
    intro hmark
    exact lt_irrefl _ (Set.mem_Iio.1 (h.below_slice off len ((hholds.arrived _).1 hmark)))
  obtain ⟨hmarked, hclear⟩ := extend_spec hbelow hstop
  symm
  apply Buffer.gapFree_eq
  · intro i hi
    exact (hholds.arrived i).1 (hmarked i hi)
  · intro hmem
    exact Bool.eq_false_iff.1 hclear ((hholds.arrived _).2 hmem)

lemma Refines.congr (h : rx.Refines s b) {b' : Buffer} (hreceived : b'.received = b.received)
    (htaken : b'.taken = b.taken) : rx.Refines s b' := by
  have hgap : b'.gapFree = b.gapFree := by
    rw [Buffer.gapFree, Buffer.gapFree, hreceived]
  refine ⟨?_, ?_, h.highest, h.contig.trans hgap.symm, h.consumed.trans htaken.symm, ?_, h.addressable⟩
  · rw [hreceived]
    exact h.holds
  · rw [hreceived]
    exact h.below
  · rw [htaken, hgap]
    exact h.taken

@[simp] lemma stage_nil (rx : CryptoRx) (off : ℕ) : rx.stage off [] = (.duplicate, rx) := rfl

/-- A slice of the string is not rejected, and the buffer then holds it too. -/
lemma Refines.stage (h : rx.Refines s b) (hs : off + len ≤ s.length) (last : Bool) :
    (rx.stage off (cut s off len)).1 ≠ .error ∧
      (rx.stage off (cut s off len)).2.Refines s (b.step (.slice off len last)) := by
  rcases Nat.eq_zero_or_pos len with rfl | hlen
  · have hnil : cut s off 0 = [] := rfl
    rw [hnil, stage_nil]
    exact ⟨Staged.noConfusion, h.congr (Buffer.received_step_slice_zero off last) rfl⟩
  · obtain ⟨rc, rx', hrun, hrc, hholds, hbeside⟩ := h.holds.stageBytes false (cut_isPrefix s off len)
    rw [length_cut hs] at hholds
    have hstage : rx.stage off (cut s off len) = (rc, { rx' with
        highest := max rx.highest (off + len)
        contigLen := extend rx'.bitmap (max rx.highest (off + len) - rx.contigLen) rx.contigLen }) := by
      rw [h.stage_eq hlen hs, hrun, ← hbeside.highest, ← hbeside.contigLen]
      cases rc with
      | fresh | duplicate => rfl
      | error => exact absurd rfl hrc
    rw [hstage]
    refine ⟨hrc, { hholds with }, h.below_slice off len, ?_,
      h.extend_eq last hholds, hbeside.consumed.trans h.consumed, ?_, hbeside.cap.trans_lt h.addressable⟩
    · exact max_le h.highest hs
    · exact h.taken.trans (Buffer.gapFree_mono Set.subset_union_left (h.below_slice off len))

/-- Advancing consumes what the abstract buffer hands on. -/
lemma Refines.advance (h : rx.Refines s b) (n : ℕ) : (rx.advance n).Refines s (b.step (.advance n)) := by
  have hgap : b.gapFree < 2 ^ 64 :=
    ((h.gapFree_le_highest.trans h.highest).trans h.holds.fits).trans_lt h.addressable
  have htaken : rx.consumed + min n (sizeSub rx.contigLen rx.consumed) = min (b.taken + n) b.gapFree := by
    have := h.taken
    rw [h.contig, h.consumed, sizeSub_of_le h.taken hgap]
    omega
  exact ⟨⟨h.holds.arrived, h.holds.same, h.holds.fits, h.holds.mapped⟩, h.below, h.highest, h.contig, htaken,
    Nat.min_le_right _ _, h.addressable⟩

/-- A look shows what the abstract buffer shows. -/
lemma Refines.peek (h : rx.Refines s b) : rx.peek = b.look s := by
  have hgap : b.gapFree ≤ s.length := h.gapFree_le_highest.trans h.highest
  rw [CryptoRx.peek, h.contig, h.consumed]
  split
  · next hle =>
    exact (Buffer.look_eq_none hle).symm
  · next hlt =>
    rw [Buffer.look_eq_some (Nat.not_le.1 hlt) hgap, ← drop_take]
    congr 2
    -- below the first gap the data is the string's
    apply ext_getElem?
    intro i
    rw [getElem?_take, getElem?_take]
    split
    · next hi =>
      have hsame := h.holds.same i (Buffer.mem_of_lt_gapFree hi)
      have his : i < s.length := hi.trans_le hgap
      have hid : i < rx.data.length := his.trans_le h.holds.fits
      rw [getD_eq_getElem?_getD, getD_eq_getElem?_getD, getElem?_eq_getElem hid,
        getElem?_eq_getElem his] at hsame
      rw [getElem?_eq_getElem hid, getElem?_eq_getElem his]
      exact congrArg some hsame
    · rfl

lemma Refines.step (h : rx.Refines s b) {e : Event} (he : e.Of s) : (rx.step s e).Refines s (b.step e) := by
  cases e with
  | slice off len last => exact (h.stage he.1 last).2
  | peek => exact h
  | advance n => exact h.advance n

/-- A whole run of slices, looks and advances keeps to the abstract buffer. -/
lemma refines_run (h : rx.Refines s b) {es : List Event} (hes : ∀ e ∈ es, e.Of s) :
    (es.foldl (CryptoRx.step s) rx).Refines s (es.foldl Buffer.step b) :=
  foldl_rel (r := (Refines · s ·)) h fun e he _ _ h => h.step (hes e he)

end CryptoRx

namespace StreamRx

def step (s : Bytes) (rx : StreamRx) : Event → StreamRx
  | .slice off len last => (rx.ingest off (cut s off len) last).2
  | .peek => rx
  | .advance n => rx.advance n

variable {st : StreamRx} {s : Bytes} {b : Buffer}

/-- The stream is in use, its buffer refines the abstract one, and a FIN that was seen fixed the string's length. -/
structure Refines (st : StreamRx) (s : Bytes) (b : Buffer) : Prop where
  inUse : st.inUse = true
  rx : st.rx.Refines s b
  ended : st.finSeen = true ↔ b.ended
  finalSize : st.finSeen = true → st.finalSize = s.length

lemma refines_init (streamId : ℕ) (hs : s.length ≤ rxCap) : (init streamId).Refines s .empty where
  inUse := rfl
  rx := CryptoRx.refines_init (by rw [length_replicate]; decide) (by rw [length_replicate])
    (hs.trans_eq length_replicate.symm)
  ended := by simp [init, Buffer.empty]
  finalSize h := absurd h Bool.false_ne_true

/-- The checks of the final size are passed by every slice of the string. -/
lemma Refines.ingest_eq (h : st.Refines s b) {last : Bool} (he : (Event.slice off len last).Of s) :
    st.ingest off (cut s off len) last =
      { st with
        finSeen := st.finSeen || last
        finalSize := if last then s.length else st.finalSize }.ingestBytes off (cut s off len) last := by
  obtain ⟨hs, hlast⟩ := he
  have hstop : sizeAdd off len = off + len :=
    sizeAdd_of_lt ((hs.trans h.rx.holds.fits).trans_lt h.rx.addressable)
  rw [ingest, length_cut hs, hstop, if_neg (by rw [h.inUse]; decide), if_neg (Nat.not_lt.2 (Nat.le_add_right _ _))]
  cases hseen : st.finSeen with
  | true =>
    have hfinal := h.finalSize hseen
    have hagree : ¬(last = true ∧ off + len ≠ st.finalSize) := by
      rintro ⟨hl, hne⟩
      exact hne ((hlast hl).trans hfinal.symm)
    have hsize : (if last = true then s.length else st.finalSize) = st.finalSize := by
      rw [hfinal, ite_self]
    have hself : { st with finSeen := true, finalSize := st.finalSize } = st := by
      rw [← hseen]
    rw [if_pos rfl, if_neg (by omega), if_neg hagree, hsize, Bool.true_or, hself]
  | false =>
    cases last with
    | true =>
      have hhigh := h.rx.highest
      rw [hlast rfl, if_neg Bool.false_ne_true, if_pos rfl, if_neg (Nat.not_lt.2 hhigh), if_pos rfl]
      rfl
    | false =>
      have hself : { st with finSeen := false, finalSize := st.finalSize } = st := by
        rw [← hseen]
      rw [if_neg Bool.false_ne_true, if_neg Bool.false_ne_true, if_neg Bool.false_ne_true, Bool.or_self, hself]

/-- A slice of the string is not rejected, and the stream then holds it too. -/
lemma Refines.ingest (h : st.Refines s b) {last : Bool} (he : (Event.slice off len last).Of s) :
    (st.ingest off (cut s off len) last).1 ≠ .error ∧
      (st.ingest off (cut s off len) last).2.Refines s (b.step (.slice off len last)) := by
  have hended : (st.finSeen || last) = true ↔ (b.step (.slice off len last)).ended := by
    rw [Bool.or_eq_true, h.ended]
    rfl
  have hfinal : (st.finSeen || last) = true → (if last = true then s.length else st.finalSize) = s.length := by
    intro hseen
    split
    · rfl
    · next hlast =>
      exact h.finalSize ((Bool.or_eq_true _ _ ▸ hseen).resolve_right hlast)
  rw [h.ingest_eq he, ingestBytes, length_cut he.1]
  split
  · next hlen =>
    subst hlen
    refine ⟨?_, h.inUse, h.rx.congr (Buffer.received_step_slice_zero off last) rfl, hended, hfinal⟩
    split <;> exact CryptoRx.Staged.noConfusion
  · obtain ⟨hrc, hrefines⟩ := h.rx.stage he.1 last
    exact ⟨hrc, h.inUse, hrefines, hended, hfinal⟩

lemma Refines.step (h : st.Refines s b) {e : Event} (he : e.Of s) : (st.step s e).Refines s (b.step e) := by
  cases e with
  | slice off len last => exact (h.ingest he).2
  | peek => exact h
  | advance n =>
    change (st.advance n).Refines s _
    rw [StreamRx.advance, if_pos h.inUse]
    exact ⟨h.inUse, h.rx.advance n, h.ended, h.finalSize⟩

lemma refines_run (h : st.Refines s b) {es : List Event} (hes : ∀ e ∈ es, e.Of s) :
    (es.foldl (StreamRx.step s) st).Refines s (es.foldl Buffer.step b) :=
  foldl_rel (r := (Refines · s ·)) h fun e he _ _ h => h.step (hes e he)

lemma Refines.peek (h : st.Refines s b) : st.peek = b.look s := by
  rw [StreamRx.peek, if_pos h.inUse]
  exact h.rx.peek

/-- Completion is reported once the end is known and nothing is missing. -/
lemma Refines.isComplete_iff (h : st.Refines s b) : st.isComplete = true ↔ b.Complete s := by
  have hbelow : b.received ⊆ Set.Iio s.length := fun i hi =>
    Set.mem_Iio.2 ((Set.mem_Iio.1 (h.rx.below hi)).trans_le h.rx.highest)
  rw [isComplete, h.inUse, Bool.and_eq_true, decide_eq_true_eq, h.rx.contig, Buffer.Complete,
    ← h.ended, ← Buffer.gapFree_eq_iff hbelow]
  constructor
  · rintro ⟨hseen, hsize⟩
    exact ⟨hseen, hsize.trans (h.finalSize hseen)⟩
  · rintro ⟨hseen, hsize⟩
    exact ⟨hseen, hsize.trans (h.finalSize hseen).symm⟩

end StreamRx

/-- Both kinds of buffer reassemble a string exactly: after any slices, looks and advances a further slice is not
rejected, a look shows the received prefix without a gap less what was advanced over, and a stream is complete
when its end and all its bytes have arrived. -/
theorem reassembly_exact (s : Bytes) (es : List Event) (hes : ∀ e ∈ es, e.Of s) :
    (∀ (data : Bytes) (bitmapCap : ℕ), data.length < 2 ^ 64 → (data.length + 7) / 8 ≤ bitmapCap →
      s.length ≤ data.length →
      let rx := es.foldl (CryptoRx.step s) (.init data bitmapCap)
      (∀ off len, off + len ≤ s.length → (rx.stage off (cut s off len)).1 ≠ .error) ∧
        rx.peek = (es.foldl Buffer.step .empty).look s) ∧
    (∀ streamId, s.length ≤ StreamRx.rxCap →
      let st := es.foldl (StreamRx.step s) (.init streamId)
      (∀ off len fin, (Event.slice off len fin).Of s → (st.ingest off (cut s off len) fin).1 ≠ .error) ∧
        st.peek = (es.foldl Buffer.step .empty).look s ∧
        (st.isComplete = true ↔ (es.foldl Buffer.step .empty).Complete s)) := by
  constructor
  · intro data bitmapCap hcap hmap hs rx
    have hrefines := CryptoRx.refines_run (CryptoRx.refines_init hcap hmap hs) hes
    exact ⟨fun off len h => (hrefines.stage h false).1, hrefines.peek⟩
  · intro streamId hs st
    have hrefines := StreamRx.refines_run (StreamRx.refines_init streamId hs) hes
    exact ⟨fun off len fin h => (hrefines.ingest h).1, hrefines.peek, hrefines.isComplete_iff⟩

/-- Three bytes that arrive in two slices, the last one first and with the end of the stream. -/
theorem reassembly_exact_out_of_order :
    (∀ e ∈ [Event.slice 2 1 true, .slice 0 2 false, .advance 1], e.Of ([1, 2, 3] : Bytes)) ∧
      ([Event.slice 2 1 true, .slice 0 2 false, .advance 1].foldl (StreamRx.step [1, 2, 3]) (.init 0)).peek =
        ([Event.slice 2 1 true, .slice 0 2 false, .advance 1].foldl Buffer.step .empty).look ([1, 2, 3] : Bytes) := by
  have hes : ∀ e ∈ [Event.slice 2 1 true, .slice 0 2 false, .advance 1], e.Of ([1, 2, 3] : Bytes) := by
    simp [Event.Of]
  exact ⟨hes, ((reassembly_exact [1, 2, 3] _ hes).2 0 (by decide)).2.1⟩

end Quic
