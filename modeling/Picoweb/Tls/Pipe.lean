import Picoweb.Tls.SealIov
import Picoweb.Tls.Sealing
import Picoweb.Lib.Run

/-!
# The record layer as a byte pipe

Two engines hold the two ends of one direction: what is pushed into the first goes through its TX into the
RX of the second and comes out of its APP_IN. What comes out is a prefix of what went in, as long as
`pw_tls_app_seal_iov`, which passes APP_OUT by, finds nothing there.
-/

namespace Tls

open ByteFile List Engine

namespace Pipe

/-- What one AEAD seals, the other opens. -/
def Opens (aead aead' : Aead) : Prop :=
  ∀ key nonce aad text, aead'.decrypt key nonce aad (aead.encrypt key nonce aad text) = some text

variable {S S' : Suite}

/-! ### Two engines -/

/-- The two engines, what was pushed into the first and what was drained from the second. -/
structure World (S S' : Suite) where
  sender : Engine S
  reader : Engine S'
  pushed : Bytes
  drained : Bytes

inductive Event (S S' : Suite)
  /-- `pw_tls_app_out_push` on the sender -/
  | push (iov : List Bytes)
  /-- `pw_tls_app_seal_iov` on the sender -/
  | sealIov (iov : List Bytes)
  | senderStep (env : S.Env)
  /-- Some bytes of the sender's TX go to the reader's RX, where there is room for them. -/
  | transfer (n : ℕ)
  | readerStep (env : S'.Env)
  /-- Some bytes are drained from the reader's APP_IN. -/
  | readerDrain (n : ℕ)

namespace World

/-- A call of the sender; where it succeeds, its bytes are pushed. -/
def offer (w : World S S') (iov : List Bytes) (r : Bool × Engine S) : World S S' :=
  { w with sender := r.2, pushed := if r.1 then w.pushed ++ iov.flatten else w.pushed }

def transfer (w : World S S') (n : ℕ) : World S S' :=
  let bytes := w.sender.tx.take n
  if bufCap - w.reader.rx.length < bytes.length then w
  else { w with sender := w.sender.txAck bytes.length, reader := w.reader.rxAck bytes }

def readerDrain (w : World S S') (n : ℕ) : World S S' :=
  let bytes := w.reader.appIn.take n
  { w with reader := w.reader.appInAck bytes.length, drained := w.drained ++ bytes }

def step (w : World S S') : Event S S' → World S S'
  | .push iov => w.offer iov (w.sender.appOutPush iov)
  | .sealIov iov => w.offer iov (w.sender.appSealIov iov)
  | .senderStep env => { w with sender := (w.sender.step env).2 }
  | .transfer n => w.transfer n
  | .readerStep env => { w with reader := (w.reader.step env).2 }
  | .readerDrain n => w.readerDrain n

/-- The calls of the sender succeed. -/
def Succeeds (w : World S S') : Event S S' → Prop
  | .push iov => (w.sender.appOutPush iov).1 = true
  | .sealIov iov => (w.sender.appSealIov iov).1 = true
  | _ => True

instance Succeeds.decidable (w : World S S') (e : Event S S') : Decidable (w.Succeeds e) :=
  match e with
  | .push _ | .sealIov _ => inferInstanceAs (Decidable (_ = true))
  | .senderStep _ | .transfer _ | .readerStep _ | .readerDrain _ => isTrue trivial

/-- `pw_tls_app_seal_iov` finds APP_OUT empty, or has nothing to seal. -/
def NoneWaits (w : World S S') : Event S S' → Prop
  | .sealIov iov => w.sender.appOut = [] ∨ iov.flatten = []
  | _ => True

instance NoneWaits.decidable (w : World S S') (e : Event S S') : Decidable (w.NoneWaits e) :=
  match e with
  | .sealIov _ => inferInstanceAs (Decidable (_ ∨ _))
  | .push _ | .senderStep _ | .transfer _ | .readerStep _ | .readerDrain _ => isTrue trivial

/-- Two engines in the application phase with matching keys and nothing on the way. -/
structure Matching (w : World S S') : Prop where
  sender : w.sender.state = .app
  reader : w.reader.state = .app
  keys : w.sender.write = w.reader.read
  seq : w.reader.read.seq ≤ seqMax
  senderRx : w.sender.rx = []
  senderTx : w.sender.tx = []
  senderOut : w.sender.appOut = []
  readerRx : w.reader.rx = []
  readerIn : w.reader.appIn = []
  readerOut : w.reader.appOut = []
  pushed : w.pushed = []
  drained : w.drained = []

/-- Everything that was pushed has been transferred: nothing waits to be sealed or to be sent. -/
def Transferred (w : World S S') : Prop := w.sender.appOut = [] ∧ w.sender.tx = []

/-- The reader steps and drains APP_IN. -/
def readAll (w : World S S') (env : S'.Env) : World S S' :=
  let w := w.step (.readerStep env)
  w.step (.readerDrain w.reader.appIn.length)

/-- Between the two ends there are the records of some plaintexts, and APP_OUT and APP_IN at their ends. -/
structure Carries (w : World S S') (plains : List Bytes) : Prop where
  sender : w.sender.state ≠ .handshake
  senderRx : w.sender.rx = []
  reader : w.reader.state = .app
  readerOut : w.reader.appOut = []
  wire : w.reader.rx ++ w.sender.tx = wireRecords S.aead ctApplicationData w.reader.read plains
  write : w.sender.write = w.reader.read.after plains.length
  seq : w.reader.read.seq + plains.length ≤ seqMax
  short : ∀ plain ∈ plains, plain.length ≤ maxPlaintext
  bytes : w.drained ++ w.reader.appIn ++ plains.flatten ++ w.sender.appOut = w.pushed

lemma Matching.carries {w : World S S'} (h : w.Matching) : w.Carries [] where
  sender := by rw [h.sender]; decide
  senderRx := h.senderRx
  reader := h.reader
  readerOut := h.readerOut
  wire := by rw [h.readerRx, h.senderTx]; rfl
  write := h.keys
  seq := h.seq
  short := nofun
  bytes := by rw [h.drained, h.readerIn, h.senderOut, h.pushed]; rfl

section Steps

variable {w : World S S'} {plains : List Bytes}

/-- The records the sender emits go behind those on the way. -/
lemma Carries.emits (h : w.Carries plains) {more : List Bytes} {eng : Engine S} {pushed : Bytes}
    (hemits : w.sender.Emits ctApplicationData more eng)
    (hbytes : w.drained ++ w.reader.appIn ++ (plains ++ more).flatten ++ eng.appOut = pushed) :
    Carries { w with sender := eng, pushed := pushed } (plains ++ more) where
  sender := by
    rcases hemits.state with hsame | hfailed
    · exact hsame ▸ h.sender
    · simp [hfailed]
  senderRx := hemits.rx.trans h.senderRx
  reader := h.reader
  readerOut := h.readerOut
  wire := by rw [hemits.tx, wireRecords_append, ← append_assoc, h.wire, h.write]
  write := by rw [hemits.write, h.write, Dir.after_after, length_append]
  seq := by
    have hwrite : w.sender.write.seq = w.reader.read.seq + plains.length := by rw [h.write, Dir.after]
    have hseq := hemits.seq (hwrite ▸ h.seq)
    rw [length_append, ← Nat.add_assoc, ← hwrite]
    exact hseq
  short plain hmem := by
    rcases mem_append.1 hmem with hmem | hmem
    · exact h.short plain hmem
    · exact hemits.short plain hmem
  bytes := hbytes

/-! ### The reader -/

lemma recordLen_append {a b : Bytes} (ha : recordHeaderLen ≤ a.length) : recordLen (a ++ b) = recordLen a := by
  have hthree : 3 < a.length := by simp only [recordHeaderLen] at ha; omega
  have hfour : 4 < a.length := ha
  simp only [recordLen, getD_eq_getElem?_getD, List.getElem?_append_left hthree, List.getElem?_append_left hfour]

/-- The reader waits for the rest of a record, or takes one record in. -/
lemma Carries.tryOpenOne (hopens : Opens S.aead S'.aead) (h : w.Carries plains) (hin : w.reader.appIn = []) :
    w.reader.tryOpenOne = (.idle, w.reader) ∧ (w.sender.tx = [] → plains = []) ∨
      ∃ rest eng, w.reader.tryOpenOne = (.progress, eng) ∧ Carries { w with reader := eng } rest ∧
        eng.rx.length < w.reader.rx.length := by
  cases plains with
  | nil =>
    have hnil : w.reader.rx = [] := (append_eq_nil_iff.1 h.wire).1
    left
    refine ⟨?_, fun _ => rfl⟩
    rw [tryOpenOne, hnil, if_pos (by decide)]
  | cons plain rest =>
    have hwire : w.reader.rx ++ w.sender.tx = wireRecord S.aead ctApplicationData w.reader.read plain ++
        wireRecords S.aead ctApplicationData (w.reader.read.after 1) rest := h.wire
    have hshort : plain.length ≤ maxPlaintext := h.short plain mem_cons_self
    have hseq : w.reader.read.seq ≠ seqMax := by
      have := h.seq
      rw [length_cons] at this
      omega
    have hlen := length_wireRecord S.aead ctApplicationData w.reader.read plain
    generalize hrecord : wireRecord S.aead ctApplicationData w.reader.read plain = record at hwire hlen
    -- the header says how long the record is, as soon as it is there
    have htotal (hheader : recordHeaderLen ≤ w.reader.rx.length) : w.reader.headTotal = record.length := by
      have hcipher : plain.length + 1 + aeadTagLen ≤ 0xffff := by
        simp only [maxPlaintext, aeadTagLen] at hshort ⊢
        omega
      rw [headTotal, ← recordLen_append hheader, hwire, hlen, ← hrecord, wireRecord, append_assoc,
        recordLen_recordHeader_append _ hcipher]
      omega
    have hfits : record.length ≤ bufCap := by
      simp only [bufCap, maxCiphertext] at hshort ⊢
      omega
    by_cases hcomplete : record.length ≤ w.reader.rx.length
    · right
      obtain ⟨more, hrx⟩ : record <+: w.reader.rx :=
        prefix_of_prefix_length_le ⟨_, hwire.symm⟩ (prefix_append _ _) hcomplete
      have hmore : more ++ w.sender.tx = wireRecords S.aead ctApplicationData (w.reader.read.after 1) rest := by
        rw [← hrx, append_assoc] at hwire
        exact append_cancel_left hwire
      have hheader : recordHeaderLen ≤ w.reader.rx.length := by
        omega
      refine ⟨rest, { w.reader with
        read := w.reader.read.after 1, recordsIn := w.reader.recordsIn + 1, rx := more, appIn := plain }, ?_, ?_, ?_⟩
      · have htake : w.reader.rx.take w.reader.headTotal = record := by
          rw [htotal hheader, ← hrx, take_left]
        have hdrop : w.reader.rx.drop w.reader.headTotal = more := by
          rw [htotal hheader, ← hrx, drop_left]
        rw [tryOpenOne, if_neg hheader.not_gt, htake, hdrop, htotal hheader, if_neg hfits.not_gt,
          if_neg hcomplete.not_gt, ← hrecord, openRecord_wireRecord hopens (by decide) hshort hseq]
        have hroom : ¬bufCap - 0 < plain.length := by
          omega
        simp only [takeOpened, hin, length_nil, if_true, if_neg hroom, nil_append]
      · refine ⟨h.sender, h.senderRx, h.reader, h.readerOut, hmore, ?_, ?_,
          fun p hp => h.short p (mem_cons_of_mem _ hp), ?_⟩
        · rw [h.write, Dir.after_after, length_cons, Nat.add_comm 1]
        · have := h.seq
          rw [length_cons] at this
          simp only [Dir.after]
          omega
        · have hbytes := h.bytes
          rw [hin, append_nil, flatten_cons, ← append_assoc] at hbytes
          exact hbytes
      · dsimp only
        rw [← hrx, length_append]
        omega
    · left
      constructor
      · rw [tryOpenOne]
        split
        · rfl
        · rename_i hheader
          rw [htotal (Nat.not_lt.1 hheader), if_neg hfits.not_gt, if_pos (Nat.not_le.1 hcomplete)]
      · intro htx
        rw [htx, append_nil] at hwire
        rw [hwire, length_append] at hcomplete
        omega

/-- The loop over the records of RX keeps what is on the way, and takes records where all have come. -/
lemma Carries.openLoop (hopens : Opens S.aead S'.aead) (fuel : ℕ) (h : w.Carries plains) :
    ∃ eng rest, w.reader.openLoop fuel = (true, eng) ∧ Carries { w with reader := eng } rest ∧
      eng.rx.length ≤ w.reader.rx.length ∧
      (w.reader.appIn = [] → w.sender.tx = [] → plains ≠ [] → 0 < fuel → eng.rx.length < w.reader.rx.length) := by
  induction fuel generalizing w plains with
  | zero => exact ⟨w.reader, plains, rfl, h, le_rfl, fun _ _ _ hfuel => absurd hfuel (Nat.lt_irrefl 0)⟩
  | succ fuel ih =>
    by_cases hin : w.reader.appIn = []
    · rcases h.tryOpenOne hopens hin with ⟨hidle, hall⟩ | ⟨rest, eng, hprogress, hrest, hless⟩
      · refine ⟨w.reader, plains, openLoop_of_idle fuel hin hidle, h, le_rfl, ?_⟩
        exact fun _ htx hplains _ => absurd (hall htx) hplains
      · obtain ⟨eng', rest', hloop, hrest', hle, -⟩ := ih hrest
        refine ⟨eng', rest', ?_, hrest', hle.trans hless.le, fun _ _ _ _ => hle.trans_lt hless⟩
        rw [openLoop_of_progress fuel hin hprogress, if_pos hrest.reader]
        exact hloop
    · refine ⟨w.reader, plains, ?_, h, le_rfl, fun hnil => absurd hnil hin⟩
      rw [openLoop, if_pos hin]

lemma Carries.readerStep (hopens : Opens S.aead S'.aead) (env : S'.Env) (h : w.Carries plains) :
    ∃ rest, (w.step (.readerStep env)).Carries rest ∧ (w.step (.readerStep env)).reader.rx.length ≤ w.reader.rx.length ∧
      (w.reader.appIn = [] → w.sender.tx = [] → plains ≠ [] →
        (w.step (.readerStep env)).reader.rx.length < w.reader.rx.length) := by
  obtain ⟨eng, rest, hloop, hrest, hle, hless⟩ := h.openLoop hopens (w.reader.rx.length + 1)
  have hstep : (w.reader.step env).2 = eng := by
    have hout : eng.appOut = [] := hrest.readerOut
    rw [Engine.step, h.reader]
    rw [Engine.drain, hloop]
    dsimp only
    rw [Engine.sealLoop, Engine.trySealOne, if_pos hout]
  have hworld : w.step (.readerStep env) = { w with reader := eng } := by
    rw [step, hstep]
  rw [hworld]
  exact ⟨rest, hrest, hle, fun hin htx hplains => hless hin htx hplains (Nat.succ_pos _)⟩

/-- A step of the sender: RX is empty, so that it only seals. -/
lemma Carries.senderStep (env : S.Env) (h : w.Carries plains) :
    ∃ more, (w.step (.senderStep env)).Carries (plains ++ more) := by
  have hopen : w.sender.openLoop (w.sender.rx.length + 1) = (true, w.sender) := by
    rw [Engine.openLoop]
    split
    · rfl
    · rw [Engine.tryOpenOne, h.senderRx, if_pos (by decide)]
  have hdrain : w.sender.drain = w.sender.sealLoop (w.sender.appOut.length + 1) := by
    rw [Engine.drain, hopen]
  obtain ⟨more, hemits, hout⟩ := Engine.Emits.sealLoop (w.sender.appOut.length + 1) w.sender
  rw [← hdrain] at hemits hout
  rw [step, Engine.step]
  cases hstate : w.sender.state with
  | handshake => exact absurd hstate h.sender
  | failed => exact ⟨[], by rw [append_nil]; exact h⟩
  | app | closed =>
    refine ⟨more, h.emits hemits ?_⟩
    rw [flatten_append, append_assoc, append_assoc _ more.flatten, hout, ← append_assoc]
    exact h.bytes

lemma Carries.transfer (n : ℕ) (h : w.Carries plains) : (w.transfer n).Carries plains := by
  rw [World.transfer]
  split
  · exact h
  · rename_i hroom
    have hle : (w.sender.tx.take n).length ≤ w.sender.tx.length := length_take_le' _ _
    rw [txAck, if_neg hle.not_gt, rxAck, if_neg hroom]
    refine { h with wire := ?_ }
    rw [append_assoc, length_take, ← drop_eq_drop_min, take_append_drop]
    exact h.wire

lemma Carries.readerDrain (n : ℕ) (h : w.Carries plains) : (w.readerDrain n).Carries plains := by
  have hle : (w.reader.appIn.take n).length ≤ w.reader.appIn.length := length_take_le' _ _
  rw [World.readerDrain, appInAck, if_neg hle.not_gt]
  refine { h with bytes := ?_ }
  rw [append_assoc w.drained, length_take, ← drop_eq_drop_min, take_append_drop]
  exact h.bytes

lemma Carries.push {iov : List Bytes} (h : w.Carries plains) (hsucceeds : w.Succeeds (.push iov)) :
    (w.step (.push iov)).Carries plains := by
  have hpush : w.sender.appOutPush iov = (true, { w.sender with appOut := w.sender.appOut ++ iov.flatten }) := by
    simp only [Succeeds, appOutPush] at hsucceeds ⊢
    split_ifs at hsucceeds ⊢
    rfl
  rw [World.step, offer, hpush]
  refine { h with bytes := ?_ }
  rw [if_pos rfl, ← append_assoc, h.bytes]

lemma Carries.sealIov {iov : List Bytes} (h : w.Carries plains) (hsucceeds : w.Succeeds (.sealIov iov))
    (hnone : w.NoneWaits (.sealIov iov)) : ∃ more, (w.step (.sealIov iov)).Carries (plains ++ more) := by
  have hok : (w.sender.appSealIov iov).1 = true := hsucceeds
  have hseal : w.sender.appSealIov iov = (true, (w.sender.appSealIov iov).2) := Prod.ext hok rfl
  obtain ⟨more, hemits, hflat, hout⟩ := Engine.Emits.appSealIov hseal
  refine ⟨more, ?_⟩
  rw [World.step, offer, if_pos hok]
  apply h.emits hemits
  rw [hout, flatten_append, hflat, ← h.bytes]
  -- either nothing waits behind the records, or nothing was sealed
  rcases hnone with hempty | hempty
  · rw [hempty, append_nil, append_nil, append_assoc _ plains.flatten]
  · rw [hempty, append_nil, append_nil]

lemma Carries.step (hopens : Opens S.aead S'.aead) (h : w.Carries plains) {e : Event S S'}
    (hsucceeds : w.Succeeds e) (hnone : w.NoneWaits e) : ∃ plains', (w.step e).Carries plains' := by
  cases e with
  | push iov => exact ⟨plains, h.push hsucceeds⟩
  | sealIov iov =>
    obtain ⟨more, hmore⟩ := h.sealIov hsucceeds hnone
    exact ⟨_, hmore⟩
  | senderStep env =>
    obtain ⟨more, hmore⟩ := h.senderStep env
    exact ⟨_, hmore⟩
  | transfer n => exact ⟨plains, h.transfer n⟩
  | readerStep env =>
    obtain ⟨rest, hrest, -⟩ := h.readerStep hopens env
    exact ⟨rest, hrest⟩
  | readerDrain n => exact ⟨plains, h.readerDrain n⟩

/-! ### What comes out -/

/-- Reading with nothing left to transfer: RX gets shorter until it is empty. -/
lemma Carries.readAll (hopens : Opens S.aead S'.aead) (env : S'.Env) (h : w.Carries plains) :
    ∃ rest, (w.readAll env).Carries rest ∧ (w.readAll env).sender = w.sender ∧
      (w.readAll env).pushed = w.pushed ∧ (w.readAll env).reader.appIn = [] ∧
      (w.readAll env).reader.rx.length ≤ w.reader.rx.length ∧
      (w.reader.appIn = [] → w.sender.tx = [] → plains ≠ [] →
        (w.readAll env).reader.rx.length < w.reader.rx.length) := by
  obtain ⟨rest, hrest, hle, hless⟩ := h.readerStep hopens env
  have hall : (w.step (.readerStep env)).reader.appInAck (w.step (.readerStep env)).reader.appIn.length =
      { (w.step (.readerStep env)).reader with appIn := [] } := by
    rw [appInAck, if_neg (lt_irrefl _), drop_length]
  have hread : w.readAll env =
      { w.step (.readerStep env) with
        reader := { (w.step (.readerStep env)).reader with appIn := [] }
        drained := w.drained ++ (w.step (.readerStep env)).reader.appIn } := by
    have hround : w.readAll env =
      (w.step (.readerStep env)).readerDrain (w.step (.readerStep env)).reader.appIn.length := rfl
    rw [hround, World.readerDrain, take_length, hall]
    rfl
  refine ⟨rest, hrest.readerDrain _, ?_⟩
  rw [hread]
  exact ⟨rfl, rfl, rfl, hle, hless⟩

/-- With nothing on the way, all has come out. -/
lemma Carries.drained_of_empty (h : w.Carries plains) (hdone : w.Transferred) (hrx : w.reader.rx = [])
    (hin : w.reader.appIn = []) : w.drained = w.pushed := by
  have hplains : plains = [] := by
    have hwire := h.wire
    rw [hrx, hdone.2] at hwire
    cases plains with
    | nil => rfl
    | cons plain rest =>
      have hlen := congrArg List.length hwire
      rw [append_nil, wireRecords, length_append, length_wireRecord, length_nil] at hlen
      omega
  have hbytes := h.bytes
  rw [hin, hplains, hdone.1] at hbytes
  simpa using hbytes

/-- Where nothing is left to transfer, enough reading drains everything. -/
lemma Carries.readAll_iterate (hopens : Opens S.aead S'.aead) (env : S'.Env) (h : w.Carries plains)
    (hdone : w.Transferred) {k : ℕ} (hk : w.reader.rx.length < k) :
    ((World.readAll · env)^[k] w).drained = w.pushed := by
  -- with APP_IN empty, each round takes at least one record
  have hrounds (k : ℕ) : ∀ {w : World S S'} {plains : List Bytes}, w.Carries plains → w.Transferred →
      w.reader.appIn = [] → w.reader.rx.length ≤ k → ((World.readAll · env)^[k] w).drained = w.pushed := by
    induction k with
    | zero =>
      intro w plains h hdone hin hk
      exact h.drained_of_empty hdone (length_eq_zero_iff.1 (Nat.le_zero.1 hk)) hin
    | succ k ih =>
      intro w plains h hdone hin hk
      obtain ⟨rest, hrest, hsender, hpushed, hin', hle, hless⟩ := h.readAll hopens env
      have hdone' : (w.readAll env).Transferred := by
        exact hdone
      rw [Function.iterate_succ_apply]
      refine ih hrest hdone' hin' ?_
      by_cases hplains : plains = []
      · have hnil : w.reader.rx = [] := by
          subst hplains
          exact (append_eq_nil_iff.1 h.wire).1
        rw [hnil] at hle
        exact hle.trans (Nat.zero_le _)
      · have := hless hin hdone.2 hplains
        omega
  obtain ⟨k, rfl⟩ : ∃ m, k = m + 1 := ⟨k - 1, by omega⟩
  obtain ⟨rest, hrest, hsender, hpushed, hin', hle, -⟩ := h.readAll hopens env
  rw [Function.iterate_succ_apply]
  refine hrounds k hrest ?_ hin' (by omega)
  exact hdone

/-- What has come out is a prefix of what went in, and all of it once nothing is on the way. -/
structure Ordered (w : World S S') : Prop where
  isPrefix : w.drained <+: w.pushed
  all : w.Transferred → w.reader.rx = [] → w.reader.appIn = [] → w.drained = w.pushed
  /-- What has been transferred comes out as the reader steps and drains. -/
  live : w.Transferred → ∀ env k, w.reader.rx.length < k → ((World.readAll · env)^[k] w).drained = w.pushed

lemma Carries.ordered (hopens : Opens S.aead S'.aead) (h : w.Carries plains) : w.Ordered where
  isPrefix := by
    rw [← h.bytes, append_assoc, append_assoc]
    exact prefix_append _ _
  all := h.drained_of_empty
  live hdone env k hk := h.readAll_iterate hopens env hdone hk

end Steps

/-- Bytes come out of the pipe in the order in which they went in, in every run in which
`pw_tls_app_seal_iov` never passes bytes by that wait in APP_OUT. -/
theorem ordered_of_none_waits {impl impl' : ChaCha20.Impl} (hS : S.aead = chachaPoly impl)
    (hS' : S'.aead = chachaPoly impl') {w : World S S'} (hw : w.Matching) {events : List (Event S S')}
    (hrun : Run.Guarded step (fun w e => w.Succeeds e ∧ w.NoneWaits e) w events) :
    (events.foldl step w).Ordered := by
  have hopens : Opens S.aead S'.aead := by
    rw [hS, hS']
    exact chachaPoly_decrypt_encrypt impl impl'
  obtain ⟨plains, hcarries⟩ : ∃ plains, (events.foldl step w).Carries plains := by
    refine hrun.invariant (P := fun w => ∃ plains, w.Carries plains) ?_ ⟨[], hw.carries⟩
    rintro w e ⟨plains, hplains⟩ ⟨hsucceeds, hnone⟩
    exact hplains.step hopens hsucceeds hnone
  exact hcarries.ordered hopens

end World

/-! ### The two ways into TX -/

/-- The suite of the code, with a handshake that accepts everything. -/
def openSuite : Suite := { clearSuite with aead := chachaPoly .scalar }

/-- Two engines right after `pw_tls_engine_install_app_keys` with the same keys. -/
def fresh : World openSuite openSuite where
  sender := (init () false).installAppKeys .wiped .wiped
  reader := (init () false).installAppKeys .wiped .wiped
  pushed := []
  drained := []

lemma fresh_matching : fresh.Matching := by
  constructor <;> decide

/-- A push and a seal of one byte each, and all of it read. -/
def pushThenSeal : List (Event openSuite openSuite) :=
  [.push [[97]], .sealIov [[98]], .senderStep (), .transfer 23, .readerStep (), .readerDrain 1]

theorem seal_overtakes_push : Run.Guarded World.step World.Succeeds fresh pushThenSeal ∧
      (pushThenSeal.foldl World.step fresh).pushed = [97, 98] ∧
      (pushThenSeal.foldl World.step fresh).drained = [98] := by
  decide +kernel

/-- With a step between the two calls, nothing waits any more. -/
theorem ordered_of_none_waits_step :
    ([.push [[97]], .senderStep (), .sealIov [[98]], .transfer 46, .readerStep ()].foldl World.step fresh).Ordered :=
  World.ordered_of_none_waits rfl rfl fresh_matching (by decide +kernel)

end Pipe

end Tls
