import Picoweb.Tcp.Conn

/-!
# Tracked sends

`tcp_send_at` cuts a payload into segments, sends each and queues it for retransmission. The queue has
four places, and the check before the first segment only asks for one of them.
-/

namespace Tcp

open ByteFile Conn List

/-- The segments lie one behind the other from this sequence number on. -/
def Consecutive : UInt32 → List Seg → Prop
  | _, [] => True
  | seq, s :: segs => s.seq = seq ∧ Consecutive (seq + UInt32.ofNat s.payload.length) segs

/-- The queue entry of a segment sent at this time. -/
def Seg.entry (now : UInt64) (s : Seg) : RtxEntry where
  seq := s.seq
  payload := s.payload
  flags := s.flags
  retrans := false
  txTimeMs := now

/-- The segments are the payload, in order and queued. -/
structure SentAll (c c' : Conn) (data : Bytes) (now : UInt64) (segs : List Seg) : Prop where
  payload : segs.flatMap Seg.payload = data
  seqs : Consecutive c.sndNxt segs
  next : c'.sndNxt = c.sndNxt + UInt32.ofNat data.length
  queue : c'.rtx = c.rtx ++ segs.map (Seg.entry now)

/-- Nothing went out, and no sequence number or queue entry moved. -/
structure SentNothing (c c' : Conn) (out : List Out) : Prop where
  out : out = []
  sndNxt : c'.sndNxt = c.sndNxt
  sndUna : c'.sndUna = c.sndUna
  rcvNxt : c'.rcvNxt = c.rcvNxt
  recoverySeq : c'.recoverySeq = c.recoverySeq
  queue : c'.rtx = c.rtx

/-- Where the send fails it did nothing; otherwise it returns the length of the payload and has sent
it all. -/
def Conn.AllOrNothing (c : Conn) (data : Bytes) (now : UInt64) : Prop :=
  let r := c.sendAt data now
  if r.1 = -1 then SentNothing c r.2.1 r.2.2
  else ∃ segs : List Seg, r.2.2 = segs.map .seg ∧ r.1.toInt = data.length ∧ SentAll c r.2.1 data now segs

def segmentsFor (len : ℕ) : ℕ := (len + (mss - 1)) / mss

/-- The first segment takes its share. -/
lemma segmentsFor_drop {data : Bytes} (h : data ≠ []) :
    segmentsFor data.length = segmentsFor (data.drop mss).length + 1 := by
  have := length_pos_iff.2 h
  unfold segmentsFor
  simp only [mss, length_drop]
  omega

lemma length_drop_mss_le {data : Bytes} {n : ℕ} (h : data.length ≤ n + 1) : (data.drop mss).length ≤ n := by
  rw [length_drop]
  simp only [mss]
  omega

namespace Conn

def nextSeg (c : Conn) (rest : Bytes) : Seg :=
  c.refreshWnd.segment c.sndNxt { ack := true, psh := decide (rest.length ≤ mss) } (rest.take mss)

lemma sendLoop_nil (now : UInt64) (fuel : ℕ) (c : Conn) : c.sendLoop now fuel [] = (true, c, []) := by
  cases fuel <;> rfl

variable {now : UInt64} {rest : Bytes}

lemma sendLoop_of_room (hnow : now ≠ 0) (fuel : ℕ) (hrest : rest ≠ [])
    {c : Conn} (hroom : c.rtx.length < rtxQueueMax) : c.sendLoop now (fuel + 1) rest =
      let r := sendLoop now fuel (rest.drop mss)
        { c.refreshWnd with
          rtx := c.rtx ++ [(c.nextSeg rest).entry now]
          sndNxt := c.sndNxt + UInt32.ofNat (rest.take mss).length }
      (r.1, r.2.1, .seg (c.nextSeg rest) :: r.2.2) := by
  rw [sendLoop, if_neg hrest]
  simp only [hnow, ne_eq, rtxEnqueue, refreshWnd, Nat.not_le.2 hroom]
  rfl

lemma sendLoop_of_full (hnow : now ≠ 0) (fuel : ℕ) (hrest : rest ≠ [])
    {c : Conn} (hfull : rtxQueueMax ≤ c.rtx.length) :
    c.sendLoop now (fuel + 1) rest = (false, c.refreshWnd, [.seg (c.nextSeg rest)]) := by
  rw [sendLoop, if_neg hrest]
  simp only [hnow, ne_eq, rtxEnqueue, refreshWnd, hfull]
  rfl

/-- With room for all segments, the loop sends and queues them all. -/
lemma sendLoop_sends (hnow : now ≠ 0) {fuel : ℕ} {c : Conn}
    (hfuel : rest.length ≤ fuel) (hroom : c.rtx.length + segmentsFor rest.length ≤ rtxQueueMax) :
    (c.sendLoop now fuel rest).1 = true ∧ ∃ segs : List Seg, (c.sendLoop now fuel rest).2.2 = segs.map .seg ∧
        SentAll c (c.sendLoop now fuel rest).2.1 rest now segs := by
  induction fuel generalizing rest c with
  | zero =>
    have hnil : rest = [] := length_eq_zero_iff.1 (Nat.le_zero.1 hfuel)
    subst hnil
    exact ⟨rfl, [], rfl, ⟨rfl, trivial, by simp [sendLoop], by simp [sendLoop]⟩⟩
  | succ fuel ih =>
    by_cases hrest : rest = []
    · subst hrest
      rw [sendLoop_nil]
      exact ⟨rfl, [], rfl, ⟨rfl, trivial, by simp, by simp⟩⟩
    have hsplit := segmentsFor_drop hrest
    rw [sendLoop_of_room hnow fuel hrest (by omega)]
    set c' : Conn :=
      { c.refreshWnd with
        rtx := c.rtx ++ [(c.nextSeg rest).entry now]
        sndNxt := c.sndNxt + UInt32.ofNat (rest.take mss).length } with hc'
    have hroom' : c'.rtx.length + segmentsFor (rest.drop mss).length ≤ rtxQueueMax := by
      rw [length_append, length_singleton]
      omega
    obtain ⟨hgo, segs, hout, hsent⟩ := ih (length_drop_mss_le hfuel) hroom'
    refine ⟨hgo, c.nextSeg rest :: segs, congrArg _ hout, ⟨?_, ⟨rfl, hsent.seqs⟩, ?_, ?_⟩⟩
    · rw [flatMap_cons, hsent.payload]
      exact take_append_drop mss rest
    · have hlen : rest.length = (rest.take mss).length + (rest.drop mss).length := by
        rw [← length_append, take_append_drop]
      rw [hlen, UInt32.ofNat_add, ← UInt32.add_assoc]
      exact hsent.next
    · rw [map_cons, append_cons]
      exact hsent.queue

/-- Without room for all segments, the loop fails after it has sent some. -/
lemma sendLoop_fails (hnow : now ≠ 0) {fuel : ℕ} {c : Conn} (hfuel : rest.length ≤ fuel) (hrest : rest ≠ [])
    (hfull : rtxQueueMax < c.rtx.length + segmentsFor rest.length) :
    (c.sendLoop now fuel rest).1 = false ∧ (c.sendLoop now fuel rest).2.2 ≠ [] := by
  induction fuel generalizing rest c with
  | zero => exact absurd (length_eq_zero_iff.1 (Nat.le_zero.1 hfuel)) hrest
  | succ fuel ih =>
    by_cases hroom : c.rtx.length < rtxQueueMax
    · have hsplit := segmentsFor_drop hrest
      have hleft : rest.drop mss ≠ [] := by
        intro hnil
        have hone : segmentsFor rest.length = 1 := by
          rw [hsplit, hnil]
          rfl
        omega
      rw [sendLoop_of_room hnow fuel hrest hroom]
      refine ⟨(ih (length_drop_mss_le hfuel) hleft ?_).1, cons_ne_nil _ _⟩
      simp only [length_append, length_singleton]
      omega
    · rw [sendLoop_of_full hnow fuel hrest (Nat.not_lt.1 hroom)]
      exact ⟨rfl, cons_ne_nil _ _⟩

/-- A tracked send is all or nothing exactly if it is turned away at once, or the retransmit queue has
a place for each of its segments. -/
theorem sendAt_all_or_nothing_iff (c : Conn) (data : Bytes) (now : UInt64) (hnow : now ≠ 0) :
    c.AllOrNothing data now ↔ c.Refuses data now ∨ c.rtx.length + segmentsFor data.length ≤ rtxQueueMax := by
  unfold AllOrNothing sendAt
  by_cases hrefuse : c.Refuses data now
  · simp only [hrefuse, true_or, iff_true]
    exact ⟨rfl, rfl, rfl, rfl, rfl, rfl⟩
  simp only [hrefuse, if_false, false_or]
  set c' : Conn := { c with rtoMs := if c.rtoMs = 0 then rtoInitMs else c.rtoMs }
  -- A payload that is not turned away finds one free place.
  have hplace : c.rtx.length < rtxQueueMax := by
    by_contra hfull
    exact hrefuse (.inr ⟨hnow, .inl (Nat.not_lt.1 hfull)⟩)
  constructor
  · intro h
    by_contra hfull
    have hne : data ≠ [] := by
      rintro rfl
      exact hfull (Nat.le_of_lt hplace)
    obtain ⟨hfail, hout⟩ := sendLoop_fails (c := c') hnow le_rfl hne (Nat.not_le.1 hfull)
    simp only [hfail] at h
    exact hout h.out
  · intro hroom
    obtain ⟨hgo, segs, hout, hsent⟩ := sendLoop_sends (c := c') hnow le_rfl hroom
    have hshort : data.length ≤ rtxQueueMax * mss := by
      simp only [segmentsFor, mss] at hroom ⊢
      omega
    have hlen : (UInt32.ofNat data.length).toInt32.toInt = data.length := by
      rw [UInt32.toInt32_ofNat', Int32.toInt_ofNat_of_lt (hshort.trans_lt (by decide))]
    have hok : (UInt32.ofNat data.length).toInt32 ≠ -1 := by
      intro h
      have hminus : (-1 : Int32).toInt = -1 := by decide
      rw [h] at hlen
      omega
    simp only [hgo, if_true, hok]
    exact ⟨segs, hout, hlen, hsent.payload, hsent.seqs, hsent.next, hsent.queue⟩

lemma not_allOrNothing {c : Conn} {data : Bytes} (hrc : (c.sendAt data now).1 = -1)
    (hout : (c.sendAt data now).2.2 ≠ []) : ¬ c.AllOrNothing data now := by
  intro h
  unfold AllOrNothing at h
  rw [if_pos hrc] at h
  exact hout h.out

/-- An established connection with nothing in flight. -/
def atRest : Conn where
  state := .established
  sndNxt := 1000
  sndUna := 1000
  cwnd := initCwnd
  sndWnd := 65535

/-- Three segments of one byte each are in flight. -/
def busy : Conn where
  state := .established
  sndNxt := 1003
  sndUna := 1000
  cwnd := initCwnd
  sndWnd := 65535
  rtx := [⟨1000, [1], { ack := true, psh := true }, false, 1⟩, ⟨1001, [2], { ack := true, psh := true }, false, 1⟩,
    ⟨1002, [3], { ack := true, psh := true }, false, 1⟩]

def zeros (n : ℕ) : Bytes := replicate n 0

lemma length_zeros (n : ℕ) : (zeros n).length = n := length_replicate

/-- Both segments of the payload go out and the first of them is queued, but the send fails. -/
theorem sendAt_sends_and_fails : (busy.sendAt (zeros 1461) 2).1 = -1 ∧ (busy.sendAt (zeros 1461) 2).2.2.length = 2 ∧
      (busy.sendAt (zeros 1461) 2).2.1.sndNxt = 2463 ∧ ¬ busy.AllOrNothing (zeros 1461) 2 := by
  have hrc : (busy.sendAt (zeros 1461) 2).1 = -1 := by decide +kernel
  have hout : (busy.sendAt (zeros 1461) 2).2.2.length = 2 := by decide +kernel
  refine ⟨hrc, hout, by decide +kernel, not_allOrNothing hrc ?_⟩
  exact ne_nil_of_length_eq_add_one hout

/-- Four segments are sent, returned and queued. -/
theorem sendAt_all_or_nothing_iff_at_rest : atRest.rtx.length + segmentsFor (zeros 5840).length ≤ rtxQueueMax ∧
      atRest.AllOrNothing (zeros 5840) 1 := by
  have hroom : atRest.rtx.length + segmentsFor (zeros 5840).length ≤ rtxQueueMax := by
    rw [length_zeros]
    decide
  have hsend := sendAt_all_or_nothing_iff atRest (zeros 5840) 1 (by decide)
  rw [hsend]
  exact ⟨hroom, .inr hroom⟩

end Conn

end Tcp
