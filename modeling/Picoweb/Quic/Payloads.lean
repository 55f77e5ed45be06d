import Picoweb.Quic.Delivery

/-!
# Payloads of 1-RTT packets

What `quic_frame_decode` takes for a frame is a frame on its own: its bytes alone decode to it. So an
accepted payload is a row of complete frames, as long as every frame starts with a type that the decoder
knows. A byte that is no type counts as a frame, and the walk goes on behind it.
-/

namespace Quic

open ByteFile Bounded List

variable {msg : Bytes} {n : ℕ}

/-! ### A frame is decoded from its own bytes -/

lemma varintRest_take {pos k x : ℕ} (h : pos + k ≤ n) : varintRest (msg.take n) pos k x = varintRest msg pos k x := by
  induction k generalizing pos x with
  | zero => rfl
  | succ k ih =>
    rw [varintRest, fetch_take (by omega)]
    congr 1
    funext b
    exact ih (by omega)

/-- A number does not notice what stands behind it. -/
lemma varintDecode_take {pos len len' v k : ℕ} (h : varintDecode msg pos len = .ok (v, k)) (hk : 1 ≤ k) (hn : pos + k ≤ n)
    (hlen : k ≤ len') : varintDecode (msg.take n) pos len' = .ok (v, k) := by
  rw [varintDecode] at h ⊢
  split at h
  · cases h
  · obtain ⟨b, hb, h⟩ := exists_of_bind_ok h
    rw [if_neg (by omega), fetch_take (by omega), hb, ok_bind]
    dsimp only at h ⊢
    split at h
    · cases h
    · obtain ⟨w, hw, h⟩ := exists_of_bind_ok h
      cases h
      rw [if_neg (by omega), varintRest_take (by omega), hw]
      rfl

lemma readVarint_local : Local (fun _ => True) readVarint := by
  intro msg n pos _ v fin h
  rw [readVarint] at h
  split at h
  · cases h
  · obtain ⟨⟨v, k⟩, hdec, h⟩ := exists_of_bind_ok h
    cases h
    have hk := @varintDecode_ensures msg pos (msg.length - pos) (by omega)
    rw [hdec] at hk
    obtain ⟨-, h1, -, hle⟩ := hk
    refine ⟨trivial, by omega, by omega, fun hn => ?_⟩
    have hlen : (msg.take n).length = min n msg.length := length_take
    rw [readVarint, if_neg (by omega), varintDecode_take hdec h1 hn (by omega)]
    rfl

lemma readBytes_local (len : ℕ) : Local (fun _ => True) (readBytes · · len) := by
  intro msg n pos hpos bytes fin h
  dsimp only [readBytes] at h ⊢
  split at h
  · cases h
  · obtain ⟨bytes, hbytes, h⟩ := exists_of_bind_ok h
    cases h
    refine ⟨trivial, by omega, by omega, fun hn => ?_⟩
    have hlen : (msg.take n).length = min n msg.length := length_take
    rw [if_neg (by omega), fetches_take hn, hbytes]
    rfl

section Decoders

variable {pos : ℕ} {P : α → Prop}

/-! The rules for a number and for bytes that are read before the rest of a frame. -/

lemma number {f g : ℕ × ℕ → Parse (α × ℕ)} (h : ∀ v fin, Cut msg.length n fin P (f (v, fin)) (g (v, fin))) :
    Cut msg.length n pos P (readVarint msg pos >>= f) (readVarint (msg.take n) pos >>= g) :=
  .bind (readVarint_local msg n pos) h

lemma bytes {len : ℕ} {f g : Bytes × ℕ → Parse (α × ℕ)}
    (h : ∀ data fin, Cut msg.length n fin P (f (data, fin)) (g (data, fin))) :
    Cut msg.length n pos P (readBytes msg pos len >>= f) (readBytes (msg.take n) pos len >>= g) :=
  .bind (readBytes_local len msg n pos) h

lemma readIf_local (present : Bool) (default : ℕ) : Local (fun _ => True) (readIf · present default) := by
  intro msg n pos
  cases present with
  | false => exact .pure trivial
  | true => exact readVarint_local msg n pos

lemma readVarints_local (count : ℕ) : Local (fun _ => True) (readVarints · count) := by
  intro msg n pos
  induction count generalizing pos with
  | zero => exact .pure trivial
  | succ count ih => exact number fun _ fin => .bind (ih fin) fun _ _ => .pure trivial

lemma ackRanges_local (count : ℕ) : Local (fun _ => True) (ackRanges · count) := by
  intro msg n pos
  induction count generalizing pos with
  | zero => exact .pure trivial
  | succ count ih => exact number fun _ _ => number fun _ fin => .bind (ih fin) fun _ _ => .pure trivial

/-- A frame of a type that the decoder knows. -/
def Frame.Known (f : Frame) : Prop := ∀ t, f ≠ .unknown t

lemma decodeNumbers_cut (count : ℕ) {frame : List ℕ → Frame} (h : ∀ vs, (frame vs).Known) :
    Cut msg.length n pos Frame.Known (decodeNumbers msg count frame pos) (decodeNumbers (msg.take n) count frame pos) :=
  .bind (readVarints_local count msg n pos) fun vs _ => .pure (h vs)

lemma decodeAck_local (hasEcn : Bool) : Local Frame.Known (decodeAck · hasEcn) := by
  intro msg n pos
  refine number fun _ _ => number fun _ _ => number fun count _ => number fun _ fin => ?_
  refine .bind (ackRanges_local count msg n fin) fun _ _ => ?_
  cases hasEcn with
  | false => exact .pure nofun
  | true => exact number fun _ _ => number fun _ _ => number fun _ _ => .pure nofun

lemma decodeCrypto_local : Local Frame.Known decodeCrypto :=
  fun _ _ _ => number fun _ _ => number fun _ _ => bytes fun _ _ => .pure nofun

lemma decodeNewToken_local : Local Frame.Known decodeNewToken :=
  fun _ _ _ => number fun _ _ => .check (bytes fun _ _ => .pure nofun)

lemma decodeClose_local (isApp : Bool) : Local Frame.Known (decodeClose · isApp) := by
  intro msg n pos
  refine number fun _ fin => .bind (readIf_local _ 0 msg n fin) fun _ _ => number fun _ _ => bytes fun _ _ => .pure ?_
  cases isApp <;> exact nofun

lemma decodePath_cut {frame : Bytes → Frame} (h : ∀ data, (frame data).Known) :
    Cut msg.length n pos Frame.Known (decodePath msg frame pos) (decodePath (msg.take n) frame pos) :=
  bytes fun data _ => .pure (h data)

lemma decodeNewConnectionId_local : Local Frame.Known decodeNewConnectionId := by
  intro msg n pos
  refine number fun _ _ => number fun _ pos => .check fun hpos f fin h => ?_
  split at h
  · cases h
  · obtain ⟨len, hlen, h⟩ := exists_of_bind_ok h
    dsimp only at h
    split at h
    · cases h
    · split at h
      · cases h
      · obtain ⟨cid, hcid, h⟩ := exists_of_bind_ok h
        obtain ⟨token, htoken, h⟩ := exists_of_bind_ok h
        cases h
        refine ⟨nofun, by omega, by omega, fun hn => ?_⟩
        have hcut : (msg.take n).length = min n msg.length := length_take
        rw [if_neg (by omega), fetch_take (by omega), hlen, ok_bind, if_neg ‹_›, if_neg (by omega),
          fetches_take (by omega), hcid, fetches_take (by omega), htoken]
        rfl

lemma decodeStream_local (t : UInt8) : Local Frame.Known (decodeStream · t) := by
  intro msg n pos
  refine number fun _ fin => .bind (readIf_local _ 0 msg n fin) fun _ pos => ?_
  generalize decide (t &&& 0x02 ≠ 0) = hasLength
  cases hasLength with
  | true => exact number fun _ _ => bytes fun _ _ => .pure nofun
  | false =>
    -- without a length the frame takes all that is left, so that nothing is cut off
    intro hpos f fin h
    obtain ⟨⟨data, mid⟩, hdata, hf⟩ := exists_of_bind_ok (x := readBytes msg pos (msg.length - pos)) h
    cases hf
    rw [readBytes, if_neg (lt_irrefl _)] at hdata
    obtain ⟨data, -, hfin⟩ := exists_of_bind_ok hdata
    cases hfin
    refine ⟨nofun, by omega, by omega, fun hn => ?_⟩
    rw [take_of_length_le (by omega)]
    exact h

lemma takeWhile_take {p : UInt8 → Bool} {k : ℕ} (h : (msg.takeWhile p).length ≤ k) :
    (msg.take k).takeWhile p = msg.takeWhile p := by
  induction msg generalizing k with
  | nil => rw [take_nil]
  | cons b msg ih =>
    cases hb : p b with
    | false => cases k <;> simp [hb]
    | true =>
      rw [takeWhile_cons_of_pos hb, length_cons] at h
      obtain ⟨k, rfl⟩ := Nat.exists_eq_succ_of_ne_zero (by omega : k ≠ 0)
      rw [take_succ_cons, takeWhile_cons_of_pos hb, takeWhile_cons_of_pos hb, ih (by omega)]

lemma zeros_take (h : pos + zeros msg pos ≤ n) : zeros (msg.take n) pos = zeros msg pos := by
  rw [zeros, drop_take, takeWhile_take (by rw [zeros] at h; omega), zeros]

/-- A frame of a known type is there on its own. -/
lemma frameDecode_cut (hmsg : ∀ t, msg[0]? = some t → t ≤ 0x1e) :
    Cut msg.length n 0 Frame.Known (frameDecode msg) (frameDecode (msg.take n)) := by
  refine .fetch fun t ht => ?_
  split
  · intro hpos f fin h
    cases h
    have hle : zeros msg 1 ≤ (msg.drop 1).length := (takeWhile_sublist _).length_le
    rw [length_drop] at hle
    refine ⟨nofun, by omega, by omega, fun hn => ?_⟩
    rw [zeros_take hn]
    rfl
  · exact .pure nofun
  · exact decodeAck_local false msg n 1
  · exact decodeAck_local true msg n 1
  · exact decodeNumbers_cut 3 nofun
  · exact decodeNumbers_cut 2 nofun
  · exact decodeCrypto_local msg n 1
  · exact decodeNewToken_local msg n 1
  · exact decodeNumbers_cut 1 nofun
  · exact decodeNumbers_cut 2 nofun
  iterate 3 exact decodeNumbers_cut 1 nofun
  · exact decodeNumbers_cut 2 nofun
  iterate 2 exact decodeNumbers_cut 1 nofun
  · exact decodeNewConnectionId_local msg n 1
  · exact decodeNumbers_cut 1 nofun
  iterate 2 exact decodePath_cut nofun
  · exact decodeClose_local false msg n 1
  · exact decodeClose_local true msg n 1
  · exact .pure nofun
  · rw [if_pos, if_pos]
    · exact decodeStream_local _ msg n 1
    · grind
    · grind

end Decoders

/-! ### Payloads -/

/-- Complete frames of known types one behind the other. -/
inductive FramesOf : Bytes → List Frame → Prop
  | nil : FramesOf [] []
  | cons {bytes rest f fs} (hown : frameDecode bytes = .ok (f, bytes.length)) (hknown : f.Known)
      (hthere : frameDecode (bytes ++ rest) = .ok (f, bytes.length)) (hrest : FramesOf rest fs) :
      FramesOf (bytes ++ rest) (f :: fs)

/-- Every frame accepted, one after the other. -/
inductive Applied : List StreamRx → List Frame → List StreamRx → Prop
  | nil (s) : Applied s [] s
  | cons {s s₁ s' f fs} (hf : handleApp s f = (true, s₁)) (hfs : Applied s₁ fs s') : Applied s (f :: fs) s'

/-- The bytes of a payload at which the decoder looks for a frame. -/
inductive StartsWith : Bytes → UInt8 → Prop
  | first (t rest) : StartsWith (t :: rest) t
  | later {payload f n t} (hdec : frameDecode payload = .ok (f, n)) (ht : StartsWith (payload.drop n) t) :
      StartsWith payload t

lemma frameDecode_of_unknown_type {t : UInt8} {rest : Bytes} (h : ¬ t ≤ 0x1e) :
    frameDecode (t :: rest) = .ok (.unknown t, 1) := by
  have hfetch : fetch (t :: rest) 0 = .ok t := rfl
  rw [frameDecode, hfetch, ok_bind]
  split <;> try exact absurd (by decide) h
  have hstream : ¬ t ≤ 0x0f := fun ht => h (UInt8.le_trans ht (by decide))
  rw [if_neg fun ht => hstream ht.2]
  rfl

lemma FramesOf.types {payload : Bytes} {frames : List Frame} (h : FramesOf payload frames) {t : UInt8}
    (ht : StartsWith payload t) : t ≤ 0x1e := by
  induction h with
  | nil =>
    cases ht with
    | later hdec _ => cases hdec
  | @cons bytes rest f _ _ hknown hthere _ ih =>
    have hdrop : (bytes ++ rest).drop bytes.length = rest := drop_left
    generalize bytes ++ rest = payload at *
    cases ht with
    | first t tail =>
      by_contra hlt
      rw [frameDecode_of_unknown_type hlt] at hthere
      exact hknown t (congrArg Prod.fst (Except.ok.inj hthere)).symm
    | later hdec ht =>
      cases hdec.symm.trans hthere
      exact ih (hdrop ▸ ht)

/-- The walk over a payload applies the frames it is made of. -/
lemma exists_framesOf {fuel : ℕ} {payload : Bytes} {s s' : List StreamRx}
    (h : walkFrames handleApp fuel payload s = (.ok (), s')) (htypes : ∀ t, StartsWith payload t → t ≤ 0x1e) :
    ∃ frames, FramesOf payload frames ∧ Applied s frames s' := by
  induction fuel generalizing payload s with
  | zero => cases h
  | succ fuel ih =>
    cases payload with
    | nil =>
      cases h
      exact ⟨[], .nil, .nil _⟩
    | cons t tail =>
      rw [walkFrames, if_neg (cons_ne_nil t tail)] at h
      split at h
      · cases h
      next f n hdec =>
        split at h
        · cases h
        next s₁ hf =>
          obtain ⟨fs, hfs, happlied⟩ := ih h fun t ht => htypes t (.later hdec ht)
          have hmsg : ∀ u, (t :: tail)[0]? = some u → u ≤ 0x1e := by
            rintro u ⟨⟩
            exact htypes t (.first t tail)
          obtain ⟨hknown, -, hle, hcut⟩ := frameDecode_cut (n := n) hmsg (Nat.zero_le _) f n hdec
          have hlen := length_take_of_le hle
          have hframes := FramesOf.cons (by rw [hcut le_rfl, hlen]) hknown
            (by rw [take_append_drop, hlen, hdec]) hfs
          rw [take_append_drop] at hframes
          exact ⟨f :: fs, hframes, .cons hf happlied⟩

/-- A payload that a connection accepts is complete frames that it applied in order, if and only if it looks for no
frame at a byte above the last type. -/
theorem recvApp_frames_iff (c c' : Conn) (dgram : Bytes) (pkt : ShortPkt) (hopen : c.openApp dgram = .ok pkt)
    (hok : c.recvApp dgram = (.ok (), c')) :
    (∃ frames streams, FramesOf pkt.payload frames ∧ Applied c.streams frames streams ∧
        c' = { c with appPktsRcvd := c.appPktsRcvd + 1, streams }) ↔
      ∀ t, StartsWith pkt.payload t → t ≤ 0x1e := by
  constructor
  · rintro ⟨frames, _, hframes, -, -⟩ t ht
    exact hframes.types ht
  · intro htypes
    rw [Conn.recvApp, hopen] at hok
    dsimp only at hok
    split at hok
    · cases hok
    · rw [Prod.mk.injEq] at hok
      obtain ⟨hrc, hc⟩ := hok
      obtain ⟨frames, hframes, happlied⟩ := exists_framesOf (Prod.ext hrc rfl) htypes
      exact ⟨frames, _, hframes, happlied, hc.symm⟩

/-- A 1-RTT packet between two plain connections. -/
def plainPacket (payload : Bytes) : Bytes := shortWire (plainConn 0).appTxKeys ((plainConn 0).appPkt payload)

lemma openApp_plainPacket (payload : Bytes) (h3 : 3 ≤ payload.length := by decide)
    (hmax : payload.length ≤ 1177 := by decide) :
    (plainConn 0).openApp (plainPacket payload) = .ok ((plainConn 0).appPkt payload) :=
  openApp_of_safe (s := ⟨plainConn 0, plainConn 0, []⟩) (m := ⟨payload, 1200⟩) (matching_plainConn 0)
    (emitApp_plainConn 0 payload (by omega) hmax) (by simp [Link.Fits]; omega) (by simp [Link.Safe]; omega)

lemma recvApp_plainPacket {payload : Bytes} {streams : List StreamRx}
    (h : walkFrames handleApp (payload.length + 1) payload [] = (.ok (), streams))
    (h3 : 3 ≤ payload.length := by decide) (hmax : payload.length ≤ 1177 := by decide) :
    (plainConn 0).recvApp (plainPacket payload) = (.ok (), { plainConn 0 with appPktsRcvd := 1, streams }) := by
  rw [Conn.recvApp, openApp_plainPacket payload h3 hmax]
  exact congrArg (fun r => (r.1, { plainConn 0 with appPktsRcvd := 1, streams := r.2 })) h

/-- A PING and padding -/
theorem recvApp_frames_iff_ping :
    let pkt := (plainConn 0).appPkt [1, 0, 0]
    let c := { plainConn 0 with appPktsRcvd := 1 }
    (∃ frames streams, FramesOf pkt.payload frames ∧ Applied [] frames streams ∧ c = { c with streams }) ↔
      ∀ t, StartsWith pkt.payload t → t ≤ 0x1e :=
  recvApp_frames_iff (plainConn 0) _ (plainPacket [1, 0, 0]) _ (openApp_plainPacket _)
    (recvApp_plainPacket rfl)

/-- A byte that is no type is accepted, and the byte behind it is taken for the next frame. -/
theorem unknown_type_accepted :
    let pkt := (plainConn 0).appPkt [0x40, 1, 0]
    (plainConn 0).openApp (plainPacket [0x40, 1, 0]) = .ok pkt ∧
      (plainConn 0).recvApp (plainPacket [0x40, 1, 0]) = (.ok (), { plainConn 0 with appPktsRcvd := 1 }) ∧
      ¬ ∃ frames, FramesOf pkt.payload frames :=
  ⟨openApp_plainPacket _, recvApp_plainPacket rfl,
    fun ⟨_, hframes⟩ => absurd (hframes.types (.first 0x40 _)) (by decide)⟩

end Quic
