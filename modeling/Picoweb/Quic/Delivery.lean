import Picoweb.Lib.Run
import Picoweb.Quic.Conn

/-!
# 1-RTT packets from one connection to another

A sender puts payloads into packets, and a receiver that holds the same keys opens them in the order in which
they were sent. The packet carries two bytes of its number, and the receiver takes those for all of it; and the
receiver asks for one byte more than the sender.
-/

namespace Quic

open ByteFile Bounded AesGcm List

/-- Keys and ids of the two sides fit. -/
structure Matching (sender receiver : Conn) : Prop where
  ready : receiver.appKeysReady = true
  keys : sender.appTxKeys = receiver.appRxKeys
  ids : sender.peerScid = receiver.ourScid

/-- Two connections, and what the receiver's parser made of every payload that was sent. -/
structure Link where
  sender : Conn
  receiver : Conn
  opened : List (Bytes × Parse ShortPkt)

/-- A call of `quic_conn_emit_app`. -/
structure Send where
  payload : Bytes
  cap : ℕ

namespace Link

/-- A packet that is sent is received next. -/
def step (s : Link) (m : Send) : Link :=
  match s.sender.emitApp m.payload m.cap with
  | (none, sender) => { s with sender := sender }
  | (some packet, sender) =>
    ⟨sender, (s.receiver.recvApp packet).2, s.opened ++ [(m.payload, s.receiver.openApp packet)]⟩

def Fits (s : Link) (m : Send) : Prop := 1 + s.sender.peerScid.length + 2 + m.payload.length + 16 ≤ 1200

/-- The packet number still fits into two bytes, and the payload has three bytes at least. -/
def Safe (s : Link) (m : Send) : Prop := s.sender.appTxNextPn.toNat < 65536 ∧ 3 ≤ m.payload.length

/-- Every payload that was sent came out of its packet. -/
def Delivered (s : Link) : Prop := ∀ p ∈ s.opened, ∃ pkt, p.2 = .ok pkt ∧ pkt.payload = p.1

end Link

def Conn.appPkt (c : Conn) (payload : Bytes) : ShortPkt := ⟨c.peerScid, c.appTxNextPn.toNat, 2, payload, false, false⟩

lemma Link.Fits.length_shortWire {s : Link} {m : Send} (h : s.Fits m) :
    (shortWire s.sender.appTxKeys (s.sender.appPkt m.payload)).length ≤ 1200 :=
  le_of_eq_of_le (Quic.length_shortWire _ (Nat.le_of_ble_eq_true rfl)) h

section Steps

variable {c : Conn} {payload packet : Bytes} {cap : ℕ}

/-- A call without a packet changes nothing; else this is what it puts on the wire, and what it needs for that. -/
lemma emitApp_cases (c : Conn) (payload : Bytes) (cap : ℕ) : c.emitApp payload cap = (none, c) ∨
    c.emitApp payload cap = (some (shortWire c.appTxKeys (c.appPkt payload)),
        { c with appTxNextPn := c.appTxNextPn + 1 }) ∧ c.peerScid.length ≤ maxCidLen := by
  rw [Conn.emitApp]
  split
  · exact .inl rfl
  · split
    · exact .inl rfl
    · split
      · exact .inl rfl
      · next hcid =>
        have hcid' : c.peerScid.length ≤ maxCidLen := Nat.le_of_not_lt hcid
        rw [shortBuild_eq hcid' one_le_two (Nat.le_of_ble_eq_true rfl)]
        split
        · next hbuild =>
          split at hbuild
          · exact .inl rfl
          · cases hbuild
        · next hbuild =>
          split at hbuild
          · cases hbuild
          · cases hbuild
            exact .inr ⟨rfl, hcid'⟩

lemma emitApp_eq_some {c' : Conn} (h : c.emitApp payload cap = (some packet, c')) :
    packet = shortWire c.appTxKeys (c.appPkt payload) ∧ c.peerScid.length ≤ maxCidLen ∧
      c' = { c with appTxNextPn := c.appTxNextPn + 1 } := by
  obtain hnone | ⟨hsome, hcid⟩ := emitApp_cases c payload cap
  · cases hnone.symm.trans h
  · cases hsome.symm.trans h
    exact ⟨rfl, hcid, rfl⟩

/-- The receiver's checks before the parser pass what the sender wrote. -/
lemma checkApp_shortWire {r : Conn} (hready : r.appKeysReady = true) (keys : Keys) (pkt : ShortPkt) (h1 : 1 ≤ pkt.pnLen)
    (h4 : pkt.pnLen ≤ 4) : r.checkApp (shortWire keys pkt) = .ok () := by
  obtain ⟨-, hform, hfixed, -⟩ := shortByte0_spec pkt.spin pkt.keyPhase h1 h4
  rw [Conn.checkApp, if_neg (by rw [hready]; decide)]
  exact if_neg (short_form hform hfixed _)

section Emitted

variable {s : Link} {m : Send} {c' : Conn} (hmatch : Matching s.sender s.receiver)
  (h : s.sender.emitApp m.payload m.cap = (some packet, c'))
include hmatch h

lemma openApp_emitted : s.receiver.openApp packet =
      shortParse s.sender.appTxKeys scratch (shortWire s.sender.appTxKeys (s.sender.appPkt m.payload))
        s.sender.peerScid.length := by
  obtain ⟨rfl, -, -⟩ := emitApp_eq_some h
  have hcheck := checkApp_shortWire hmatch.ready s.sender.appTxKeys (s.sender.appPkt m.payload) one_le_two
    (Nat.le_of_ble_eq_true rfl)
  rw [Conn.openApp, hcheck, ok_bind, ← hmatch.keys, ← hmatch.ids]

/-- A packet within the bounds is opened as it was sent. -/
lemma openApp_of_safe (hfits : s.Fits m) (hsafe : s.Safe m) :
    s.receiver.openApp packet = .ok (s.sender.appPkt m.payload) := by
  obtain ⟨-, hcid, -⟩ := emitApp_eq_some h
  have hlen := hfits.length_shortWire
  rw [openApp_emitted hmatch h]
  exact shortParse_shortWire hcid one_le_two (Nat.le_of_ble_eq_true rfl) (Nat.add_le_add_left hsafe.2 2)
    (by rw [length_scratch]; omega) (by omega) hsafe.1

end Emitted

/-- Receiving changes neither the keys nor the id of the receiver. -/
lemma recvApp_keeps (c : Conn) (dgram : Bytes) :
    (c.recvApp dgram).2.appKeysReady = c.appKeysReady ∧ (c.recvApp dgram).2.appRxKeys = c.appRxKeys ∧
      (c.recvApp dgram).2.ourScid = c.ourScid := by
  rw [Conn.recvApp]
  cases c.openApp dgram with
  | error e => exact ⟨rfl, rfl, rfl⟩
  | ok pkt =>
    dsimp only
    split <;> exact ⟨rfl, rfl, rfl⟩

lemma Matching.recvApp {sender receiver : Conn} (h : Matching sender receiver) (dgram : Bytes) :
    Matching sender (receiver.recvApp dgram).2 := by
  obtain ⟨hready, hkeys, hids⟩ := recvApp_keeps receiver dgram
  exact ⟨hready.trans h.ready, h.keys.trans hkeys.symm, h.ids.trans hids.symm⟩

end Steps

namespace Link

lemma step_matching {s : Link} (h : Matching s.sender s.receiver) (m : Send) :
    Matching (s.step m).sender (s.step m).receiver := by
  rw [step]
  split
  · next hemit =>
    obtain hnone | ⟨hsome, -⟩ := emitApp_cases s.sender m.payload m.cap
    · cases hnone.symm.trans hemit
      exact h
    · cases hsome.symm.trans hemit
  · next packet sender hemit =>
    obtain ⟨-, -, rfl⟩ := emitApp_eq_some hemit
    exact { h.recvApp packet with }

lemma step_delivered {s : Link} {m : Send} (hmatch : Matching s.sender s.receiver) (h : s.Delivered) (hfits : s.Fits m)
    (hsafe : s.Safe m) : (s.step m).Delivered := by
  rw [step]
  split
  · exact h
  · next hemit =>
    intro p hp
    rcases mem_append.1 hp with hold | hnew
    · exact h p hold
    · obtain rfl := mem_singleton.1 hnew
      exact ⟨_, openApp_of_safe hmatch hemit hfits hsafe, rfl⟩

/-- In every run whose calls are safe, every payload comes out of its packet. -/
theorem packets_delivered {sender receiver : Conn} (hmatch : Matching sender receiver) {sends : List Send}
    (h : Run.Guarded step (fun s m => s.Fits m ∧ s.Safe m) ⟨sender, receiver, []⟩ sends) :
    (sends.foldl step ⟨sender, receiver, []⟩).Delivered := by
  have hkeeps (s : Link) (m : Send) (hs : Matching s.sender s.receiver ∧ s.Delivered) (hok : s.Fits m ∧ s.Safe m) :
      Matching (s.step m).sender (s.step m).receiver ∧ (s.step m).Delivered :=
    ⟨step_matching hs.1 m, step_delivered hs.1 hs.2 hok.1 hok.2⟩
  exact (h.invariant (P := fun s => Matching s.sender s.receiver ∧ s.Delivered) hkeeps ⟨hmatch, nofun⟩).2

end Link

/-- A connection under zero keys, with the same id on both sides, that has sent `sent` packets. -/
def plainConn (sent : UInt64) : Conn :=
  let keys : Keys := ⟨replicate 16 0, replicate 12 0, replicate 16 0⟩
  let epoch : Epoch := ⟨.init (replicate 4096 0) 4096, 0, 0, 0⟩
  ⟨.server, true, keys, [], [5, 6, 7, 8], true, epoch, [5, 6, 7, 8], true, keys, epoch, true, keys, keys, sent, 0, []⟩

@[simp] lemma peerScid_plainConn (sent : UInt64) : (plainConn sent).peerScid = [5, 6, 7, 8] := rfl

@[simp] lemma appTxNextPn_plainConn (sent : UInt64) : (plainConn sent).appTxNextPn = sent := rfl

lemma matching_plainConn (sent : UInt64) : Matching (plainConn sent) (plainConn 0) := ⟨rfl, rfl, rfl⟩

lemma emitApp_plainConn (sent : UInt64) (payload : Bytes) (h2 : 2 ≤ payload.length) (hmax : payload.length ≤ 1177) :
    (plainConn sent).emitApp payload 1200 =
      (some (shortWire (plainConn sent).appTxKeys ((plainConn sent).appPkt payload)), plainConn (sent + 1)) := by
  have h16 : tagLen = 16 := rfl
  rw [Conn.emitApp, if_neg (not_or.2 ⟨nofun, nofun⟩), if_neg (by simp; omega), if_neg (by simp [maxCidLen]),
    shortBuild_eq (by simp [maxCidLen]) one_le_two (Nat.le_of_ble_eq_true rfl),
    if_neg (by simp; omega)]
  rfl

namespace Link

lemma opened_step {s : Link} {m : Send} {packet : Bytes} {c : Conn}
    (h : s.sender.emitApp m.payload m.cap = (some packet, c)) :
    (s.step m).opened = s.opened ++ [(m.payload, s.receiver.openApp packet)] := by
  rw [step, h]

/-- Two packets are sent, and both payloads come out of them. -/
theorem packets_delivered_twice :
    let s := [⟨[1, 2, 3], 1200⟩, ⟨[4, 5, 6, 7], 1200⟩].foldl step ⟨plainConn 0, plainConn 0, []⟩
    s.opened.map Prod.fst = [[1, 2, 3], [4, 5, 6, 7]] ∧ s.Delivered := by
  intro s
  have hfirst := emitApp_plainConn 0 [1, 2, 3] (by decide) (by decide)
  have hsecond := emitApp_plainConn 1 [4, 5, 6, 7] (by decide) (by decide)
  have hsender : (step ⟨plainConn 0, plainConn 0, []⟩ ⟨[1, 2, 3], 1200⟩).sender = plainConn 1 := by
    rw [step, hfirst]
    rfl
  have hguard : Run.Guarded step (fun s m => s.Fits m ∧ s.Safe m) ⟨plainConn 0, plainConn 0, []⟩
      [⟨[1, 2, 3], 1200⟩, ⟨[4, 5, 6, 7], 1200⟩] :=
    ⟨⟨by simp [Fits], by simp [Safe]⟩, ⟨by simp [Fits, hsender], by simp [Safe, hsender]⟩, trivial⟩
  refine ⟨?_, packets_delivered (matching_plainConn 0) hguard⟩
  simp only [s, foldl_cons, foldl_nil]
  rw [opened_step (hsender ▸ hsecond), opened_step hfirst]
  rfl

lemma sender_replicate {m : Send} (h2 : 2 ≤ m.payload.length) (hmax : m.payload.length ≤ 1177) (hcap : m.cap = 1200)
    (n : ℕ) (s : Link) (sent : UInt64) (hs : s.sender = plainConn sent) :
    ((replicate n m).foldl step s).sender = plainConn (sent + UInt64.ofNat n) := by
  induction n generalizing s sent with
  | zero => simpa using hs
  | succ n ih =>
    rw [replicate_succ, foldl_cons, ih (s.step m) (sent + 1)]
    · rw [UInt64.ofNat_add, UInt64.add_assoc, UInt64.add_comm 1]
      rfl
    · rw [step, hs, hcap, emitApp_plainConn sent m.payload h2 hmax]

lemma matching_foldl {s : Link} (h : Matching s.sender s.receiver) (sends : List Send) :
    Matching (sends.foldl step s).sender (sends.foldl step s).receiver :=
  foldlRecOn (motive := fun s => Matching s.sender s.receiver) sends step h fun _ h m _ => step_matching h m

/-- The packet after the first 65536 ones is refused. -/
lemma refused_after {n : ℕ} (hn : UInt64.ofNat n = 65536) :
    ∃ opened, ((replicate (n + 1) ⟨[1, 2, 3], 1200⟩).foldl step ⟨plainConn 0, plainConn 0, []⟩).opened =
      opened ++ [([1, 2, 3], reject)] := by
  rw [replicate_succ', foldl_append, foldl_cons, foldl_nil]
  have hsender := sender_replicate (m := ⟨[1, 2, 3], 1200⟩) (by decide) (by decide) rfl n
    ⟨plainConn 0, plainConn 0, []⟩ 0 rfl
  have hmatch := matching_foldl (s := ⟨plainConn 0, plainConn 0, []⟩) (matching_plainConn 0)
    (replicate n ⟨[1, 2, 3], 1200⟩)
  generalize (replicate n (Send.mk [1, 2, 3] 1200)).foldl step ⟨plainConn 0, plainConn 0, []⟩ = s at hsender hmatch ⊢
  rw [hn, UInt64.zero_add] at hsender
  have hemit := emitApp_plainConn 65536 [1, 2, 3] (by decide) (by decide)
  rw [← hsender] at hemit
  have hrefused : s.receiver.openApp (shortWire s.sender.appTxKeys (s.sender.appPkt [1, 2, 3])) = reject := by
    -- the receiver takes the two bytes it sees for the whole number
    have hlen (keys : Keys) : (shortWire keys ((plainConn 65536).appPkt [1, 2, 3])).length = 26 :=
      length_shortWire keys (by decide)
    rw [openApp_emitted (m := ⟨[1, 2, 3], 1200⟩) hmatch hemit, hsender]
    exact shortParse_eq_reject (by decide) one_le_two (by decide) (by decide) (by rw [hlen, length_scratch]; decide)
      (by rw [hlen]; decide) (by decide +kernel)
  exact ⟨s.opened, by rw [opened_step hemit, hrefused]⟩

/-- A payload of two bytes is sent and refused; so is the packet after the first 65536 ones. -/
theorem packets_refused : (step ⟨plainConn 0, plainConn 0, []⟩ ⟨[1, 2], 1200⟩).opened = [([1, 2], reject)] ∧
    ∃ opened, ((replicate 65537 ⟨[1, 2, 3], 1200⟩).foldl step ⟨plainConn 0, plainConn 0, []⟩).opened =
      opened ++ [([1, 2, 3], reject)] := by
  refine ⟨?_, refused_after (n := 65536) rfl⟩
  have hemit := emitApp_plainConn 0 [1, 2] (by decide) (by decide)
  rw [opened_step hemit, openApp_emitted (m := ⟨[1, 2], 1200⟩) (matching_plainConn 0) hemit]
  rfl

end Link

end Quic
