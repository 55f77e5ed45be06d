import Picoweb.Quic.Delivery

/-!
# The first Initial packet

`quic_conn_recv_initial` takes the ids of a connection, and with them its Initial keys, from the header of the
first datagram it can read, before it knows whether the packet opens. Nothing undoes the choice.
-/

namespace Quic

open ByteFile Bounded

namespace Conn

/-- The calls that take or send a datagram. -/
inductive Call
  | recvInitial (dgram : Bytes)
  | recvHandshake (dgram : Bytes)
  | recvApp (dgram : Bytes)
  | emitApp (payload : Bytes) (cap : ℕ)

def call (c : Conn) : Call → Conn
  | .recvInitial dgram => (c.recvInitial dgram).2
  | .recvHandshake dgram => (c.recvHandshake dgram).2
  | .recvApp dgram => (c.recvApp dgram).2
  | .emitApp payload cap => (c.emitApp payload cap).2

/-- The connection has these ids, and the Initial keys that belong to the first of them. -/
def Pinned (role : Role) (dcid scid : Bytes) (c : Conn) : Prop :=
  c.role = role ∧ c.initialKeysReady = true ∧ c.initialKeys = initialDerive dcid (role ≠ .server) ∧
    c.peerDcid = dcid ∧ c.peerScid = scid

variable {c : Conn} {role : Role} {dcid scid dgram : Bytes}

lemma pinned_of_peekIds (h : peekIds dgram = .ok (dcid, scid)) : c.pinned dgram = c.pin dcid scid := by
  rw [pinned, h]
  rfl

/-- A later datagram names the same id, or is refused. -/
lemma Pinned.pinned_eq (h : c.Pinned role dcid scid) (dgram : Bytes) :
    c.pinned dgram = .ok c ∨ ∃ e, c.pinned dgram = .error e := by
  cases hids : peekIds dgram with
  | error e => exact .inr ⟨e, by rw [pinned, hids]; rfl⟩
  | ok ids =>
    rw [pinned_of_peekIds hids, pin, if_pos h.2.1]
    split_ifs
    · exact .inr ⟨_, rfl⟩
    · exact .inl rfl

lemma Pinned.call (h : c.Pinned role dcid scid) (a : Call) : (c.call a).Pinned role dcid scid := by
  cases a with
  | recvInitial dgram =>
    show (c.recvInitial dgram).2.Pinned role dcid scid
    unfold recvInitial
    rcases h.pinned_eq dgram with heq | ⟨e, heq⟩
    · rw [heq]
      dsimp only
      split <;> exact h
    · rw [heq]
      exact h
  | recvHandshake dgram =>
    show (c.recvHandshake dgram).2.Pinned role dcid scid
    unfold recvHandshake
    split <;> exact h
  | recvApp dgram =>
    show (c.recvApp dgram).2.Pinned role dcid scid
    unfold recvApp
    split
    · exact h
    · split <;> exact h
  | emitApp payload cap =>
    show (c.emitApp payload cap).2.Pinned role dcid scid
    unfold emitApp
    split_ifs
    · exact h
    · exact h
    · exact h
    · split <;> exact h

/-- Whether the first readable datagram opens or not, the ids in its header are those of the connection for
good, and an Initial packet for another id is refused ever after. -/
theorem first_initial_pins (calls : List Call) (hfresh : c.initialKeysReady = false)
    (hids : peekIds dgram = .ok (dcid, scid)) :
    let c' := calls.foldl call (c.recvInitial dgram).2
    c'.Pinned c.role dcid scid ∧ ∀ other dcid' scid', peekIds other = .ok (dcid', scid') → dcid' ≠ dcid →
      c'.recvInitial other = (reject, c') := by
  have hfirst : (c.recvInitial dgram).2.Pinned c.role dcid scid := by
    have hpin : c.pinned dgram = .ok { c.deriveInitialKeys dcid with
        peerDcid := dcid, peerScid := scid, peerAddrsKnown := true } := by
      rw [pinned_of_peekIds hids, pin, hfresh]
      rfl
    rw [recvInitial, hpin]
    dsimp only
    split <;> exact ⟨rfl, rfl, rfl, rfl, rfl⟩
  have hpinned : (calls.foldl call (c.recvInitial dgram).2).Pinned c.role dcid scid := by
    generalize (c.recvInitial dgram).2 = d at hfirst
    induction calls generalizing d with
    | nil => exact hfirst
    | cons a calls ih => exact ih _ (hfirst.call a)
  refine ⟨hpinned, fun other dcid' scid' hother hne => ?_⟩
  rw [recvInitial, pinned_of_peekIds hother, pin, if_pos hpinned.2.1, if_pos (hpinned.2.2.2.1 ▸ hne)]
  rfl

/-- A header pins a server although nothing follows it; a packet for another id is refused, before and after
one is sent. -/
theorem first_initial_pins_unopened :
    let other : Bytes := [0xc0, 0, 0, 0, 1, 4, 5, 6, 7, 8, 2, 9, 10]
    let c := { plainConn 0 with initialKeysReady := false }
    let c' := [.recvInitial other, .emitApp [1, 2, 3] 1200].foldl call
      (c.recvInitial [0xc0, 0, 0, 0, 1, 4, 1, 2, 3, 4, 2, 9, 10]).2
    c'.Pinned .server [1, 2, 3, 4] [9, 10] ∧ c'.recvInitial other = (reject, c') := by
  intro other c c'
  have hids : peekIds [0xc0, 0, 0, 0, 1, 4, 1, 2, 3, 4, 2, 9, 10] = .ok ([1, 2, 3, 4], [9, 10]) := by decide
  obtain ⟨hpinned, hrefused⟩ := first_initial_pins (c := c) [.recvInitial other, .emitApp [1, 2, 3] 1200] rfl hids
  exact ⟨hpinned, hrefused other [5, 6, 7, 8] [9, 10] (by decide) (by decide)⟩

end Conn

end Quic
