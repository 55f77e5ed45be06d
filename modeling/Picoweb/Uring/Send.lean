import Picoweb.Lib.Run
import Picoweb.Server.Segments

/-!
# Sending from several io_uring workers

Each worker of `server_uring.c` owns its connections, but the message headers and iovecs that the kernel
reads live in an array behind the module variable `g_uring_state`, which every worker replaces when it
starts. From then on equal slot numbers of different workers are the same memory. A send reads only its
own response as long as no worker fills a slot in which the entry of another one still waits.
-/

namespace Uring

open ByteFile Server Function

/-! ### State -/

/-- How far the send of a connection has come. An entry remembers the array whose slot it points to. -/
inductive Phase
  | idle
  | filled (array : ℕ)
  | published (array : ℕ)
  | inFlight
  deriving DecidableEq, Repr

/-- The write side of `conn_t`. -/
structure Conn where
  segs : List Bytes := []
  bytesSent : ℕ := 0
  phase : Phase := .idle
  deriving DecidableEq, Repr

namespace Conn

def iov (c : Conn) : List Bytes := buildIov c.segs c.bytesSent

/-- The array whose slot the kernel will read for this connection. -/
def waiting (c : Conn) : Option ℕ :=
  match c.phase with
  | .filled a => some a
  | .published a => some a
  | _ => none

end Conn

/-- What the kernel read for a connection, beside what the connection held then. -/
structure Send where
  iov : List Bytes
  conn : Conn
  deriving DecidableEq, Repr

/-- The process: connections are numbered by worker and slot, iovecs by array and slot. -/
structure State where
  ready : ℕ → Bool := fun _ => false
  arrays : ℕ := 0
  gUringState : Option ℕ := none
  slots : ℕ × ℕ → List Bytes := fun _ => []
  conns : ℕ × ℕ → Conn := fun _ => {}
  sends : List Send := []

inductive Event
  /-- `uring_worker_main` allocates the array and stores it in `g_uring_state`. -/
  | setup (worker : ℕ)
  /-- `dispatch_one` prepares a response on a connection without an operation. -/
  | respond (worker slot : ℕ) (segs : List Bytes)
  /-- `submit_sendmsg` fills the iovec and the message header. -/
  | fill (worker slot : ℕ)
  /-- `ring_publish` -/
  | publish (worker slot : ℕ)
  /-- The kernel takes the entry and reads what it points to. -/
  | read (worker slot : ℕ)
  /-- The completion reports the bytes that were sent. -/
  | complete (worker slot sent : ℕ)
  deriving DecidableEq, Repr

def State.setConn (s : State) (key : ℕ × ℕ) (c : Conn) : State :=
  { s with conns := update s.conns key c }

def step (s : State) : Event → State
  | .setup w =>
    { s with
      ready := update s.ready w true
      arrays := s.arrays + 1
      gUringState := some s.arrays }
  | .respond w i segs =>
    if (s.conns (w, i)).phase = .idle then s.setConn (w, i) { segs } else s
  | .fill w i =>
    match s.gUringState with
    | none => s
    | some a =>
      let c := s.conns (w, i)
      if s.ready w ∧ c.phase = .idle ∧ c.iov ≠ [] then
        { s.setConn (w, i) { c with phase := .filled a } with
          slots := update s.slots (a, i) c.iov }
      else s
  | .publish w i =>
    match (s.conns (w, i)).phase with
    | .filled a => s.setConn (w, i) { s.conns (w, i) with phase := .published a }
    | _ => s
  | .read w i =>
    match (s.conns (w, i)).phase with
    | .published a =>
      { s.setConn (w, i) { s.conns (w, i) with phase := .inFlight } with
        sends := s.sends ++ [⟨s.slots (a, i), s.conns (w, i)⟩] }
    | _ => s
  | .complete w i sent =>
    if (s.conns (w, i)).phase = .inFlight then
      s.setConn (w, i) { s.conns (w, i) with
        bytesSent := (s.conns (w, i)).bytesSent + sent, phase := .idle }
    else s

/-! ### Sends read their own response -/

/-- Everything the kernel read belongs to the response of the connection it sent for. -/
def Send.Own (x : Send) : Prop := ∀ frag ∈ x.iov, ∃ seg ∈ x.conn.segs, frag <:+ seg
deriving Decidable

/-- A worker fills a slot only while no other worker has an entry waiting in it. -/
def Apart (s : State) : Event → Prop
  | .fill w i => ∀ w' a, w' ≠ w → s.gUringState = some a → (s.conns (w', i)).waiting ≠ some a
  | _ => True

/-- What an entry points to is what its connection prepared. -/
structure Intact (s : State) : Prop where
  slots : ∀ w i a, (s.conns (w, i)).waiting = some a → s.slots (a, i) = (s.conns (w, i)).iov
  sends : ∀ x ∈ s.sends, x.iov = x.conn.iov

lemma intact_init : Intact {} := by
  constructor
  · intro w i a h
    simp [Conn.waiting] at h
  · simp

section Step

variable {s : State} {w i : ℕ}

lemma Intact.setup (h : Intact s) : Intact (step s (.setup w)) :=
  ⟨h.slots, h.sends⟩

/-- A step that only moves one connection on keeps what its entry points to, if it has one. -/
lemma Intact.setConn (h : Intact s) {c : Conn}
    (hc : ∀ a, c.waiting = some a → (s.conns (w, i)).waiting = some a ∧ c.iov = (s.conns (w, i)).iov) :
    Intact (s.setConn (w, i) c) := by
  refine ⟨fun w' i' a hwait => ?_, h.sends⟩
  simp only [State.setConn] at hwait ⊢
  by_cases hkey : (w', i') = (w, i)
  · obtain ⟨rfl, rfl⟩ := Prod.mk.inj hkey
    rw [update_self] at hwait ⊢
    obtain ⟨hold, hiov⟩ := hc a hwait
    rw [hiov, h.slots _ _ _ hold]
  · rw [update_of_ne hkey] at hwait ⊢
    exact h.slots w' i' a hwait

/-- Filling a slot leaves alone the entries that wait elsewhere. -/
lemma Intact.fill (h : Intact s) (hapart : Apart s (.fill w i)) : Intact (step s (.fill w i)) := by
  simp only [step]
  cases hcur : s.gUringState with
  | none => exact h
  | some a =>
    split_ifs with hfill
    swap
    · exact h
    refine ⟨fun w' i' a' hwait => ?_, h.sends⟩
    simp only [State.setConn] at hwait ⊢
    by_cases hkey : (w', i') = (w, i)
    · obtain ⟨rfl, rfl⟩ := Prod.mk.inj hkey
      rw [update_self] at hwait ⊢
      obtain rfl : a = a' := Option.some.inj hwait
      rw [update_self]
      rfl
    · rw [update_of_ne hkey] at hwait ⊢
      have hother : (a', i') ≠ (a, i) := by
        rintro heq
        obtain ⟨rfl, rfl⟩ := Prod.mk.inj heq
        have hw : w' ≠ w := fun hw => hkey (by rw [hw])
        exact hapart w' a' hw hcur hwait
      rw [update_of_ne hother]
      exact h.slots w' i' a' hwait

lemma Intact.read (h : Intact s) : Intact (step s (.read w i)) := by
  simp only [step]
  cases hphase : (s.conns (w, i)).phase with
  | published a =>
    have hwait : (s.conns (w, i)).waiting = some a := by rw [Conn.waiting, hphase]
    have hmoved : Intact (s.setConn (w, i) { s.conns (w, i) with phase := .inFlight }) :=
      h.setConn fun _ hc => by simp [Conn.waiting] at hc
    refine ⟨hmoved.slots, fun x hx => ?_⟩
    rcases List.mem_append.1 hx with hx | hx
    · exact h.sends x hx
    · obtain rfl := List.mem_singleton.1 hx
      exact h.slots w i a hwait
  | _ => exact h

lemma Intact.step (h : Intact s) (e : Event) (hapart : Apart s e) : Intact (step s e) := by
  cases e with
  | setup w => exact h.setup
  | fill w i => exact h.fill hapart
  | read w i => exact h.read
  | respond w i segs =>
    simp only [Uring.step]
    split_ifs
    · exact h.setConn fun _ hc => by simp [Conn.waiting] at hc
    · exact h
  | publish w i =>
    simp only [Uring.step]
    cases hphase : (s.conns (w, i)).phase with
    | filled a => exact h.setConn fun a' hc => ⟨by simpa [Conn.waiting, hphase] using hc, rfl⟩
    | _ => exact h
  | complete w i sent =>
    simp only [Uring.step]
    split_ifs
    · exact h.setConn fun _ hc => by simp [Conn.waiting] at hc
    · exact h

end Step

/-- In every run in which no worker fills a slot that another one's entry waits in, each send reads the
unsent rest of the response of its own connection. -/
theorem sends_own_of_apart (events : List Event) (h : Run.Guarded step Apart {} events) :
    ∀ x ∈ (events.foldl step {}).sends, x.Own ∧ x.iov = x.conn.iov := by
  intro x hx
  have hintact := h.invariant (P := Intact) (fun s e hs he => hs.step e he) intact_init
  have hiov := hintact.sends x hx
  refine ⟨fun frag hfrag => ?_, hiov⟩
  rw [hiov] at hfrag
  exact suffix_of_mem_buildIov hfrag

/-- Two workers whose sends follow each other in the same slot. -/
def oneAfterTheOther : List Event :=
  [.setup 0, .setup 1, .respond 0 0 [[97]], .respond 1 0 [[98]], .fill 0 0, .publish 0 0, .read 0 0,
    .fill 1 0, .publish 1 0, .read 1 0]

theorem sends_own_one_after_the_other : (oneAfterTheOther.foldl step {}).sends.length = 2 ∧
      ∀ x ∈ (oneAfterTheOther.foldl step {}).sends, x.Own ∧ x.iov = x.conn.iov := by
  refine ⟨rfl, sends_own_of_apart oneAfterTheOther ?_⟩
  simp only [Run.Guarded, oneAfterTheOther, Apart, true_and, and_true]
  constructor
  · rintro (_ | _ | w) a hw - h
    · exact hw rfl
    · simp [step, State.setConn, Conn.waiting] at h
    · simp [step, State.setConn, Conn.waiting] at h
  · rintro (_ | _ | w) a hw - h
    · simp [step, State.setConn, Conn.waiting, Conn.iov, buildIov] at h
    · exact hw rfl
    · simp [step, State.setConn, Conn.waiting, Conn.iov, buildIov] at h

/-- The same sends, with both slots filled before the kernel reads. -/
def bothAtOnce : List Event :=
  [.setup 0, .setup 1, .respond 0 0 [[97]], .respond 1 0 [[98]], .fill 0 0, .publish 0 0, .fill 1 0,
    .publish 1 0, .read 0 0, .read 1 0]

/-- The first connection is sent the response of the second one. -/
theorem send_of_another_connection :
    ∃ x ∈ (bothAtOnce.foldl step {}).sends, ¬x.Own ∧ x.conn.segs = [[97]] ∧ x.iov = [[98]] := by
  decide +kernel

end Uring
