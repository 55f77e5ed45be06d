import Picoweb.Lib.ByteFile
import Mathlib.Data.List.FinRange

/-!
# The ticket store

`ticket_store.c`: 256 slots for session tickets. A ticket is found by its id; one that has been presented
once is used up for early data.
-/

namespace Tls

open ByteFile

abbrev ticketIdMax : ℕ := 64

abbrev Slot := Fin 256

/-- `pw_tls_ticket_t`, where it is valid. -/
structure Ticket where
  ticketId : Bytes
  psk : Bytes
  ageAdd : ℕ
  lifetimeS : ℕ
  issuedAtMs : ℕ
  maxEarlyData : ℕ
  used : Bool
  deriving DecidableEq, Repr

/-- `pw_tls_ticket_store_t` -/
abbrev TicketStore := Slot → Option Ticket

namespace TicketStore

def init : TicketStore := fun _ => none

/-- The loop of `pw_tls_ticket_store_insert`: the first slot that is free or has the id, else the oldest
ticket. -/
def victimFrom (s : TicketStore) (id : Bytes) : List Slot → Option Slot → ℕ → Option Slot
  | [], victim, _ => victim
  | i :: slots, victim, age =>
    match s i with
    | none => some i
    | some t =>
      if t.ticketId = id then some i
      else if t.issuedAtMs < age then victimFrom s id slots (some i) t.issuedAtMs
      else victimFrom s id slots victim age

def victim (s : TicketStore) (id : Bytes) : Option Slot :=
  if id = [] ∨ ticketIdMax < id.length then none
  else s.victimFrom id (List.finRange 256) none (2 ^ 64 - 1)

/-- `pw_tls_ticket_store_insert` -/
def insert (s : TicketStore) (t : Ticket) : TicketStore :=
  match s.victim t.ticketId with
  | none => s
  | some i => Function.update s i (some { t with used := false })

def find (s : TicketStore) (id : Bytes) : Option (Slot × Ticket) :=
  (List.finRange 256).findSome? fun i =>
    match s i with
    | none => none
    | some t => if t.ticketId = id then some (i, t) else none

/-- `pw_tls_ticket_store_lookup`: a ticket that has expired is dropped. -/
def lookup (s : TicketStore) (id : Bytes) (nowMs : ℕ) : TicketStore × Option (Slot × Ticket) :=
  if id = [] ∨ ticketIdMax < id.length then (s, none)
  else
    match s.find id with
    | none => (s, none)
    | some (i, t) =>
      if (t.issuedAtMs + t.lifetimeS * 1000) % 2 ^ 64 < nowMs then (Function.update s i none, none)
      else (s, some (i, t))

/-- `pw_tls_ticket_consume_for_0rtt` on the ticket of a slot. -/
def consume (s : TicketStore) (i : Slot) : TicketStore :=
  Function.update s i ((s i).map fun t => { t with used := true })

end TicketStore

/-- `pw_tls_ticket_can_early_data` -/
def Ticket.canEarlyData (t : Ticket) : Bool := !t.used && decide (0 < t.maxEarlyData)

namespace TicketStore

variable {s : TicketStore}

lemma find_eq_some {id : Bytes} {i : Slot} {t : Ticket} (h : s.find id = some (i, t)) :
    s i = some t ∧ t.ticketId = id := by
  obtain ⟨j, -, hj⟩ := List.exists_of_findSome?_eq_some h
  cases hs : s j with
  | none => simp [hs] at hj
  | some t' =>
    simp only [hs] at hj
    split at hj
    · rename_i hid
      obtain ⟨rfl, rfl⟩ := Prod.mk.inj (Option.some.inj hj)
      exact ⟨hs, hid⟩
    · cases hj

/-- A lookup drops at most one ticket, and gives one that is still there. -/
lemma lookup_spec (s : TicketStore) (id : Bytes) (nowMs : ℕ) :
    (∃ i, s.lookup id nowMs = (Function.update s i none, none)) ∨ s.lookup id nowMs = (s, none) ∨
      ∃ i t, s.lookup id nowMs = (s, some (i, t)) ∧ s i = some t ∧ t.ticketId = id := by
  rw [lookup]
  split
  · exact .inr (.inl rfl)
  · split
    · exact .inr (.inl rfl)
    · rename_i i t hfind
      obtain ⟨hslot, hid⟩ := find_eq_some hfind
      split
      · exact .inl ⟨i, rfl⟩
      · exact .inr (.inr ⟨i, t, rfl, hslot, hid⟩)

end TicketStore

end Tls
