import Picoweb.Lib.Bits

/-!
# Programs that read a bit string

A reader moves a cursor over a byte string. `Reads f bs a` says that wherever `bs` comes next the
reader `f` consumes exactly `bs` and returns `a`; the rules below compose such facts along a program.
-/

namespace Bits

open List

structure Cursor where
  bytes : List UInt8
  bit : ℕ
  deriving DecidableEq, Repr

variable {bs : List Bool}

namespace Cursor

def advance (c : Cursor) (n : ℕ) : Cursor := { c with bit := c.bit + n }

@[simp] lemma advance_advance (c : Cursor) (m n : ℕ) : (c.advance m).advance n = c.advance (m + n) := by
  simp [advance, add_assoc]

/-- The bits still to come are exactly `bs`. -/
def At (c : Cursor) (bs : List Bool) : Prop :=
  ∃ past, ofBytes c.bytes = past ++ bs ∧ past.length = c.bit

lemma At.advance {c : Cursor} {rest : List Bool} (h : c.At (bs ++ rest)) : (c.advance bs.length).At rest := by
  obtain ⟨past, hbits, hlen⟩ := h
  exact ⟨past ++ bs, by simpa [Cursor.advance] using hbits, by simp [Cursor.advance, hlen]⟩

lemma At.bit_add {c : Cursor} (h : c.At bs) : c.bit + bs.length = 8 * c.bytes.length := by
  obtain ⟨past, hbits, hlen⟩ := h
  rw [← length_ofBytes, hbits, length_append, hlen]

lemma At.getElem? {c : Cursor} (h : c.At bs) (i : ℕ) : (ofBytes c.bytes)[c.bit + i]? = bs[i]? := by
  obtain ⟨past, hbits, hlen⟩ := h
  rw [hbits, ← hlen, getElem?_append_right (by omega), Nat.add_sub_cancel_left]

end Cursor

/-- Every bit string comes next at some cursor. -/
lemma exists_at (bs : List Bool) : ∃ (c : Cursor) (rest : List Bool), c.At (bs ++ rest) := by
  have hbytes (n : ℕ) : ∀ v, ∃ bytes, ofBytes bytes = lsb (8 * n) v := by
    induction n with
    | zero => exact fun v => ⟨[], rfl⟩
    | succ n ih =>
      intro v
      obtain ⟨bytes, h⟩ := ih (v / 2 ^ 8)
      have hlow : lsb 8 (UInt8.ofNat v).toNat = lsb 8 v := by
        simpa [value_lsb] using lsb_value (lsb 8 v)
      exact ⟨UInt8.ofNat v :: bytes, by rw [ofBytes_cons, h, hlow, ← lsb_add, mul_add, mul_one, add_comm]⟩
  obtain ⟨bytes, h⟩ := hbytes bs.length (value bs)
  refine ⟨⟨bytes, 0⟩, lsb (7 * bs.length) (value bs / 2 ^ bs.length), [], ?_, rfl⟩
  rw [h, show 8 * bs.length = bs.length + 7 * bs.length by omega, lsb_add, lsb_value, nil_append]

/-- A program over a cursor that may fail. -/
abbrev Reader := StateT Cursor Option

variable {α β : Type}

/-- Wherever `bs` comes next, `f` consumes it and returns `a`. -/
def Reads (f : Reader α) (bs : List Bool) (a : α) : Prop :=
  ∀ c rest, c.At (bs ++ rest) → f c = some (a, c.advance bs.length)

variable {f : Reader α}

lemma Reader.bind_eq {g : α → Reader β} {c c' : Cursor} {a : α} (h : f c = some (a, c')) : (f >>= g) c = g a c' := by
  have hrun : (f >>= g) c = (f c).bind fun p => g p.1 p.2 := rfl
  rw [hrun, h, Option.bind_some]

namespace Reads

lemma pure (a : α) : Reads (pure a) [] a := fun _ _ _ => rfl

lemma run_bind {g : α → Reader β} {rest : List Bool} {a : α} {c : Cursor}
    (hf : Reads f bs a) (hc : c.At (bs ++ rest)) : (f >>= g) c = g a (c.advance bs.length) :=
  Reader.bind_eq (hf c _ hc)

lemma bind {g : α → Reader β} {cs : List Bool} {a : α} {b : β}
    (hf : Reads f bs a) (hg : Reads (g a) cs b) : Reads (f >>= g) (bs ++ cs) b := by
  intro c rest hc
  rw [append_assoc] at hc
  rw [hf.run_bind hc, hg _ _ hc.advance, Cursor.advance_advance, length_append]

lemma bind_pure {a : α} (g : α → β) (hf : Reads f bs a) : Reads (f >>= fun x => Pure.pure (g x)) bs (g a) := by
  simpa using hf.bind (g := fun x => Pure.pure (g x)) (Reads.pure (g a))

/-- A step that does not read and cannot fail here. -/
lemma lift {o : Option α} {a : α} (h : o = some a) : Reads (liftM o) [] a := by
  subst h
  exact fun _ _ _ => rfl

/-- A program reads one value from a string, and nothing behind it. -/
lemma unique {t : List Bool} {a b : α} (h : Reads f bs a) (h' : Reads f (bs ++ t) b) : a = b ∧ t = [] := by
  obtain ⟨c, rest, hc⟩ := exists_at (bs ++ t)
  have heq := h' c rest hc
  rw [append_assoc] at hc
  rw [h c _ hc] at heq
  simpa [Cursor.advance] using heq

/-- A program that goes on without reading. -/
lemma bind_nil {g : α → Reader β} {cs : List Bool} {a : α} {b : β}
    (hf : Reads f [] a) (hg : Reads (g a) cs b) : Reads (f >>= g) cs b := hf.bind hg

end Reads

end Bits
