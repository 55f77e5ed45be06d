import Picoweb.Lib.ByteFile

/-!
# Parsers that check before they read

A parser walks a byte string with cursors that carry how much they may still read. A read past what a
cursor may read is refused; a read outside the byte string is a fault, and running out of fuel is a loop
that does not end. `Ensures` is the rule of such programs: they fault nowhere, end, and what they accept
has a property.
-/

namespace Bounded

open ByteFile List

/-! ### Programs -/

/-- Why a parser stops: it refuses the input, it read outside it, or a loop ran out of fuel. -/
inductive Stop
  | reject
  | fault
  | stuck
  deriving DecidableEq, Repr

abbrev Parse (α : Type) := Except Stop α

def reject {α : Type} : Parse α := .error .reject

variable {α β : Type}

/-- The program refuses its input or returns a value with the property. -/
def Ensures (x : Parse α) (P : α → Prop) : Prop :=
  match x with
  | .ok a => P a
  | .error e => e = .reject

variable {x : Parse α}

namespace Ensures

variable {P Q : α → Prop} {R : β → Prop}

lemma pure {a : α} (h : P a) : Ensures (pure a) P := h

lemma reject : Ensures (reject : Parse α) P := rfl

lemma bind {f : α → Parse β} (hx : Ensures x P) (hf : ∀ a, P a → Ensures (f a) R) : Ensures (x >>= f) R := by
  cases x with
  | error e => exact hx
  | ok a => exact hf a hx

lemma mono (hx : Ensures x P) (h : ∀ a, P a → Q a) : Ensures x Q := by
  cases x with
  | error e => exact hx
  | ok a => exact h a hx

lemma check {p : Prop} [Decidable p] (hx : ¬ p → Ensures x P) : Ensures (if p then Bounded.reject else x) P := by
  split
  · exact reject
  · exact hx ‹_›

lemma ite {p : Prop} [Decidable p] {y : Parse α} (hx : p → Ensures x P) (hy : ¬ p → Ensures y P) :
    Ensures (if p then x else y) P := by
  split
  · exact hx ‹_›
  · exact hy ‹_›

end Ensures

lemma ok_bind (a : α) (f : α → Parse β) : ((.ok a : Parse α) >>= f) = f a := rfl

lemma exists_of_bind_ok {f : α → Parse β} {b : β} (h : x >>= f = .ok b) : ∃ a, x = .ok a ∧ f a = .ok b := by
  cases x with
  | error e => cases h
  | ok a => exact ⟨a, rfl, h⟩

/-- The program reads and computes, but refuses nothing. -/
def NeverRejects (x : Parse α) : Prop := x ≠ .error .reject

lemma NeverRejects.bind {f : α → Parse β} (hx : NeverRejects x) (hf : ∀ a, NeverRejects (f a)) :
    NeverRejects (x >>= f) := by
  cases x with
  | error e => exact fun h => hx (congrArg Except.error (Except.error.inj h))
  | ok a => exact hf a

/-- What an accepting program without refusals ensures holds of a value. -/
lemma NeverRejects.ok_of_ensures {P : α → Prop} (hx : NeverRejects x) (h : Ensures x P) : ∃ a, x = .ok a ∧ P a := by
  cases x with
  | error e => exact absurd (congrArg Except.error h) hx
  | ok a => exact ⟨a, rfl, h⟩

/-! ### Cursors -/

/-- A position, and how much may be read from there. -/
structure Cursor where
  pos : ℕ
  rem : ℕ
  deriving DecidableEq, Repr

namespace Cursor

def advance (c : Cursor) (n : ℕ) : Cursor := ⟨c.pos + n, c.rem - n⟩

def stop (c : Cursor) : ℕ := c.pos + c.rem

/-- All that the cursor may read is there. -/
def Within (msg : Bytes) (c : Cursor) : Prop := c.stop ≤ msg.length

@[simp] lemma advance_pos (c : Cursor) (n : ℕ) : (c.advance n).pos = c.pos + n := rfl

@[simp] lemma advance_rem (c : Cursor) (n : ℕ) : (c.advance n).rem = c.rem - n := rfl

lemma stop_advance {c : Cursor} {n : ℕ} (h : n ≤ c.rem) : (c.advance n).stop = c.stop := by
  simp only [stop, advance_pos, advance_rem]
  omega

lemma Within.advance {msg : Bytes} {c : Cursor} (h : c.Within msg) {n : ℕ} (hn : n ≤ c.rem) :
    (c.advance n).Within msg := by
  rw [Within, stop_advance hn]
  exact h

lemma Within.sub {msg : Bytes} {c : Cursor} (h : c.Within msg) {n : ℕ} (hn : n ≤ c.rem) :
    (⟨c.pos, n⟩ : Cursor).Within msg := by
  simp only [Within, stop] at h ⊢
  omega

end Cursor

/-! ### Reads -/

def fetch (msg : Bytes) (pos : ℕ) : Parse UInt8 :=
  match msg[pos]? with
  | some b => .ok b
  | none => .error .fault

def fetches (msg : Bytes) (pos n : ℕ) : Parse Bytes :=
  if pos + n ≤ msg.length then .ok ((msg.drop pos).take n) else .error .fault

def u8 (msg : Bytes) (c : Cursor) : Parse (ℕ × Cursor) :=
  if c.rem < 1 then reject
  else do
    let b ← fetch msg c.pos
    pure (b.toNat, c.advance 1)

def u16 (msg : Bytes) (c : Cursor) : Parse (ℕ × Cursor) :=
  if c.rem < 2 then reject
  else do
    let hi ← fetch msg c.pos
    let lo ← fetch msg (c.pos + 1)
    pure (hi.toNat * 256 + lo.toNat, c.advance 2)

def u24 (msg : Bytes) (c : Cursor) : Parse (ℕ × Cursor) :=
  if c.rem < 3 then reject
  else do
    let hi ← fetch msg c.pos
    let mid ← fetch msg (c.pos + 1)
    let lo ← fetch msg (c.pos + 2)
    pure ((hi.toNat * 256 + mid.toNat) * 256 + lo.toNat, c.advance 3)

def skip (c : Cursor) (n : ℕ) : Parse Cursor :=
  if c.rem < n then reject else pure (c.advance n)

def copy (msg : Bytes) (c : Cursor) (n : ℕ) : Parse (Bytes × Cursor) :=
  if c.rem < n then reject
  else do
    let bytes ← fetches msg c.pos n
    pure (bytes, c.advance n)

/-- The number the two bytes at a position stand for. -/
def U16At (msg : Bytes) (pos n : ℕ) : Prop :=
  ∃ hi lo : UInt8, msg[pos]? = some hi ∧ msg[pos + 1]? = some lo ∧ n = hi.toNat * 256 + lo.toNat

def U8At (msg : Bytes) (pos n : ℕ) : Prop := ∃ b : UInt8, msg[pos]? = some b ∧ n = b.toNat

section Reads

variable {msg : Bytes} {c : Cursor}

lemma fetch_ensures {pos : ℕ} (h : pos < msg.length) : Ensures (fetch msg pos) fun b => msg[pos]? = some b := by
  rw [fetch, getElem?_eq_getElem h]
  exact rfl

lemma fetch_cases (msg : Bytes) (pos : ℕ) :
    (∃ b, msg[pos]? = some b ∧ fetch msg pos = .ok b) ∨ fetch msg pos = .error .fault := by
  rw [fetch]
  cases msg[pos]? with
  | none => exact .inr rfl
  | some b => exact .inl ⟨b, rfl, rfl⟩

lemma fetch_neverRejects (msg : Bytes) (pos : ℕ) : NeverRejects (fetch msg pos) := by
  rcases fetch_cases msg pos with ⟨b, -, h⟩ | h
  · rw [h]
    exact nofun
  · rw [h]
    exact nofun

lemma fetches_ensures {pos n : ℕ} (h : pos + n ≤ msg.length) :
    Ensures (fetches msg pos n) fun bytes => bytes = (msg.drop pos).take n := by
  rw [fetches, if_pos h]
  exact rfl

lemma Ensures.fetch {pos : ℕ} {f : UInt8 → Parse β} {R : β → Prop} (h : pos < msg.length)
    (hf : ∀ b, msg[pos]? = some b → Ensures (f b) R) : Ensures (Bounded.fetch msg pos >>= f) R :=
  .bind (fetch_ensures h) hf

lemma Ensures.fetches {pos n : ℕ} {f : Bytes → Parse β} {R : β → Prop} (h : pos + n ≤ msg.length)
    (hf : ∀ bytes, bytes = (msg.drop pos).take n → Ensures (f bytes) R) : Ensures (Bounded.fetches msg pos n >>= f) R :=
  .bind (fetches_ensures h) hf

lemma fetch_of_drop {rest : Bytes} {pos : ℕ} {b : UInt8} (h : msg.drop pos = b :: rest) :
    fetch msg pos = .ok b ∧ msg.drop (pos + 1) = rest := by
  rw [fetch, ← head?_drop, ← tail_drop, h]
  exact ⟨rfl, rfl⟩

/-- A part that stands at a position is what is read there. -/
lemma fetches_of_drop {pos : ℕ} {part rest : Bytes} (h : msg.drop pos = part ++ rest) (hpos : pos ≤ msg.length) :
    fetches msg pos part.length = .ok part := by
  have hlen := congrArg length h
  rw [length_drop, length_append] at hlen
  rw [fetches, if_pos (by omega), h, take_left]

lemma drop_add_of_drop {pos : ℕ} {part rest : Bytes} (h : msg.drop pos = part ++ rest) :
    msg.drop (pos + part.length) = rest := by
  rw [← drop_drop, h, drop_left]

/-- The program reads `n` bytes, and what it reads has the property. -/
def Reads (c : Cursor) (n : ℕ) (x : Parse (α × Cursor)) (P : α → Prop) : Prop :=
  Ensures x fun r => n ≤ c.rem ∧ r.2 = c.advance n ∧ P r.1

lemma u8_reads (h : c.Within msg) : Reads c 1 (u8 msg c) (U8At msg c.pos) := by
  refine .check fun hrem => ?_
  simp only [Cursor.Within, Cursor.stop] at h
  refine .fetch (by omega) fun b hb => ?_
  exact ⟨by omega, rfl, b, hb, rfl⟩

lemma u16_reads (h : c.Within msg) : Reads c 2 (u16 msg c) (U16At msg c.pos) := by
  refine .check fun hrem => ?_
  simp only [Cursor.Within, Cursor.stop] at h
  refine .fetch (by omega) fun hi hhi => ?_
  refine .fetch (by omega) fun lo hlo => ?_
  exact ⟨by omega, rfl, hi, lo, hhi, hlo, rfl⟩

lemma u24_reads (h : c.Within msg) : Reads c 3 (u24 msg c) fun _ => True := by
  refine .check fun hrem => ?_
  simp only [Cursor.Within, Cursor.stop] at h
  refine .fetch (by omega) fun _ _ => ?_
  refine .fetch (by omega) fun _ _ => ?_
  refine .fetch (by omega) fun _ _ => ?_
  exact ⟨by omega, rfl, trivial⟩

lemma copy_reads (h : c.Within msg) (n : ℕ) : Reads c n (copy msg c n) fun _ => True := by
  refine .check fun hrem => ?_
  refine .fetches (h.sub (Nat.not_lt.1 hrem)) fun _ _ => ?_
  exact ⟨by omega, rfl, trivial⟩

variable {n : ℕ} {R : β → Prop}

lemma Reads.bind {x : Parse (α × Cursor)} {P : α → Prop} {f : α × Cursor → Parse β} (hx : Reads c n x P)
    (h : c.Within msg)
    (hf : ∀ a c', P a → c'.pos = c.pos + n → c'.rem + n = c.rem → c'.Within msg → Ensures (f (a, c')) R) :
    Ensures (x >>= f) R := by
  refine Ensures.bind hx ?_
  rintro ⟨a, _⟩ ⟨hle, rfl, ha⟩
  exact hf a _ ha rfl (Nat.sub_add_cancel hle) (h.advance hle)

lemma Ensures.u8 {f : ℕ × Cursor → Parse β} (h : c.Within msg)
    (hf : ∀ n c', U8At msg c.pos n → c'.pos = c.pos + 1 → c'.rem + 1 = c.rem → c'.Within msg → Ensures (f (n, c')) R) :
    Ensures (Bounded.u8 msg c >>= f) R := (u8_reads h).bind h hf

lemma Ensures.u16 {f : ℕ × Cursor → Parse β} (h : c.Within msg)
    (hf : ∀ n c', U16At msg c.pos n → c'.pos = c.pos + 2 → c'.rem + 2 = c.rem → c'.Within msg → Ensures (f (n, c')) R) :
    Ensures (Bounded.u16 msg c >>= f) R := (u16_reads h).bind h hf

lemma Ensures.skip {f : Cursor → Parse β} (h : c.Within msg)
    (hf : ∀ c' : Cursor, c'.pos = c.pos + n → c'.rem + n = c.rem → c'.Within msg → Ensures (f c') R) :
    Ensures (Bounded.skip c n >>= f) R := by
  by_cases hrem : c.rem < n
  · rw [Bounded.skip, if_pos hrem]
    exact .reject
  · rw [Bounded.skip, if_neg hrem]
    exact hf _ rfl (Nat.sub_add_cancel (Nat.not_lt.1 hrem)) (h.advance (Nat.not_lt.1 hrem))

end Reads

/-! ### The first bytes of an input -/

section Cut

variable {msg : Bytes} {pos n : ℕ}

lemma fetch_take (h : pos < n) : fetch (msg.take n) pos = fetch msg pos := by
  rw [fetch, fetch, getElem?_take_of_lt h]

lemma fetches_take {len : ℕ} (h : pos + len ≤ n) : fetches (msg.take n) pos len = fetches msg pos len := by
  have hiff : pos + len ≤ (msg.take n).length ↔ pos + len ≤ msg.length := by
    rw [length_take]
    omega
  rw [fetches, fetches, drop_take, take_take, Nat.min_eq_left (by omega)]
  simp only [hiff]

/-- A program that reads an input of `len` bytes from `pos` on, and what it does on the first `n` bytes: it moves on
within the input to a value with the property, and a cut behind where it ends changes nothing. -/
def Cut (len n pos : ℕ) (P : α → Prop) (x y : Parse (α × ℕ)) : Prop :=
  pos ≤ len → ∀ a fin, x = .ok (a, fin) → P a ∧ pos ≤ fin ∧ fin ≤ len ∧ (fin ≤ n → y = .ok (a, fin))

/-- A reader that does not notice what stands behind the bytes it takes. -/
def Local (P : α → Prop) (read : Bytes → ℕ → Parse (α × ℕ)) : Prop :=
  ∀ msg n pos, Cut msg.length n pos P (read msg pos) (read (msg.take n) pos)

variable {len : ℕ} {P : α → Prop} {Q : β → Prop}

lemma Cut.pure {a : α} (h : P a) : Cut len n pos P (pure (a, pos)) (pure (a, pos)) := by
  intro hpos a fin heq
  cases heq
  exact ⟨h, le_rfl, hpos, fun _ => rfl⟩

lemma Cut.check {p : Prop} [Decidable p] {x y : Parse (α × ℕ)} (h : Cut len n pos P x y) :
    Cut len n pos P (if p then reject else x) (if p then reject else y) := by
  split
  · exact fun _ _ _ heq => nomatch heq
  · exact h

lemma Cut.bind {x y : Parse (α × ℕ)} {f g : α × ℕ → Parse (β × ℕ)} (hx : Cut len n pos P x y)
    (hf : ∀ a fin, Cut len n fin Q (f (a, fin)) (g (a, fin))) : Cut len n pos Q (x >>= f) (y >>= g) := by
  intro hpos b fin heq
  obtain ⟨⟨a, mid⟩, hax, hbf⟩ := exists_of_bind_ok heq
  obtain ⟨-, hle, hlen, hy⟩ := hx hpos a mid hax
  obtain ⟨hb, hle', hlen', hg⟩ := hf a mid hlen b fin hbf
  refine ⟨hb, hle.trans hle', hlen', fun hn => ?_⟩
  rw [hy (hle'.trans hn), ok_bind, hg hn]

lemma Cut.fetch {f g : UInt8 → Parse (α × ℕ)} (hf : ∀ b, msg[pos]? = some b → Cut msg.length n (pos + 1) P (f b) (g b)) :
    Cut msg.length n pos P (Bounded.fetch msg pos >>= f) (Bounded.fetch (msg.take n) pos >>= g) := by
  intro _ a fin heq
  obtain ⟨b, hb, heq⟩ := exists_of_bind_ok heq
  obtain ⟨b', hget, hb'⟩ | hfault := fetch_cases msg pos
  · cases hb.symm.trans hb'
    obtain ⟨ha, hle, hlen, hg⟩ := hf b hget (List.getElem?_eq_some_iff.1 hget).1 a fin heq
    refine ⟨ha, by omega, hlen, fun hn => ?_⟩
    rw [fetch_take (by omega), hb, ok_bind, hg hn]
  · cases hb.symm.trans hfault

end Cut

/-! ### Writes -/

/-- Bytes in the place of others. -/
def overwrite (buf : Bytes) (pos : ℕ) (bytes : Bytes) : Bytes :=
  buf.take pos ++ bytes ++ buf.drop (pos + bytes.length)

def store (buf : Bytes) (pos : ℕ) (bytes : Bytes) : Parse Bytes :=
  if pos + bytes.length ≤ buf.length then .ok (overwrite buf pos bytes) else .error .fault

section Writes

variable {buf bytes : Bytes} {pos : ℕ}

lemma length_overwrite (h : pos + bytes.length ≤ buf.length) : (overwrite buf pos bytes).length = buf.length := by
  simp only [overwrite, length_append, length_take, length_drop]
  omega

lemma overwrite_append {a b c : Bytes} (hb : bytes.length = b.length) :
    overwrite (a ++ b ++ c) a.length bytes = a ++ bytes ++ c := by
  rw [overwrite, hb, append_assoc a b c, take_left, ← append_assoc, ← length_append,
    drop_left]

lemma store_eq (h : pos + bytes.length ≤ buf.length) : store buf pos bytes = .ok (overwrite buf pos bytes) := if_pos h

end Writes

/-! ### Sizes -/

/-- A sum of two sizes, which wraps around. -/
def sizeAdd (a b : ℕ) : ℕ := (a + b) % 2 ^ 64

/-- A difference of two sizes, which wraps around. -/
def sizeSub (a b : ℕ) : ℕ := (a + 2 ^ 64 - b) % 2 ^ 64

lemma sizeAdd_of_lt {a b : ℕ} (h : a + b < 2 ^ 64) : sizeAdd a b = a + b := Nat.mod_eq_of_lt h

lemma sizeSub_of_le {a b : ℕ} (hle : b ≤ a) (ha : a < 2 ^ 64) : sizeSub a b = a - b := by
  rw [sizeSub]
  omega

lemma sizeSub_of_lt {a b : ℕ} (hlt : a < b) : sizeSub a b = a + 2 ^ 64 - b := by
  rw [sizeSub]
  omega

/-- Two-byte numbers as long as the cursor may read one. -/
def u16s (msg : Bytes) : ℕ → Cursor → Parse (List ℕ × Cursor)
  | 0, _ => .error .stuck
  | fuel + 1, c =>
    if c.rem < 2 then pure ([], c)
    else do
      let (n, c) ← u16 msg c
      let (ns, c) ← u16s msg fuel c
      pure (n :: ns, c)

lemma u16s_ensures {msg : Bytes} {fuel : ℕ} {c : Cursor} (h : c.Within msg) (hfuel : c.rem < fuel) :
    Ensures (u16s msg fuel c) fun r => r.2.Within msg := by
  induction fuel generalizing c with
  | zero => omega
  | succ fuel ih =>
    refine .ite (fun _ => h) fun hrem => ?_
    refine .u16 h fun n c₁ _ _ r₁ h₁ => ?_
    exact .bind (ih h₁ (by omega)) fun q hq => hq

end Bounded
