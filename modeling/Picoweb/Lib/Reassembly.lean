import Mathlib.Order.Lattice.Nat

/-!
# Putting a string together from slices

Slices of a string arrive in any order, with gaps, overlaps and repetitions. What may be handed on is the prefix
up to the first position that is still missing, less what was handed on before.
-/

namespace Reassembly

variable {α : Type*}

/-- The positions that have arrived, how much was handed on, and whether the end was announced. -/
structure Buffer where
  received : Set ℕ
  taken : ℕ
  ended : Prop

namespace Buffer

def empty : Buffer := ⟨∅, 0, False⟩

/-- The length of the longest prefix without a gap: the first position that is missing. -/
noncomputable def gapFree (b : Buffer) : ℕ := sInf b.receivedᶜ

noncomputable def shown (b : Buffer) (s : List α) : List α := (s.take b.gapFree).drop b.taken

open Classical in
/-- What a look at the buffer shows, if anything is ready. -/
noncomputable def look (b : Buffer) (s : List α) : Option (List α) :=
  if b.shown s = [] then none else some (b.shown s)

def Complete (b : Buffer) (s : List α) : Prop := b.ended ∧ Set.Iio s.length ⊆ b.received

end Buffer

/-- A slice, which may announce the end of the string, a look at what is ready, or handing on some of it. -/
inductive Event
  | slice (off len : ℕ) (last : Bool)
  | peek
  | advance (n : ℕ)
  deriving DecidableEq, Repr

/-- The slice lies in the string, and the end is announced where it is. -/
def Event.Of (s : List α) : Event → Prop
  | .slice off len last => off + len ≤ s.length ∧ (last = true → off + len = s.length)
  | .peek => True
  | .advance _ => True

instance (s : List α) (e : Event) : Decidable (e.Of s) :=
  match e with
  | .slice _ _ _ => inferInstanceAs (Decidable (_ ∧ _))
  | .peek | .advance _ => isTrue trivial

noncomputable def Buffer.step (b : Buffer) : Event → Buffer
  | .slice off len last =>
    { b with received := b.received ∪ Set.Ico off (off + len), ended := b.ended ∨ last = true }
  | .peek => b
  | .advance n => { b with taken := min (b.taken + n) b.gapFree }

namespace Buffer

variable {b : Buffer}

/-! ### The longest prefix without a gap -/

lemma gapFree_eq {k : ℕ} (hbelow : ∀ i < k, i ∈ b.received) (hk : k ∉ b.received) : b.gapFree = k := by
  apply le_antisymm
  · exact Nat.sInf_le hk
  · apply le_csInf ⟨k, hk⟩
    intro i hi
    by_contra hlt
    exact hi (hbelow i (Nat.not_le.1 hlt))

lemma mem_of_lt_gapFree {i : ℕ} (h : i < b.gapFree) : i ∈ b.received := by
  by_contra hi
  exact Nat.notMem_of_lt_sInf h hi

/-- A string has arrived as a whole when the prefix without a gap is all of it. -/
lemma gapFree_eq_iff {n : ℕ} (h : b.received ⊆ Set.Iio n) : b.gapFree = n ↔ Set.Iio n ⊆ b.received := by
  constructor
  · intro heq i hi
    apply mem_of_lt_gapFree
    rw [heq]
    exact hi
  · intro hall
    exact gapFree_eq (fun i hi => hall hi) fun hn => lt_irrefl n (h hn)

lemma gapFree_le {k : ℕ} (h : b.received ⊆ Set.Iio k) : b.gapFree ≤ k :=
  Nat.sInf_le fun hk => lt_irrefl k (h hk)

lemma gapFree_mono {b' : Buffer} (h : b.received ⊆ b'.received) {k : ℕ} (hk : b'.received ⊆ Set.Iio k) :
    b.gapFree ≤ b'.gapFree := by
  have hmissing : k ∉ b'.received := fun hmem => lt_irrefl k (hk hmem)
  apply le_csInf ⟨k, hmissing⟩
  intro i hi
  exact Nat.sInf_le fun hmem => hi (h hmem)

lemma received_step_slice_zero (off : ℕ) (last : Bool) : (b.step (.slice off 0 last)).received = b.received := by
  change b.received ∪ Set.Ico off (off + 0) = b.received
  rw [Nat.add_zero, Set.Ico_self, Set.union_empty]

lemma look_eq_none {s : List α} (h : b.gapFree ≤ b.taken) : b.look s = none := by
  apply if_pos
  apply List.drop_eq_nil_of_le
  exact (List.length_take_le _ _).trans h

lemma look_eq_some {s : List α} (h : b.taken < b.gapFree) (hs : b.gapFree ≤ s.length) :
    b.look s = some (b.shown s) := by
  apply if_neg
  intro hnil
  have hle := List.drop_eq_nil_iff.1 hnil
  rw [List.length_take, Nat.min_eq_left hs] at hle
  exact Nat.not_lt.2 hle h

lemma gapFree_empty : empty.gapFree = 0 := gapFree_eq (fun _ h => absurd h (Nat.not_lt_zero _)) (Set.notMem_empty 0)

end Buffer

end Reassembly
