import Picoweb.Lib.Run
import Mathlib.Data.List.Chain
import Mathlib.Data.List.Destutter

/-!
# What is observed along a run

The states of a run in order, a relation between each state and the next, and the values that an
observation takes: where it changes only along a relation, its successive distinct values form a chain.
-/

namespace Run

open List

variable {S A B : Type*} {step : S → A → S} {ok : S → A → Prop} {R : S → S → Prop}

/-- The states that a run goes through, the first one included. -/
def states (step : S → A → S) : S → List A → List S
  | s, [] => [s]
  | s, a :: as => s :: states step (step s a) as

@[simp] lemma head?_states (s : S) (as : List A) : (states step s as).head? = some s := by
  cases as <;> rfl

/-- What every guarded step keeps and how it relates its two states, along a guarded run. -/
theorem Guarded.isChain {P : S → Prop} (hstep : ∀ s a, P s → ok s a → P (step s a) ∧ R s (step s a))
    {s : S} {as : List A} (h : Guarded step ok s as) (hs : P s) : (states step s as).IsChain R := by
  induction as generalizing s with
  | nil => exact isChain_singleton s
  | cons a as ih =>
    obtain ⟨hP, hR⟩ := hstep s a hs h.1
    refine isChain_cons.2 ⟨?_, ih h.2 hP⟩
    simpa using hR

/-- An observation that, once made, is made again in the next state, along a relation or unchanged. -/
lemma isChain_filterMap {T : B → B → Prop} {f : S → Option B}
    (hf : ∀ s t, R s t → ∀ a, f s = some a → ∃ b, f t = some b ∧ (a = b ∨ T a b))
    {l : List S} (h : l.IsChain R) : (l.filterMap f).IsChain fun a b => a = b ∨ T a b := by
  induction l with
  | nil => exact isChain_nil
  | cons s l ih =>
    obtain ⟨hhead, htail⟩ := isChain_cons.1 h
    rcases ha : f s with _ | a
    · rw [filterMap_cons_none ha]
      exact ih htail
    rw [filterMap_cons_some ha]
    refine isChain_cons.2 ⟨?_, ih htail⟩
    intro b hb
    -- the next state makes the observation, so it is the next one
    cases l with
    | nil => simp at hb
    | cons t l =>
      obtain ⟨b', hb', hab⟩ := hf s t (hhead t rfl) a ha
      rw [filterMap_cons_some hb'] at hb
      obtain rfl : b' = b := by simpa using hb
      exact hab

lemma head?_destutter'_ne [DecidableEq B] (a : B) (l : List B) : (l.destutter' (· ≠ ·) a).head? = some a := by
  induction l with
  | nil => rfl
  | cons b l ih =>
    rw [destutter'_cons]
    split_ifs
    · rfl
    · exact ih

/-- Without its repetitions, a list that steps along a relation or not at all is a chain. -/
lemma isChain_destutter_ne [DecidableEq B] {T : B → B → Prop} {l : List B}
    (h : l.IsChain fun a b => a = b ∨ T a b) : (l.destutter (· ≠ ·)).IsChain T := by
  cases l with
  | nil => exact isChain_nil
  | cons a l =>
    rw [destutter_cons']
    induction l generalizing a with
    | nil => exact isChain_singleton a
    | cons b l ih =>
      obtain ⟨hab, hl⟩ := isChain_cons_cons.1 h
      by_cases hne : a ≠ b
      · rw [destutter'_cons_pos _ hne]
        refine isChain_cons.2 ⟨?_, ih b hl⟩
        intro c hc
        rw [head?_destutter'_ne] at hc
        obtain rfl : b = c := by simpa using hc
        exact hab.resolve_left hne
      · obtain rfl : a = b := not_not.1 hne
        rw [destutter'_cons_neg _ hne]
        exact ih a hl

end Run
