import Mathlib.Tactic

/-!
# Guarded runs

A deterministic system takes one step per action. A run is guarded when every action meets a condition
in the state it is taken from; what each guarded step keeps, a guarded run keeps.
-/

namespace Run

open List

variable {S A : Type*} {step : S → A → S} {ok : S → A → Prop}

/-- Every action of the run meets `ok` in the state it is taken from. -/
def Guarded (step : S → A → S) (ok : S → A → Prop) : S → List A → Prop
  | _, [] => True
  | s, a :: as => ok s a ∧ Guarded step ok (step s a) as

instance Guarded.decidable [∀ s a, Decidable (ok s a)] (s : S) (as : List A) : Decidable (Guarded step ok s as) :=
  match as with
  | [] => isTrue trivial
  | a :: as =>
    have := Guarded.decidable (step s a) as
    inferInstanceAs (Decidable (ok s a ∧ Guarded step ok (step s a) as))

/-- What every guarded step keeps holds at the end of a guarded run. -/
theorem Guarded.invariant {P : S → Prop} (hstep : ∀ s a, P s → ok s a → P (step s a))
    {s : S} {as : List A} (h : Guarded step ok s as) (hs : P s) : P (as.foldl step s) := by
  induction as generalizing s with
  | nil => exact hs
  | cons a as ih =>
    obtain ⟨ha, has⟩ := h
    exact ih has (hstep s a hs ha)

lemma guarded_append {s : S} {before later : List A} : Guarded step ok s (before ++ later) ↔
    Guarded step ok s before ∧ Guarded step ok (before.foldl step s) later := by
  induction before generalizing s with
  | nil => simp [Guarded]
  | cons b before ih => exact (and_congr_right fun _ => ih).trans and_assoc.symm

/-- A condition that every action of the run meets joins the guard. -/
lemma Guarded.and_mem {p : A → Prop} {s : S} {as : List A} (h : Guarded step ok s as)
    (hp : ∀ a ∈ as, p a) : Guarded step (fun s a => ok s a ∧ p a) s as := by
  induction as generalizing s with
  | nil => trivial
  | cons a as ih =>
    exact ⟨⟨h.1, hp a mem_cons_self⟩, ih h.2 fun x hx => hp x (mem_cons_of_mem _ hx)⟩

/-- Where a guarded action leaves the observation alone and any other one moves it up, a run keeps the
observation exactly if it is guarded. -/
theorem guarded_iff_observe_eq {T : Type*} {P : S → Prop} {observe : S → T} (measure : T → ℕ)
    (hP : ∀ s a, P s → P (step s a)) (hok : ∀ s a, P s → ok s a → observe (step s a) = observe s)
    (hnot : ∀ s a, P s → ¬ ok s a → measure (observe s) < measure (observe (step s a)))
    {s : S} (hs : P s) (as : List A) : observe (as.foldl step s) = observe s ↔ Guarded step ok s as := by
  have hle : ∀ (as : List A) s, P s → measure (observe s) ≤ measure (observe (as.foldl step s)) := by
    intro as
    induction as with
    | nil => exact fun s _ => le_rfl
    | cons a as ih =>
      intro s hs
      refine le_trans ?_ (ih (step s a) (hP s a hs))
      by_cases ha : ok s a
      · exact (congrArg measure (hok s a hs ha)).ge
      · exact (hnot s a hs ha).le
  induction as generalizing s with
  | nil => exact iff_of_true rfl trivial
  | cons a as ih =>
    have hrest := ih (hP s a hs)
    constructor
    · intro heq
      have ha : ok s a := by
        by_contra ha
        have hrun := hle as (step s a) (hP s a hs)
        rw [foldl_cons] at heq
        rw [heq] at hrun
        exact (hnot s a hs ha).not_ge hrun
      exact ⟨ha, hrest.mp (heq.trans (hok s a hs ha).symm)⟩
    · rintro ⟨ha, has⟩
      exact (hrest.mpr has).trans (hok s a hs ha)

section Lift

variable {T : Type*} (lifted : T → A → T) (f : T → S)

/-- A system that carries more along is guarded like the system below it. -/
lemma Guarded.lift (hf : ∀ t a, f (lifted t a) = step (f t) a) {t : T} {as : List A}
    (h : Guarded step ok (f t) as) : Guarded lifted (fun t a => ok (f t) a) t as := by
  induction as generalizing t with
  | nil => trivial
  | cons a as ih =>
    have hrest := h.2
    rw [← hf t a] at hrest
    exact ⟨h.1, ih hrest⟩

end Lift

/-- A fold that takes the new element or stays with the one it has ends with an element of the list. -/
lemma exists_mem_foldl {α : Type*} {f : Option α → α → Option α} (h₀ : ∀ x, f none x = some x)
    (hf : ∀ b x, f (some b) x = some x ∨ f (some b) x = some b) {l : List α} (hl : l ≠ []) :
    ∃ x ∈ l, l.foldl f none = some x := by
  obtain ⟨x, l, rfl⟩ := exists_cons_of_ne_nil hl
  rw [foldl_cons, h₀]
  clear hl
  induction l generalizing x with
  | nil => exact ⟨x, mem_cons_self, rfl⟩
  | cons y l ih =>
    rw [foldl_cons]
    obtain h | h := hf x y <;> rw [h]
    · obtain ⟨z, hz, h'⟩ := ih y
      exact ⟨z, mem_cons_of_mem _ hz, h'⟩
    · obtain ⟨z, hz, h'⟩ := ih x
      exact ⟨z, cons_subset_cons _ (subset_cons_self _ _) hz, h'⟩

/-- A fold that puts each element somewhere into the list it has is a permutation. -/
lemma perm_foldl_insert {α : Type*} {insert : List α → α → List α} (h : ∀ acc x, (insert acc x).Perm (x :: acc))
    (xs acc : List α) : (xs.foldl insert acc).Perm (xs ++ acc) := by
  induction xs generalizing acc with
  | nil => exact .refl _
  | cons x xs ih =>
    exact (ih _).trans (((h acc x).append_left xs).trans perm_middle)

end Run
