import Mathlib.Tactic

/-!
# Programs that ask

A program that asks a store one question after the other and depends on nothing else. It can be run
against one store at once, or left after each answer and taken up again later.
-/

namespace Asking

/-- A program over questions `Q` with answers `Ans`. -/
inductive Prog (Q : Type) (Ans : Q → Type) (R : Type)
  | done (r : R)
  | ask (q : Q) (next : Ans q → Prog Q Ans R)

namespace Prog

variable {Q R R' : Type} {Ans : Q → Type}

def bind : Prog Q Ans R → (R → Prog Q Ans R') → Prog Q Ans R'
  | done r, f => f r
  | ask q next, f => ask q fun a => bind (next a) f

instance : Monad (Prog Q Ans) where
  pure := done
  bind := bind

def call (q : Q) : Prog Q Ans (Ans q) := ask q done

def run (answer : ∀ q, Ans q) : Prog Q Ans R → R
  | done r => r
  | ask q next => run answer (next (answer q))

end Prog

end Asking
