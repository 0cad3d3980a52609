import KeyCombo.Combo.Set

set_option autoImplicit false

/-! # Single steps with a set of combos

A set can be worked with step by step, each step on what the one before it left. An insertion
answers whether its combo is new, a removal whether there was anything to remove. -/

namespace KeyCombo.ComboSet

/-- What can be asked of a set. -/
inductive Step where
  | insert (c : Combo)
  | contains (c : Combo)
  | remove (c : Combo)
  | get (c : Combo)
deriving DecidableEq, Repr

/-- What a step answers: yes or no, or the member that was asked for. -/
inductive Answer where
  | flag (value : Bool)
  | member (found : Option Combo)
deriving DecidableEq, Repr

/-- Carries out a step. -/
def perform : Step → ComboSet → Answer × ComboSet
  | .insert c, s => (.flag (!s.contains c), s.insert c)
  | .contains c, s => (.flag (s.contains c), s)
  | .remove c, s => (.flag (s.contains c), s.erase c)
  | .get c, s => (.member (s.get? c), s)

/-- Carries out steps one after the other on anything that takes such steps. Each answer is noted
    together with the size that the step leaves. -/
def performAllWith {σ : Type} (perform : Step → σ → Answer × σ) (size : σ → Nat) :
    List Step → σ → List (Answer × Nat)
  | [], _ => []
  | step :: steps, s =>
    ((perform step s).1, size (perform step s).2)
      :: performAllWith perform size steps (perform step s).2

/-- Carries out steps one after the other on a set. -/
def performAll : List Step → ComboSet → List (Answer × Nat) := performAllWith perform size

end KeyCombo.ComboSet
