/- A one-way byte link that holds at most one accepted batch: what it has taken
   in is always what it has delivered followed by what it still holds. -/

import Mathlib.Data.List.Basic
import Mathlib.Logic.Relation

set_option autoImplicit false
set_option relaxedAutoImplicit false

namespace Rmsgw.Lib.ByteLink

universe u

/-- Everything accepted so far, everything delivered so far, and the batch in hand. -/
@[ext] structure Link (α : Type u) where
  accepted : List α
  delivered : List α
  held : List α

variable {α : Type u}

/-- A link stands still, accepts a batch when its hands are empty, or delivers
the front part of the batch in hand. -/
inductive Link.Step : Link α → Link α → Prop
  | stay (l : Link α) : Step l l
  | accept (l : Link α) (batch : List α) (idle : l.held = []) :
      Step l ⟨l.accepted ++ batch, l.delivered, batch⟩
  | deliver (l : Link α) (count : Nat) :
      Step l ⟨l.accepted, l.delivered ++ l.held.take count, l.held.drop count⟩

/-- Nothing is lost, invented, repeated or reordered. -/
def Link.Exact (l : Link α) : Prop := l.accepted = l.delivered ++ l.held

theorem Link.Step.exact {l m : Link α} (h : l.Step m) (hl : l.Exact) : m.Exact := by
  cases h with
  | stay => exact hl
  | accept batch idle =>
      have hnil : l.accepted = l.delivered := by simpa [Link.Exact, idle] using hl
      simp only [Link.Exact, hnil]
  | deliver count =>
      simp only [Link.Exact, List.append_assoc, List.take_append_drop]
      exact hl

theorem Link.Exact.delivered_prefix {l : Link α} (h : l.Exact) : l.delivered <+: l.accepted :=
  ⟨l.held, h.symm⟩

theorem Link.Exact.delivered_all {l : Link α} (h : l.Exact) (idle : l.held = []) :
    l.delivered = l.accepted := by
  simpa [Link.Exact, idle] using h.symm

end Rmsgw.Lib.ByteLink
