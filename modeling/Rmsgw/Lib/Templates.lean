/- Templates of literals and references to named values: what a template expands
   to, and which templates always expand alike. -/

import Mathlib.Logic.Nontrivial.Basic

set_option autoImplicit false
set_option relaxedAutoImplicit false

namespace Rmsgw.Lib.Templates

universe u v

inductive Token (α : Type u) (ν : Type v)
  | lit (c : α)
  | ref (n : ν)
  deriving DecidableEq

variable {α : Type u} {ν : Type v}

/-- Literals stand for themselves, references for their values. -/
def expand (value : ν → List α) : List (Token α ν) → List α
  | [] => []
  | .lit c :: ts => c :: expand value ts
  | .ref n :: ts => value n ++ expand value ts

@[simp] theorem expand_append (value : ν → List α) (ts us : List (Token α ν)) :
    expand value (ts ++ us) = expand value ts ++ expand value us := by
  induction ts with
  | nil => rfl
  | cons t ts ih => cases t <;> simp [expand, ih]

theorem expand_length_le {value : ν → List α} (short : ∀ n, (value n).length ≤ 1)
    (ts : List (Token α ν)) : (expand value ts).length ≤ ts.length := by
  induction ts with
  | nil => exact Nat.le_refl 0
  | cons t ts ih =>
      cases t with
      | lit c => exact Nat.succ_le_succ ih
      | ref n =>
          have hn := short n
          simp only [expand, List.length_append, List.length_cons]
          omega

/-- The names that a template refers to. -/
def names : List (Token α ν) → List ν
  | [] => []
  | .lit _ :: ts => names ts
  | .ref n :: ts => n :: names ts

@[simp] theorem names_append (ts us : List (Token α ν)) : names (ts ++ us) = names ts ++ names us := by
  induction ts with
  | nil => rfl
  | cons t ts ih => cases t <;> simp [names, ih]

/-- A text without references. -/
def literals (s : List α) : List (Token α ν) := s.map Token.lit

@[simp] theorem expand_literals (value : ν → List α) (s : List α) :
    expand value (literals s) = s := by
  induction s with
  | nil => rfl
  | cons c s ih => exact congrArg (c :: ·) ih

@[simp] theorem names_literals (s : List α) : names (literals s : List (Token α ν)) = [] := by
  induction s with
  | nil => rfl
  | cons c s ih => exact ih

/-- The value that a table gives a name, nothing if it has none. -/
def valueIn [BEq ν] (table : List (ν × List α)) (n : ν) : List α :=
  ((table.find? (fun e => e.1 == n)).map Prod.snd).getD []

section Tables

variable [BEq ν]

theorem valueIn_length_le {table : List (ν × List α)} (short : ∀ e ∈ table, e.2.length ≤ 1) (n : ν) :
    (valueIn table n).length ≤ 1 := by
  cases h : table.find? (fun e => e.1 == n) with
  | none => simp [valueIn, h]
  | some e => simpa [valueIn, h] using short e (List.mem_of_find?_eq_some h)

/-- The table tells the two templates apart with values of at most one element. -/
def Separates (table : List (ν × List α)) (ts us : List (Token α ν)) : Prop :=
  (∀ e ∈ table, e.2.length ≤ 1) ∧ expand (valueIn table) ts ≠ expand (valueIn table) us

theorem Separates.cons {table : List (ν × List α)} {ts us : List (Token α ν)}
    (h : Separates table ts us) (t : Token α ν) : Separates table (t :: ts) (t :: us) := by
  refine ⟨h.1, fun heq => h.2 ?_⟩
  cases t with
  | lit c => exact (List.cons.inj heq).2
  | ref n => exact List.append_cancel_left heq

theorem Separates.symm {table : List (ν × List α)} {ts us : List (Token α ν)}
    (h : Separates table ts us) : Separates table us ts := ⟨h.1, h.2.symm⟩

variable [LawfulBEq ν]

theorem separates_lit_ref [Nontrivial α] (c : α) (m : ν) (ts us : List (Token α ν)) :
    ∃ table : List (ν × List α), Separates table (.lit c :: ts) (.ref m :: us) := by
  obtain ⟨a, ha⟩ := exists_ne c
  refine ⟨[(m, [a])], by simp, fun heq => ha ?_⟩
  simp only [expand, valueIn, List.find?_cons, BEq.rfl, Option.map_some, Option.getD_some,
    List.singleton_append] at heq
  exact (List.cons.inj heq).1.symm

theorem separates_nil_ref [Nontrivial α] (m : ν) (us : List (Token α ν)) :
    ∃ table : List (ν × List α), Separates table [] (.ref m :: us) := by
  obtain ⟨a, -⟩ := exists_pair_ne α
  refine ⟨[(m, [a])], by simp, fun heq => ?_⟩
  simp [expand, valueIn] at heq

theorem separates_ref_ref [Nontrivial α] {n m : ν} (h : n ≠ m) (ts us : List (Token α ν)) :
    ∃ table : List (ν × List α), Separates table (.ref n :: ts) (.ref m :: us) := by
  obtain ⟨a, b, hab⟩ := exists_pair_ne α
  have hnm : (n == m) = false := beq_eq_false_iff_ne.mpr h
  refine ⟨[(n, [a]), (m, [b])], by simp, fun heq => hab ?_⟩
  simp only [expand, valueIn, List.find?_cons, BEq.rfl, hnm, Option.map_some, Option.getD_some,
    List.singleton_append] at heq
  exact (List.cons.inj heq).1

/-- Different templates are told apart by the values of one or two names. -/
theorem exists_separates [Nontrivial α] {ts us : List (Token α ν)} (h : ts ≠ us) :
    ∃ table : List (ν × List α), Separates table ts us := by
  have hnone : ∀ e ∈ ([] : List (ν × List α)), e.2.length ≤ 1 := fun e he => by cases he
  induction ts generalizing us with
  | nil =>
      cases us with
      | nil => exact absurd rfl h
      | cons u us =>
          cases u with
          | lit d => exact ⟨[], hnone, by simp [expand]⟩
          | ref m => exact separates_nil_ref m us
  | cons t ts ih =>
      cases us with
      | nil =>
          cases t with
          | lit c => exact ⟨[], hnone, by simp [expand]⟩
          | ref n => exact (separates_nil_ref n ts).imp fun _ => Separates.symm
      | cons u us =>
          by_cases htu : t = u
          · subst htu
            have htail : ts ≠ us := fun heq => h (congrArg (t :: ·) heq)
            exact (ih htail).imp fun _ hsep => hsep.cons t
          cases t with
          | lit c =>
              cases u with
              | lit d =>
                  have hcd : c ≠ d := fun heq => htu (congrArg Token.lit heq)
                  exact ⟨[], hnone, fun heq => hcd (List.cons.inj heq).1⟩
              | ref m => exact separates_lit_ref c m ts us
          | ref n =>
              cases u with
              | lit d => exact (separates_lit_ref d n us ts).imp fun _ => Separates.symm
              | ref m => exact separates_ref_ref (fun heq => htu (congrArg Token.ref heq)) ts us

end Tables

end Rmsgw.Lib.Templates
