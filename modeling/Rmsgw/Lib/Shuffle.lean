/- Traces of several sequences at once, each of them in its own order. -/

import Mathlib.Data.List.Basic
import Mathlib.Data.List.Flatten
import Mathlib.Data.List.Perm.Basic

set_option autoImplicit false
set_option relaxedAutoImplicit false

namespace Rmsgw.Lib.Shuffle

universe u

variable {α : Type u}

/-- A trace takes the head of any of the sequences, again and again, until all of
them are spent. -/
inductive Shuffled : List (List α) → List α → Prop
  | spent {runs : List (List α)} (none : ∀ r ∈ runs, r = []) : Shuffled runs []
  | take {runs : List (List α)} (i : Nat) {a : α} {r trace : List α}
      (head : runs[i]? = some (a :: r)) (rest : Shuffled (runs.set i r) trace) :
      Shuffled runs (a :: trace)

variable {runs : List (List α)} {trace : List α}

theorem flatten_set_perm {i : Nat} {a : α} {r : List α} (h : runs[i]? = some (a :: r)) :
    runs.flatten.Perm (a :: (runs.set i r).flatten) := by
  induction runs generalizing i with
  | nil => cases h
  | cons x runs ih =>
      cases i with
      | zero =>
          obtain rfl := Option.some.inj h
          exact List.Perm.refl _
      | succ i =>
          have hrest := ih (i := i) h
          simp only [List.flatten_cons, List.set_cons_succ]
          exact (hrest.append_left x).trans List.perm_middle

/-- A trace has the members of the sequences, each as often as they have it. -/
theorem Shuffled.perm (h : Shuffled runs trace) : trace.Perm runs.flatten := by
  induction h with
  | spent none => rw [List.flatten_eq_nil_iff.mpr none]
  | take i head _ ih => exact (ih.cons _).trans (flatten_set_perm head).symm

/-- What a trace keeps of some kind of member is a trace of what the sequences keep. -/
theorem Shuffled.filter (p : α → Bool) (h : Shuffled runs trace) :
    Shuffled (runs.map (List.filter p)) (trace.filter p) := by
  induction h with
  | spent none =>
      refine .spent fun r hr => ?_
      obtain ⟨r', hr', rfl⟩ := List.mem_map.mp hr
      rw [none r' hr', List.filter_nil]
  | @take runs i a r trace head _ ih =>
      have hget : (runs.map (List.filter p))[i]? = some ((a :: r).filter p) := by
        rw [List.getElem?_map, head, Option.map_some]
      by_cases ha : p a = true
      · rw [List.filter_cons_of_pos ha] at hget ⊢
        refine .take i hget ?_
        rw [List.map_set] at ih
        exact ih
      · rw [List.filter_cons_of_neg ha] at hget ⊢
        rw [List.map_set] at ih
        obtain ⟨hlt, heq⟩ := List.getElem?_eq_some_iff.mp hget
        rw [← heq, List.set_getElem_self] at ih
        exact ih

/-- A trace of one sequence among spent ones is that sequence. -/
theorem Shuffled.eq_lone {i : Nat} {r : List α} (h : Shuffled runs trace)
    (hr : runs[i]? = some r) (others : ∀ (j : Nat) (r' : List α), j ≠ i → runs[j]? = some r' →
      r' = []) : trace = r := by
  induction h generalizing r with
  | spent none => exact (none r (List.mem_of_getElem? hr)).symm
  | @take runs j a r' trace head _ ih =>
      by_cases hj : j = i
      · subst hj
        obtain rfl := Option.some.inj (hr.symm.trans head)
        have hlt := (List.getElem?_eq_some_iff.mp head).1
        have hrest := ih (List.getElem?_set_self hlt) ?_
        · rw [hrest]
        · intro k s hk hs
          rw [List.getElem?_set_ne (Ne.symm hk)] at hs
          exact others k s hk hs
      · cases others j (a :: r') hj head

theorem Shuffled.cons_spent (h : Shuffled runs trace) : Shuffled ([] :: runs) trace := by
  induction h with
  | spent none =>
      refine .spent fun r hr => ?_
      rcases List.mem_cons.mp hr with rfl | hr
      · rfl
      · exact none r hr
  | take i head _ ih => exact .take (i + 1) head ih

theorem shuffled_flatten (runs : List (List α)) : Shuffled runs runs.flatten := by
  induction runs with
  | nil => exact .spent fun r hr => by cases hr
  | cons r runs ih =>
      induction r with
      | nil => exact ih.cons_spent
      | cons a r ihr => exact .take 0 rfl ihr

end Rmsgw.Lib.Shuffle
