/- Stable sorting by a key, and that stable insertion one by one does it. -/

import Rmsgw.Lib.LeastRecent

set_option autoImplicit false
set_option relaxedAutoImplicit false

namespace Rmsgw.Lib.StableOrder

open Rmsgw.Lib.LeastRecent

universe u v w

variable {α : Type u} {β : Type v} {γ : Type w} [LinearOrder β] {key : α → β}

/-- The same elements in the order of their keys, those of one key in the order
that they had. -/
structure IsStableSort (key : α → β) (table out : List α) : Prop where
  perm : out.Perm table
  sorted : out.Pairwise (fun a b => key a ≤ key b)
  stable : ∀ k, out.filter (fun a => decide (key a = k)) = table.filter (fun a => decide (key a = k))

private theorem key_le_of_mem {a b : α} {l m : List α}
    (hl : (a :: l).Pairwise (fun a b => key a ≤ key b))
    (hsame : ∀ k, (a :: l).filter (fun a => decide (key a = k)) =
      (b :: m).filter (fun a => decide (key a = k))) : key a ≤ key b := by
  have hb : b ∈ (b :: m).filter (fun a => decide (key a = key b)) := by simp
  rw [← hsame] at hb
  rcases List.mem_cons.mp (List.mem_of_mem_filter hb) with rfl | hb
  · exact le_refl _
  · exact (List.pairwise_cons.mp hl).1 b hb

private theorem eq_of_sorted {l m : List α} (hl : l.Pairwise (fun a b => key a ≤ key b))
    (hm : m.Pairwise (fun a b => key a ≤ key b))
    (hsame : ∀ k, l.filter (fun a => decide (key a = k)) = m.filter (fun a => decide (key a = k))) :
    l = m := by
  induction l generalizing m with
  | nil =>
      cases m with
      | nil => rfl
      | cons b m => exact absurd (hsame (key b)) (by simp)
  | cons a l ih =>
      cases m with
      | nil => exact absurd (hsame (key a)) (by simp)
      | cons b m =>
          have hkey : key a = key b :=
            le_antisymm (key_le_of_mem hl hsame) (key_le_of_mem hm fun k => (hsame k).symm)
          have hfirst := hsame (key a)
          simp only [List.filter_cons, hkey, decide_true, if_true] at hfirst
          obtain ⟨rfl, -⟩ := List.cons.inj hfirst
          rw [ih (List.pairwise_cons.mp hl).2 (List.pairwise_cons.mp hm).2]
          intro k
          have hk := hsame k
          simp only [List.filter_cons] at hk
          split at hk
          · exact (List.cons.inj hk).2
          · exact hk

theorem IsStableSort.unique {table out out' : List α} (h : IsStableSort key table out)
    (h' : IsStableSort key table out') : out = out' :=
  eq_of_sorted h.sorted h'.sorted fun k => (h.stable k).trans (h'.stable k).symm

private theorem insertByTime_sorted {x : α} {l : List α}
    (hl : l.Pairwise (fun a b => key a ≤ key b)) :
    (insertByTime key x l).Pairwise (fun a b => key a ≤ key b) :=
  insertByTime_pairwise (fun _ _ h => h) (fun _ _ h => h) (fun _ _ h => le_of_lt h) hl

private theorem filter_insertByTime {x : α} {l : List α}
    (hl : l.Pairwise (fun a b => key a ≤ key b))
    (k : β) : (insertByTime key x l).filter (fun a => decide (key a = k)) =
      (l ++ [x]).filter (fun a => decide (key a = k)) := by
  induction l with
  | nil => rfl
  | cons p rest ih =>
      obtain ⟨hp, hrest⟩ := List.pairwise_cons.mp hl
      by_cases hle : key p ≤ key x
      · rw [insertByTime, if_pos hle, List.cons_append, List.filter_cons, List.filter_cons, ih hrest]
      · rw [insertByTime, if_neg hle]
        by_cases hx : key x = k
        · -- everything from here on is later than the element
          have hnone : (p :: rest).filter (fun a => decide (key a = k)) = [] := by
            refine List.filter_eq_nil_iff.mpr fun a ha => ?_
            have hpa : key p ≤ key a := by
              rcases List.mem_cons.mp ha with rfl | ha
              · exact le_refl _
              · exact hp a ha
            have hlater : key x < key a := lt_of_lt_of_le (not_le.mp hle) hpa
            simpa using fun h => hlater.ne (hx.trans h.symm)
          rw [List.filter_cons_of_pos (by simpa using hx), List.filter_append, hnone]
          simp [hx]
        · rw [List.filter_cons_of_neg (by simpa using hx), List.filter_append]
          simp [hx]

private theorem leastRecent_sorted (table : List α) :
    (leastRecent key table).Pairwise (fun a b => key a ≤ key b) := by
  induction table using List.reverseRecOn with
  | nil => exact List.Pairwise.nil
  | append_singleton init x ih =>
      rw [leastRecent_snoc]
      exact insertByTime_sorted ih

private theorem leastRecent_stable (table : List α) :
    IsStableSort key table (leastRecent key table) := by
  refine ⟨leastRecent_perm key table, leastRecent_sorted table, fun k => ?_⟩
  induction table using List.reverseRecOn with
  | nil => rfl
  | append_singleton init x ih =>
      rw [leastRecent_snoc, filter_insertByTime (leastRecent_sorted init), List.filter_append, ih,
        List.filter_append]

/-- A list is the stable sort exactly if it is what insertion one by one gives. -/
theorem isStableSort_iff (table out : List α) :
    IsStableSort key table out ↔ out = leastRecent key table := by
  constructor
  · exact fun h => h.unique (leastRecent_stable table)
  · rintro rfl
    exact leastRecent_stable table

theorem insertByTime_map (f : γ → α) (x : γ) (l : List γ) :
    insertByTime key (f x) (l.map f) = (insertByTime (fun c => key (f c)) x l).map f := by
  induction l with
  | nil => rfl
  | cons p rest ih =>
      simp only [List.map_cons, insertByTime]
      split
      · rw [ih, List.map_cons]
      · rfl

theorem leastRecent_map (f : γ → α) (l : List γ) :
    leastRecent key (l.map f) = (leastRecent (fun c => key (f c)) l).map f := by
  induction l using List.reverseRecOn with
  | nil => rfl
  | append_singleton init x ih =>
      rw [List.map_append, List.map_singleton, leastRecent_snoc, ih, insertByTime_map,
        leastRecent_snoc]

end Rmsgw.Lib.StableOrder
