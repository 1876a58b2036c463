/- Least-recently-used order by stable insertion: using a front part of the order
   at increasing new times rotates it. -/

import Mathlib.Data.List.Induction
import Mathlib.Data.List.Nodup
import Mathlib.Tactic.Set
import Mathlib.Order.Lattice

set_option autoImplicit false
set_option relaxedAutoImplicit false

namespace Rmsgw.Lib.LeastRecent

universe u v

variable {α : Type u} {β : Type v} [DecidableEq α] [LinearOrder β]

/-- Insert behind the last element that is not later. -/
def insertByTime (time : α → β) (x : α) : List α → List α
  | [] => [x]
  | p :: rest => if time p ≤ time x then p :: insertByTime time x rest else x :: p :: rest

/-- The elements of a table, inserted one by one. -/
def leastRecent (time : α → β) (table : List α) : List α :=
  table.foldl (fun l x => insertByTime time x l) []

/-- An earlier time, or the same time and an earlier place in the table. -/
def Before (time : α → β) (table : List α) (a b : α) : Prop :=
  time a < time b ∨ (time a = time b ∧ table.idxOf a < table.idxOf b)

theorem Before.le {time : α → β} {table : List α} {a b : α} (h : Before time table a b) :
    time a ≤ time b := h.elim le_of_lt (fun h => h.1.le)

theorem Before.asymm {time : α → β} {table : List α} {a b : α} (h : Before time table a b) :
    ¬ Before time table b a := by
  rintro (hlt | ⟨heq, hidx⟩)
  · exact absurd h.le (not_le.mpr hlt)
  · rcases h with hlt | ⟨-, hidx'⟩
    · exact absurd heq.symm hlt.ne
    · exact absurd hidx (Nat.lt_asymm hidx')

omit [DecidableEq α] in
theorem insertByTime_perm (time : α → β) (x : α) (l : List α) :
    (insertByTime time x l).Perm (x :: l) := by
  induction l with
  | nil => exact List.Perm.refl _
  | cons p rest ih =>
      simp only [insertByTime]
      split
      · exact (ih.cons p).trans (List.Perm.swap x p rest)
      · exact List.Perm.refl _

omit [DecidableEq α] in
theorem leastRecent_snoc (time : α → β) (table : List α) (x : α) :
    leastRecent time (table ++ [x]) = insertByTime time x (leastRecent time table) := by
  simp [leastRecent, List.foldl_append]

omit [DecidableEq α] in
theorem leastRecent_perm (time : α → β) (table : List α) :
    (leastRecent time table).Perm table := by
  induction table using List.reverseRecOn with
  | nil => exact List.Perm.refl _
  | append_singleton init x ih =>
      rw [leastRecent_snoc]
      exact (insertByTime_perm time x _).trans
        ((ih.cons x).trans (List.perm_append_singleton x init).symm)

omit [DecidableEq α] in
theorem insertByTime_pairwise {time : α → β} {x : α} {l : List α} {R : α → α → Prop}
    (mono : ∀ a b, R a b → time a ≤ time b) (behind : ∀ a ∈ l, time a ≤ time x → R a x)
    (ahead : ∀ a ∈ l, time x < time a → R x a) (hl : l.Pairwise R) :
    (insertByTime time x l).Pairwise R := by
  induction l with
  | nil => exact List.pairwise_singleton R x
  | cons p rest ih =>
      obtain ⟨hp, hrest⟩ := List.pairwise_cons.mp hl
      simp only [insertByTime]
      split
      · rename_i hle
        refine List.pairwise_cons.mpr ⟨fun a ha => ?_, ih
          (fun a ha => behind a (List.mem_cons_of_mem _ ha))
          (fun a ha => ahead a (List.mem_cons_of_mem _ ha)) hrest⟩
        rcases List.mem_cons.mp ((insertByTime_perm time x rest).mem_iff.mp ha) with rfl | ha
        · exact behind p List.mem_cons_self hle
        · exact hp a ha
      · rename_i hlt
        refine List.pairwise_cons.mpr ⟨fun a ha => ?_, hl⟩
        have hpx : time x < time p := not_le.mp hlt
        rcases List.mem_cons.mp ha with rfl | hrest'
        · exact ahead a List.mem_cons_self hpx
        · exact ahead a ha (lt_of_lt_of_le hpx (mono p a (hp a hrest')))

theorem leastRecent_pairwise (time : α → β) {table : List α} (nodup : table.Nodup) :
    (leastRecent time table).Pairwise (Before time table) := by
  induction table using List.reverseRecOn with
  | nil => exact List.Pairwise.nil
  | append_singleton init x ih =>
      obtain ⟨hinit, -, hdisj⟩ := List.nodup_append.mp nodup
      have hx : x ∉ init := fun h => hdisj x h x (by simp) rfl
      have hmem : ∀ a, a ∈ leastRecent time init ↔ a ∈ init := fun a =>
        (leastRecent_perm time init).mem_iff
      have hidx : ∀ a ∈ init, (init ++ [x]).idxOf a = init.idxOf a := fun a ha =>
        List.idxOf_append_of_mem ha
      have hidxx : (init ++ [x]).idxOf x = init.length := by
        simp [List.idxOf_append_of_notMem hx]
      rw [leastRecent_snoc]
      refine insertByTime_pairwise (fun a b h => h.le) ?_ ?_ ?_
      · intro a ha hle
        have ha' := (hmem a).mp ha
        rcases hle.lt_or_eq with hlt | heq
        · exact .inl hlt
        · refine .inr ⟨heq, ?_⟩
          rw [hidx a ha', hidxx]
          exact List.idxOf_lt_length_of_mem ha'
      · exact fun a _ hlt => .inl hlt
      · refine (ih hinit).imp_of_mem fun {a b} ha hb h => ?_
        rw [Before, hidx a ((hmem a).mp ha), hidx b ((hmem b).mp hb)]
        exact h

private theorem eq_leastRecent {time : α → β} {table l : List α} (nodup : table.Nodup)
    (hperm : l.Perm table) (hl : l.Pairwise (Before time table)) : l = leastRecent time table :=
  List.Perm.eq_of_pairwise (fun _ _ _ _ h h' => absurd h' h.asymm) hl
    (leastRecent_pairwise time nodup) (hperm.trans (leastRecent_perm time table).symm)

/-- The new times after the elements of `used` were used one after the other. -/
structure Touched (time time' : α → β) (table used : List α) : Prop where
  others : ∀ a ∈ table, a ∉ used → time' a = time a
  increasing : used.Pairwise (fun a b => time' a < time' b)
  later : ∀ a ∈ used, ∀ b ∈ table, time b < time' a

/-- Using a front part of the order moves it behind the rest. -/
theorem leastRecent_touched {time time' : α → β} {table : List α} (nodup : table.Nodup) {m : Nat}
    (h : Touched time time' table ((leastRecent time table).take m)) :
    leastRecent time' table =
      (leastRecent time table).drop m ++ (leastRecent time table).take m := by
  set order := leastRecent time table with horder
  have hperm : order.Perm table := leastRecent_perm time table
  have hsorted : order.Pairwise (Before time table) := leastRecent_pairwise time nodup
  have hnodup : order.Nodup := hperm.nodup_iff.mpr nodup
  have hsplit : (order.take m ++ order.drop m).Nodup := by rwa [List.take_append_drop]
  have hdisj := (List.nodup_append.mp hsplit).2.2
  have hrest : ∀ a ∈ order.drop m, time' a = time a := fun a ha =>
    h.others a (hperm.mem_iff.mp (List.mem_of_mem_drop ha)) fun ha' => hdisj a ha' a ha rfl
  refine (eq_leastRecent nodup ?_ (List.pairwise_append.mpr ⟨?_, ?_, ?_⟩)).symm
  · exact (List.perm_append_comm.trans (by rw [List.take_append_drop])).trans hperm
  · refine (hsorted.sublist (List.drop_sublist m order)).imp_of_mem fun {a b} ha hb hab => ?_
    rw [Before, hrest a ha, hrest b hb]
    exact hab
  · exact h.increasing.imp fun hlt => .inl hlt
  · intro a ha b hb
    refine .inl ?_
    rw [hrest a ha]
    exact h.later b hb a (hperm.mem_iff.mp (List.mem_of_mem_drop ha))

/-- What is used when each round uses the front element and moves it to the back. -/
def heads : List α → Nat → List α
  | _, 0 => []
  | l, n + 1 => l.take 1 ++ heads (l.drop 1 ++ l.take 1) n

omit [DecidableEq α] in
theorem heads_length (l : List α) : heads l l.length = l := by
  have front : ∀ l back : List α, heads (l ++ back) l.length = l := by
    intro l
    induction l with
    | nil => intro back; rfl
    | cons a l ih =>
        intro back
        have hnext := ih (back ++ [a])
        simpa [heads] using hnext
  simpa using front l []

end Rmsgw.Lib.LeastRecent
