/- Batches that each start over at the first item, against a list of items that
   are to be delivered once each. -/

import Mathlib.Data.List.Sort

set_option autoImplicit false
set_option relaxedAutoImplicit false

namespace Rmsgw.Lib.Batches

/-- What batches of given sizes deliver when each starts at the first item. -/
def delivered (sizes : List Nat) : List Nat := sizes.flatMap List.range

/-- Exactly one batch delivers anything, namely the first `n` items. -/
def OneBatch (sizes : List Nat) (n : Nat) : Prop :=
  ∃ before after, sizes = before ++ n :: after ∧ ∀ m ∈ before ++ after, m = 0

theorem delivered_append (xs ys : List Nat) :
    delivered (xs ++ ys) = delivered xs ++ delivered ys := by
  simp [delivered, List.flatMap_append]

theorem delivered_cons (n : Nat) (xs : List Nat) :
    delivered (n :: xs) = List.range n ++ delivered xs := rfl

theorem delivered_empty {sizes : List Nat} (h : ∀ m ∈ sizes, m = 0) : delivered sizes = [] := by
  rw [delivered, List.flatMap_eq_nil_iff]
  intro m hm
  rw [h m hm, List.range_zero]

theorem zero_mem_delivered {sizes : List Nat} {m : Nat} (hm : m ∈ sizes) (hpos : m ≠ 0) :
    0 ∈ delivered sizes :=
  List.mem_flatMap.mpr ⟨m, hm, List.mem_range.mpr (Nat.pos_of_ne_zero hpos)⟩

theorem delivered_oneBatch {sizes : List Nat} {n : Nat} (h : OneBatch sizes n) :
    delivered sizes = List.range n := by
  obtain ⟨before, after, rfl, hzero⟩ := h
  rw [delivered_append, delivered_cons,
    delivered_empty fun m hm => hzero m (List.mem_append_left _ hm),
    delivered_empty fun m hm => hzero m (List.mem_append_right _ hm), List.nil_append,
    List.append_nil]

theorem oneBatch_of_nodup {sizes : List Nat} (hnodup : (delivered sizes).Nodup)
    (hsome : delivered sizes ≠ []) : ∃ n, OneBatch sizes n := by
  obtain ⟨n, hn, hpos⟩ : ∃ n ∈ sizes, n ≠ 0 := by
    by_contra hno
    exact hsome (delivered_empty fun m hm => by_contra fun hm' => hno ⟨m, hm, hm'⟩)
  obtain ⟨before, after, rfl⟩ := List.append_of_mem hn
  refine ⟨n, before, after, rfl, fun m hm => by_contra ?_⟩
  intro hm'
  rw [delivered_append, delivered_cons] at hnodup
  obtain ⟨-, htail, hcross⟩ := List.nodup_append.mp hnodup
  obtain ⟨-, -, hcross'⟩ := List.nodup_append.mp htail
  have hfirst : 0 ∈ List.range n := List.mem_range.mpr (Nat.pos_of_ne_zero hpos)
  rcases List.mem_append.mp hm with hm | hm
  · exact hcross 0 (zero_mem_delivered hm hm') 0 (List.mem_append_left _ hfirst) rfl
  · exact hcross' 0 hfirst 0 (zero_mem_delivered hm hm') rfl

/-- Batches deliver an increasing list of items once each exactly when the items
are the first ones and a single batch delivers them. -/
theorem delivered_perm_iff {sizes items : List Nat} (hlen : sizes.length = items.length)
    (increasing : items.Pairwise (· < ·)) :
    (delivered sizes).Perm items ↔
      items = List.range items.length ∧ (items = [] ∨ OneBatch sizes items.length) := by
  constructor
  · intro hperm
    rcases eq_or_ne items [] with rfl | hne
    · exact ⟨rfl, .inl rfl⟩
    have hnodup : (delivered sizes).Nodup :=
      hperm.nodup_iff.mpr (increasing.imp fun h => Nat.ne_of_lt h)
    obtain ⟨n, hone⟩ := oneBatch_of_nodup hnodup fun hnil => hne (by simpa [hnil] using hperm)
    rw [delivered_oneBatch hone] at hperm
    have heq : List.range n = items := hperm.eq_of_pairwise' List.pairwise_lt_range increasing
    have hcount : items.length = n := by rw [← heq, List.length_range]
    rw [hcount]
    exact ⟨heq.symm, .inr hone⟩
  · rintro ⟨hitems, rfl | hone⟩
    · obtain rfl := List.eq_nil_of_length_eq_zero hlen
      exact .refl _
    · rw [delivered_oneBatch hone, ← hitems]

end Rmsgw.Lib.Batches
