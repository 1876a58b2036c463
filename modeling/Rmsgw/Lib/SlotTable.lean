/- Tables of fixed size that hand a slot to each key on first use and find it
   again by a lookup relation: when they behave like a map from keys. -/

import Rmsgw.Lib.Transcript
import Mathlib.Data.List.Dedup
import Mathlib.Data.List.Induction
import Mathlib.Data.List.Perm.Subperm

set_option autoImplicit false
set_option relaxedAutoImplicit false

namespace Rmsgw.Lib.SlotTable

open Rmsgw.Lib.Transcript

universe u v

/-- How records carry keys: the key of a record (none if the slot is vacant),
whether a search for a key stops at a stored key, and how a vacant slot is claimed. -/
structure Layout (κ : Type u) (ρ : Type v) where
  key : ρ → Option κ
  hits : κ → κ → Bool
  claim : κ → ρ → ρ

variable {κ : Type u} {ρ : Type v}

/-- Search the table for a key, claiming the first vacant slot on the way. -/
def getSlot (L : Layout κ ρ) (k : κ) : List ρ → Option (Nat × List ρ)
  | [] => none
  | r :: rs =>
      match L.key r with
      | none => some (0, L.claim k r :: rs)
      | some stored =>
          if L.hits k stored then some (0, r :: rs)
          else (getSlot L k rs).map (fun p => (p.1 + 1, r :: p.2))

structure Op (κ : Type u) (ρ : Type v) where
  key : κ
  update : ρ → ρ

/-- A table and the slot that each operation so far has used. -/
structure Run (κ : Type u) (ρ : Type v) where
  table : List ρ
  slots : List (κ × Option Nat)

def perform (L : Layout κ ρ) (s : Run κ ρ) (o : Op κ ρ) : Run κ ρ :=
  match getSlot L o.key s.table with
  | none => ⟨s.table, s.slots ++ [(o.key, none)]⟩
  | some (i, table) => ⟨table.modify i o.update, s.slots ++ [(o.key, some i)]⟩

/-- Carry out a sequence of operations on a table of vacant slots. -/
def execute (L : Layout κ ρ) (empty : ρ) (size : Nat) (ops : List (Op κ ρ)) : Run κ ρ :=
  ops.foldl (perform L) ⟨List.replicate size empty, []⟩

/-- The record that the operations on one key make of an empty record. -/
def own [DecidableEq κ] (L : Layout κ ρ) (empty : ρ) (k : κ) (ops : List (Op κ ρ)) : ρ :=
  (ops.filter (fun o => o.key = k)).foldl (fun r o => o.update r) (L.claim k empty)

/-- Every operation got a slot, and different keys never share one. -/
def Separate (slots : List (κ × Option Nat)) : Prop :=
  ∀ p ∈ slots, p.2.isSome ∧ ∀ q ∈ slots, p.1 ≠ q.1 → p.2 ≠ q.2

/-- Whenever a key is used for the first time, its search passes the keys in use. -/
def FirstUseClear (L : Layout κ ρ) (ops : List (Op κ ρ)) : Prop :=
  Ordered (fun before o => o.key ∉ before.map Op.key →
      ∀ p ∈ before, L.hits o.key p.key = false) (fun _ _ => True) ops

/-- The laws of a layout on the keys in question. -/
structure Lawful (L : Layout κ ρ) (empty : ρ) (good : κ → Prop) : Prop where
  empty_vacant : L.key empty = none
  key_claim : ∀ k, good k → L.key (L.claim k empty) = some k
  hits_self : ∀ k, good k → L.hits k k = true

def Op.Keeps (L : Layout κ ρ) (good : κ → Prop) (o : Op κ ρ) : Prop :=
  good o.key ∧ ∀ r, L.key (o.update r) = L.key r

section Search

variable {L : Layout κ ρ} {empty : ρ} {good : κ → Prop}

/-- The records of entries and the vacant slots behind them. -/
def layOut (es : List (κ × ρ)) (empty : ρ) (vacant : Nat) : List ρ :=
  es.map Prod.snd ++ List.replicate vacant empty

theorem layOut_cons (p : κ × ρ) (es : List (κ × ρ)) (vacant : Nat) :
    layOut (p :: es) empty vacant = p.2 :: layOut es empty vacant := rfl

private theorem getSlot_pass {k : κ} {p : κ × ρ} (hkey : L.key p.2 = some p.1)
    (hmiss : L.hits k p.1 = false) (rs : List ρ) :
    getSlot L k (p.2 :: rs) = (getSlot L k rs).map (fun q => (q.1 + 1, p.2 :: q.2)) := by
  simp [getSlot, hkey, hmiss]

theorem getSlot_hit (empty : ρ) (vacant : Nat) {front : List (κ × ρ)} {e : κ × ρ}
    {back : List (κ × ρ)} {k : κ}
    (hkeys : ∀ p ∈ front ++ e :: back, L.key p.2 = some p.1)
    (hpass : ∀ p ∈ front, L.hits k p.1 = false) (hhit : L.hits k e.1 = true) :
    getSlot L k (layOut (front ++ e :: back) empty vacant) =
      some (front.length, layOut (front ++ e :: back) empty vacant) := by
  induction front with
  | nil =>
      have he := hkeys e (by simp)
      rw [List.nil_append, layOut_cons]
      simp [getSlot, he, hhit]
  | cons p front ih =>
      have hrest := ih (fun q hq => hkeys q (List.mem_cons_of_mem _ hq))
        (fun q hq => hpass q (List.mem_cons_of_mem _ hq))
      rw [List.cons_append, layOut_cons, getSlot_pass (hkeys p (by simp)) (hpass p (by simp)), hrest]
      rfl

private theorem getSlot_miss (vacant : Nat) {es : List (κ × ρ)} {k : κ}
    (lawful : Lawful L empty good)
    (hkeys : ∀ p ∈ es, L.key p.2 = some p.1) (hpass : ∀ p ∈ es, L.hits k p.1 = false) :
    getSlot L k (layOut es empty (vacant + 1)) =
      some (es.length, layOut (es ++ [(k, L.claim k empty)]) empty vacant) := by
  induction es with
  | nil => simp [layOut, List.replicate_succ, getSlot, lawful.empty_vacant]
  | cons p es ih =>
      have hrest := ih (fun q hq => hkeys q (List.mem_cons_of_mem _ hq))
        (fun q hq => hpass q (List.mem_cons_of_mem _ hq))
      rw [layOut_cons, getSlot_pass (hkeys p (by simp)) (hpass p (by simp)), hrest]
      rfl

private theorem layOut_modify (front : List (κ × ρ)) (e : κ × ρ) (back : List (κ × ρ))
    (vacant : Nat) (f : ρ → ρ) : (layOut (front ++ e :: back) empty vacant).modify front.length f =
      layOut (front ++ (e.1, f e.2) :: back) empty vacant := by
  induction front with
  | nil => rfl
  | cons p front ih =>
      rw [List.cons_append, layOut_cons, List.length_cons, List.modify_succ_cons, ih]
      rfl

theorem execute_snoc (size : Nat) (ops : List (Op κ ρ)) (o : Op κ ρ) :
    execute L empty size (ops ++ [o]) = perform L (execute L empty size ops) o := by
  simp [execute, List.foldl_append]

private theorem Separate.of_perform {s : Run κ ρ} {o : Op κ ρ}
    (h : Separate (perform L s o).slots) : Separate s.slots := by
  have hmem : ∀ p ∈ s.slots, p ∈ (perform L s o).slots := by
    intro p hp
    simp only [perform]
    split <;> exact List.mem_append_left _ hp
  exact fun p hp => ⟨(h p (hmem p hp)).1, fun q hq => (h p (hmem p hp)).2 q (hmem q hq)⟩

end Search

section Refinement

variable [DecidableEq κ] {L : Layout κ ρ} {empty : ρ} {good : κ → Prop} {size : Nat}

private theorem own_snoc_self (k : κ) (ops : List (Op κ ρ)) (f : ρ → ρ) :
    own L empty k (ops ++ [⟨k, f⟩]) = f (own L empty k ops) := by
  simp [own, List.filter_append, List.foldl_append]

private theorem own_snoc_other {k : κ} {o : Op κ ρ} (h : o.key ≠ k) (ops : List (Op κ ρ)) :
    own L empty k (ops ++ [o]) = own L empty k ops := by
  simp [own, List.filter_append, h]

private theorem own_unused {k : κ} {ops : List (Op κ ρ)} (h : k ∉ ops.map Op.key) :
    own L empty k ops = L.claim k empty := by
  have hnil : ops.filter (fun o => o.key = k) = [] := by
    rw [List.filter_eq_nil_iff]
    intro o ho hk
    exact h (List.mem_map.mpr ⟨o, ho, of_decide_eq_true hk⟩)
  rw [own, hnil]
  rfl

/-- The table is the map: one entry for each key in use, in the order of first
use, with the record that the key's own operations make. -/
structure Entries (L : Layout κ ρ) (empty : ρ) (size : Nat) (ops : List (Op κ ρ)) (s : Run κ ρ)
    (es : List (κ × ρ)) : Prop where
  fits : es.length ≤ size
  table_eq : s.table = layOut es empty (size - es.length)
  nodup : (es.map Prod.fst).Nodup
  used : ∀ k, k ∈ es.map Prod.fst ↔ k ∈ ops.map Op.key
  keyed : ∀ p ∈ es, L.key p.2 = some p.1
  owned : ∀ p ∈ es, p.2 = own L empty p.1 ops
  passes : es.Pairwise (fun p q => L.hits q.1 p.1 = false)
  slot_entry : ∀ p ∈ s.slots, ∃ i, p.2 = some i ∧ (es.map Prod.fst)[i]? = some p.1
  entry_slot : ∀ i k, (es.map Prod.fst)[i]? = some k → (k, some i) ∈ s.slots

private theorem entries_start : Entries L empty size [] ⟨List.replicate size empty, []⟩ [] where
  fits := Nat.zero_le _
  table_eq := rfl
  nodup := List.nodup_nil
  used := fun k => by simp
  keyed := fun p hp => by cases hp
  owned := fun p hp => by cases hp
  passes := List.Pairwise.nil
  slot_entry := fun p hp => by cases hp
  entry_slot := fun i k hi => by simp at hi

variable {ops : List (Op κ ρ)} {s : Run κ ρ} {es : List (κ × ρ)} {o : Op κ ρ}

private theorem Entries.perform_known (h : Entries L empty size ops s es)
    (lawful : Lawful L empty good) (keeps : o.Keeps L good) (known : o.key ∈ ops.map Op.key) :
    ∃ es', Entries L empty size (ops ++ [o]) (perform L s o) es' := by
  obtain ⟨e, he, hek⟩ := List.mem_map.mp ((h.used _).mpr known)
  obtain ⟨front, back, rfl⟩ := List.append_of_mem he
  have hpass : ∀ p ∈ front, L.hits o.key p.1 = false := fun p hp =>
    hek ▸ (List.pairwise_append.mp h.passes).2.2 p hp e List.mem_cons_self
  have hget := getSlot_hit empty (size - (front ++ e :: back).length)
    h.keyed hpass (by rw [hek]; exact lawful.hits_self _ keeps.1)
  have hperf : perform L s o =
      ⟨layOut (front ++ (e.1, o.update e.2) :: back) empty (size - (front ++ e :: back).length),
        s.slots ++ [(o.key, some front.length)]⟩ := by
    rw [perform, h.table_eq, hget]
    simp only [layOut_modify]
  have hkeys : (front ++ (e.1, o.update e.2) :: back).map Prod.fst =
      (front ++ e :: back).map Prod.fst := by simp
  have hother : ∀ p ∈ front ++ back, o.key ≠ p.1 := by
    intro p hp hkp
    have hnd := h.nodup
    rw [List.map_append, List.map_cons, List.nodup_middle, List.nodup_cons] at hnd
    refine hnd.1 ?_
    rw [hek, hkp, ← List.map_append]
    exact List.mem_map_of_mem hp
  refine ⟨front ++ (e.1, o.update e.2) :: back, ?_⟩
  rw [hperf]
  constructor
  case fits => simpa using h.fits
  case table_eq => simp
  case nodup => rw [hkeys]; exact h.nodup
  case used =>
    intro k
    rw [hkeys, h.used, List.map_append, List.mem_append, List.map_singleton, List.mem_singleton]
    refine ⟨Or.inl, fun hk => hk.elim id ?_⟩
    rintro rfl
    exact known
  case keyed =>
    intro p hp
    rcases List.mem_append.mp hp with hp | hp
    · exact h.keyed p (by simp [hp])
    rcases List.mem_cons.mp hp with rfl | hp
    · rw [keeps.2]; exact h.keyed e (by simp)
    · exact h.keyed p (by simp [hp])
  case owned =>
    intro p hp
    rcases List.mem_append.mp hp with hp | hp
    · rw [own_snoc_other (hother p (by simp [hp]))]
      exact h.owned p (by simp [hp])
    rcases List.mem_cons.mp hp with rfl | hp
    · have ho : o = ⟨e.1, o.update⟩ := by rw [hek]
      rw [ho, own_snoc_self, ← h.owned e (by simp)]
    · rw [own_snoc_other (hother p (by simp [hp]))]
      exact h.owned p (by simp [hp])
  case passes =>
    have hp := h.passes
    rw [← List.pairwise_map (f := Prod.fst) (R := fun a b => L.hits b a = false)] at hp ⊢
    rwa [hkeys]
  case slot_entry =>
    intro p hp
    rcases List.mem_append.mp hp with hp | hp
    · rw [hkeys]; exact h.slot_entry p hp
    · obtain rfl := List.mem_singleton.mp hp
      exact ⟨front.length, rfl, by simp [hek]⟩
  case entry_slot =>
    intro i k hi
    rw [hkeys] at hi
    exact List.mem_append_left _ (h.entry_slot i k hi)

private theorem Entries.perform_new (h : Entries L empty size ops s es)
    (lawful : Lawful L empty good) (keeps : o.Keeps L good) (new : o.key ∉ ops.map Op.key)
    (clear : ∀ p ∈ es, L.hits o.key p.1 = false) (room : es.length < size) :
    ∃ es', Entries L empty size (ops ++ [o]) (perform L s o) es' := by
  obtain ⟨vacant, hvacant⟩ : ∃ v, size - es.length = v + 1 := ⟨size - es.length - 1, by omega⟩
  have hget := getSlot_miss vacant lawful h.keyed clear
  have hperf : perform L s o =
      ⟨layOut (es ++ [(o.key, o.update (L.claim o.key empty))]) empty vacant,
        s.slots ++ [(o.key, some es.length)]⟩ := by
    rw [perform, h.table_eq, hvacant, hget]
    simp only [layOut_modify]
  have hfresh : o.key ∉ es.map Prod.fst := fun hk => new ((h.used _).mp hk)
  have hother : ∀ p ∈ es, o.key ≠ p.1 := fun p hp hk =>
    hfresh (hk ▸ List.mem_map_of_mem hp)
  refine ⟨es ++ [(o.key, o.update (L.claim o.key empty))], ?_⟩
  rw [hperf]
  constructor
  case fits => simpa using Nat.succ_le_of_lt room
  case table_eq =>
    simp only [List.length_append, List.length_singleton]
    rw [show size - (es.length + 1) = vacant by omega]
  case nodup =>
    rw [List.map_append, List.map_singleton]
    refine List.nodup_append.mpr ⟨h.nodup, List.nodup_singleton _, ?_⟩
    rintro a ha b hb rfl
    obtain rfl := List.mem_singleton.mp hb
    exact hfresh ha
  case used =>
    intro k
    simp only [List.map_append, List.mem_append, h.used, List.map_singleton]
  case keyed =>
    intro p hp
    rcases List.mem_append.mp hp with hp | hp
    · exact h.keyed p hp
    · obtain rfl := List.mem_singleton.mp hp
      rw [keeps.2]
      exact lawful.key_claim _ keeps.1
  case owned =>
    intro p hp
    rcases List.mem_append.mp hp with hp | hp
    · rw [own_snoc_other (hother p hp)]
      exact h.owned p hp
    · obtain rfl := List.mem_singleton.mp hp
      exact (own_snoc_self o.key ops o.update).trans (congrArg o.update (own_unused new)) |>.symm
  case passes =>
    refine List.pairwise_append.mpr ⟨h.passes, List.pairwise_singleton _ _, ?_⟩
    intro p hp q hq
    obtain rfl := List.mem_singleton.mp hq
    exact clear p hp
  case slot_entry =>
    intro p hp
    rcases List.mem_append.mp hp with hp | hp
    · obtain ⟨i, hi, hkey⟩ := h.slot_entry p hp
      refine ⟨i, hi, ?_⟩
      rw [List.map_append, List.getElem?_append_left (List.getElem?_eq_some_iff.mp hkey).1]
      exact hkey
    · obtain rfl := List.mem_singleton.mp hp
      exact ⟨es.length, rfl, by simp⟩
  case entry_slot =>
    intro i k hi
    rw [List.map_append, List.map_singleton] at hi
    rcases Nat.lt_or_ge i es.length with hlt | hge
    · rw [List.getElem?_append_left (by simpa using hlt)] at hi
      exact List.mem_append_left _ (h.entry_slot i k hi)
    · have hi' := (List.getElem?_eq_some_iff.mp hi).1
      simp only [List.length_append, List.length_map, List.length_singleton] at hi'
      obtain rfl : i = es.length := by omega
      simp at hi
      simp [hi]

private theorem Entries.perform_shared (h : Entries L empty size ops s es)
    (new : o.key ∉ ops.map Op.key) (hit : ∃ p ∈ es, L.hits o.key p.1 = true) :
    ¬ Separate (perform L s o).slots := by
  have hsome : (es.find? (fun p => L.hits o.key p.1)).isSome := List.find?_isSome.mpr hit
  obtain ⟨e, hfind⟩ := Option.isSome_iff_exists.mp hsome
  obtain ⟨hhit, front, back, rfl, hpass⟩ := List.find?_eq_some_iff_append.mp hfind
  have hget := getSlot_hit empty (size - (front ++ e :: back).length)
    (k := o.key) h.keyed (fun p hp => by simpa using hpass p hp) hhit
  have hperf : (perform L s o).slots = s.slots ++ [(o.key, some front.length)] := by
    rw [perform, h.table_eq, hget]
  have hold : (e.1, some front.length) ∈ s.slots := h.entry_slot _ _ (by simp)
  have hne : e.1 ≠ o.key := by
    rintro he
    exact new ((h.used _).mp (he ▸ List.mem_map_of_mem (by simp)))
  rw [hperf]
  intro hsep
  exact (hsep _ (List.mem_append_left _ hold)).2 (o.key, some front.length) (by simp) hne rfl

private theorem Entries.room (h : Entries L empty size ops s es) (new : o.key ∉ ops.map Op.key)
    (few : ((ops ++ [o]).map Op.key).dedup.length ≤ size) : es.length < size := by
  have hnodup : (o.key :: es.map Prod.fst).Nodup :=
    List.nodup_cons.mpr ⟨fun hk => new ((h.used _).mp hk), h.nodup⟩
  have hsub : o.key :: es.map Prod.fst ⊆ ((ops ++ [o]).map Op.key).dedup := by
    intro k hk
    rw [List.mem_dedup, List.map_append, List.mem_append]
    rcases List.mem_cons.mp hk with rfl | hk
    · exact .inr (by simp)
    · exact .inl ((h.used k).mp hk)
  have hlen := (List.subperm_of_subset hnodup hsub).length_le
  simp only [List.length_cons, List.length_map] at hlen
  omega

/-- While every first use is clear the table is the map; after the first use
that is not, two keys share a slot. -/
theorem execute_cases (lawful : Lawful L empty good) (keeps : ∀ o ∈ ops, o.Keeps L good)
    (few : (ops.map Op.key).dedup.length ≤ size) :
    (FirstUseClear L ops ∧ ∃ es, Entries L empty size ops (execute L empty size ops) es) ∨
      (¬ FirstUseClear L ops ∧ ¬ Separate (execute L empty size ops).slots) := by
  induction ops using List.reverseRecOn with
  | nil => exact .inl ⟨ordered_nil, [], entries_start⟩
  | append_singleton past o ih =>
      have hsub : (past.map Op.key).dedup ⊆ ((past ++ [o]).map Op.key).dedup := by
        intro k hk
        rw [List.mem_dedup] at hk ⊢
        rw [List.map_append]
        exact List.mem_append_left _ hk
      have hfew : (past.map Op.key).dedup.length ≤ size :=
        Nat.le_trans (List.subperm_of_subset (List.nodup_dedup _) hsub).length_le few
      have hsplit : FirstUseClear L (past ++ [o]) ↔ FirstUseClear L past ∧
          (o.key ∉ past.map Op.key → ∀ p ∈ past, L.hits o.key p.key = false) :=
        ordered_snoc_iff.trans (and_congr_right fun _ => and_iff_left fun _ _ => trivial)
      rw [hsplit, execute_snoc]
      rcases ih (fun p hp => keeps p (List.mem_append_left _ hp)) hfew with
        ⟨hclear, es, hes⟩ | ⟨hclear, hshare⟩
      · by_cases known : o.key ∈ past.map Op.key
        · exact .inl ⟨⟨hclear, fun new => absurd known new⟩,
            hes.perform_known lawful (keeps o (by simp)) known⟩
        by_cases hhit : ∃ p ∈ es, L.hits o.key p.1 = true
        · refine .inr ⟨fun h => ?_, hes.perform_shared known hhit⟩
          obtain ⟨e, he, hit⟩ := hhit
          obtain ⟨q, hq, hqe⟩ := List.mem_map.mp ((hes.used e.1).mp (List.mem_map_of_mem he))
          rw [← hqe, h.2 known q hq] at hit
          cases hit
        · have hpass : ∀ p ∈ es, L.hits o.key p.1 = false := fun p hp =>
            Bool.eq_false_iff.mpr fun hit => hhit ⟨p, hp, hit⟩
          refine .inl ⟨⟨hclear, fun _ q hq => ?_⟩,
            hes.perform_new lawful (keeps o (by simp)) known hpass (hes.room known few)⟩
          obtain ⟨e, he, heq⟩ := List.mem_map.mp ((hes.used q.key).mpr (List.mem_map_of_mem hq))
          exact heq ▸ hpass e he
      · exact .inr ⟨fun h => hclear h.1, fun h => hshare h.of_perform⟩

/-- The table behaves like a map from keys to records: different keys never
share a slot, and the record of a key is what its own operations make. -/
def Refines (L : Layout κ ρ) (empty : ρ) (ops : List (Op κ ρ)) (s : Run κ ρ) : Prop :=
  Separate s.slots ∧
    ∀ p ∈ s.slots, ∀ i, p.2 = some i → s.table[i]? = some (own L empty p.1 ops)

/-- A table with room for all keys behaves like a map exactly when every first
use of a key is clear. -/
theorem refines_iff_firstUseClear (lawful : Lawful L empty good)
    (keeps : ∀ o ∈ ops, o.Keeps L good) (few : (ops.map Op.key).dedup.length ≤ size) :
    Refines L empty ops (execute L empty size ops) ↔ FirstUseClear L ops := by
  rcases execute_cases lawful keeps few with ⟨hclear, es, hes⟩ | ⟨hclear, hshare⟩
  · refine iff_of_true ⟨?_, ?_⟩ hclear
    · intro p hp
      obtain ⟨i, hi, hkey⟩ := hes.slot_entry p hp
      refine ⟨by simp [hi], fun q hq hne hslot => hne ?_⟩
      obtain ⟨j, hj, hkey'⟩ := hes.slot_entry q hq
      obtain rfl : i = j := Option.some.inj (hi.symm.trans (hslot.trans hj))
      exact Option.some.inj (hkey.symm.trans hkey')
    · intro p hp i hi
      obtain ⟨j, hj, hkey⟩ := hes.slot_entry p hp
      obtain rfl : i = j := Option.some.inj (hi.symm.trans hj)
      rw [List.getElem?_map, Option.map_eq_some_iff] at hkey
      obtain ⟨e, he, hek⟩ := hkey
      have hlt := (List.getElem?_eq_some_iff.mp he).1
      rw [hes.table_eq, layOut, List.getElem?_append_left (by simpa using hlt), List.getElem?_map,
        he, ← hek, ← hes.owned e (List.mem_of_getElem? he)]
      rfl
  · exact iff_of_false (fun h => hshare h.1) hclear

end Refinement

end Rmsgw.Lib.SlotTable
