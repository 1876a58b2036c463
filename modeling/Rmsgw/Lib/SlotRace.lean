/- Several searchers in one slot table, each test, comparison and write a step of its
   own: when every interleaving of their searches gives each key a slot of its own. -/

import Rmsgw.Lib.Process
import Rmsgw.Lib.SlotTable

set_option autoImplicit false
set_option relaxedAutoImplicit false

namespace Rmsgw.Lib.SlotRace

open Rmsgw.Lib.Process Rmsgw.Lib.SlotTable

universe u v

/-- A layout whose keys are put into a slot by one write after the other. -/
structure Writing (κ : Type u) (ρ : Type v) extends Layout κ ρ where
  writes : κ → List (ρ → ρ)

/-- Where a searcher stands: about to test slot `i` for vacancy, about to compare its
key with that of slot `i`, with `j` writes to slot `i` made, or done. -/
inductive Phase
  | visiting (i : Nat)
  | comparing (i : Nat)
  | claiming (i j : Nat)
  | returned (slot : Option Nat)
  deriving DecidableEq

structure Searcher (κ : Type u) where
  key : κ
  phase : Phase
  deriving DecidableEq

/-- One table and everyone who searches it. -/
structure System (κ : Type u) (ρ : Type v) where
  table : List ρ
  procs : List (Searcher κ)

variable {κ : Type u} {ρ : Type v}

/-- What a searcher does next to the table, and where it stands then. -/
def advance (W : Writing κ ρ) (k : κ) : List ρ × Phase → Option (List ρ × Phase)
  | (table, .visiting i) =>
      match table[i]? with
      | none => some (table, .returned none)
      | some r => some (table, if (W.key r).isNone then .claiming i 0 else .comparing i)
  | (table, .comparing i) =>
      match (table[i]?).bind W.key with
      | none => some (table, .visiting (i + 1))
      | some stored =>
          some (table, if W.hits k stored then .returned (some i) else .visiting (i + 1))
  | (table, .claiming i j) =>
      match (W.writes k)[j]? with
      | none => some (table, .returned (some i))
      | some w => some (table.modify i w, .claiming i (j + 1))
  | (_, .returned _) => none

/-- One step of searcher `p`. -/
def step (W : Writing κ ρ) : Step (System κ ρ) Nat := fun s p =>
  (s.procs[p]?).bind fun q =>
    (advance W q.key (s.table, q.phase)).map fun n => ⟨n.1, s.procs.set p ⟨q.key, n.2⟩⟩

/-- Searcher `p` does not test a slot that another one is writing its key into. -/
def Exclusive (s : System κ ρ) (p : Nat) : Prop :=
  ∀ (q : Searcher κ) (i : Nat), s.procs[p]? = some q → q.phase = .visiting i →
    ∀ (p' : Nat) (q' : Searcher κ) (j : Nat), s.procs[p']? = some q' → q'.phase ≠ .claiming i j

/-- What the searches that have returned by `t` are entitled to, from a start `s`. -/
structure Agreed (W : Writing κ ρ) (s t : System κ ρ) : Prop where
  found : ∀ q ∈ t.procs, ∀ i, q.phase = .returned (some i) →
    (t.table[i]?).bind W.key = some q.key
  apart : ∀ q ∈ t.procs, ∀ q' ∈ t.procs, ∀ i i', q.phase = .returned (some i) →
    q'.phase = .returned (some i') → (q.key = q'.key ↔ i = i')
  full : ∀ q ∈ t.procs, q.phase = .returned none →
    ∀ r ∈ t.table, ∃ k, W.key r = some k ∧ k ≠ q.key
  kept : ∀ (i : Nat) (r : ρ), s.table[i]? = some r → W.key r ≠ none → t.table[i]? = some r

/-- Some slot carries the key. -/
def Known (W : Writing κ ρ) (table : List ρ) (k : κ) : Prop := ∃ r ∈ table, W.key r = some k

/-- Some slot is vacant. -/
def Room (W : Writing κ ρ) (table : List ρ) : Prop := ∃ r ∈ table, W.key r = none

/-- `n` steps of one searcher with nobody else at work. -/
def alone (W : Writing κ ρ) (k : κ) : Nat → List ρ × Phase → Option (List ρ × Phase)
  | 0, c => some c
  | n + 1, c => (advance W k c).bind (alone W k n)

/-- The record after the first `j` writes of a key. -/
def written (W : Writing κ ρ) (k : κ) (j : Nat) (r : ρ) : ρ :=
  ((W.writes k).take j).foldl (fun r w => w r) r

/-- The laws on the keys in question: all writes together store the key, and a
search stops at its own key only. -/
structure Exact (W : Writing κ ρ) (empty : ρ) (good : κ → Prop) : Prop where
  empty_vacant : W.key empty = none
  key_written : ∀ k, good k → W.key (written W k (W.writes k).length empty) = some k
  hits_iff : ∀ k k', good k → good k' → (W.hits k k' = true ↔ k = k')

section Alone

variable {W : Writing κ ρ} {k : κ}

theorem step_eq_some {s u : System κ ρ} {p : Nat} : step W s p = some u ↔
    ∃ q n, s.procs[p]? = some q ∧ advance W q.key (s.table, q.phase) = some n ∧
      u = ⟨n.1, s.procs.set p ⟨q.key, n.2⟩⟩ := by
  simp only [step, Option.bind_eq_some_iff, Option.map_eq_some_iff]
  constructor
  · rintro ⟨q, hq, n, hn, rfl⟩
    exact ⟨q, n, hq, hn, rfl⟩
  · rintro ⟨q, n, hq, hn, rfl⟩
    exact ⟨q, hq, n, hn, rfl⟩

theorem modify_behind (front : List ρ) (r : ρ) (rs : List ρ) (w : ρ → ρ) :
    (front ++ r :: rs).modify front.length w = front ++ w r :: rs := by
  induction front with
  | nil => rfl
  | cons a front ih => rw [List.cons_append, List.length_cons, List.modify_succ_cons, ih]; rfl

theorem written_succ {j : Nat} {w : ρ → ρ} (h : (W.writes k)[j]? = some w) (r : ρ) :
    written W k (j + 1) r = w (written W k j r) := by
  rw [written, List.take_add_one, h, Option.toList_some, List.foldl_append]
  rfl

theorem alone_add {m n : Nat} {c c' : List ρ × Phase} (h : alone W k m c = some c') :
    alone W k (m + n) c = alone W k n c' := by
  induction m generalizing c with
  | zero => rw [Nat.zero_add]; exact congrArg (alone W k n) (Option.some.inj h)
  | succ m ih =>
      obtain ⟨d, hd, hrest⟩ := Option.bind_eq_some_iff.mp h
      rw [Nat.succ_add]
      show (advance W k c).bind (alone W k (m + n)) = _
      rw [hd, Option.bind_some, ih hrest]

theorem alone_one {c c' : List ρ × Phase} (h : advance W k c = some c') :
    alone W k 1 c = some c' := by
  show (advance W k c).bind (alone W k 0) = some c'
  rw [h]
  rfl

/-- In a system where only one searcher is given steps, it works alone. -/
theorem run_alone {s : System κ ρ} {p n : Nat} {q : Searcher κ} {c : List ρ × Phase}
    (hq : s.procs[p]? = some q) (h : alone W q.key n (s.table, q.phase) = some c) :
    run (step W) s (List.replicate n p) = some ⟨c.1, s.procs.set p ⟨q.key, c.2⟩⟩ := by
  induction n generalizing s q with
  | zero =>
      obtain rfl := Option.some.inj h
      obtain ⟨hlt, rfl⟩ := List.getElem?_eq_some_iff.mp hq
      show some s = some ⟨s.table, s.procs.set p s.procs[p]⟩
      rw [List.set_getElem_self]
  | succ n ih =>
      obtain ⟨d, hd, hrest⟩ := Option.bind_eq_some_iff.mp h
      have hlt := (List.getElem?_eq_some_iff.mp hq).1
      have hnext : (s.procs.set p ⟨q.key, d.2⟩)[p]? = some ⟨q.key, d.2⟩ :=
        List.getElem?_set_self hlt
      have hrun := ih (s := ⟨d.1, s.procs.set p ⟨q.key, d.2⟩⟩) hnext hrest
      rw [List.set_set] at hrun
      exact run_cons_eq_some.mpr ⟨_, step_eq_some.mpr ⟨q, d, hq, hd, rfl⟩, hrun⟩

theorem alone_pass (done front t : List ρ)
    (pass : ∀ r ∈ front, ∃ stored, W.key r = some stored ∧ W.hits k stored = false) :
    ∃ n, alone W k n (done ++ (front ++ t), .visiting done.length) =
      some (done ++ (front ++ t), .visiting (done.length + front.length)) := by
  induction front generalizing done with
  | nil => exact ⟨0, rfl⟩
  | cons r front ih =>
      obtain ⟨stored, hkey, hmiss⟩ := pass r List.mem_cons_self
      obtain ⟨n, hn⟩ := ih (done ++ [r]) fun r' hr' => pass r' (List.mem_cons_of_mem r hr')
      simp only [List.append_assoc, List.singleton_append, List.length_append,
        List.length_singleton, Nat.add_assoc, Nat.add_comm 1] at hn
      have hr : (done ++ (r :: front ++ t))[done.length]? = some r := by simp
      have htest : advance W k (done ++ (r :: front ++ t), .visiting done.length) =
          some (done ++ (r :: front ++ t), .comparing done.length) := by
        simp only [advance, hr, hkey, Option.isNone_some, Bool.false_eq_true, if_false]
      have hcompare : advance W k (done ++ (r :: front ++ t), .comparing done.length) =
          some (done ++ (r :: front ++ t), .visiting (done.length + 1)) := by
        simp only [advance, hr, Option.bind_some, hkey, hmiss, Bool.false_eq_true, if_false]
      refine ⟨1 + (1 + n), ?_⟩
      rw [alone_add (alone_one htest), alone_add (alone_one hcompare)]
      exact hn

theorem alone_writes (front : List ρ) (r : ρ) (rs : List ρ) (left : Nat) {j : Nat}
    (hleft : j + left = (W.writes k).length) :
    ∃ n, alone W k n (front ++ written W k j r :: rs, .claiming front.length j) =
      some (front ++ written W k (W.writes k).length r :: rs, .returned (some front.length)) := by
  induction left generalizing j with
  | zero =>
      obtain rfl : j = (W.writes k).length := hleft
      refine ⟨1, alone_one ?_⟩
      simp only [advance, List.getElem?_length]
  | succ left ih =>
      have hlt : j < (W.writes k).length := by omega
      have hw := List.getElem?_eq_getElem hlt
      obtain ⟨n, hn⟩ := ih (j := j + 1) (by omega)
      have hwrite : advance W k (front ++ written W k j r :: rs, .claiming front.length j) =
          some (front ++ written W k (j + 1) r :: rs, .claiming front.length (j + 1)) := by
        simp only [advance, hw, modify_behind, written_succ hw]
      refine ⟨1 + n, ?_⟩
      rw [alone_add (alone_one hwrite)]
      exact hn

/-- Undisturbed, a searcher does what a search in one piece does. -/
theorem alone_eq_getSlot (claims : ∀ r, W.claim k r = written W k (W.writes k).length r)
    (front t : List ρ) :
    ∃ n, alone W k n (front ++ t, .visiting front.length) =
      some (match getSlot W.toLayout k t with
        | none => (front ++ t, .returned none)
        | some (i, t') => (front ++ t', .returned (some (front.length + i)))) := by
  induction t generalizing front with
  | nil =>
      refine ⟨1, alone_one ?_⟩
      simp only [advance, List.append_nil, List.getElem?_length, getSlot]
  | cons r rs ih =>
      have hr : (front ++ r :: rs)[front.length]? = some r := by simp
      cases hkey : W.key r with
      | none =>
          obtain ⟨n, hn⟩ := alone_writes (W := W) (k := k) front r rs (W.writes k).length
            (Nat.zero_add _)
          have htest : advance W k (front ++ r :: rs, .visiting front.length) =
              some (front ++ r :: rs, .claiming front.length 0) := by
            simp only [advance, hr, hkey, Option.isNone_none, if_true]
          refine ⟨1 + n, ?_⟩
          rw [alone_add (alone_one htest)]
          simp only [getSlot, hkey, claims, Nat.add_zero]
          exact hn
      | some stored =>
          have htest : advance W k (front ++ r :: rs, .visiting front.length) =
              some (front ++ r :: rs, .comparing front.length) := by
            simp only [advance, hr, hkey, Option.isNone_some, Bool.false_eq_true, if_false]
          have hcompare : advance W k (front ++ r :: rs, .comparing front.length) =
              some (front ++ r :: rs, if W.hits k stored then .returned (some front.length)
                else .visiting (front.length + 1)) := by
            simp only [advance, hr, Option.bind_some, hkey]
          by_cases hhit : W.hits k stored = true
          · rw [if_pos hhit] at hcompare
            refine ⟨1 + 1, ?_⟩
            rw [alone_add (alone_one htest), alone_one hcompare]
            simp [getSlot, hkey, hhit]
          · rw [if_neg hhit] at hcompare
            obtain ⟨n, hn⟩ := ih (front ++ [r])
            simp only [List.append_assoc, List.singleton_append, List.length_append,
              List.length_singleton] at hn
            refine ⟨1 + (1 + n), ?_⟩
            rw [alone_add (alone_one htest), alone_add (alone_one hcompare), hn]
            simp only [getSlot, hkey, if_neg hhit]
            cases getSlot W.toLayout k rs with
            | none => rfl
            | some c => simp [Nat.add_assoc, Nat.add_comm 1]

theorem meets_exclusive_alone {s : System κ ρ} {p : Nat}
    (idle : ∀ (p' : Nat) (q' : Searcher κ), p' ≠ p → s.procs[p']? = some q' →
      ∀ i j, q'.phase ≠ .claiming i j) (n : Nat) :
    Meets (step W) Exclusive s (List.replicate n p) := by
  induction n generalizing s with
  | zero => trivial
  | succ n ih =>
      refine ⟨?_, ?_⟩
      · intro q i hq hph p' q' j hq' hph'
        by_cases hp : p' = p
        · subst hp
          obtain rfl := Option.some.inj (hq.symm.trans hq')
          rw [hph] at hph'
          cases hph'
        · exact idle p' q' hp hq' i j hph'
      · intro t ht
        obtain ⟨q, c, -, -, rfl⟩ := step_eq_some.mp ht
        refine ih ?_
        intro p' q' hp hq'
        rw [List.getElem?_set_ne (Ne.symm hp)] at hq'
        exact idle p' q' hp hq'

end Alone

end Rmsgw.Lib.SlotRace
