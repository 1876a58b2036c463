/- Counters that several processes add to by a load and a store: when every
   interleaving adds up. -/

import Rmsgw.Lib.Process
import Mathlib.Algebra.BigOperators.Group.List.Basic
import Mathlib.Tactic.Abel

set_option autoImplicit false
set_option relaxedAutoImplicit false

namespace Rmsgw.Lib.LostUpdate

open Rmsgw.Lib.Process

universe u v w

/-- The counters of a record. -/
structure Counters (φ : Type u) (ρ : Type v) (α : Type w) where
  get : φ → ρ → α
  set : φ → α → ρ → ρ

/-- A counter that is set has the new value, and the other ones keep theirs. -/
structure Counters.Lawful {φ : Type u} {ρ : Type v} {α : Type w} (C : Counters φ ρ α) : Prop where
  get_set : ∀ f a r, C.get f (C.set f a r) = a
  get_set_of_ne : ∀ f g a r, g ≠ f → C.get g (C.set f a r) = C.get g r

/-- Where an addition stands: about to load the counter, about to store what it saw
plus its amount, or done. -/
inductive Phase (α : Type w)
  | loading
  | storing (seen : α)
  | done
  deriving DecidableEq

def Phase.isDone {α : Type w} : Phase α → Bool
  | .done => true
  | _ => false

/-- An addition to one counter of the record in one slot. -/
structure Adder (φ : Type u) (α : Type w) where
  slot : Nat
  field : φ
  amount : α
  phase : Phase α
  deriving DecidableEq

/-- An addition without where it stands. -/
def Adder.aim {φ : Type u} {α : Type w} (a : Adder φ α) : Nat × φ × α :=
  (a.slot, a.field, a.amount)

/-- One table and everyone who adds to its counters. -/
structure System (φ : Type u) (ρ : Type v) (α : Type w) where
  table : List ρ
  adders : List (Adder φ α)

variable {φ : Type u} {ρ : Type v} {α : Type w}

/-- What an addition does next to the table, and where it stands then. -/
def advance [Add α] (C : Counters φ ρ α) (a : Adder φ α) (table : List ρ) :
    Option (List ρ × Phase α) :=
  match a.phase with
  | .loading => (table[a.slot]?).map fun r => (table, .storing (C.get a.field r))
  | .storing seen => some (table.modify a.slot (C.set a.field (seen + a.amount)), .done)
  | .done => none

/-- One step of addition `p`. -/
def step [Add α] (C : Counters φ ρ α) : Step (System φ ρ α) Nat := fun s p =>
  (s.adders[p]?).bind fun a =>
    (advance C a s.table).map fun n => ⟨n.1, s.adders.set p { a with phase := n.2 }⟩

/-- A counter of the table. -/
def value (C : Counters φ ρ α) (table : List ρ) (i : Nat) (f : φ) : Option α :=
  (table[i]?).map (C.get f)

/-- What an addition has put into a counter so far. -/
def put [DecidableEq φ] [Zero α] (i : Nat) (f : φ) (a : Adder φ α) : α :=
  if a.phase.isDone ∧ a.slot = i ∧ a.field = f then a.amount else 0

/-- Each counter has grown by the amounts of the additions to it that are done. -/
def AddedUp [DecidableEq φ] [Add α] [Zero α] (C : Counters φ ρ α) (s t : System φ ρ α) : Prop :=
  ∀ i f, value C t.table i f =
    (value C s.table i f).map (· + (t.adders.map (put i f)).sum)

/-- Two additions do not go to the same counter, or neither changes it. -/
def Apart [Zero α] (a a' : Adder φ α) : Prop :=
  a.slot = a'.slot → a.field = a'.field → a.amount = 0 ∧ a'.amount = 0

section Steps

variable {C : Counters φ ρ α}

theorem step_eq_some [Add α] {s t : System φ ρ α} {p : Nat} :
    step C s p = some t ↔ ∃ a n, s.adders[p]? = some a ∧
      advance C a s.table = some n ∧ t = ⟨n.1, s.adders.set p { a with phase := n.2 }⟩ := by
  simp only [step, Option.bind_eq_some_iff, Option.map_eq_some_iff]
  constructor
  · rintro ⟨a, ha, n, hn, rfl⟩
    exact ⟨a, n, ha, hn, rfl⟩
  · rintro ⟨a, n, ha, hn, rfl⟩
    exact ⟨a, ha, n, hn, rfl⟩

private theorem value_store [DecidableEq φ] (lawful : C.Lawful) (table : List ρ) (i j : Nat)
    (f g : φ) (x : α) : value C (table.modify i (C.set f x)) j g =
      if i = j ∧ f = g then (value C table j g).map (fun _ => x) else value C table j g := by
  simp only [value, List.getElem?_modify]
  cases table[j]? with
  | none => simp
  | some r =>
      by_cases hij : i = j
      · by_cases hfg : f = g
        · subst hij hfg
          simp [lawful.get_set]
        · simp [hij, hfg, lawful.get_set_of_ne f g x r (Ne.symm hfg)]
      · simp [hij]

private theorem sum_set {β : Type u} [AddCommGroup α] (c : β → α) {bs : List β} {i : Nat} {b b' : β}
    (h : bs[i]? = some b) : ((bs.set i b').map c).sum = (bs.map c).sum + (c b' - c b) := by
  induction bs generalizing i with
  | nil => cases h
  | cons x bs ih =>
      cases i with
      | zero =>
          obtain rfl := Option.some.inj h
          simp only [List.set_cons_zero, List.map_cons, List.sum_cons]
          abel
      | succ i =>
          have hrest := ih (i := i) h
          simp only [List.set_cons_succ, List.map_cons, List.sum_cons, hrest]
          abel

private theorem adders_set_cases {as : List (Adder φ α)} {a a' : Adder φ α} {p p' : Nat}
    (h : (as.set p a)[p']? = some a') : (p' = p ∧ a' = a) ∨ (p' ≠ p ∧ as[p']? = some a') := by
  rw [List.getElem?_set] at h
  split at h
  · rename_i heq
    split at h
    · exact .inl ⟨heq.symm, (Option.some.inj h).symm⟩
    · cases h
  · rename_i hne
    exact .inr ⟨Ne.symm hne, h⟩

private theorem aims_set {s : System φ ρ α} {p : Nat} {a : Adder φ α} (ha : s.adders[p]? = some a)
    (ph : Phase α) :
    (s.adders.set p { a with phase := ph }).map Adder.aim = s.adders.map Adder.aim := by
  obtain ⟨hlt, rfl⟩ := List.getElem?_eq_some_iff.mp ha
  rw [List.map_set]
  show (s.adders.map Adder.aim).set p s.adders[p].aim = s.adders.map Adder.aim
  rw [← List.getElem_map Adder.aim (h := by simpa using hlt), List.set_getElem_self]

theorem Apart.symm [Zero α] {a a' : Adder φ α} (h : Apart a a') : Apart a' a := fun hslot hfield =>
  (h hslot.symm hfield.symm).symm

end Steps

section Interleavings

variable [DecidableEq φ] [AddCommGroup α] {C : Counters φ ρ α} {s t u : System φ ρ α} {p : Nat}

/-- What every interleaving keeps as long as additions to one counter are apart. -/
structure Kept (C : Counters φ ρ α) (s t : System φ ρ α) : Prop where
  added : AddedUp C s t
  seen : ∀ (p : Nat) (a : Adder φ α) (x : α), t.adders[p]? = some a → a.phase = .storing x →
    value C t.table a.slot a.field = some x
  aims : t.adders.map Adder.aim = s.adders.map Adder.aim

private theorem Kept.load (h : Kept C s t) {a : Adder φ α} {r : ρ} (ha : t.adders[p]? = some a)
    (hph : a.phase = .loading) (hr : t.table[a.slot]? = some r) :
    Kept C s ⟨t.table, t.adders.set p { a with phase := .storing (C.get a.field r) }⟩ where
  added := by
    intro i f
    show value C t.table i f = (value C s.table i f).map
      (· + ((t.adders.set p { a with phase := .storing (C.get a.field r) }).map (put i f)).sum)
    rw [sum_set (put i f) ha]
    simp only [put, hph, Phase.isDone, Bool.false_eq_true, false_and, if_false, sub_zero, add_zero]
    exact h.added i f
  seen := by
    intro p' a' x ha' hx
    rcases adders_set_cases ha' with ⟨rfl, rfl⟩ | ⟨-, ha'⟩
    · obtain rfl := Phase.storing.inj hx
      show (t.table[a.slot]?).map (C.get a.field) = some (C.get a.field r)
      rw [hr]
      rfl
    · exact h.seen p' a' x ha' hx
  aims := (aims_set ha _).trans h.aims

private theorem Kept.store (lawful : C.Lawful) (h : Kept C s t) {a : Adder φ α} {x : α}
    (ha : t.adders[p]? = some a) (hph : a.phase = .storing x)
    (apart : ∀ (p' : Nat) (a' : Adder φ α), p' ≠ p → t.adders[p']? = some a' → Apart a a') :
    Kept C s ⟨t.table.modify a.slot (C.set a.field (x + a.amount)),
      t.adders.set p { a with phase := .done }⟩ where
  added := by
    intro i f
    show value C (t.table.modify a.slot (C.set a.field (x + a.amount))) i f =
      (value C s.table i f).map
        (· + ((t.adders.set p { a with phase := .done }).map (put i f)).sum)
    have hnow := h.added i f
    rw [value_store lawful, sum_set (put i f) ha]
    by_cases hcell : a.slot = i ∧ a.field = f
    · obtain ⟨rfl, rfl⟩ := hcell
      have hseen := h.seen p a x ha hph
      rw [hseen] at hnow
      simp only [and_self, if_true, hseen, Option.map_some, put, Phase.isDone, hph,
        Bool.false_eq_true, false_and, if_false, sub_zero]
      obtain ⟨y, hy, hsum⟩ := Option.map_eq_some_iff.mp hnow.symm
      rw [hy, Option.map_some, ← hsum, ← add_assoc]
    · simp only [put, if_neg hcell, Phase.isDone, hph, true_and, Bool.false_eq_true, false_and,
        if_false, sub_zero, add_zero]
      exact hnow
  seen := by
    intro p' a' y ha' hy
    rcases adders_set_cases ha' with ⟨rfl, rfl⟩ | ⟨hne, ha'⟩
    · cases hy
    · have hseen' := h.seen p' a' y ha' hy
      show value C (t.table.modify a.slot (C.set a.field (x + a.amount))) a'.slot a'.field = _
      rw [value_store lawful]
      split
      · rename_i hcell
        -- both additions go to one counter, so neither changes it
        have hzero := (apart p' a' hne ha' hcell.1 hcell.2).1
        have hseen := h.seen p a x ha hph
        rw [hcell.1, hcell.2, hseen'] at hseen
        rw [hseen', hzero, add_zero]
        exact congrArg some (Option.some.inj hseen).symm
      · exact hseen'
  aims := (aims_set ha _).trans h.aims

private theorem Kept.keep (lawful : C.Lawful) (h : Kept C s t)
    (apart : ∀ (p p' : Nat) (a a' : Adder φ α), p' ≠ p → s.adders[p]? = some a →
      s.adders[p']? = some a' → Apart a a') (hu : step C t p = some u) : Kept C s u := by
  obtain ⟨a, n, ha, hn, rfl⟩ := step_eq_some.mp hu
  have origin : ∀ {m : Nat} {b : Adder φ α}, t.adders[m]? = some b →
      ∃ c, s.adders[m]? = some c ∧ c.aim = b.aim := by
    intro m b hb
    have haim : (s.adders.map Adder.aim)[m]? = some b.aim := by
      rw [← h.aims, List.getElem?_map, hb]
      rfl
    rw [List.getElem?_map, Option.map_eq_some_iff] at haim
    exact haim
  cases hph : a.phase with
  | loading =>
      simp only [advance, hph, Option.map_eq_some_iff] at hn
      obtain ⟨r, hr, rfl⟩ := hn
      exact h.load ha hph hr
  | storing x =>
      simp only [advance, hph, Option.some.injEq] at hn
      obtain rfl := hn
      refine h.store lawful ha hph ?_
      intro p' a' hne ha' hslot hfield
      obtain ⟨c, hc, hcaim⟩ := origin ha
      obtain ⟨c', hc', hcaim'⟩ := origin ha'
      simp only [Adder.aim, Prod.mk.injEq] at hcaim hcaim'
      have hzero := apart p p' c c' hne hc hc' (by rw [hcaim.1, hcaim'.1, hslot])
        (by rw [hcaim.2.1, hcaim'.2.1, hfield])
      rw [hcaim.2.2, hcaim'.2.2] at hzero
      exact hzero
  | done =>
      simp only [advance, hph] at hn
      cases hn

private theorem sum_put_begun (begun : ∀ a ∈ s.adders, a.phase = .loading) (i : Nat) (f : φ) :
    (s.adders.map (put i f)).sum = 0 := by
  refine List.sum_eq_zero ?_
  intro x hx
  obtain ⟨b, hb, rfl⟩ := List.mem_map.mp hx
  simp [put, begun b hb, Phase.isDone]

private theorem exists_lost (lawful : C.Lawful) (begun : ∀ a ∈ s.adders, a.phase = .loading)
    (inside : ∀ a ∈ s.adders, a.slot < s.table.length) {p p' : Nat} {a a' : Adder φ α}
    (hne : p' ≠ p) (ha : s.adders[p]? = some a) (ha' : s.adders[p']? = some a')
    (hslot : a.slot = a'.slot) (hfield : a.field = a'.field) (hnz : a'.amount ≠ 0) :
    ∃ sched t, run (step C) s sched = some t ∧ ¬ AddedUp C s t := by
  have hlt := (List.getElem?_eq_some_iff.mp ha).1
  have hlt' := (List.getElem?_eq_some_iff.mp ha').1
  have hin := inside a (List.mem_of_getElem? ha)
  have hph := begun a (List.mem_of_getElem? ha)
  have hph' := begun a' (List.mem_of_getElem? ha')
  have hr := List.getElem?_eq_getElem hin
  let v := C.get a.field s.table[a.slot]
  let first := C.set a.field (v + a'.amount)
  let second := C.set a.field (v + a.amount)
  let as₁ := s.adders.set p { a with phase := .storing v }
  let as₂ := as₁.set p' { a' with phase := .storing v }
  let as₃ := as₂.set p' { a' with phase := .done }
  let as₄ := as₃.set p { a with phase := .done }
  have hget₁ : as₁[p']? = some a' := by rw [List.getElem?_set_ne hne.symm, ha']
  have hget₂ : as₂[p']? = some { a' with phase := .storing v } :=
    List.getElem?_set_self (by simpa [as₁] using hlt')
  have hget₃ : as₃[p]? = some { a with phase := .storing v } := by
    rw [List.getElem?_set_ne hne, List.getElem?_set_ne hne, List.getElem?_set_self hlt]
  have h₁ : step C s p = some ⟨s.table, as₁⟩ :=
    step_eq_some.mpr ⟨a, (s.table, .storing v), ha, by simp [advance, hph, hr, v], rfl⟩
  have h₂ : step C ⟨s.table, as₁⟩ p' = some ⟨s.table, as₂⟩ := by
    refine step_eq_some.mpr ⟨a', (s.table, .storing v), hget₁, ?_, rfl⟩
    simp [advance, hph', ← hslot, ← hfield, hr, v]
  have h₃ : step C ⟨s.table, as₂⟩ p' = some ⟨s.table.modify a.slot first, as₃⟩ := by
    refine step_eq_some.mpr ⟨_, (s.table.modify a.slot first, .done), hget₂, ?_, rfl⟩
    simp [advance, ← hslot, ← hfield, first]
  have h₄ : step C ⟨s.table.modify a.slot first, as₃⟩ p =
      some ⟨(s.table.modify a.slot first).modify a.slot second, as₄⟩ :=
    step_eq_some.mpr ⟨_, _, hget₃, rfl, rfl⟩
  refine ⟨[p, p', p', p], _, run_cons_eq_some.mpr ⟨_, h₁, run_cons_eq_some.mpr ⟨_, h₂,
    run_cons_eq_some.mpr ⟨_, h₃, run_cons_eq_some.mpr ⟨_, h₄, rfl⟩⟩⟩⟩, fun added => hnz ?_⟩
  have hsum : (as₄.map (put a.slot a.field)).sum = a'.amount + a.amount := by
    rw [sum_set _ hget₃, sum_set _ hget₂, sum_set _ hget₁, sum_set _ ha, sum_put_begun begun]
    simp [put, Phase.isDone, hph, hph', ← hslot, ← hfield]
  have hvalue := added a.slot a.field
  rw [hsum] at hvalue
  have hstart : value C s.table a.slot a.field = some v := by rw [value, hr, Option.map_some]
  simp only [second, first, value_store lawful, and_self, if_true, hstart, Option.map_some,
    Option.some.injEq] at hvalue
  have hcancel : v + a.amount = v + a.amount + a'.amount := by
    rw [add_assoc, add_comm a.amount]
    exact hvalue
  exact left_eq_add.mp hcancel

/-- Additions add up in every interleaving exactly when no two go to the same counter,
unless neither changes it. -/
theorem added_up_iff (lawful : C.Lawful) (begun : ∀ a ∈ s.adders, a.phase = .loading)
    (inside : ∀ a ∈ s.adders, a.slot < s.table.length) :
    (∀ sched t, run (step C) s sched = some t → AddedUp C s t) ↔ s.adders.Pairwise Apart := by
  constructor
  · intro all
    by_contra hbad
    rw [List.pairwise_iff_getElem] at hbad
    push Not at hbad
    obtain ⟨i, j, hi, hj, hij, hclash⟩ := hbad
    simp only [Apart, not_forall, exists_prop, not_and_or] at hclash
    obtain ⟨hslot, hfield, hnz | hnz⟩ := hclash
    · obtain ⟨sched, t, ht, hlost⟩ := exists_lost lawful begun inside (Nat.ne_of_lt hij)
        (List.getElem?_eq_getElem hj) (List.getElem?_eq_getElem hi) hslot.symm hfield.symm hnz
      exact hlost (all sched t ht)
    · obtain ⟨sched, t, ht, hlost⟩ := exists_lost lawful begun inside (Nat.ne_of_gt hij)
        (List.getElem?_eq_getElem hi) (List.getElem?_eq_getElem hj) hslot hfield hnz
      exact hlost (all sched t ht)
  · intro pairwise sched t ht
    have apart : ∀ (p p' : Nat) (a a' : Adder φ α), p' ≠ p → s.adders[p]? = some a →
        s.adders[p']? = some a' → Apart a a' := by
      intro p p' a a' hne ha ha'
      obtain ⟨hlt, rfl⟩ := List.getElem?_eq_some_iff.mp ha
      obtain ⟨hlt', rfl⟩ := List.getElem?_eq_some_iff.mp ha'
      rcases Nat.lt_or_gt_of_ne hne with hlt | hgt
      · exact (List.pairwise_iff_getElem.mp pairwise p' p _ _ hlt).symm
      · exact List.pairwise_iff_getElem.mp pairwise p p' _ _ hgt
    have start : Kept C s s := by
      refine ⟨fun i f => ?_, fun p a x ha hx => ?_, rfl⟩
      · rw [sum_put_begun begun]
        simp
      · rw [begun a (List.mem_of_getElem? ha)] at hx
        cases hx
    exact (run_preserves (P := Kept C s) (fun u p u' hu hk => hk.keep lawful apart hu) ht
      start).added

end Interleavings

end Rmsgw.Lib.LostUpdate
