/- Slot tables whose keys may be cut short or empty: slots once named keep their
   names, vacant slots stay at the end, and a key is always sent to the same slot. -/

import Rmsgw.Lib.SlotTable
import Mathlib.Data.List.Forall2

set_option autoImplicit false
set_option relaxedAutoImplicit false

namespace Rmsgw.Lib.SlotStability

open Rmsgw.Lib.SlotTable

universe u v

variable {κ : Type u} {ρ : Type v}

/-- The name of a claimed slot is one that a search for the claiming key stops at;
a key that leaves the slot without a name stops anywhere. -/
structure Steady (L : Layout κ ρ) : Prop where
  named : ∀ k r stored, L.key r = none → L.key (L.claim k r) = some stored →
    L.hits k stored = true
  unnamed : ∀ k r, L.key r = none → L.key (L.claim k r) = none → ∀ stored, L.hits k stored = true

/-- Every named slot has kept its name. -/
def Grows (L : Layout κ ρ) (t t' : List ρ) : Prop :=
  List.Forall₂ (fun r r' => ∀ stored, L.key r = some stored → L.key r' = some stored) t t'

/-- The vacant slots are behind the named ones. -/
def Packed (L : Layout κ ρ) (t : List ρ) : Prop :=
  t.Pairwise (fun r r' => L.key r = none → L.key r' = none)

/-- The slot that a search for a key ends at. -/
def lookup (L : Layout κ ρ) (k : κ) (t : List ρ) : Option Nat := (getSlot L k t).map Prod.fst

/-- The search as a loop with a counter: the table it leaves, and the index or -1. -/
def searchFrom (L : Layout κ ρ) (k : κ) (t : List ρ) (i : Nat) : Nat → List ρ × Int
  | 0 => (t, -1)
  | left + 1 =>
      match t[i]? with
      | none => (t, -1)
      | some r =>
          match L.key r with
          | none => (t.set i (L.claim k r), i)
          | some stored => if L.hits k stored then (t, i) else searchFrom L k t (i + 1) left

/-- What a search returns: the index of the slot, or -1. -/
def returned : Option Nat → Int
  | none => -1
  | some i => i

/-- Lookups of one key agree over the whole history. -/
def Consistent (slots : List (κ × Option Nat)) : Prop :=
  ∀ p ∈ slots, ∀ q ∈ slots, p.1 = q.1 → p.2 = q.2

variable {L : Layout κ ρ} {t t' t'' : List ρ} {k : κ}

theorem Grows.refl (L : Layout κ ρ) (t : List ρ) : Grows L t t :=
  List.forall₂_same.mpr fun _ _ _ h => h

theorem Grows.trans (h : Grows L t t') (h' : Grows L t' t'') : Grows L t t'' := by
  induction h generalizing t'' with
  | nil => exact h'
  | cons hr _ ih =>
      cases h' with
      | cons hr' hrest => exact .cons (fun stored hk => hr' stored (hr stored hk)) (ih hrest)

theorem grows_modify {f : ρ → ρ} (hf : ∀ r, L.key (f r) = L.key r) (t : List ρ) (i : Nat) :
    Grows L t (t.modify i f) := by
  induction t generalizing i with
  | nil => rw [List.modify_nil]; exact .nil
  | cons r rs ih =>
      cases i with
      | zero => exact .cons (fun stored h => (hf r).trans h) (Grows.refl L rs)
      | succ i => rw [List.modify_succ_cons]; exact .cons (fun _ h => h) (ih i)

private theorem keys_modify {f : ρ → ρ} (hf : ∀ r, L.key (f r) = L.key r) (t : List ρ) (i : Nat) :
    (t.modify i f).map L.key = t.map L.key := by
  induction t generalizing i with
  | nil => rw [List.modify_nil]
  | cons r rs ih =>
      cases i with
      | zero => simp [hf]
      | succ i => simpa using ih i

private theorem packed_iff_keys {t : List ρ} :
    Packed L t ↔ (t.map L.key).Pairwise (fun a b => a = none → b = none) := by
  rw [List.pairwise_map]
  rfl

private theorem packed_modify {f : ρ → ρ} (hf : ∀ r, L.key (f r) = L.key r) (h : Packed L t)
    (i : Nat) : Packed L (t.modify i f) := by
  rw [packed_iff_keys, keys_modify hf, ← packed_iff_keys]
  exact h

theorem searchFrom_eq (k : κ) (front t : List ρ) :
    searchFrom L k (front ++ t) front.length t.length =
      match getSlot L k t with
      | none => (front ++ t, -1)
      | some (i, t') => (front ++ t', ((front.length + i : Nat) : Int)) := by
  induction t generalizing front with
  | nil => rfl
  | cons r rs ih =>
      have hr : (front ++ r :: rs)[front.length]? = some r := by simp
      simp only [List.length_cons, searchFrom, hr, getSlot]
      cases hkey : L.key r with
      | none => simp
      | some stored =>
          simp only
          by_cases hhit : L.hits k stored = true
          · simp [hhit]
          · have hrest := ih (front ++ [r])
            simp only [List.append_assoc, List.singleton_append, List.length_append,
              List.length_singleton] at hrest
            rw [if_neg hhit, if_neg hhit, hrest]
            cases getSlot L k rs with
            | none => rfl
            | some q => simp [Nat.add_assoc, Nat.add_comm 1]

private theorem getSlot_keeps {i : Nat} (h : getSlot L k t = some (i, t')) :
    Grows L t t' ∧ (Packed L t → Packed L t') := by
  induction t generalizing i t' with
  | nil => cases h
  | cons r rs ih =>
      simp only [getSlot] at h
      cases hkey : L.key r with
      | none =>
          rw [hkey] at h
          obtain ⟨rfl, rfl⟩ := Prod.mk.inj (Option.some.inj h)
          refine ⟨.cons (fun stored hs => by rw [hkey] at hs; cases hs) (Grows.refl L rs), ?_⟩
          intro hp
          obtain ⟨hhead, htail⟩ := List.pairwise_cons.mp hp
          exact List.pairwise_cons.mpr ⟨fun r' hr' _ => hhead r' hr' hkey, htail⟩
      | some stored =>
          rw [hkey] at h
          simp only at h
          split at h
          · obtain ⟨rfl, rfl⟩ := Prod.mk.inj (Option.some.inj h)
            exact ⟨Grows.refl L _, id⟩
          · obtain ⟨⟨j, rs'⟩, hj, heq⟩ := Option.map_eq_some_iff.mp h
            obtain ⟨rfl, rfl⟩ := Prod.mk.inj heq
            obtain ⟨hgrows, hpacked⟩ := ih hj
            refine ⟨.cons (fun _ h => h) hgrows, fun hp => ?_⟩
            refine List.pairwise_cons.mpr ⟨fun r' _ hnone => ?_,
              hpacked (List.pairwise_cons.mp hp).2⟩
            rw [hkey] at hnone
            cases hnone

/-- What a search for a key makes of the record that it ends at. -/
def seized (L : Layout κ ρ) (k : κ) (r : ρ) : ρ := if (L.key r).isNone then L.claim k r else r

theorem getSlot_set {i : Nat} (h : getSlot L k t = some (i, t')) :
    ∃ r, t[i]? = some r ∧ t' = t.set i (seized L k r) := by
  induction t generalizing i t' with
  | nil => cases h
  | cons r rs ih =>
      simp only [getSlot] at h
      cases hkey : L.key r with
      | none =>
          rw [hkey] at h
          obtain ⟨rfl, rfl⟩ := Prod.mk.inj (Option.some.inj h)
          exact ⟨r, rfl, by simp [seized, hkey]⟩
      | some stored =>
          rw [hkey] at h
          simp only at h
          split at h
          · obtain ⟨rfl, rfl⟩ := Prod.mk.inj (Option.some.inj h)
            exact ⟨r, rfl, by simp [seized, hkey]⟩
          · obtain ⟨⟨j, rs'⟩, hj, heq⟩ := Option.map_eq_some_iff.mp h
            obtain ⟨rfl, rfl⟩ := Prod.mk.inj heq
            obtain ⟨r', hr', rfl⟩ := ih hj
            exact ⟨r', by simpa using hr', rfl⟩

theorem getSlot_record {i : Nat} (h : getSlot L k t = some (i, t')) :
    ∃ r, t[i]? = some r ∧ (t'[i]? = some r ∨ t'[i]? = some (L.claim k r)) := by
  obtain ⟨r, hr, rfl⟩ := getSlot_set h
  obtain ⟨hi, -⟩ := List.getElem?_eq_some_iff.mp hr
  refine ⟨r, hr, ?_⟩
  rw [List.getElem?_set_self hi, seized]
  split
  · exact .inr rfl
  · exact .inl rfl

/-- The slot that a search for a key ends at is vacant. -/
def newSlot (L : Layout κ ρ) (k : κ) (t : List ρ) : Bool :=
  (lookup L k t).any (fun i => (t[i]?).any (fun r => (L.key r).isNone))

theorem newSlot_iff {t : List ρ} : newSlot L k t = true ↔
    ∃ i r, lookup L k t = some i ∧ t[i]? = some r ∧ L.key r = none := by
  simp [newSlot, Option.any_eq_true]

private theorem forall_modify_iff {Q : ρ → Prop} (ht : ∀ r ∈ t, Q r) (i : Nat) (f : ρ → ρ) :
    (∀ r ∈ t.modify i f, Q r) ↔ ∀ r, t[i]? = some r → Q (f r) := by
  constructor
  · intro h r hr
    refine h (f r) (List.mem_of_getElem? (i := i) ?_)
    simp [hr]
  · intro h r hr
    obtain ⟨j, hj⟩ := List.mem_iff_getElem?.mp hr
    rw [List.getElem?_modify] at hj
    obtain ⟨r', hr', rfl⟩ := Option.map_eq_some_iff.mp hj
    split
    · rename_i hij
      exact h r' (hij ▸ hr')
    · exact ht r' (List.mem_of_getElem? hr')

/-- What holds of all records holds of them after an operation exactly if it does of
the one that the search ended at, seized and updated. -/
theorem forall_perform_iff {Q : ρ → Prop} {s : Run κ ρ} (hs : ∀ r ∈ s.table, Q r) (o : Op κ ρ) :
    (∀ r ∈ (perform L s o).table, Q r) ↔
      ∀ i ∈ lookup L o.key s.table, ∀ r, s.table[i]? = some r → Q (o.update (seized L o.key r)) := by
  simp only [perform, lookup]
  cases hget : getSlot L o.key s.table with
  | none => simpa using hs
  | some found =>
      obtain ⟨i, t⟩ := found
      obtain ⟨r, hr, rfl⟩ := getSlot_set hget
      obtain ⟨hi, rfl⟩ := List.getElem?_eq_some_iff.mp hr
      have hset : (s.table.set i (seized L o.key s.table[i])).modify i o.update =
          s.table.modify i (fun r => o.update (seized L o.key r)) := by
        refine List.ext_getElem? fun j => ?_
        rw [List.getElem?_modify, List.getElem?_modify, List.getElem?_set]
        split
        · rename_i hij
          subst hij
          simp [hi]
        · rfl
      simp only [hset, forall_modify_iff hs, Option.map_some, Option.mem_def, Option.some.injEq,
        forall_eq']

theorem perform_length (s : Run κ ρ) (o : Op κ ρ) :
    (perform L s o).table.length = s.table.length := by
  simp only [perform]
  split
  · rfl
  · rename_i hget
    rw [List.length_modify]
    exact (getSlot_keeps hget).1.length_eq.symm

/-- After a search the key is sent to the same slot in every grown table. -/
theorem lookup_again (steady : Steady L) {i : Nat} (h : getSlot L k t = some (i, t'))
    (hg : Grows L t' t'') : lookup L k t'' = some i := by
  induction t generalizing i t' t'' with
  | nil => cases h
  | cons r rs ih =>
      simp only [getSlot] at h
      cases hkey : L.key r with
      | none =>
          rw [hkey] at h
          obtain ⟨rfl, rfl⟩ := Prod.mk.inj (Option.some.inj h)
          cases hg with
          | @cons _ r'' _ rs'' hr _ =>
              cases hnow : L.key r'' with
              | none => simp [lookup, getSlot, hnow]
              | some stored =>
                  have hhit : L.hits k stored = true := by
                    cases hname : L.key (L.claim k r) with
                    | none => exact steady.unnamed k r hkey hname stored
                    | some name =>
                        have heq : name = stored := Option.some.inj ((hr name hname).symm.trans hnow)
                        exact heq ▸ steady.named k r name hkey hname
                  simp [lookup, getSlot, hnow, hhit]
      | some stored =>
          rw [hkey] at h
          simp only at h
          split at h
          · rename_i hhit
            obtain ⟨rfl, rfl⟩ := Prod.mk.inj (Option.some.inj h)
            cases hg with
            | cons hr _ => simp [lookup, getSlot, hr stored hkey, hhit]
          · rename_i hmiss
            obtain ⟨⟨j, rs'⟩, hj, heq⟩ := Option.map_eq_some_iff.mp h
            obtain ⟨rfl, rfl⟩ := Prod.mk.inj heq
            cases hg with
            | @cons _ _ _ rs'' hr hrest =>
                have hagain := ih hj hrest
                obtain ⟨q, hq, hqj⟩ := Option.map_eq_some_iff.mp hagain
                simp [lookup, getSlot, hr stored hkey, hmiss, hq, hqj]

private theorem lookup_none_again (h : getSlot L k t = none) (hg : Grows L t t'') :
    lookup L k t'' = none := by
  induction hg with
  | nil => rfl
  | @cons r r'' rs rs'' hr _ ih =>
      simp only [getSlot] at h
      cases hkey : L.key r with
      | none => rw [hkey] at h; cases h
      | some stored =>
          rw [hkey] at h
          simp only at h
          split at h
          · cases h
          · rename_i hmiss
            have hrest := ih (Option.map_eq_none_iff.mp h)
            simp only [lookup, Option.map_eq_none_iff] at hrest
            simp [lookup, getSlot, hr stored hkey, hmiss, hrest]

/-- What holds of a table and its lookups at any time. -/
structure Invariant (L : Layout κ ρ) (s : Run κ ρ) : Prop where
  packed : Packed L s.table
  settled : ∀ p ∈ s.slots, ∀ t, Grows L s.table t → lookup L p.1 t = p.2

private theorem grows_perform {o : Op κ ρ} (keeps : ∀ r, L.key (o.update r) = L.key r)
    (s : Run κ ρ) : Grows L s.table (perform L s o).table := by
  simp only [perform]
  split
  · exact Grows.refl L _
  · rename_i i t' hget
    exact (getSlot_keeps hget).1.trans (grows_modify keeps t' i)

theorem grows_run {ops : List (Op κ ρ)} (keeps : ∀ o ∈ ops, ∀ r, L.key (o.update r) = L.key r)
    (s : Run κ ρ) : Grows L s.table (ops.foldl (perform L) s).table := by
  induction ops generalizing s with
  | nil => exact Grows.refl L _
  | cons o os ih =>
      have hstep := grows_perform (keeps o List.mem_cons_self) s
      exact hstep.trans (ih (fun q hq => keeps q (List.mem_cons_of_mem o hq)) _)

private theorem Invariant.perform (steady : Steady L) {o : Op κ ρ}
    (keeps : ∀ r, L.key (o.update r) = L.key r) {s : Run κ ρ} (h : Invariant L s) :
    Invariant L (perform L s o) := by
  have hgrows := grows_perform keeps s
  simp only [SlotTable.perform] at hgrows ⊢
  cases hget : getSlot L o.key s.table with
  | none =>
      refine ⟨h.packed, ?_⟩
      intro p hp t ht
      rcases List.mem_append.mp hp with hp | hp
      · exact h.settled p hp t ht
      · obtain rfl := List.mem_singleton.mp hp
        exact lookup_none_again hget ht
  | some q =>
      obtain ⟨i, t'⟩ := q
      simp only [hget] at hgrows
      refine ⟨packed_modify keeps ((getSlot_keeps hget).2 h.packed) i, ?_⟩
      intro p hp t ht
      rcases List.mem_append.mp hp with hp | hp
      · exact h.settled p hp t (hgrows.trans ht)
      · obtain rfl := List.mem_singleton.mp hp
        exact lookup_again steady hget ((grows_modify keeps t' i).trans ht)

theorem invariant_execute (steady : Steady L) {empty : ρ} (vacant : L.key empty = none) (size : Nat)
    {ops : List (Op κ ρ)} (keeps : ∀ o ∈ ops, ∀ r, L.key (o.update r) = L.key r) :
    Invariant L (execute L empty size ops) := by
  induction ops using List.reverseRecOn with
  | nil =>
      refine ⟨List.pairwise_replicate.mpr (.inr fun _ => vacant), ?_⟩
      intro p hp
      cases hp
  | append_singleton past o ih =>
      rw [execute_snoc]
      exact (ih fun q hq => keeps q (List.mem_append_left _ hq)).perform steady
        (keeps o (by simp))

theorem Invariant.consistent {s : Run κ ρ} (h : Invariant L s) : Consistent s.slots := by
  intro p hp q hq hkey
  rw [← h.settled p hp s.table (Grows.refl L _), hkey, h.settled q hq s.table (Grows.refl L _)]

/-- Reading a packed table up to the first vacant slot shows all its named slots. -/
theorem Packed.takeWhile_eq_filter (h : Packed L t) :
    t.takeWhile (fun r => (L.key r).isSome) = t.filter (fun r => (L.key r).isSome) := by
  induction t with
  | nil => rfl
  | cons r rs ih =>
      obtain ⟨hhead, htail⟩ := List.pairwise_cons.mp h
      cases hkey : L.key r with
      | none =>
          have hrest : ∀ r' ∈ rs, L.key r' = none := fun r' hr' => hhead r' hr' hkey
          simp only [List.takeWhile_cons, List.filter_cons, hkey, Option.isSome_none,
            Bool.false_eq_true, if_false]
          rw [eq_comm, List.filter_eq_nil_iff]
          intro r' hr'
          simp [hrest r' hr']
      | some stored => simp [hkey, ih htail]

end Rmsgw.Lib.SlotStability
