/- What the status block shows of a callsign: a field of the record that a search
   for it ends at, and how the calls change it. -/

import Rmsgw.Statblock.Invariant

set_option autoImplicit false
set_option relaxedAutoImplicit false

namespace Rmsgw.Statblock.Shown

open Rmsgw.Lib.CStrings Rmsgw.Lib.SlotTable Rmsgw.Lib.SlotStability Rmsgw.Statblock.Model
open Rmsgw.Statblock.Refinement Rmsgw.Statblock.Invariant

universe u

variable {β : Type u} {field : RmsgwStat → β} {p : RmsStatus}

def shown (field : RmsgwStat → β) (p : RmsStatus) (gwcall : CString) : Option β :=
  (lookup gwLayout gwcall p.rmsgw).bind (fun i => (p.rmsgw[i]?).map field)

theorem room_of_shown {gwcall : CString} {x : β} (h : shown field p gwcall = some x) :
    (lookup gwLayout gwcall p.rmsgw).isSome = true := by
  obtain ⟨i, hi, -⟩ := Option.bind_eq_some_iff.mp h
  rw [hi]
  rfl

theorem shown_of_room {gwcall : CString} (room : (lookup gwLayout gwcall p.rmsgw).isSome = true) :
    ∃ x, shown field p gwcall = some x := by
  obtain ⟨i, hi⟩ := Option.isSome_iff_exists.mp room
  obtain ⟨⟨j, t⟩, hget, rfl⟩ := Option.map_eq_some_iff.mp hi
  obtain ⟨r, hr, -⟩ := getSlot_record hget
  exact ⟨field r, by simp only [shown, hi, Option.bind_some, hr, Option.map_some]⟩

private theorem shown_update {o : SbOp} {q : Op CString RmsgwStat} (h : gwOp o = some q)
    (hclaim : ∀ k r, field (gwLayout.claim k r) = field r) {g : β → β}
    (hupdate : ∀ r, field (q.update r) = g (field r))
    (room : (lookup gwLayout q.key p.rmsgw).isSome = true) :
    (lookup gwLayout q.key (o.apply p).rmsgw).isSome = true ∧
      shown field (o.apply p) q.key = (shown field p q.key).map g := by
  obtain ⟨i, hi⟩ := Option.isSome_iff_exists.mp room
  obtain ⟨⟨j, t⟩, hget, rfl⟩ := Option.map_eq_some_iff.mp hi
  have htable : (o.apply p).rmsgw = t.modify j q.update := by
    rcases apply_rmsgw p o with ⟨q', hq', happly⟩ | ⟨hq', -⟩
    · obtain rfl : q = q' := Option.some.inj (h.symm.trans hq')
      rw [happly, onGwSlot, getGwSlot, hget]
      rfl
    · rw [h] at hq'
      cases hq'
  have hagain : lookup gwLayout q.key (t.modify j q.update) = some j :=
    lookup_again gwLayout_steady hget (grows_modify (gwOp_key h) t j)
  obtain ⟨r, hr, hclaimed⟩ := getSlot_record hget
  have hfield : (t[j]?).map field = some (field r) := by
    rcases hclaimed with hkept | hnew
    · rw [hkept, Option.map_some]
    · rw [hnew, Option.map_some, hclaim]
  obtain ⟨r', hr', hsame⟩ := Option.map_eq_some_iff.mp hfield
  have hmodify : (t.modify j q.update)[j]? = some (q.update r') := by
    simp [hr']
  constructor
  · rw [htable, hagain]
    rfl
  · simp only [shown, htable, hagain, hi, Option.bind_some, hmodify, hr, Option.map_some, hupdate,
      hsame]

theorem shown_foldl {gwcall : CString} (hclaim : ∀ k r, field (gwLayout.claim k r) = field r)
    {g : β → SbOp → β} {os : List SbOp}
    (on : ∀ o ∈ os, ∃ q, gwOp o = some q ∧ q.key = gwcall ∧
      ∀ r, field (q.update r) = g (field r) o)
    (room : (lookup gwLayout gwcall p.rmsgw).isSome = true) :
    shown field (os.foldl SbOp.apply p) gwcall =
      (shown field p gwcall).map (fun x => os.foldl g x) := by
  induction os generalizing p with
  | nil => simp
  | cons o os ih =>
      obtain ⟨q, hq, rfl, hupdate⟩ := on o List.mem_cons_self
      obtain ⟨hroom, hshown⟩ := shown_update (g := fun x => g x o) hq hclaim hupdate room
      rw [List.foldl_cons, ih (fun o' ho' => on o' (List.mem_cons_of_mem o ho')) hroom, hshown,
        Option.map_map]
      rfl

end Rmsgw.Statblock.Shown
