/- Gateways that add to the counters in the status block at once: which calls add up
   in every interleaving. -/

import Rmsgw.Lib.LostUpdate
import Rmsgw.Statblock.Race
import Mathlib.Data.UInt

set_option autoImplicit false
set_option relaxedAutoImplicit false

namespace Rmsgw.Statblock.Adding

open Rmsgw.Lib.CStrings Rmsgw.Lib.Process Rmsgw.Lib.SlotTable Rmsgw.Lib.LostUpdate
open Rmsgw.Rms
open Rmsgw.Statblock.Model Rmsgw.Statblock.Refinement Rmsgw.Statblock.Race
open scoped UInt64.CommRing

inductive GwCounter
  | connects
  | bytesIn
  | bytesOut
  deriving DecidableEq

def getCounter : GwCounter → RmsgwStat → UInt64
  | .connects, r => r.gwConnects
  | .bytesIn, r => r.gwBytesIn
  | .bytesOut, r => r.gwBytesOut

def setCounter : GwCounter → UInt64 → RmsgwStat → RmsgwStat
  | .connects, x, r => { r with gwConnects := x }
  | .bytesIn, x, r => { r with gwBytesIn := x }
  | .bytesOut, x, r => { r with gwBytesOut := x }

def gwCounters : Counters GwCounter RmsgwStat UInt64 := ⟨getCounter, setCounter⟩

/-- What a call adds to which counter of which gateway, if it does. -/
def addition : SbOp → Option (CString × GwCounter × UInt64)
  | .gwConnects gwcall => some (gwcall, .connects, 1)
  | .gwBytesIn gwcall count => some (gwcall, .bytesIn, UInt64.ofInt count)
  | .gwBytesOut gwcall count => some (gwcall, .bytesOut, UInt64.ofInt count)
  | _ => none

/-- The addition of a call whose get_gw_slot() has returned. -/
def adder (p : RmsStatus) (o : SbOp) : Option (Adder GwCounter UInt64) :=
  (addition o).bind fun a =>
    (getGwSlot p a.1).map fun q => ⟨q.1, a.2.1, a.2.2, .loading⟩

/-- Processes in the middle of their calls, none of which has touched a counter yet. -/
def adding (p : RmsStatus) (calls : List SbOp) : System GwCounter RmsgwStat UInt64 :=
  ⟨p.rmsgw, calls.filterMap (adder p)⟩

/-- Two calls do not add to the same counter of the same gateway, or they add nothing. -/
def AddApart (o o' : SbOp) : Prop :=
  ∀ a ∈ addition o, ∀ a' ∈ addition o', a.1 = a'.1 → a.2.1 = a'.2.1 → a.2.2 = 0 ∧ a'.2.2 = 0

private theorem gwCounters_lawful : gwCounters.Lawful where
  get_set := by
    intro f a r
    cases f <;> rfl
  get_set_of_ne := by
    intro f g a r hne
    cases f <;> cases g <;> first | rfl | exact absurd rfl hne

private theorem modify_congr {ρ : Type} {t : List ρ} {i : Nat} {r : ρ} {f g : ρ → ρ}
    (hr : t[i]? = some r) (hfg : f r = g r) : t.modify i f = t.modify i g := by
  apply List.ext_getElem?
  intro j
  rw [List.getElem?_modify, List.getElem?_modify]
  by_cases hij : i = j
  · subst hij
    simp [hr, hfg]
  · simp [hij]

private theorem addition_apply {p : RmsStatus} {o : SbOp} {gwcall : CString} {c : GwCounter}
    {x : UInt64} (ho : addition o = some (gwcall, c, x)) :
    o.apply p = onGwSlot p gwcall (fun r => setCounter c (getCounter c r + x) r) := by
  cases o <;> cases ho <;> rfl

/-- Undisturbed, an addition does what the call does in one piece. -/
theorem undisturbed_eq_apply {p : RmsStatus} {o : SbOp} {gwcall : CString} {c : GwCounter}
    {x : UInt64} {i : Nat} (ho : addition o = some (gwcall, c, x))
    (known : getGwSlot p gwcall = some (i, p)) (hi : i < p.rmsgw.length) :
    run (step gwCounters) (adding p [o]) [0, 0] =
      some ⟨(o.apply p).rmsgw, [⟨i, c, x, .done⟩]⟩ := by
  have hadder : adder p o = some ⟨i, c, x, .loading⟩ := by
    rw [adder, ho, Option.bind_some, known]
    rfl
  have hr := List.getElem?_eq_getElem hi
  have hload : step gwCounters (adding p [o]) 0 =
      some ⟨p.rmsgw, [⟨i, c, x, .storing (getCounter c p.rmsgw[i])⟩]⟩ := by
    refine step_eq_some.mpr ⟨⟨i, c, x, .loading⟩, (p.rmsgw, .storing (getCounter c p.rmsgw[i])),
      ?_, ?_, ?_⟩
    · simp [adding, hadder]
    · show (p.rmsgw[i]?).map _ = _
      rw [hr]
      rfl
    · simp [adding, hadder]
  have hstore : step gwCounters ⟨p.rmsgw, [⟨i, c, x, .storing (getCounter c p.rmsgw[i])⟩]⟩ 0 =
      some ⟨p.rmsgw.modify i (setCounter c (getCounter c p.rmsgw[i] + x)), [⟨i, c, x, .done⟩]⟩ :=
    rfl
  have happly : (o.apply p).rmsgw =
      p.rmsgw.modify i (setCounter c (getCounter c p.rmsgw[i] + x)) := by
    rw [addition_apply ho, onGwSlot, known]
    exact modify_congr hr rfl
  rw [happly]
  exact run_cons_eq_some.mpr ⟨_, hload, run_cons_eq_some.mpr ⟨_, hstore, rfl⟩⟩

/-- Calls that add to counters of known gateways add up in every interleaving exactly
when no two of them add to the same counter of the same gateway, unless they add nothing. -/
theorem gw_counters_add_up_iff (ops calls : List SbOp)
    (good : ∀ k ∈ gwcalls ops, GoodGwcall k) (clear : NoPrefix (gwcalls ops))
    (few : (gwcalls ops).dedup.length ≤ rmsGwTableSize)
    (known : ∀ o ∈ calls, ∀ a ∈ addition o, a.1 ∈ gwcalls ops) :
    (∀ sched t, run (step gwCounters) (adding (ops.foldl SbOp.apply freshBlock) calls) sched =
        some t → AddedUp gwCounters (adding (ops.foldl SbOp.apply freshBlock) calls) t) ↔
      calls.Pairwise AddApart := by
  obtain ⟨es, hes⟩ := gwTable_entries good clear few
  have hadder : ∀ o ∈ calls, ∀ b, adder (ops.foldl SbOp.apply freshBlock) o = some b ↔
      ∃ a ∈ addition o, (es.map Prod.fst)[b.slot]? = some a.1 ∧ b = ⟨b.slot, a.2.1, a.2.2, .loading⟩ := by
    intro o ho b
    cases ha : addition o with
    | none => simp [adder, ha]
    | some a =>
        obtain ⟨i, hi, hget, -⟩ := getGwSlot_known hes (known o ho a ha)
        simp only [adder, ha, Option.bind_some, hget, Option.map_some, Option.some.injEq,
          Option.mem_def, exists_eq_left']
        constructor
        · rintro rfl
          exact ⟨hi, rfl⟩
        · rintro ⟨hb, heq⟩
          have hlt := (List.getElem?_eq_some_iff.mp hi).1
          have hsame : i = b.slot := (List.getElem?_inj hlt hes.nodup).mp (hi.trans hb.symm)
          rw [heq, hsame]
  have member : ∀ b ∈ (adding (ops.foldl SbOp.apply freshBlock) calls).adders,
      ∃ o ∈ calls, adder (ops.foldl SbOp.apply freshBlock) o = some b := fun b hb =>
    List.mem_filterMap.mp hb
  rw [added_up_iff gwCounters_lawful]
  · show (calls.filterMap (adder (ops.foldl SbOp.apply freshBlock))).Pairwise Apart ↔ _
    rw [List.pairwise_filterMap]
    refine List.Pairwise.iff_of_mem fun {o o'} ho ho' => ⟨?_, ?_⟩
    · intro h a ha a' ha' hgwcall hcounter
      obtain ⟨i, hi, -, -⟩ := getGwSlot_known hes (known o ho a ha)
      refine h ⟨i, a.2.1, a.2.2, .loading⟩ ((hadder o ho _).mpr ⟨a, ha, hi, rfl⟩)
        ⟨i, a'.2.1, a'.2.2, .loading⟩ ((hadder o' ho' _).mpr ⟨a', ha', ?_, rfl⟩) rfl hcounter
      rw [← hgwcall]
      exact hi
    · intro h b hb b' hb' hslots hfields
      obtain ⟨a, ha, hi, heq⟩ := (hadder o ho b).mp hb
      obtain ⟨a', ha', hi', heq'⟩ := (hadder o' ho' b').mp hb'
      have hgwcall : a.1 = a'.1 := by
        rw [hslots, hi'] at hi
        exact (Option.some.inj hi).symm
      rw [heq, heq'] at hfields ⊢
      exact h a ha a' ha' hgwcall hfields
  · intro b hb
    obtain ⟨o, ho, hob⟩ := member b hb
    obtain ⟨a, -, -, heq⟩ := (hadder o ho b).mp hob
    rw [heq]
  · intro b hb
    obtain ⟨o, ho, hob⟩ := member b hb
    obtain ⟨a, -, hi, -⟩ := (hadder o ho b).mp hob
    have htable : (ops.foldl SbOp.apply freshBlock).rmsgw =
        layOut es emptyGw (rmsGwTableSize - es.length) := hes.table_eq
    have hlt := (List.getElem?_eq_some_iff.mp hi).1
    show b.slot < (ops.foldl SbOp.apply freshBlock).rmsgw.length
    rw [htable, layOut, List.length_append, List.length_map]
    rw [List.length_map] at hlt
    omega

private theorem gateway_noNul : (0 : UInt8) ∉ lit "W1AW-10" := by decide

private def gateway : CString := ⟨lit "W1AW-10", gateway_noNul⟩

private def known : List SbOp := [.gwState .gwRunning gateway]

private def traffic : List SbOp :=
  [.gwBytesIn gateway 512, .gwBytesOut gateway 80, .gwConnects gateway, .gwBytesIn gateway 64]

theorem gw_counters_add_up_iff_two_channels :
    (∀ sched t, run (step gwCounters) (adding (known.foldl SbOp.apply freshBlock) traffic) sched =
        some t → AddedUp gwCounters (adding (known.foldl SbOp.apply freshBlock) traffic) t) ↔
      traffic.Pairwise AddApart :=
  gw_counters_add_up_iff known traffic
    (by simp [known, gwcalls, gwOp, GoodGwcall, gateway]; decide)
    (by simp only [NoPrefix]; decide) (by decide) (by decide)

end Rmsgw.Statblock.Adding
