/- Several processes inside statblock_attach() at a time: when each of them is handed an
   initialized block, and no update of the others is wiped. -/

import Rmsgw.Lib.OnDemand
import Rmsgw.Statblock.Attached

set_option autoImplicit false
set_option relaxedAutoImplicit false

namespace Rmsgw.Statblock.AttachRace

open Rmsgw.Lib.CStrings Rmsgw.Lib.Process Rmsgw.Lib.OnDemand Rmsgw.Rms
open Rmsgw.Statblock.Model Rmsgw.Statblock.Attach Rmsgw.Statblock.Attached

/-- The segment: shmget() creates it, the magic string tells that it is initialized. -/
def statusBlock : Resource Segment SbOp where
  created := zeroFilled
  ready := hasMagic
  stores := initialization
  apply := fun o seg => { seg with block := o.apply seg.block }

private theorem made_eq_freshSegment : statusBlock.made = freshSegment := by
  have hlong : initializeBlock initialization.length zeroFilled = freshSegment :=
    initializeBlock_long (Nat.sub_le _ _)
  rw [initializeBlock, zeroFilled_hasMagic, if_neg Bool.false_ne_true] at hlong
  exact hlong

private theorem statusBlock_lawful : statusBlock.Lawful where
  created_raw := zeroFilled_hasMagic
  made_ready := made_eq_freshSegment ▸ freshSegment_hasMagic
  apply_ready := fun _ _ => rfl

/-- Undisturbed, a process gets what a call of statblock_attach() in one piece hands over. -/
theorem undisturbed_eq_statblockAttach (segment : Option Segment) :
    ∃ n, run (step statusBlock) (start segment 1) (List.replicate n (.go 0)) =
      (statblockAttach segment .done).map
        (fun q => ⟨q.1, [.returned], q.1.toList.map (fun seg => (seg, [])), []⟩) := by
  cases segment with
  | some seg => exact ⟨2, alone_found seg⟩
  | none =>
      obtain ⟨n, hn⟩ := alone_missing statusBlock_lawful
      refine ⟨n, ?_⟩
      have hattached : attached initialization.length (shmGet none) = freshSegment :=
        initializeBlock_long (Nat.sub_le _ _)
      rw [hn, made_eq_freshSegment, statblockAttach, hattached]
      rfl

/-- A segment that was there, or else the one that a process has initialized. -/
def base (segment : Option Segment) : Segment := segment.getD freshSegment

/-- Any number of processes attach the block, with any updates by those who have it:
every interleaving hands an initialized block to each and loses no update exactly when
the segment is there already or one process is all there is. An exclusive section around
the initialization would not change that. -/
theorem attaches_sound_iff (segment : Option Segment)
    (magic : ∀ seg, segment = some seg → hasMagic seg = true) (n : Nat) :
    ((∀ acts t, run (step statusBlock) (start segment n) acts = some t →
        Sound statusBlock (base segment) t) ↔ segment.isSome ∨ n ≤ 1) ∧
      ((∀ acts t, Meets (step statusBlock) Marked (start segment n) acts →
        run (step statusBlock) (start segment n) acts = some t →
        Sound statusBlock (base segment) t) ↔ segment.isSome ∨ n ≤ 1) := by
  rw [base, ← made_eq_freshSegment]
  exact sound_iff statusBlock_lawful magic n

theorem attaches_sound_iff_initialized :
    ((∀ acts t, run (step statusBlock) (start (some freshSegment) 2) acts = some t →
        Sound statusBlock (base (some freshSegment)) t) ↔ (some freshSegment).isSome ∨ 2 ≤ 1) ∧
      ((∀ acts t, Meets (step statusBlock) Marked (start (some freshSegment) 2) acts →
        run (step statusBlock) (start (some freshSegment) 2) acts = some t →
        Sound statusBlock (base (some freshSegment)) t) ↔
        (some freshSegment).isSome ∨ 2 ≤ 1) := by
  refine attaches_sound_iff (some freshSegment) ?_ 2
  rintro seg heq
  exact Option.some.inj heq ▸ freshSegment_hasMagic

/-- What is enough: no process looks for the magic string or goes away with the block
while another one initializes it, and who did not create it waits for the string. -/
theorem attaches_sound_guarded (segment : Option Segment)
    (magic : ∀ seg, segment = some seg → hasMagic seg = true) (n : Nat) (acts : List (Act SbOp))
    (guarded : Meets (step statusBlock) (Guarded statusBlock) (start segment n) acts)
    (t : System Segment SbOp) (h : run (step statusBlock) (start segment n) acts = some t) :
    Sound statusBlock (base segment) t := by
  rw [base, ← made_eq_freshSegment]
  exact sound_of_guarded statusBlock_lawful magic guarded h

private theorem caller_noNul : (0 : UInt8) ∉ lit "W1AW-10" := by decide

/-- Two processes miss the segment; one initializes it, the other one then finds it so. -/
private def bothMiss : List (Act SbOp) :=
  [.go 0, .go 1, .go 1, .go 0, .go 0] ++ List.replicate (initialization.length + 1) (.go 0) ++
    [.update 0 (.gwState .gwRunning ⟨lit "W1AW-10", caller_noNul⟩), .go 1]

private theorem bothMiss_some :
    (run (step statusBlock) (start none 2) bothMiss).isSome := by decide +kernel

theorem attaches_sound_guarded_both_miss :
    Sound statusBlock (base none)
      ((run (step statusBlock) (start none 2) bothMiss).get bothMiss_some) :=
  attaches_sound_guarded none (by simp) 2 bothMiss (by decide +kernel) _
    (Option.some_get bothMiss_some).symm

end Rmsgw.Statblock.AttachRace
