/- What holds of every channel that is read, with the status checker that the ones
   before it leave, and when all reading stays within the buffers. -/

import Rmsgw.Channels.Traversal

set_option autoImplicit false
set_option relaxedAutoImplicit false

namespace Rmsgw.Channels.Bounds

open Rmsgw.Lib.CStrings Rmsgw.Rms Rmsgw.Channels.Model Rmsgw.Channels.Isolation
open Rmsgw.Channels.Subst Rmsgw.Channels.Entry Rmsgw.Channels.Traversal

/-- The condition holds of the channels one after the other, up to one that is not
read to its end. -/
def Throughout (C : Option Str → RootNode → Prop) : Option Str → List RootNode → Prop
  | _, [] => True
  | left, e :: es =>
      C left e ∧ (Sized left e → (effective left e).isSome → Throughout C (leftover left e) es)

section Reads

/-- The condition holds throughout exactly when it holds of every channel that reads
in a row come to. -/
theorem throughout_iff {C : Option Str → RootNode → Prop} {c : Channel} {es : List RootNode} :
    Throughout C (c.child .statuschecker) es ↔
      ∀ c' e es', Reads c es c' (e :: es') → C (c'.child .statuschecker) e := by
  induction es generalizing c with
  | nil => exact iff_of_true trivial fun c' e es' h => by cases h
  | cons e es ih =>
      rw [Throughout]
      constructor
      · rintro ⟨hC, hrest⟩ c' e' es' hreads
        cases hreads with
        | refl => exact hC
        | @read _ c₁ _ _ _ _ read rest =>
            obtain ⟨hsized, hsome⟩ := readEntry_ok_iff.mp ⟨c₁, read⟩
            have htail := hrest hsized hsome
            rw [← readEntry_statuschecker read] at htail
            exact ih.mp htail c' e' es' rest
      · intro h
        refine ⟨h c e es (.refl _ _), fun hsized hsome => ?_⟩
        obtain ⟨c₁, read⟩ := readEntry_ok_iff.mpr ⟨hsized, hsome⟩
        rw [← readEntry_statuschecker read]
        exact ih.mpr fun c' e' es' rest => h c' e' es' (.read read rest)

end Reads

section Along

variable {d : ChannelsDoc} {C : Option Str → RootNode → Prop}

/-- The condition holds of the channels ahead, be it before the first read or behind
a first channel that has its own status checker. -/
def Along (d : ChannelsDoc) (C : Option Str → RootNode → Prop) (c : Channel)
    (es : List RootNode) : Prop :=
  (c.child .statuschecker = none ∧ es = d.channels) ∨
    ((∀ e ∈ d.channels.head?, (fieldText e .statuschecker).isSome) ∧
      Throughout C (c.child .statuschecker) es)

theorem Along.head (h : Throughout C none d.channels) {c : Channel} {e : RootNode}
    {es : List RootNode} (halong : Along d C c (e :: es)) : C (c.child .statuschecker) e := by
  rcases halong with ⟨hnone, hes⟩ | ⟨-, hrest⟩
  · rw [← hes] at h
    rw [hnone]
    exact h.1
  · exact hrest.1

/-- A condition that does not look behind a channel's own status checker is kept. -/
theorem along_kept
    (respects : ∀ left e, (fieldText e .statuschecker).isSome → C none e → C left e)
    (h : Throughout C none d.channels) : Kept d (Along d C) where
  start := .inl ⟨rfl, rfl⟩
  read := by
    intro c c' e es hP hread
    obtain ⟨hsized, hsome⟩ := readEntry_ok_iff.mp ⟨c', hread⟩
    right
    rw [readEntry_statuschecker hread]
    rcases hP with ⟨hnone, hes⟩ | ⟨hown, hrest⟩
    · rw [hnone] at hsized hsome ⊢
      rw [← hes] at h ⊢
      refine ⟨fun e' he' => ?_, h.2 hsized hsome⟩
      obtain rfl := Option.some.inj he'
      rwa [effective, Option.or_none] at hsome
    · exact ⟨hown, hrest.2 hsized hsome⟩
  again := by
    intro c es hP
    rcases hP with ⟨hnone, hes⟩ | ⟨hown, -⟩
    · exact .inl ⟨hnone, rfl⟩
    · refine .inr ⟨hown, ?_⟩
      revert h hown
      cases d.channels with
      | nil => exact fun h _ => h
      | cons e es =>
          intro h hown
          obtain ⟨own, hfield⟩ := Option.isSome_iff_exists.mp (hown e rfl)
          have hsame : effective (c.child .statuschecker) e = effective none e := by
            rw [effective_own hfield, effective_own hfield]
          refine ⟨respects _ e (hown e rfl) h.1, fun hsized hsome => ?_⟩
          rw [leftover, hsame, ← leftover]
          rw [hsame] at hsome
          exact h.2 ((sized_congr hsame).mp hsized) hsome

end Along

section Buffers

/-- No sequence of calls writes outside the buffers. -/
def WithinBuffers (d : ChannelsDoc) : Prop :=
  ∀ calls, performAll (Reader.start (some d.toXmlDoc)) calls ≠ .error .bufferOverflow

private theorem matchesName_fault {chname callsign : Str} {c : Channel} {f : Fault}
    (h : matchesName chname callsign c = .error f) : f = .nullDeref := by
  simp only [matchesName] at h
  split at h
  · exact (Except.error.inj h).symm
  split at h
  · split at h
    · exact (Except.error.inj h).symm
    · cases h
  · cases h

/-- Calls stay within the buffers exactly when each channel does with the status
checker that it is read with. -/
theorem withinBuffers_iff (d : ChannelsDoc) :
    WithinBuffers d ↔ Throughout Sized none d.channels := by
  constructor
  · intro hwithin
    refine throughout_iff (c := .cleared).mpr fun c e es hreads => ?_
    by_contra hunsized
    obtain ⟨calls, hcalls⟩ := hreads.faulty (readEntry_overflow_iff.mpr hunsized)
    exact hwithin calls hcalls
  · intro h calls hcalls
    have hends := (along_kept sized_own h).performAll calls
    rw [hcalls] at hends
    cases hends with
    | error faulty =>
        cases faulty with
        | read at_ read => exact readEntry_overflow_iff.mp read (at_.head h)
        | compare at_ read compare => cases matchesName_fault compare

private def longText : Str := List.replicate bigBuf 65

private def longChannel : RootNode where
  isElement := true
  name := lit "channel"
  props := [(lit "name", lit "vhf")]
  children := [⟨true, lit "callsign", longText⟩, ⟨true, lit "statuschecker", lit "true"⟩]

private def longDoc : ChannelsDoc := ⟨⟨lit "rmschannels", [longChannel]⟩, rfl⟩

/-- One more character than the buffer holds with the terminator. -/
theorem long_text_overflows : ¬ WithinBuffers longDoc := by
  have hblank : ∀ n, (List.replicate n (65 : UInt8)).dropWhile isBlank = List.replicate n 65 := by
    intro n
    cases n with
    | zero => rfl
    | succ n => rfl
  have htext : (trimText longText).length = bigBuf := by
    rw [trimText, longText, hblank, List.rdropWhile, List.reverse_replicate, hblank,
      List.reverse_replicate, List.length_replicate]
  have hunfit : ¬ ContentFits longText := fun h => by
    rw [ContentFits, htext] at h
    exact Nat.lt_irrefl _ h.2
  have hread : readEntry .cleared longChannel = .error .bufferOverflow :=
    readEntry_overflow_iff.mpr fun h => hunfit (h.contents _ List.mem_cons_self rfl)
  intro hwithin
  have hreads : Reads .cleared longDoc.channels .cleared [longChannel] := .refl _ _
  obtain ⟨calls, hcalls⟩ := hreads.faulty hread
  exact hwithin calls hcalls

end Buffers

end Rmsgw.Channels.Bounds
