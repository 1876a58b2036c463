/- Which channels the check-in program sends when: the due test of the code
   against the update interval and the modification times of the files. -/

import Rmsgw.Aci.Steps

set_option autoImplicit false
set_option relaxedAutoImplicit false

namespace Rmsgw.Aci.Schedule

open Rmsgw.Lib.CStrings Rmsgw.Lib.Process Rmsgw.Rms Rmsgw.StatFile
open Rmsgw.Channels.Model Rmsgw.Aci.Model Rmsgw.Aci.Steps

/-- The configured interval where it is a positive number, else the default. -/
def effectiveInterval (cfg : Config) : Int :=
  match cfg.channelupd.map atol with
  | none => dfltChannelUpd
  | some seconds => if 0 < seconds then seconds else dfltChannelUpd

def channelsTime (d : DueTest) : Int := mtimeOf (d.job.files (chanfile d.job.cfg))

def statusTime (d : DueTest) : Int := mtimeOf (d.files d.statfile)

/-- The channel is to be sent: its status is as old as the interval, or older
than the channel file. -/
def ToBeSent (d : DueTest) : Prop :=
  effectiveInterval d.job.cfg ≤ d.now - statusTime d ∨ statusTime d < channelsTime d

/-- The ages that the due test compares tell the times apart: with a configured
channel file, where the status is not younger than it by less than the run has
lasted; with the built-in one, whose age is taken for zero, where the status lies
in the past just when it is older than the channel file. -/
def AgesTell (d : DueTest) : Prop :=
  effectiveInterval d.job.cfg ≤ d.now - statusTime d ∨
    match d.job.cfg.channelfile with
    | some _ => statusTime d < channelsTime d ∨ d.now - d.job.started ≤ statusTime d - channelsTime d
    | none => statusTime d < d.now ↔ statusTime d < channelsTime d

private theorem channelUpdateInterval_eq (cfg : Config) :
    channelUpdateInterval cfg = effectiveInterval cfg := by
  simp only [channelUpdateInterval, effectiveInterval]
  cases cfg.channelupd with
  | none => rfl
  | some text =>
      simp only [Option.map_some]
      split
      · rw [if_neg (by omega)]
      · rw [if_pos (by omega)]

private theorem due_iff (d : DueTest) :
    d.due = true ↔ effectiveInterval d.job.cfg ≤ d.now - statusTime d ∨
      match d.job.cfg.channelfile with
      | some _ => statusTime d - channelsTime d < d.now - d.job.started
      | none => statusTime d < d.now := by
  rw [DueTest.due, Bool.or_eq_true, decide_eq_true_eq, decide_eq_true_eq,
    channelUpdateInterval_eq]
  simp only [DueTest.statusAge, fileage, statusTime]
  refine or_congr_right ?_
  cases hfile : d.job.cfg.channelfile with
  | none =>
      simp only [Job.channelsAge, hfile]
      omega
  | some file =>
      simp only [Job.channelsAge, channelsTime, chanfile, fileage, hfile, Option.getD_some]
      omega

private theorem due_exact_iff {d : DueTest} (clock : d.job.started ≤ d.now) :
    (d.due = true ↔ ToBeSent d) ↔ AgesTell d := by
  rw [due_iff, ToBeSent, AgesTell]
  by_cases hold : effectiveInterval d.job.cfg ≤ d.now - statusTime d
  · simp [hold]
  · cases d.job.cfg.channelfile with
    | none => simp [hold]
    | some file =>
        simp only [hold, false_or]
        omega

/-- In any history of runs, on a clock that does not run backwards within a run,
an active and available channel is sent if and only if it is to be sent, exactly
where the ages tell the times apart. -/
theorem sent_exact_iff (fs : Files) (answers : List Answer) (s : State)
    (h : run step (initial fs) answers = some s) :
    ∀ p ∈ s.history.filterMap decision, p.1.job.started ≤ p.1.now →
      ((p.2 = true ↔ ToBeSent p.1) ↔ AgesTell p.1) := by
  intro p hp clock
  rw [decisions_due h p hp]
  exact due_exact_iff clock

private def channelElement : RootNode where
  isElement := true
  name := lit "channel"
  props := [(lit "name", lit "vhf"), (lit "active", lit "yes")]
  children := [⟨true, lit "statuschecker", lit "true"⟩]

private def filesAt (status channels : Int) : Files := fun path =>
  if path = lit "/etc/rmsgw/stat/.channels.vhf" then .times status status
  else if path = xmlChannelFile then .times channels channels
  else .absent

private def oneRun (channelfile : Option Str) : List Answer :=
  [.start ⟨lit "W1AW-10", channelfile, some (lit "3600"), none⟩
      (some ⟨lit "rmschannels", [channelElement]⟩) 1000000,
    .channel ⟨0, 1000000, .notReady 0, 1000000, .done⟩]

private def outcomes (s : State) : List ((Int × Int × Bool) × Int × Int × Int) :=
  (s.history.filterMap decision).map fun p =>
    ((p.1.job.started, p.1.now, p.2), statusTime p.1, channelsTime p.1,
      effectiveInterval p.1.job.cfg)

theorem sent_exact_iff_edited :
    ∃ s p, run step (initial (filesAt 999000 999500)) (oneRun (some xmlChannelFile)) = some s ∧
      p ∈ s.history.filterMap decision ∧ ((p.2 = true ↔ ToBeSent p.1) ↔ AgesTell p.1) := by
  have hend : (run step (initial (filesAt 999000 999500)) (oneRun (some xmlChannelFile))).map
      outcomes = some [((1000000, 1000000, true), 999000, 999500, 3600)] := by decide
  obtain ⟨s, hs, hout⟩ := Option.map_eq_some_iff.mp hend
  obtain ⟨p, ps, hps, hp, -⟩ := List.map_eq_cons_iff.mp hout
  simp only [Prod.mk.injEq] at hp
  have hmem : p ∈ s.history.filterMap decision := by rw [hps]; exact List.mem_cons_self
  exact ⟨s, p, hs, hmem, sent_exact_iff _ _ s hs p hmem (by omega)⟩

/-- Without a configured channel file a channel is sent although its status is
new and the channel file older. -/
theorem fresh_channel_sent :
    ∃ s p, run step (initial (filesAt 999999 500000)) (oneRun none) = some s ∧
      p ∈ s.history.filterMap decision ∧ p.1.job.started ≤ p.1.now ∧ p.2 = true ∧
      ¬ ToBeSent p.1 := by
  have hend : (run step (initial (filesAt 999999 500000)) (oneRun none)).map outcomes =
      some [((1000000, 1000000, true), 999999, 500000, 3600)] := by decide
  obtain ⟨s, hs, hout⟩ := Option.map_eq_some_iff.mp hend
  obtain ⟨p, ps, hps, hp, -⟩ := List.map_eq_cons_iff.mp hout
  simp only [Prod.mk.injEq] at hp
  obtain ⟨⟨hstarted, hnow, hsent⟩, hstatus, hchannels, hinterval⟩ := hp
  refine ⟨s, p, hs, by rw [hps]; exact List.mem_cons_self, by omega, hsent, ?_⟩
  rw [ToBeSent, hnow, hstatus, hchannels, hinterval]
  decide

end Rmsgw.Aci.Schedule
