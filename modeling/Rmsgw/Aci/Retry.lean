/- When a failed update is tried again: which update attempts move the time of
   their status file, over histories of runs of both schedulers. -/

import Rmsgw.Aci.Steps

set_option autoImplicit false
set_option relaxedAutoImplicit false

namespace Rmsgw.Aci.Retry

open Rmsgw.Lib.CStrings Rmsgw.Lib.Process Rmsgw.Rms Rmsgw.StatFile
open Rmsgw.Channels.Model Rmsgw.Aci.Model Rmsgw.Aci.Steps

def attempt : Event → Option Update
  | .channelUpdate _ _ u => some u
  | .versionUpdate u => some u
  | _ => none

def attempts (log : List Event) : List Update := log.filterMap attempt

/-- The time of a status file advances only when the update succeeded, so that
a failed update leaves it due. -/
def FailuresStayDue (s : State) : Prop :=
  ∀ u ∈ attempts s.history, u.code ≠ 0 → u.after ≤ u.before

/-- The touch of a status file fails without creating the file, or the file is
from a later time already. -/
def TouchKeepsTime (fs : Files) (statfile : Str) (now : Int) (touch : TouchResult) : Prop :=
  touch = .openFailed ∨ (touch = .utimeFailed ∧ fs statfile ≠ .absent) ∨ now ≤ mtimeOf (fs statfile)

/-- An update that fails is followed by a touch that keeps the time. -/
def FailureKeepsTime (s : State) : Answer → Prop
  | .channel e => ∀ job r d, s.pc = .channels job r → (examine job s.files r e).1 = .due d →
      channelCode job e ≠ 0 → TouchKeepsTime s.files d.statfile e.touchedAt e.touch
  | .version e => ∀ job statfile, s.pc = .version job →
      aciStatFile (lit "/.version.") job.cfg.gwcall = .ok statfile →
      versionUpdateInterval job.cfg ≤ fileage s.files statfile e.now →
      sendVersion e.updater ≠ 0 → TouchKeepsTime s.files statfile e.touchedAt e.touch
  | _ => True

private theorem touchStatus_keeps_iff (fs : Files) (statfile : Str) (code now : Int)
    (touch : TouchResult) : (touchStatus fs statfile code now touch).2.after ≤
        (touchStatus fs statfile code now touch).2.before ↔
      TouchKeepsTime fs statfile now touch := by
  simp only [touchStatus, TouchKeepsTime]
  cases touch with
  | openFailed => simp [setstatfile]
  | done => simp [setstatfile_done, mtimeOf]
  | utimeFailed =>
      simp only [setstatfile, createFile]
      by_cases habsent : fs statfile = .absent
      · simp [habsent, mtimeOf]
      · simp [habsent]

@[simp] theorem attempts_append (xs ys : List Event) :
    attempts (xs ++ ys) = attempts xs ++ attempts ys := List.filterMap_append ..

private theorem stayDue_same {s t : State} {es : List Event}
    (hhistory : t.history = s.history ++ es)
    (hnone : attempts es = []) : FailuresStayDue t ↔ FailuresStayDue s := by
  simp [FailuresStayDue, hhistory, hnone]

private theorem stayDue_attempt {s t : State} {es : List Event} {statfile : Str} {code now : Int}
    {touch : TouchResult} (hhistory : t.history = s.history ++ es)
    (hone : attempts es = [(touchStatus s.files statfile code now touch).2]) :
    FailuresStayDue t ↔
      FailuresStayDue s ∧ (code ≠ 0 → TouchKeepsTime s.files statfile now touch) := by
  rw [← touchStatus_keeps_iff s.files statfile code now touch]
  simp only [FailuresStayDue, hhistory, attempts_append, hone, List.forall_mem_append,
    List.forall_mem_singleton]
  exact Iff.rfl

private theorem failureKeepsTime_channel {s : State} {job : Job} {r r' : Reader} {e : ChannelEnv}
    {v : Verdict} (at_ : s.pc = .channels job r) (saw : examine job s.files r e = (v, r')) :
    FailureKeepsTime s (.channel e) ↔ ∀ d, v = .due d → channelCode job e ≠ 0 →
      TouchKeepsTime s.files d.statfile e.touchedAt e.touch := by
  constructor
  · intro hkeep d hdue
    exact hkeep job r d at_ (by rw [saw]; exact hdue)
  · intro hkeep job₁ r₁ d h₁ hdue
    obtain ⟨rfl, rfl⟩ := Pc.channels.inj (at_.symm.trans h₁)
    rw [saw] at hdue
    exact hkeep d hdue

private theorem failureKeepsTime_version {s : State} {job : Job} {e : VersionEnv}
    (at_ : s.pc = .version job) :
    FailureKeepsTime s (.version e) ↔ ∀ statfile,
      aciStatFile (lit "/.version.") job.cfg.gwcall = .ok statfile →
      versionUpdateInterval job.cfg ≤ fileage s.files statfile e.now →
      sendVersion e.updater ≠ 0 → TouchKeepsTime s.files statfile e.touchedAt e.touch := by
  constructor
  · exact fun hkeep statfile => hkeep job statfile at_
  · intro hkeep job₁ statfile h₁
    obtain rfl := Pc.version.inj (at_.symm.trans h₁)
    exact hkeep statfile

private theorem stayDue_step {s t : State} {a : Answer} (h : Trans s a t) :
    FailuresStayDue t ↔ FailuresStayDue s ∧ FailureKeepsTime s a := by
  cases h with
  | outside at_ path st => exact (and_iff_left trivial).symm
  | start at_ cfg doc now =>
      refine (stayDue_same (startUp_history s cfg doc now) ?_).trans (and_iff_left trivial).symm
      simp only [startUp]
      split <;> rfl
  | killed at_ saw =>
      rw [failureKeepsTime_channel at_ saw]
      exact (stayDue_same (goto_history _ _ _) rfl).trans (and_iff_left (by simp)).symm
  | atEnd at_ saw =>
      rw [failureKeepsTime_channel at_ saw]
      exact (stayDue_same (goto_history _ _ _) rfl).trans (and_iff_left (by simp)).symm
  | skipped at_ saw skip =>
      rw [failureKeepsTime_channel at_ saw]
      refine (stayDue_same (goto_history _ _ _) rfl).trans (and_iff_left ?_).symm
      rintro d rfl
      rcases skip with ⟨i, hi⟩ | ⟨i, hi⟩ | ⟨d', hd'⟩
      · cases hi
      · cases hi
      · cases hd'
  | @sent job r r' e d at_ saw =>
      rw [failureKeepsTime_channel at_ saw]
      refine Iff.trans (stayDue_attempt (s := s) (goto_history _ _ _) rfl)
        (and_congr_right fun _ => ?_)
      constructor
      · intro hkeep d₁ hdue
        obtain rfl := Verdict.due.inj hdue
        exact hkeep
      · exact fun hkeep => hkeep d rfl
  | versionKilled at_ name =>
      rw [failureKeepsTime_version at_]
      refine (stayDue_same (goto_history _ _ _) rfl).trans (and_iff_left ?_).symm
      intro statfile hname
      rw [name] at hname
      cases hname
  | @reported job e statfile at_ name due =>
      rw [failureKeepsTime_version at_]
      refine Iff.trans (stayDue_attempt (s := s) (goto_history _ _ _) rfl)
        (and_congr_right fun _ => ?_)
      constructor
      · intro hkeep statfile₁ hname _
        rw [name] at hname
        obtain rfl := Except.ok.inj hname
        exact hkeep
      · exact fun hkeep => hkeep statfile name due
  | notReported at_ name notDue =>
      rw [failureKeepsTime_version at_]
      refine (stayDue_same (goto_history _ _ _) rfl).trans (and_iff_left ?_).symm
      intro statfile hname due
      rw [name] at hname
      obtain rfl := Except.ok.inj hname
      exact absurd due notDue

/-- Over any history of runs, no failed update has moved the time of its status
file forward, exactly when each failed update was followed by a touch that keeps
the time. -/
theorem failures_stay_due_iff (fs : Files) (answers : List Answer) (s : State)
    (h : run step (initial fs) answers = some s) :
    FailuresStayDue s ↔ Meets step FailureKeepsTime (initial fs) answers := by
  rw [run_iff_meets (Q := FailuresStayDue) (fun _ _ _ hstep => stayDue_step (step_trans hstep)) h]
  exact and_iff_right (fun u hu => by cases hu)

section Again

/-- No other program changes a status file, and no update attempt with it succeeds. -/
def Undisturbed (statfile : Str) (s : State) : Answer → Prop
  | .outside path _ => path ≠ statfile
  | .start _ _ _ => True
  | .channel e => ∀ job r d, s.pc = .channels job r → (examine job s.files r e).1 = .due d →
      d.statfile = statfile → channelCode job e ≠ 0
  | .version e => ∀ job, s.pc = .version job →
      aciStatFile (lit "/.version.") job.cfg.gwcall = .ok statfile → sendVersion e.updater ≠ 0

private theorem touchStatus_time {fs : Files} {statfile path : Str} (code : Int) {now : Int}
    {touch : TouchResult}
    (h : statfile = path → TouchKeepsTime fs statfile now touch) :
    mtimeOf ((touchStatus fs statfile code now touch).1 path) ≤ mtimeOf (fs path) := by
  by_cases hpath : statfile = path
  · have hkeep := (touchStatus_keeps_iff fs statfile code now touch).mpr (h hpath)
    rw [← hpath]
    exact hkeep
  · exact Int.le_of_eq (congrArg mtimeOf (setstatfile_other (Ne.symm hpath) now touch))

private theorem undisturbed_step {s t : State} {a : Answer} {path : Str} (h : Trans s a t)
    (keeps : FailureKeepsTime s a) (alone : Undisturbed path s a) :
    mtimeOf (t.files path) ≤ mtimeOf (s.files path) := by
  cases h with
  | outside at_ other st =>
      have hne : path ≠ other := fun h => alone h.symm
      have hsame : Function.update s.files other st path = s.files path :=
        Function.update_of_ne hne _ _
      exact Int.le_of_eq (congrArg mtimeOf hsame)
  | start at_ cfg doc now =>
      simp only [startUp]
      split <;> exact Int.le_refl _
  | killed at_ saw => exact Int.le_refl _
  | atEnd at_ saw => exact Int.le_refl _
  | skipped at_ saw skip => exact Int.le_refl _
  | @sent job r r' e d at_ saw =>
      have hdue : (examine job s.files r e).1 = .due d := by rw [saw]
      exact touchStatus_time (channelCode job e) fun hpath =>
        keeps job r d at_ hdue (alone job r d at_ hdue hpath)
  | versionKilled at_ name => exact Int.le_refl _
  | @reported job e statfile at_ name due =>
      exact touchStatus_time (sendVersion e.updater) fun hpath =>
        keeps job statfile at_ name due (alone job at_ (hpath ▸ name))
  | notReported at_ name notDue => exact Int.le_refl _

private theorem stays_old {s t : State} {answers : List Answer} {path : Str}
    (h : run step s answers = some t)
    (fails : Meets step (fun s a => FailureKeepsTime s a ∧ Undisturbed path s a) s answers) :
    mtimeOf (t.files path) ≤ mtimeOf (s.files path) :=
  fails.preserves (P := fun t => mtimeOf (t.files path) ≤ mtimeOf (s.files path))
    (fun _ _ _ hC hstep hs => Int.le_trans (undisturbed_step (step_trans hstep) hC.1 hC.2) hs) h
    (Int.le_refl _)

/-- So a channel that was due for its age is due whenever its turn comes again. -/
theorem due_again {s t : State} {answers : List Answer} {d d' : DueTest}
    (h : run step s answers = some t) (before : d.files = s.files) (after : d'.files = t.files)
    (fails : Meets step (fun s a => FailureKeepsTime s a ∧ Undisturbed d.statfile s a) s answers)
    (statfile : d'.statfile = d.statfile) (cfg : d'.job.cfg = d.job.cfg) (later : d.now ≤ d'.now)
    (old : channelUpdateInterval d.job.cfg ≤ d.statusAge) : d'.due = true := by
  have kept := stays_old h fails
  have hage : channelUpdateInterval d'.job.cfg ≤ d'.statusAge := by
    rw [cfg]
    simp only [DueTest.statusAge, fileage, statfile, before, after] at old ⊢
    omega
  simp [DueTest.due, hage]

end Again

private def channelElement : RootNode where
  isElement := true
  name := lit "channel"
  props := [(lit "name", lit "vhf"), (lit "active", lit "yes")]
  children := [⟨true, lit "statuschecker", lit "true"⟩]

private def runAt (now code : Int) : List Answer :=
  [.start ⟨lit "W1AW-10", some xmlChannelFile, none, none⟩
      (some ⟨lit "rmschannels", [channelElement]⟩) now,
    .channel ⟨0, now, .notReady (exited code), now, .done⟩,
    .channel ⟨0, now, .notReady (exited code), now, .done⟩,
    .version ⟨now, exited code, now, .done⟩]

private def noFiles : Files := fun _ => .absent

/-- A run in which the updates fail and no status file can be opened. -/
private def lockedAt (now : Int) : List Answer :=
  [.start ⟨lit "W1AW-10", some xmlChannelFile, none, none⟩
      (some ⟨lit "rmschannels", [channelElement]⟩) now,
    .channel ⟨0, now, .notReady (exited 1), now, .openFailed⟩,
    .channel ⟨0, now, .notReady (exited 1), now, .openFailed⟩,
    .version ⟨now, exited 1, now, .openFailed⟩]

/-- Two failed updates, whose touches leave the status files as they were. -/
theorem failures_stay_due_iff_locked :
    ∃ s, run step (initial noFiles) (lockedAt 1000000) = some s ∧
      attempts s.history = [⟨lit "/etc/rmsgw/stat/.channels.vhf", 0, 0, -1⟩,
        ⟨lit "/etc/rmsgw/stat/.version.W1AW-10", 0, 0, -1⟩] ∧
      (FailuresStayDue s ↔ Meets step FailureKeepsTime (initial noFiles) (lockedAt 1000000)) := by
  have hend : (run step (initial noFiles) (lockedAt 1000000)).map
      (fun s => attempts s.history) =
        some [⟨lit "/etc/rmsgw/stat/.channels.vhf", 0, 0, -1⟩,
          ⟨lit "/etc/rmsgw/stat/.version.W1AW-10", 0, 0, -1⟩] := by decide
  obtain ⟨s, hs, heq⟩ := Option.map_eq_some_iff.mp hend
  exact ⟨s, hs, heq, failures_stay_due_iff noFiles _ s hs⟩

/-- Both updates of the first run fail, and the run a minute later, though now
they would succeed, does not send anything. -/
theorem failures_not_retried :
    ∃ s, run step (initial noFiles) (runAt 1000000 1 ++ runAt 1000060 0) = some s ∧
      attempts s.history = [⟨lit "/etc/rmsgw/stat/.channels.vhf", 0, 1000000, -1⟩,
        ⟨lit "/etc/rmsgw/stat/.version.W1AW-10", 0, 1000000, -1⟩] ∧
      (s.history.filterMap decision).map Prod.snd = [true, false] ∧ ¬ FailuresStayDue s := by
  have hend : (run step (initial noFiles) (runAt 1000000 1 ++ runAt 1000060 0)).map
      (fun s => (attempts s.history, (s.history.filterMap decision).map Prod.snd)) =
        some ([⟨lit "/etc/rmsgw/stat/.channels.vhf", 0, 1000000, -1⟩,
          ⟨lit "/etc/rmsgw/stat/.version.W1AW-10", 0, 1000000, -1⟩], [true, false]) := by decide
  obtain ⟨s, hs, heq⟩ := Option.map_eq_some_iff.mp hend
  obtain ⟨hattempts, hsent⟩ := Prod.mk.inj heq
  refine ⟨s, hs, hattempts, hsent, ?_⟩
  intro hstay
  have hfirst := hstay ⟨lit "/etc/rmsgw/stat/.channels.vhf", 0, 1000000, -1⟩
    (by rw [hattempts]; exact List.mem_cons_self) (by decide)
  exact absurd hfirst (by decide)

end Rmsgw.Aci.Retry
