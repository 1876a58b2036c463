/- What the check-in program makes of the ways in which a status checker or an
   updater script can end. -/

import Rmsgw.Aci.Retry

set_option autoImplicit false
set_option relaxedAutoImplicit false

namespace Rmsgw.Aci.Exits

open Rmsgw.Lib.CStrings Rmsgw.Lib.Process Rmsgw.Rms Rmsgw.StatFile
open Rmsgw.Channels.Model Rmsgw.Aci.Model Rmsgw.Aci.Steps Rmsgw.Aci.Retry

/-- How a command that system() runs comes to its end. -/
inductive Ending
  | exit (code : UInt8)
  | signal (sig : Nat) (valid : 0 < sig ∧ sig < 127) (core : Bool)
  | notStarted

/-- The result of system(). -/
def Ending.status : Ending → Int
  | exit code => exited code.toNat
  | signal sig _ core => sig + if core then 128 else 0
  | notStarted => -1

/-- The command exited normally with code 0. -/
def Clean (rc : Int) : Prop := rc = (Ending.exit 0).status

def DiedOfSignal (rc : Int) : Prop := ∃ sig valid core, rc = (Ending.signal sig valid core).status

/-- The next channel is there and marked active, so its status checker is run. -/
def activeNext (r : Reader) : Bool :=
  match getchanent r with
  | .ok (some chnl, _) =>
      match markedActive chnl with
      | .ok active => active
      | .error _ => false
  | _ => false

/-- The result of the status checker that a step runs. -/
def checkerRun (s : State) : Answer → Option Int
  | .channel e =>
      match s.pc with
      | .channels _ r => if activeNext r then some e.checker else none
      | _ => none
  | _ => none

/-- The result of the updater script that a step runs. -/
def updaterRun (s : State) : Answer → Option Int
  | .channel e =>
      match s.pc with
      | .channels job r =>
          match (examine job s.files r e).1 with
          | .due _ => some (updatechannel job.channels e.updater).2
          | _ => none
      | _ => none
  | .version e =>
      match s.pc with
      | .version job =>
          match aciStatFile (lit "/.version.") job.cfg.gwcall with
          | .ok statfile =>
              if versionUpdateInterval job.cfg ≤ fileage s.files statfile e.now then some e.updater
              else none
          | .error _ => none
      | _ => none
  | _ => none

/-- An active channel that a step does not pass over as down has a checker that exited
normally with code 0, and so has the script behind an update that is taken for sent. -/
structure OnlyCleanExits (s : State) (a : Answer) : Prop where
  available : ∀ rc ∈ checkerRun s a, ∀ t es, step s a = some t → t.history = s.history ++ es →
    (∀ i, Event.passed (.down i) ∉ es) → Clean rc
  sent : ∀ rc ∈ updaterRun s a, ∀ t es, step s a = some t → t.history = s.history ++ es →
    (∃ u ∈ attempts es, u.code = 0) → Clean rc

/-- The results that a step gets are results of system(). -/
structure FromSystem (s : State) (a : Answer) : Prop where
  checker : ∀ rc ∈ checkerRun s a, ∃ e : Ending, rc = e.status
  updater : ∀ rc ∈ updaterRun s a, ∃ e : Ending, rc = e.status

/-- Neither a checker nor an updater script that a step runs dies of a signal. -/
structure NoSignal (s : State) (a : Answer) : Prop where
  checker : ∀ rc ∈ checkerRun s a, ¬ DiedOfSignal rc
  updater : ∀ rc ∈ updaterRun s a, ¬ DiedOfSignal rc

private theorem wexitstatus_status (e : Ending) :
    wexitstatus e.status = 0 ↔ Clean e.status ∨ DiedOfSignal e.status := by
  cases e with
  | exit code =>
      have hlt := code.toNat_lt
      have hzero : (0 : UInt8).toNat = 0 := rfl
      simp only [wexitstatus, Ending.status, exited, Clean, DiedOfSignal, hzero]
      constructor
      · intro h
        left
        omega
      · rintro (h | ⟨sig, valid, core, h⟩)
        · omega
        · split at h <;> omega
  | signal sig valid core =>
      refine iff_of_true ?_ (.inr ⟨sig, valid, core, rfl⟩)
      simp only [wexitstatus, Ending.status]
      split <;> omega
  | notStarted =>
      have hzero : (0 : UInt8).toNat = 0 := rfl
      simp only [wexitstatus, Ending.status, exited, Clean, DiedOfSignal, hzero]
      refine iff_of_false (by omega) ?_
      rintro (h | ⟨sig, valid, core, h⟩)
      · omega
      · split at h <;> omega

private theorem not_diedOfSignal {rc : Int} (h : Clean rc) : ¬ DiedOfSignal rc := by
  rintro ⟨sig, valid, core, rfl⟩
  have hzero : (0 : UInt8).toNat = 0 := rfl
  simp only [Clean, Ending.status, exited, hzero] at h
  split at h <;> omega

private theorem clean_of_zero_iff (e : Ending) :
    (wexitstatus e.status = 0 → Clean e.status) ↔ ¬ DiedOfSignal e.status := by
  rw [wexitstatus_status]
  constructor
  · exact fun h hdied => not_diedOfSignal (h (.inr hdied)) hdied
  · exact fun h hzero => hzero.resolve_right h

private theorem channelAvailable_iff (rc : Int) : channelAvailable rc = true ↔ wexitstatus rc = 0 :=
  beq_iff_eq

private theorem sendUpdate_iff (rc : Int) : sendUpdate rc = 0 ↔ wexitstatus rc = 0 := by
  by_cases h : wexitstatus rc = 0 <;> simp [sendUpdate, runPythonScript, h]

private theorem examine_down_iff {job : Job} {fs : Files} {r r' : Reader} {e : ChannelEnv}
    {v : Verdict} (active : activeNext r = true) (saw : examine job fs r e = (v, r')) :
    (∃ i, .down i = v) ↔ channelAvailable e.checker = false := by
  simp only [activeNext] at active
  cases hget : getchanent r with
  | error f => simp [hget] at active
  | ok found =>
      obtain ⟨_ | chnl, r₁⟩ := found
      · simp [hget] at active
      simp only [hget] at active
      cases hmark : markedActive chnl with
      | error f => simp [hmark] at active
      | ok marked =>
          obtain rfl : marked = true := by simpa [hmark] using active
          simp only [examine, hget, hmark] at saw
          cases havail : channelAvailable e.checker with
          | false =>
              simp only [havail, Bool.false_eq_true, if_false] at saw
              obtain ⟨rfl, -⟩ := Prod.mk.inj saw
              simp
          | true =>
              simp only [havail, if_true] at saw
              split at saw
              · obtain ⟨rfl, -⟩ := Prod.mk.inj saw
                simp
              · obtain ⟨rfl, -⟩ := Prod.mk.inj saw
                split <;> simp

private theorem checkerRun_eq_some {s : State} {a : Answer} {rc : Int} (h : rc ∈ checkerRun s a) :
    ∃ job r e, s.pc = .channels job r ∧ a = .channel e ∧ activeNext r = true ∧ e.checker = rc := by
  cases a with
  | channel e =>
      simp only [checkerRun] at h
      split at h
      · rename_i job r hpc
        obtain ⟨hactive, hrc⟩ : activeNext r = true ∧ e.checker = rc := by simpa using h
        exact ⟨job, r, e, hpc, rfl, hactive, hrc⟩
      · cases h
  | _ => cases h

private theorem goto_logs {s s' : State} {pc : Pc} {es es' : List Event}
    (same : s'.history = s.history)
    (h : (s'.goto pc es').history = s.history ++ es) : es' = es := by
  rw [goto_history, same] at h
  exact List.append_cancel_left h

private theorem checkerRun_logs {s t : State} {a : Answer} {rc : Int} {es : List Event}
    (hrc : rc ∈ checkerRun s a) (hstep : step s a = some t) (hes : t.history = s.history ++ es) :
    (∀ i, Event.passed (.down i) ∉ es) ↔ channelAvailable rc = true := by
  obtain ⟨job, r, e, hpc, rfl, hactive, rfl⟩ := checkerRun_eq_some hrc
  have hdown : ∀ {r' : Reader} {v : Verdict}, examine job s.files r e = (v, r') →
      ((∀ i, ¬ .down i = v) ↔ channelAvailable e.checker = true) := fun saw => by
    rw [← Bool.not_eq_false, ← examine_down_iff hactive saw, not_exists]
  cases step_trans hstep with
  | killed at_ saw =>
      obtain ⟨rfl, rfl⟩ := Pc.channels.inj (hpc.symm.trans at_)
      obtain rfl := goto_logs rfl hes
      simpa using hdown saw
  | atEnd at_ saw =>
      obtain ⟨rfl, rfl⟩ := Pc.channels.inj (hpc.symm.trans at_)
      obtain rfl := goto_logs rfl hes
      simpa using hdown saw
  | skipped at_ saw skip =>
      obtain ⟨rfl, rfl⟩ := Pc.channels.inj (hpc.symm.trans at_)
      obtain rfl := goto_logs rfl hes
      simpa using hdown saw
  | sent at_ saw =>
      obtain ⟨rfl, rfl⟩ := Pc.channels.inj (hpc.symm.trans at_)
      obtain rfl := goto_logs rfl hes
      simpa using hdown saw

private theorem updaterRun_logs {s t : State} {a : Answer} {rc : Int} {es : List Event}
    (hrc : rc ∈ updaterRun s a) (hstep : step s a = some t) (hes : t.history = s.history ++ es) :
    (∃ u ∈ attempts es, u.code = 0) ↔ sendUpdate rc = 0 := by
  cases step_trans hstep with
  | outside at_ path st => cases hrc
  | start at_ cfg doc now => cases hrc
  | killed at_ saw => simp [updaterRun, at_, saw] at hrc
  | atEnd at_ saw => simp [updaterRun, at_, saw] at hrc
  | skipped at_ saw skip =>
      rcases skip with ⟨i, rfl⟩ | ⟨i, rfl⟩ | ⟨d, rfl⟩ <;> simp [updaterRun, at_, saw] at hrc
  | versionKilled at_ name => simp [updaterRun, at_, name] at hrc
  | notReported at_ name notDue => simp [updaterRun, at_, name, notDue] at hrc
  | @sent job r r' e d at_ saw =>
      obtain rfl : (updatechannel job.channels e.updater).2 = rc := by
        simpa [updaterRun, at_, saw] using hrc
      obtain rfl := goto_logs rfl hes
      simp [attempts, attempt, channelTouch, touchStatus, channelCode, sendChannel]
  | @reported job e statfile at_ name due =>
      obtain rfl : e.updater = rc := by simpa [updaterRun, at_, name, due] using hrc
      obtain rfl := goto_logs rfl hes
      simp [attempts, attempt, versionTouch, touchStatus, sendVersion]

private theorem step_of_checkerRun {s : State} {a : Answer} {rc : Int} (h : rc ∈ checkerRun s a) :
    ∃ t es, step s a = some t ∧ t.history = s.history ++ es := by
  obtain ⟨job, r, e, hpc, rfl, -⟩ := checkerRun_eq_some h
  have hstep : step s (.channel e) = some (channelRound job r e s) := by simp only [step, hpc]
  obtain ⟨es, hes, -⟩ := (step_trans hstep).history
  exact ⟨_, es, hstep, hes⟩

private theorem step_of_updaterRun {s : State} {a : Answer} {rc : Int} (h : rc ∈ updaterRun s a) :
    ∃ t es, step s a = some t ∧ t.history = s.history ++ es := by
  obtain ⟨t, hstep⟩ : ∃ t, step s a = some t := by
    cases a with
    | outside path st => cases h
    | start cfg doc now => cases h
    | channel e =>
        cases hpc : s.pc with
        | channels job r => exact ⟨channelRound job r e s, by simp only [step, hpc]⟩
        | off => simp [updaterRun, hpc] at h
        | version job => simp [updaterRun, hpc] at h
    | version e =>
        cases hpc : s.pc with
        | version job => exact ⟨versionRound job e s, by simp only [step, hpc]⟩
        | off => simp [updaterRun, hpc] at h
        | channels job r => simp [updaterRun, hpc] at h
  obtain ⟨es, hes, -⟩ := (step_trans hstep).history
  exact ⟨t, es, hstep, hes⟩

private theorem onlyCleanExits_step {s : State} {a : Answer} (h : FromSystem s a) :
    OnlyCleanExits s a ↔ NoSignal s a := by
  constructor
  · intro hclean
    refine ⟨fun rc hrc => ?_, fun rc hrc => ?_⟩
    · obtain ⟨e, rfl⟩ := h.checker rc hrc
      obtain ⟨t, es, hstep, hes⟩ := step_of_checkerRun hrc
      refine (clean_of_zero_iff e).mp fun hzero => hclean.available _ hrc t es hstep hes ?_
      exact (checkerRun_logs hrc hstep hes).mpr ((channelAvailable_iff _).mpr hzero)
    · obtain ⟨e, rfl⟩ := h.updater rc hrc
      obtain ⟨t, es, hstep, hes⟩ := step_of_updaterRun hrc
      refine (clean_of_zero_iff e).mp fun hzero => hclean.sent _ hrc t es hstep hes ?_
      exact (updaterRun_logs hrc hstep hes).mpr ((sendUpdate_iff _).mpr hzero)
  · intro hsignal
    refine ⟨fun rc hrc t es hstep hes hlog => ?_, fun rc hrc t es hstep hes hlog => ?_⟩
    · obtain ⟨e, rfl⟩ := h.checker rc hrc
      refine (clean_of_zero_iff e).mpr (hsignal.checker _ hrc) ?_
      exact (channelAvailable_iff _).mp ((checkerRun_logs hrc hstep hes).mp hlog)
    · obtain ⟨e, rfl⟩ := h.updater rc hrc
      refine (clean_of_zero_iff e).mpr (hsignal.updater _ hrc) ?_
      exact (sendUpdate_iff _).mp ((updaterRun_logs hrc hstep hes).mp hlog)

/-- In any runs only clean exits count as success exactly if no checker of an active
channel and no updater script dies of a signal: the exit code of such a death reads 0. -/
theorem only_clean_exits_iff (fs : Files) (answers : List Answer)
    (real : Meets step FromSystem (initial fs) answers) :
    Meets step OnlyCleanExits (initial fs) answers ↔ Meets step NoSignal (initial fs) answers :=
  real.congr fun _ _ h => onlyCleanExits_step h

private def channelElement : RootNode where
  isElement := true
  name := lit "channel"
  props := [(lit "name", lit "vhf"), (lit "active", lit "yes")]
  children := [⟨true, lit "statuschecker", lit "true"⟩]

private def noFiles : Files := fun _ => .absent

private def started : State :=
  startUp (initial noFiles) ⟨lit "W1AW-10", some xmlChannelFile, none, none⟩
    (some ⟨lit "rmschannels", [channelElement]⟩) 1000000

private def start : Answer :=
  .start ⟨lit "W1AW-10", some xmlChannelFile, none, none⟩
    (some ⟨lit "rmschannels", [channelElement]⟩) 1000000

private def handled (checker updater : Ending) : Answer :=
  .channel ⟨checker.status, 1000000, .notReady updater.status, 1000000, .done⟩

private theorem fromSystem_run (checker updater : Ending) :
    Meets step FromSystem (initial noFiles) [start, handled checker updater] := by
  have hstart : FromSystem (initial noFiles) start :=
    ⟨fun rc hrc => absurd hrc (Option.not_mem_none rc),
      fun rc hrc => absurd hrc (Option.not_mem_none rc)⟩
  refine ⟨hstart, fun t _ => ⟨?_, fun _ _ => trivial⟩⟩
  constructor
  · intro rc hrc
    obtain ⟨job, r, e, -, ha, -, rfl⟩ := checkerRun_eq_some hrc
    cases ha
    exact ⟨checker, rfl⟩
  · intro rc hrc
    refine ⟨updater, ?_⟩
    simp only [handled, updaterRun] at hrc
    split at hrc
    · split at hrc
      · exact (Option.some.inj hrc).symm
      · cases hrc
    · cases hrc

theorem only_clean_exits_iff_exited :
    Meets step OnlyCleanExits (initial noFiles) [start, handled (.exit 0) (.exit 1)] ↔
      Meets step NoSignal (initial noFiles) [start, handled (.exit 0) (.exit 1)] :=
  only_clean_exits_iff noFiles _ (fromSystem_run (.exit 0) (.exit 1))

private def killed : Ending := .signal 9 (by decide) false

/-- A checker is killed by signal 9, and its channel is taken for available. -/
theorem killed_checker_available :
    Meets step FromSystem (initial noFiles) [start, handled killed (.exit 0)] ∧
      ¬ Meets step OnlyCleanExits (initial noFiles) [start, handled killed (.exit 0)] := by
  refine ⟨fromSystem_run killed (.exit 0), fun h => ?_⟩
  have hclean : OnlyCleanExits started (handled killed (.exit 0)) := (h.2 started rfl).1
  have hkilled : killed.status ∈ checkerRun started (handled killed (.exit 0)) := by decide
  obtain ⟨t, es, hstep, hes⟩ := step_of_checkerRun hkilled
  have havail : channelAvailable killed.status = true := by decide
  have hzero := hclean.available _ hkilled t es hstep hes
    ((checkerRun_logs hkilled hstep hes).mpr havail)
  exact absurd (show killed.status = (Ending.exit 0).status from hzero) (by decide)

end Rmsgw.Aci.Exits
