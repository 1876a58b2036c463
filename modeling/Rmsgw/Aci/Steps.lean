/- What one step of the check-in program can do, said once, and the order in
   which its loop takes the channels of the file. -/

import Rmsgw.Aci.Model
import Rmsgw.Channels.Traversal

set_option autoImplicit false
set_option relaxedAutoImplicit false

namespace Rmsgw.Aci.Steps

open Rmsgw.Lib.CStrings Rmsgw.Lib.Process Rmsgw.Rms Rmsgw.StatFile
open Rmsgw.Channels.Model Rmsgw.Channels.Traversal Rmsgw.Aci.Model

def channelCode (job : Job) (e : ChannelEnv) : Int :=
  sendChannel (updatechannel job.channels e.updater).2

def channelTouch (s : State) (job : Job) (e : ChannelEnv) (d : DueTest) : Files × Update :=
  touchStatus s.files d.statfile (channelCode job e) e.touchedAt e.touch

def versionTouch (s : State) (e : VersionEnv) (statfile : Str) : Files × Update :=
  touchStatus s.files statfile (sendVersion e.updater) e.touchedAt e.touch

/-- The transitions of the program, one constructor for each way through a step. -/
inductive Trans (s : State) : Answer → State → Prop
  | outside (at_ : s.pc = .off) (path : Str) (st : FileStat) :
      Trans s (.outside path st) { s with files := Function.update s.files path st }
  | start (at_ : s.pc = .off) (cfg : Config) (doc : Option XmlDoc) (now : Int) :
      Trans s (.start cfg doc now) (startUp s cfg doc now)
  | killed {job : Job} {r r' : Reader} {e : ChannelEnv} {f : Fault} (at_ : s.pc = .channels job r)
      (saw : examine job s.files r e = (.killed f, r')) :
      Trans s (.channel e) ((s.count (channelCode job e) (.killed f)).goto .off [.passed (.killed f)])
  | atEnd {job : Job} {r r' : Reader} {e : ChannelEnv} (at_ : s.pc = .channels job r)
      (saw : examine job s.files r e = (.atEnd, r')) :
      Trans s (.channel e) ((s.count (channelCode job e) .atEnd).goto (.version job)
        [.passed .atEnd, .channelStats s.stats.updated s.stats.errors, .aciState .aciDisconnected])
  | skipped {job : Job} {r r' : Reader} {e : ChannelEnv} {v : Verdict}
      (at_ : s.pc = .channels job r) (saw : examine job s.files r e = (v, r'))
      (skip : (∃ i, v = .inactive i) ∨ (∃ i, v = .down i) ∨ ∃ d, v = .notDue d) :
      Trans s (.channel e) ((s.count (channelCode job e) v).goto (.channels job r') [.passed v])
  | sent {job : Job} {r r' : Reader} {e : ChannelEnv} {d : DueTest} (at_ : s.pc = .channels job r)
      (saw : examine job s.files r e = (.due d, r')) :
      Trans s (.channel e)
        ({ s.count (channelCode job e) (.due d) with files := (channelTouch s job e d).1 }.goto
          (.channels job r') [.aciState .aciChannelUpdate, .aciState .aciRunning,
            .channelUpdate d e.updater (channelTouch s job e d).2])
  | versionKilled {job : Job} {e : VersionEnv} {f : Fault} (at_ : s.pc = .version job)
      (name : aciStatFile (lit "/.version.") job.cfg.gwcall = .error f) :
      Trans s (.version e) (s.goto .off [.passed (.killed f)])
  | reported {job : Job} {e : VersionEnv} {statfile : Str} (at_ : s.pc = .version job)
      (name : aciStatFile (lit "/.version.") job.cfg.gwcall = .ok statfile)
      (due : versionUpdateInterval job.cfg ≤ fileage s.files statfile e.now) :
      Trans s (.version e) ({ s with files := (versionTouch s e statfile).1 }.goto .off
        [.aciState .aciVersionUpdate, .aciState .aciRunning,
          .versionUpdate (versionTouch s e statfile).2, .aciState .aciIdle])
  | notReported {job : Job} {e : VersionEnv} {statfile : Str} (at_ : s.pc = .version job)
      (name : aciStatFile (lit "/.version.") job.cfg.gwcall = .ok statfile)
      (notDue : ¬ versionUpdateInterval job.cfg ≤ fileage s.files statfile e.now) :
      Trans s (.version e) (s.goto .off [.aciState .aciIdle])

private theorem channelRound_trans {s : State} {job : Job} {r : Reader}
    (at_ : s.pc = .channels job r)
    (e : ChannelEnv) : Trans s (.channel e) (channelRound job r e s) := by
  cases saw : examine job s.files r e with
  | mk v r' =>
      simp only [channelRound, saw]
      cases v with
      | atEnd => exact .atEnd at_ saw
      | killed f => exact .killed at_ saw
      | inactive i => exact .skipped at_ saw (.inl ⟨i, rfl⟩)
      | down i => exact .skipped at_ saw (.inr (.inl ⟨i, rfl⟩))
      | notDue d => exact .skipped at_ saw (.inr (.inr ⟨d, rfl⟩))
      | due d => exact .sent at_ saw

private theorem versionRound_trans {s : State} {job : Job} (at_ : s.pc = .version job)
    (e : VersionEnv) : Trans s (.version e) (versionRound job e s) := by
  cases name : aciStatFile (lit "/.version.") job.cfg.gwcall with
  | error f =>
      simp only [versionRound, name]
      exact .versionKilled at_ name
  | ok statfile =>
      simp only [versionRound, name]
      split
      · rename_i due
        exact .reported at_ name due
      · rename_i notDue
        exact .notReported at_ name notDue

theorem step_trans {s t : State} {a : Answer} (h : step s a = some t) : Trans s a t := by
  cases hpc : s.pc with
  | off =>
      cases a with
      | outside path st =>
          simp only [step, hpc] at h
          obtain rfl := Option.some.inj h
          rw [← hpc]
          exact .outside hpc path st
      | start cfg doc now =>
          simp only [step, hpc] at h
          exact Option.some.inj h ▸ .start hpc cfg doc now
      | channel e => simp [step, hpc] at h
      | version e => simp [step, hpc] at h
  | channels job r =>
      cases a with
      | channel e =>
          simp only [step, hpc] at h
          exact Option.some.inj h ▸ channelRound_trans hpc e
      | _ => simp [step, hpc] at h
  | version job =>
      cases a with
      | version e =>
          simp only [step, hpc] at h
          exact Option.some.inj h ▸ versionRound_trans hpc e
      | _ => simp [step, hpc] at h

section Cursor

/-- Behind `k` entries the reader has the channels from `k` on still to come. -/
def Cursor (r : Reader) (k : Nat) : Prop :=
  (r.doc = none ∧ r.curNode = [] ∧ k = 0) ∨
    ∃ d node rest, r.doc = some d ∧ r.curNode = node :: rest ∧
      rest.filter isChannel = (channelNodes r.doc).drop k

theorem cursor_start (doc : Option XmlDoc) : Cursor (Reader.start doc) 0 := .inl ⟨rfl, rfl, rfl⟩

private theorem getchanent_cursor {r r' : Reader} {k : Nat} {chnl : Channel} (hc : Cursor r k)
    (h : getchanent r = .ok (some chnl, r')) : entryIndex r' = k ∧ Cursor r' (k + 1) := by
  simp only [getchanent] at h
  cases hopen : openDoc r with
  | none => simp [hopen] at h
  | some p =>
      obtain ⟨d, r₁⟩ := p
      obtain ⟨hdoc, hcur⟩ := openDoc_keeps hopen
      simp only [hopen, nextent, openDoc_again hopen] at h
      have hpending : (seekChannel d.children r₁.curNode).filter isChannel =
          (channelNodes (some d)).drop k := by
        rw [seekChannel_filter, hcur]
        rcases hc with ⟨-, hnil, rfl⟩ | ⟨d', node, rest, hd', hnode, hrest⟩
        · rw [hnil]
          rfl
        · have hsame : d' = d := by
            have hopen' := hopen
            simp only [openDoc, hd'] at hopen'
            exact (Prod.mk.inj (Option.some.inj hopen')).1
          rw [hnode, ← hsame, ← hd']
          exact hrest
      cases hseek : seekChannel d.children r₁.curNode with
      | nil => simp [hseek, Except.map] at h
      | cons node rest =>
          have hnode := seekChannel_head hseek
          rw [hseek, List.filter_cons_of_pos hnode] at hpending
          have hlt : k < (channelNodes (some d)).length := by
            have hlen := congrArg List.length hpending
            simp only [List.length_cons, List.length_drop] at hlen
            omega
          rw [List.drop_eq_getElem_cons hlt] at hpending
          obtain ⟨-, hrest⟩ := List.cons.inj hpending
          simp only [hseek] at h
          cases hread : readEntry r₁.curent node with
          | error f => simp [hread, Except.map] at h
          | ok c =>
              simp only [hread, Except.map, if_true, Except.ok.injEq, Prod.mk.injEq] at h
              obtain ⟨-, rfl⟩ := h
              refine ⟨?_, .inr ⟨d, node, rest, hdoc, rfl, by rw [hrest, hdoc]⟩⟩
              simp only [entryIndex, hdoc, List.filter_cons_of_pos hnode, hrest, List.length_cons,
                List.length_drop]
              omega

def place : Verdict → Option Nat
  | .atEnd => none
  | .killed _ => none
  | .inactive i => some i
  | .down i => some i
  | .notDue d => some d.channel
  | .due d => some d.channel

theorem examine_place {job : Job} {fs : Files} {r r' : Reader} {e : ChannelEnv} {v : Verdict}
    {k i : Nat} (hc : Cursor r k) (h : examine job fs r e = (v, r')) (hi : place v = some i) :
    i = k ∧ Cursor r' (k + 1) := by
  simp only [examine] at h
  cases hget : getchanent r with
  | error f =>
      simp only [hget, Prod.mk.injEq] at h
      obtain ⟨rfl, -⟩ := h
      cases hi
  | ok found =>
      obtain ⟨_ | chnl, r₁⟩ := found
      · simp only [hget, Prod.mk.injEq] at h
        obtain ⟨rfl, -⟩ := h
        cases hi
      obtain ⟨hindex, hcursor⟩ := getchanent_cursor hc hget
      have hnext : ∀ c, Cursor { r₁ with curent := c } (k + 1) := fun c => hcursor
      simp only [hget] at h
      split at h
      · obtain ⟨rfl, -⟩ := Prod.mk.inj h
        cases hi
      · obtain ⟨rfl, rfl⟩ := Prod.mk.inj h
        exact ⟨(Option.some.inj hi).symm.trans hindex, hcursor⟩
      split at h
      · split at h
        · obtain ⟨rfl, -⟩ := Prod.mk.inj h
          cases hi
        · obtain ⟨hv, rfl⟩ := Prod.mk.inj h
          refine ⟨?_, hnext _⟩
          rw [← hv] at hi
          split at hi
          all_goals exact (Option.some.inj hi).symm.trans hindex
      · obtain ⟨rfl, rfl⟩ := Prod.mk.inj h
        exact ⟨(Option.some.inj hi).symm.trans hindex, hnext _⟩

end Cursor

section Decisions

/-- A due test with its outcome: whether the channel was sent. -/
def decision : Event → Option (DueTest × Bool)
  | .passed (.notDue d) => some (d, false)
  | .channelUpdate d _ _ => some (d, true)
  | _ => none

private theorem examine_test {job : Job} {fs : Files} {r r' : Reader} {e : ChannelEnv} {v : Verdict}
    {d : DueTest} (h : examine job fs r e = (v, r')) (hv : v = .due d ∨ v = .notDue d) :
    d.job = job ∧ d.files = fs ∧ d.now = e.now ∧ (v = .due d ↔ d.due = true) := by
  simp only [examine] at h
  split at h
  · obtain ⟨rfl, -⟩ := Prod.mk.inj h
    simp at hv
  · obtain ⟨rfl, -⟩ := Prod.mk.inj h
    simp at hv
  split at h
  · obtain ⟨rfl, -⟩ := Prod.mk.inj h
    simp at hv
  · obtain ⟨rfl, -⟩ := Prod.mk.inj h
    simp at hv
  split at h
  · split at h
    · obtain ⟨rfl, -⟩ := Prod.mk.inj h
      simp at hv
    · obtain ⟨rfl, -⟩ := Prod.mk.inj h
      split at hv
      · rename_i hdue
        obtain rfl : _ = d := by simpa using hv
        simp [hdue]
      · rename_i hdue
        obtain rfl : _ = d := by simpa using hv
        simp [hdue]
  · obtain ⟨rfl, -⟩ := Prod.mk.inj h
    simp at hv

@[simp] theorem goto_history (s : State) (pc : Pc) (es : List Event) :
    (s.goto pc es).history = s.history ++ es := (List.append_assoc _ _ _).symm

theorem startUp_history (s : State) (cfg : Config) (doc : Option XmlDoc) (now : Int) :
    (startUp s cfg doc now).history = s.history ++ (startUp s cfg doc now).log := by
  simp only [startUp]
  split <;> rfl

theorem Trans.history {s t : State} {a : Answer} (h : Trans s a t) :
    ∃ es, t.history = s.history ++ es ∧ ∀ p ∈ es.filterMap decision, p.2 = p.1.due := by
  cases h with
  | outside at_ path st => exact ⟨[], (List.append_nil _).symm, by simp⟩
  | start at_ cfg doc now =>
      refine ⟨_, startUp_history s cfg doc now, ?_⟩
      simp only [startUp]
      split <;> simp [State.goto, decision]
  | killed at_ saw => exact ⟨_, goto_history _ _ _, by simp [decision]⟩
  | atEnd at_ saw => exact ⟨_, goto_history _ _ _, by simp [decision]⟩
  | skipped at_ saw skip =>
      refine ⟨_, goto_history _ _ _, ?_⟩
      rcases skip with ⟨i, rfl⟩ | ⟨i, rfl⟩ | ⟨d, rfl⟩
      · simp [decision]
      · simp [decision]
      · have hdue := (examine_test saw (.inr rfl)).2.2.2
        simpa [decision] using hdue
  | sent at_ saw =>
      refine ⟨_, goto_history _ _ _, ?_⟩
      have hdue := (examine_test saw (.inl rfl)).2.2.2
      simpa [decision] using hdue
  | versionKilled at_ name => exact ⟨_, goto_history _ _ _, by simp [decision]⟩
  | reported at_ name due => exact ⟨_, goto_history _ _ _, by simp [decision]⟩
  | notReported at_ name notDue => exact ⟨_, goto_history _ _ _, by simp [decision]⟩

/-- In any history exactly the channels that are due are sent. -/
theorem decisions_due {fs : Files} {answers : List Answer} {s : State}
    (h : run step (initial fs) answers = some s) :
    ∀ p ∈ s.history.filterMap decision, p.2 = p.1.due := by
  refine run_preserves (P := fun s => ∀ p ∈ s.history.filterMap decision, p.2 = p.1.due) ?_ h
    (by simp [initial, State.history])
  intro s a t hstep hs
  obtain ⟨es, hes, hdue⟩ := (step_trans hstep).history
  rw [hes, List.filterMap_append]
  exact List.forall_mem_append.mpr ⟨hs, hdue⟩

end Decisions

end Rmsgw.Aci.Steps
