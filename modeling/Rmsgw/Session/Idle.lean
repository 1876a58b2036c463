/- When the gateway program leaves itself shown as idle in the status block. -/

import Rmsgw.Session.Program
import Rmsgw.Session.Turns
import Rmsgw.Statblock.Shown

set_option autoImplicit false
set_option relaxedAutoImplicit false

namespace Rmsgw.Session.Idle

open Rmsgw.Lib.CStrings Rmsgw.Lib.SlotTable Rmsgw.Lib.SlotStability Rmsgw.Rms Rmsgw.StatFile
open Rmsgw.Hosts.Model Rmsgw.Statblock.Model Rmsgw.Statblock.Refinement Rmsgw.Statblock.Invariant
open Rmsgw.Session.Model Rmsgw.Session.Program Rmsgw.Session.Turns
open Rmsgw.Session.OneCms (cmsSession_talked)
open Rmsgw.Gateway.Exit (logFits_run)
open Rmsgw.Statblock.Shown (shown_of_room shown_foldl)
open Rmsgw.Channels.Model (Reader XmlDoc)

/-- The state shown for a callsign: that in the record which a search for it ends at. -/
def shownState (p : RmsStatus) (gwcall : CString) : Option GwState :=
  (lookup gwLayout gwcall p.rmsgw).bind (fun i => (p.rmsgw[i]?).map RmsgwStat.gwState)

/-- The state that a call records. -/
def recorded : SbOp → Option GwState
  | .gwState s _ => some s
  | _ => none

/-- The call updates the record of a callsign. -/
def On (gwcall : CString) (o : SbOp) : Prop := ∃ q, gwOp o = some q ∧ q.key = gwcall

section Block

variable {p : RmsStatus} {gwcall : CString}

private theorem update_state {o : SbOp} {q : Op CString RmsgwStat} (h : gwOp o = some q)
    (r : RmsgwStat) : (q.update r).gwState = (recorded o).getD r.gwState := by
  cases o <;> cases h
  case gwUsercall usercall => cases usercall <;> rfl
  case gwCms cmsHost => cases cmsHost <;> rfl
  all_goals rfl

private theorem foldl_recorded (os : List SbOp) (s : GwState) :
    os.foldl (fun s o => (recorded o).getD s) s = ((os.filterMap recorded).getLast?).getD s := by
  induction os using List.reverseRecOn with
  | nil => rfl
  | append_singleton os o ih =>
      rw [List.foldl_append, List.foldl_cons, List.foldl_nil, ih, List.filterMap_append]
      cases hrec : recorded o with
      | none => simp [hrec]
      | some s => simp [hrec]

private theorem shown_run {os : List SbOp} (on : ∀ o ∈ os, On gwcall o)
    (room : (lookup gwLayout gwcall p.rmsgw).isSome) :
    shownState (os.foldl SbOp.apply p) gwcall =
      ((os.filterMap recorded).getLast?).or (shownState p gwcall) := by
  obtain ⟨s, hs⟩ := @shown_of_room _ RmsgwStat.gwState p gwcall room
  have hrun : shownState (os.foldl SbOp.apply p) gwcall =
      (shownState p gwcall).map (fun s => os.foldl (fun s o => (recorded o).getD s) s) := by
    refine shown_foldl (fun _ _ => rfl) (fun o ho => ?_) room
    obtain ⟨q, hq, hkey⟩ := on o ho
    exact ⟨q, hq, hkey, update_state hq⟩
  change shownState p gwcall = some s at hs
  rw [hrun, hs, Option.map_some, foldl_recorded]
  cases (os.filterMap recorded).getLast? <;> rfl

end Block

/-- A call on the record of the callsign that does not set GW_IDLE, or no call. -/
def Busy (gwcall : CString) : Effect → Prop
  | .status o => On gwcall o ∧ recorded o ≠ some .gwIdle
  | _ => True

variable {e : Gateway.Model.Env}

section Busy

variable {gwcall : CString}

private theorem busy_state {s : GwState} (h : s ≠ .gwIdle) :
    Busy gwcall (.status (.gwState s gwcall)) :=
  ⟨⟨_, rfl, rfl⟩, by simpa [recorded] using h⟩

private theorem connectEffects_busy (k : Nat) (c : ConnectResult) :
    ∀ x ∈ connectEffects k c, Busy gwcall x := by
  intro x hx
  cases x with
  | status o => exact absurd hx (by cases c <;> simp [connectEffects])
  | socket _ => trivial
  | close _ => trivial

private theorem hangUp_busy (k : Nat) (rc : Ust) : ∀ x ∈ hangUp gwcall k rc, Busy gwcall x := by
  intro x hx
  rcases List.mem_append.mp hx with hx | hx
  · split at hx
    · simp only [List.mem_cons, List.not_mem_nil, or_false] at hx
      rcases hx with rfl | rfl <;> exact ⟨⟨_, rfl, rfl⟩, by simp [recorded]⟩
    · cases hx
  · simp only [List.mem_cons, List.not_mem_nil, or_false] at hx
    rcases hx with rfl | rfl | rfl
    · exact busy_state (by decide)
    · trivial
    · exact busy_state (by decide)

private theorem events_busy (k : Nat) {log : List Gateway.Model.Event}
    (hidle : Gateway.Model.Event.gwState .gwIdle ∉ log) :
    ∀ x ∈ log.flatMap (eventEffects gwcall k), Busy gwcall x := by
  intro x hx
  obtain ⟨ev, hev, hx⟩ := List.mem_flatMap.mp hx
  cases ev
  case gwState st =>
    obtain rfl := List.mem_singleton.mp hx
    exact busy_state fun h => hidle (h ▸ hev)
  case closeSock =>
    obtain rfl := List.mem_singleton.mp hx
    trivial
  all_goals cases hx

private theorem sessionEffects_busy (k : Nat) (setup : Setup) (r : Reader) (a : Attempt e) :
    ∀ x ∈ sessionEffects gwcall k a.connect (cmsSession setup r a).1, Busy gwcall x := by
  intro x hx
  cases hout : (cmsSession setup r a).1 with
  | refused => rw [hout] at hx; cases hx
  | killed f => rw [hout] at hx; cases hx
  | exited =>
      rw [hout] at hx
      rcases List.mem_cons.mp hx with rfl | hx
      · exact busy_state (by decide)
      · exact connectEffects_busy k _ x hx
  | notConnected =>
      rw [hout] at hx
      rcases List.mem_cons.mp hx with rfl | hx
      · exact busy_state (by decide)
      · exact connectEffects_busy k _ x hx
  | talked g =>
      have hruns := a.conversation.runs
      rw [cmsSession_talked hout] at hruns
      rw [hout] at hx
      simp only [sessionEffects, List.cons_append, List.mem_cons, List.mem_append] at hx
      rcases hx with rfl | (hx | rfl | hx) | hx
      · exact busy_state (by decide)
      · exact connectEffects_busy k _ x hx
      · exact busy_state (by decide)
      · exact events_busy k (logFits_run hruns).idle x hx
      · split at hx
        · exact hangUp_busy k _ x hx
        · cases hx

private theorem loopEffects_busy (setup : Setup) (attempt : Nat → Attempt e) (k : Nat) (fs : Files)
    (r : Reader) (cmslist : List CmsNode) :
    ∀ x ∈ loopEffects gwcall attempt k (hostLoop setup attempt k fs r cmslist).tried,
      Busy gwcall x := by
  induction cmslist generalizing k fs r with
  | nil => intro x hx; cases hx
  | cons cmsp rest ih =>
      have hhead : ∀ more : List Effect, (∀ x ∈ more, Busy gwcall x) →
          ∀ x ∈ Effect.status (.gwCms gwcall (some (cstring cmsp.host))) ::
            sessionEffects gwcall k (attempt k).connect (cmsSession setup r (attempt k)).1 ++ more,
            Busy gwcall x := by
        intro more hmore x hx
        rw [List.cons_append, List.mem_cons, List.mem_append] at hx
        rcases hx with rfl | hx | hx
        · exact ⟨⟨_, rfl, rfl⟩, by simp [recorded]⟩
        · exact sessionEffects_busy k setup r _ x hx
        · exact hmore x hx
      rcases hostLoop_turn setup attempt k fs r cmsp rest with
        ⟨-, htried, -⟩ | ⟨-, -, htried, -⟩ | ⟨-, -, htried, -⟩
      · rw [htried]
        exact hhead _ (ih (k + 1) _ _)
      · rw [htried]
        exact hhead _ (by simp [loopEffects])
      · rw [htried]
        exact hhead _ (by simp [loopEffects])

end Busy

/-- The user's callsign can be taken, the host table can be read, and the first
host whose session does not end in a connect or login failure has a session that
comes to an end. -/
def EndsWell (m : Start e) : Prop :=
  (m.strdup = true ∧ m.usercall.bytes.length ≤ maxUserCall) ∧
    ∃ cmslist, m.hosts = .ok cmslist ∧
      ∃ o, (sessionsFrom m.setup m.attempt 0 m.reader cmslist).find? (fun o => !movesPast o) = some o ∧
        settles o = true

private theorem fmtucall_eq_none (strdup : Bool) (call : CString) :
    fmtucall strdup call = none ↔ ¬ (strdup = true ∧ call.bytes.length ≤ maxUserCall) := by
  unfold fmtucall
  split
  · rename_i h
    simp [h]
  · rename_i h
    split
    · rename_i hlong
      simp [hlong]
    · rename_i hshort
      rw [Bool.not_eq_false] at h
      split <;> simp [h, Nat.not_lt.mp hshort]

/-- Everything that main() does is on the callsign's record and none of it sets
GW_IDLE, but for the last call of a program that ends well. -/
theorem main_effects (m : Start e) :
    ∃ busy, (∀ x ∈ busy, Busy m.gwcall x) ∧
      ((EndsWell m ∧ m.main.1 = m.announce ++ busy ++ [m.idle]) ∨
        (¬ EndsWell m ∧ m.main.1 = m.announce ++ busy)) := by
  rw [Start.main]
  cases hcall : fmtucall m.strdup m.usercall with
  | none =>
      refine ⟨[], by simp, .inr ⟨fun h => ?_, by simp⟩⟩
      exact (fmtucall_eq_none _ _).mp hcall h.1
  | some usercall =>
      have hgood : m.strdup = true ∧ m.usercall.bytes.length ≤ maxUserCall := by
        by_contra hbad
        rw [(fmtucall_eq_none _ _).mpr hbad] at hcall
        cases hcall
      have huser : Busy m.gwcall (.status (.gwUsercall m.gwcall (some usercall))) :=
        ⟨⟨_, rfl, rfl⟩, by simp [recorded]⟩
      cases hhosts : m.hosts with
      | error f =>
          refine ⟨[.status (.gwUsercall m.gwcall (some usercall))], by simpa using huser,
            .inr ⟨fun h => ?_, rfl⟩⟩
          obtain ⟨cmslist, hlist, -⟩ := h.2
          rw [hhosts] at hlist
          cases hlist
      | ok cmslist =>
          have hbusy : ∀ x ∈ Effect.status (.gwUsercall m.gwcall (some usercall)) ::
              loopEffects m.gwcall m.attempt 0 (m.loop cmslist).tried, Busy m.gwcall x := by
            intro x hx
            rcases List.mem_cons.mp hx with rfl | hx
            · exact huser
            · exact loopEffects_busy m.setup m.attempt 0 m.files m.reader cmslist x hx
          have hends : EndsWell m ↔
              ((m.loop cmslist).ending = .served ∨ (m.loop cmslist).ending = .fatal) := by
            rw [Start.loop, hostLoop_settles_iff]
            constructor
            · rintro ⟨-, cmslist', hlist, h⟩
              obtain rfl := Except.ok.inj (hhosts.symm.trans hlist)
              exact h
            · exact fun h => ⟨hgood, cmslist, hhosts, h⟩
          refine ⟨_, hbusy, ?_⟩
          rw [hends]
          simp only
          cases (m.loop cmslist).ending <;> simp

private theorem announced_busy {m : Start e} {busy : List Effect}
    (hbusy : ∀ x ∈ busy, Busy m.gwcall x) : ∀ x ∈ m.announce ++ busy, Busy m.gwcall x := by
  intro x hx
  rcases List.mem_append.mp hx with hx | hx
  · simp only [Start.announce, List.mem_cons, List.not_mem_nil, or_false] at hx
    rcases hx with rfl | rfl | rfl
    · exact ⟨⟨_, rfl, rfl⟩, by simp [recorded]⟩
    · exact busy_state (by decide)
    · exact ⟨⟨_, rfl, rfl⟩, by simp [recorded]⟩
  · exact hbusy x hx

private theorem statusCalls_on {gwcall : CString} {es : List Effect}
    (hbusy : ∀ x ∈ es, Busy gwcall x) :
    ∀ o ∈ statusCalls es, On gwcall o ∧ recorded o ≠ some .gwIdle := by
  intro o ho
  obtain ⟨x, hx, hxo⟩ := List.mem_filterMap.mp ho
  cases x with
  | status o' =>
      obtain rfl := Option.some.inj hxo
      exact hbusy _ hx
  | socket _ => cases hxo
  | close _ => cases hxo

theorem statusCalls_main_on (m : Start e) :
    ∀ o ∈ statusCalls m.main.1, On m.gwcall o := by
  obtain ⟨busy, hbusy, hmain⟩ := main_effects m
  have hon := statusCalls_on (announced_busy hbusy)
  rcases hmain with ⟨-, hmain⟩ | ⟨-, hmain⟩
  · rw [hmain, statusCalls, List.filterMap_append]
    intro o ho
    rcases List.mem_append.mp ho with ho | ho
    · exact (hon o ho).1
    · obtain rfl := List.mem_singleton.mp ho
      exact ⟨_, rfl, rfl⟩
  · rw [hmain]
    exact fun o ho => (hon o ho).1

/-- The program leaves its callsign shown as idle exactly if the user's callsign can
be taken, the host table can be read, and the first host whose session does not end
in a connect or login failure has a session that comes to an end. -/
theorem left_idle_iff (m : Start e) (p : RmsStatus) (room : (getGwSlot p m.gwcall).isSome) :
    shownState (m.leaves p) m.gwcall = some .gwIdle ↔ EndsWell m := by
  obtain ⟨busy, hbusy, hmain⟩ := main_effects m
  have hroom : (lookup gwLayout m.gwcall p.rmsgw).isSome := by
    simpa [getGwSlot, lookup] using room
  have hfirst : (statusCalls (m.announce ++ busy)).filterMap recorded ≠ [] := by
    simp [statusCalls, Start.announce, recorded]
  rw [Start.leaves, shown_run (statusCalls_main_on m) hroom]
  rcases hmain with ⟨hends, hmain⟩ | ⟨hends, hmain⟩
  · refine iff_of_true ?_ hends
    have hcalls : statusCalls m.main.1 =
        statusCalls (m.announce ++ busy) ++ [.gwState .gwIdle m.gwcall] := by
      rw [hmain, statusCalls, List.filterMap_append]
      rfl
    rw [hcalls, List.filterMap_append]
    simp [recorded]
  · refine iff_of_false ?_ hends
    rw [hmain, List.getLast?_eq_some_getLast hfirst, Option.some_or]
    intro hidle
    obtain ⟨o, ho, hrec⟩ := List.mem_filterMap.mp (List.getLast_mem hfirst)
    exact (statusCalls_on (announced_busy hbusy) o ho).2 (hrec.trans hidle)

private theorem vhfPort_paclen : 0 < 256 := by decide

private def vhfPort : Gateway.Model.Env := ⟨256, vhfPort_paclen, 0, 0⟩

private def closedAnswers : List Gateway.Model.Answer :=
  [.login true, .fcntl true, .fcntl true, .select true false, .peekClosed]

private def closedTalk : Conversation vhfPort where
  answers := closedAnswers
  final := (Lib.Process.run (Gateway.Model.step vhfPort) Gateway.Model.initial closedAnswers).get
    (by decide)
  runs := (Option.some_get _).symm

private def passwordChannel : Channels.Model.RootNode where
  isElement := true
  name := lit "channel"
  props := [(lit "name", lit "vhf")]
  children := [⟨true, lit "callsign", lit "N0CALL-10"⟩, ⟨true, lit "password", lit "secret"⟩,
    ⟨true, lit "statuschecker", lit "true"⟩]

private theorem gwcall_noNul : (0 : UInt8) ∉ lit "N0CALL-10" := by decide

private theorem usercall_noNul : (0 : UInt8) ∉ lit "N1USER-0" := by decide

private def startWith (cmsfile : Str) : Start vhfPort where
  gwcall := ⟨lit "N0CALL-10", gwcall_noNul⟩
  pid := 4711
  usercall := ⟨lit "N1USER-0", usercall_noNul⟩
  strdup := true
  ax25port := some (lit "vhf")
  channelfile := none
  reader := Reader.start (some ⟨lit "rmschannels", [passwordChannel]⟩)
  cmsfile := some cmsfile
  files := fun _ => .absent
  alloc := fun _ => true
  attempt := fun _ => ⟨1000, .done, .connected, closedTalk⟩

theorem left_idle_iff_served :
    shownState ((startWith (lit "cms1:8772:pw\n")).leaves freshBlock)
        (startWith (lit "cms1:8772:pw\n")).gwcall = some .gwIdle ↔
      EndsWell (startWith (lit "cms1:8772:pw\n")) :=
  left_idle_iff (startWith (lit "cms1:8772:pw\n")) freshBlock (by decide)

/-- With an empty host table the program ends and stays shown as running. -/
theorem empty_table_left_running :
    (getGwSlot freshBlock (startWith []).gwcall).isSome ∧ (startWith []).main.2 = .code 1 ∧
      shownState ((startWith []).leaves freshBlock) (startWith []).gwcall = some .gwRunning := by
  decide

end Rmsgw.Session.Idle
