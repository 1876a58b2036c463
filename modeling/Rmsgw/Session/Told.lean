/- The statistics that the client is told against the bytes that he has heard, and against what
   the status block counts for the callsign. -/

import Rmsgw.Session.Heard

set_option autoImplicit false
set_option relaxedAutoImplicit false

namespace Rmsgw.Session.Told

open Rmsgw.Lib.CStrings Rmsgw.Lib.Process Rmsgw.Rms Rmsgw.StatFile Rmsgw.Hosts.Model
open Rmsgw.Statblock.Model Rmsgw.Statblock.Shown Rmsgw.Session.Model Rmsgw.Session.Program
open Rmsgw.Session.Turns Rmsgw.Session.Heard Rmsgw.Session.Accounting
open Rmsgw.Session.OneCms (cmsSession_talked)
open Rmsgw.Gateway.Relay (stream Event.toAx)
open Rmsgw.Gateway.Exit (loggedIn done_login_error_iff)
open Rmsgw.Channels.Model (Reader)

/-- The statistics among what the client hears. -/
def told (hs : List Words) : List Ust :=
  hs.filterMap (fun
    | .statistics rc => some rc
    | _ => none)

def Words.bytes : Words → Str
  | .relayed bytes => bytes
  | _ => []

/-- What the relay has brought the client, one write behind the other. -/
def relayed (hs : List Words) : Str := hs.flatMap Words.bytes

private theorem told_append (hs ts : List Words) : told (hs ++ ts) = told hs ++ told ts :=
  List.filterMap_append

private theorem relayed_append (hs ts : List Words) :
    relayed (hs ++ ts) = relayed hs ++ relayed ts :=
  List.flatMap_append

section Sessions

variable {e : Gateway.Model.Env} {usercall gwcall : Str}

private theorem connect_silent (node : CmsNode) (immediate : Bool) (r : ConnectResult) :
    told (connectHeard node immediate r) = [] ∧ relayed (connectHeard node immediate r) = [] := by
  cases r with
  | connected => cases immediate <;> simp [connectHeard, told, relayed, Words.bytes]
  | _ => exact ⟨rfl, rfl⟩

private theorem end_silent (ending : Ending) :
    told (endHeard ending) = [] ∧ relayed (endHeard ending) = [] := by
  cases ending <;> exact ⟨rfl, rfl⟩

private theorem told_events (log : List Gateway.Model.Event) :
    told (log.flatMap eventHeard) = [] := by
  induction log with
  | nil => rfl
  | cons ev log ih =>
      rw [List.flatMap_cons, told_append, ih, List.append_nil]
      cases ev with
      | axWrite offered r => cases r <;> rfl
      | _ => rfl

private theorem relayed_events (log : List Gateway.Model.Event) :
    relayed (log.flatMap eventHeard) = log.flatMap Event.toAx := by
  induction log with
  | nil => rfl
  | cons ev log ih =>
      rw [List.flatMap_cons, relayed_append, ih, List.flatMap_cons]
      congr 1
      cases ev with
      | axWrite offered r =>
          cases r with
          | wrote m => exact List.append_nil _
          | _ => rfl
      | _ => rfl

private theorem relayed_goodbye (rc : Ust) : relayed (goodbye usercall gwcall rc) = [] := by
  rw [goodbye]
  split <;> rfl

private theorem finished_talked {a : Attempt e} {g : Gateway.Model.State}
    (hfinal : a.conversation.final = g) :
    (finished a (.talked g)).map Talk.rc =
      if g.pc = .done ∧ 0 ≤ g.rc.errcode then [g.rc] else [] := by
  subst hfinal
  rw [finished]
  split <;> rfl

private theorem told_session (usercall gwcall : Str) (setup : Setup) (r : Reader) (node : CmsNode)
    (a : Attempt e) (immediate : Bool) :
    told (sessionHeard usercall gwcall setup r node a immediate) =
      (finished a (cmsSession setup r a).1).map Talk.rc := by
  rw [sessionHeard]
  cases hout : (cmsSession setup r a).1 with
  | refused => cases h : noPassword setup r <;> rfl
  | killed f => rfl
  | exited => exact (connect_silent node immediate a.connect).1
  | notConnected => exact (connect_silent node immediate a.connect).1
  | talked g =>
      rw [finished_talked (cmsSession_talked hout)]
      simp only
      rw [told_append, told_append, (connect_silent node immediate a.connect).1, told_events]
      by_cases hdone : g.pc = .done
      · by_cases hgood : 0 ≤ g.rc.errcode
        · rw [if_pos hdone, goodbye, if_pos hgood, if_pos ⟨hdone, hgood⟩]
          rfl
        · rw [if_pos hdone, goodbye, if_neg hgood, if_neg fun h => hgood h.2]
          rfl
      · rw [if_neg hdone, if_neg fun h => hdone h.1]
        rfl

private theorem relayed_session (usercall gwcall : Str) (setup : Setup) (r : Reader)
    (node : CmsNode) (a : Attempt e) (immediate : Bool) {g : Gateway.Model.State}
    (hout : (cmsSession setup r a).1 = .talked g) :
    relayed (sessionHeard usercall gwcall setup r node a immediate) = stream Event.toAx g := by
  rw [sessionHeard, hout]
  simp only
  rw [relayed_append, relayed_append, (connect_silent node immediate a.connect).2, relayed_events,
    List.nil_append]
  split
  · rw [relayed_goodbye, List.append_nil]
    rfl
  · exact List.append_nil _

private theorem past_silent (usercall gwcall : Str) (setup : Setup) (r : Reader) (node : CmsNode)
    (a : Attempt e) (immediate : Bool) (h : movesPast (cmsSession setup r a).1 = true) :
    finished a (cmsSession setup r a).1 = [] ∧
      relayed (sessionHeard usercall gwcall setup r node a immediate) = [] := by
  cases hout : (cmsSession setup r a).1 with
  | notConnected =>
      rw [sessionHeard, hout]
      exact ⟨rfl, (connect_silent node immediate a.connect).2⟩
  | talked g =>
      rw [hout] at h
      simp only [movesPast, Bool.and_eq_true, Bool.not_eq_true', beq_iff_eq] at h
      have hruns := a.conversation.runs
      rw [cmsSession_talked hout] at hruns
      have hneg := (done_login_error_iff hruns h.1).mp h.2
      refine ⟨List.map_eq_nil_iff.mp (?_ : List.map Talk.rc _ = []), ?_⟩
      · rw [finished_talked (cmsSession_talked hout), if_neg]
        omega
      · obtain ⟨chunks, notices, hconveys⟩ := conveys_run hruns
        obtain ⟨rfl, rfl⟩ := hconveys.silent h.2
        rw [relayed_session usercall gwcall setup r node a immediate hout, stream, ← relayed_events,
          hconveys.log]
        rfl
  | _ =>
      rw [hout] at h
      cases h

private theorem finished_relayed (usercall gwcall : Str) (setup : Setup) (r : Reader)
    (node : CmsNode)
    (a : Attempt e) (immediate : Bool) (c : Talk) (h : c ∈ finished a (cmsSession setup r a).1) :
    finished a (cmsSession setup r a).1 = [c] ∧
      relayed (sessionHeard usercall gwcall setup r node a immediate) =
        stream Event.toAx c.conversation.final := by
  cases hout : (cmsSession setup r a).1 with
  | talked g =>
      rw [relayed_session usercall gwcall setup r node a immediate hout]
      obtain rfl := cmsSession_talked hout
      rw [hout, finished] at h
      rw [finished]
      split at h
      · rename_i hdone
        obtain rfl := List.mem_singleton.mp h
        exact ⟨dif_pos hdone, rfl⟩
      · cases h
  | _ =>
      rw [hout] at h
      cases h

private theorem told_loop (usercall gwcall : Str) (setup : Setup) (attempt : Nat → Attempt e)
    (immediate : Nat → Bool) (k : Nat) (fs : Files) (r : Reader) (cmslist : List CmsNode) :
    let hs := loopHeard usercall gwcall setup attempt immediate k r cmslist
    let cs := finishedFrom attempt k (hostLoop setup attempt k fs r cmslist).tried
    told hs = cs.map Talk.rc ∧
      ∀ c ∈ cs, cs = [c] ∧ relayed hs = stream Event.toAx c.conversation.final := by
  induction cmslist generalizing k fs r with
  | nil => exact ⟨rfl, fun c hc => absurd hc List.not_mem_nil⟩
  | cons node rest ih =>
      have htold := told_session usercall gwcall setup r node (attempt k) (immediate k)
      have hone := finished_relayed usercall gwcall setup r node (attempt k) (immediate k)
      simp only [loopHeard, hostLoop]
      cases session_turn setup r (attempt k) with
      | past hpast rc hreturns hneg hskip =>
          rw [hreturns]
          simp only [if_pos hneg, if_neg hskip, if_pos (And.intro hneg hskip), finishedFrom]
          obtain ⟨hnone, hsilent⟩ :=
            past_silent usercall gwcall setup r node (attempt k) (immediate k) hpast
          obtain ⟨hrest, hall⟩ := ih (k + 1)
            (setcmsstat fs node (attempt k).now (attempt k).touch).1
            (cmsSession setup r (attempt k)).2
          rw [told_append, relayed_append, htold, hnone, hsilent]
          exact ⟨hrest, hall⟩
      | last hlast rc hreturns hfinal =>
          have hgoes : ¬ (rc < 0 ∧ rc ≠ errSessFatal) := by
            rintro ⟨hneg, hskip⟩
            rcases hfinal with hfatal | hpos
            · exact hskip hfatal
            · omega
          rw [hreturns]
          simp only [if_neg hgoes, List.append_nil]
          rcases hfinal with rfl | hpos
          · simp only [errSessFatal, Int.reduceLT, if_true, finishedFrom, List.append_nil]
            exact ⟨htold, hone⟩
          · simp only [if_neg (Int.not_lt.mpr hpos), finishedFrom, List.append_nil]
            exact ⟨htold, hone⟩
      | none hp hs hreturns =>
          rw [hreturns]
          simp only [finishedFrom, List.append_nil]
          exact ⟨htold, hone⟩

end Sessions

/-- The client who is told statistics is told them once, and of the one session of the run that is
over without an error: the bytes sent are those that the relay has brought him, together with what
the filter ate, and both counts are what the run adds to the counters shown of its callsign. -/
theorem told_as_heard (m : Launch) (immediate : Nat → Bool) (p : RmsStatus) {x : UInt64 × UInt64}
    (hshown : shown counters p m.start.gwcall = some x) {rc : Ust}
    (htold : rc ∈ told (heard m.start immediate)) :
    told (heard m.start immediate) = [rc] ∧
      (∃ c, m.sessions = [c] ∧
        rc.bytesSent = UInt64.ofNat ((relayed (heard m.start immediate)).length + c.discarded) ∧
        rc.bytesRecv = UInt64.ofNat c.toCms) ∧
      shown counters (m.start.leaves p) m.start.gwcall =
        some (x.1 + rc.bytesSent, x.2 + rc.bytesRecv) := by
  have hboth : told (heard m.start immediate) = m.sessions.map Talk.rc ∧ ∀ c ∈ m.sessions,
      m.sessions = [c] ∧
        relayed (heard m.start immediate) = stream Event.toAx c.conversation.final := by
    rw [heard, Launch.sessions]
    cases fmtucall m.start.strdup m.start.usercall with
    | none => exact ⟨rfl, fun c hc => absurd hc List.not_mem_nil⟩
    | some usercall =>
        cases m.start.hosts with
        | error f => exact ⟨rfl, fun c hc => absurd hc List.not_mem_nil⟩
        | ok cmslist =>
            simp only
            rw [told_append, relayed_append, (end_silent _).1, (end_silent _).2, List.append_nil,
              List.append_nil]
            exact told_loop usercall.bytes m.start.gwcall.bytes m.start.setup m.start.attempt immediate
              0 m.start.files m.start.reader cmslist
  obtain ⟨hall, hone⟩ := hboth
  rw [hall] at htold
  obtain ⟨c, hc, rfl⟩ := List.mem_map.mp htold
  obtain ⟨hsingle, hrelayed⟩ := hone c hc
  obtain ⟨hsent, hrecv⟩ := talk_counters c
  have hleaves := shown_leaves m p hshown
  rw [hsingle] at hleaves
  refine ⟨by rw [hall, hsingle]; rfl, ⟨c, hsingle, ?_, hrecv⟩, hleaves⟩
  rw [hsent, hrelayed]
  rfl

private theorem ferryPort_paclen : 0 < 6 := by decide

private def ferryPort : Gateway.Model.Env := ⟨6, ferryPort_paclen, 0, 0⟩

private theorem mail_nonempty : 0 < (lit "FC EM A\r").length := by decide

private theorem mail_fits : (lit "FC EM A\r").length ≤ Gateway.Model.bufLen := by decide

private theorem beat_nonempty : 0 < Gateway.Model.keepAlive.length := by decide

private theorem beat_fits : Gateway.Model.keepAlive.length ≤ Gateway.Model.bufLen := by decide

/-- A line in two writes, and a keep alive packet behind it. -/
private def mailAnswers : List Gateway.Model.Answer :=
  [.login true, .fcntl true, .fcntl true, .select true false, .peekByte 70,
    .chunk ⟨lit "FC EM A\r", mail_nonempty, mail_fits⟩, .write (.wrote 6), .write (.wrote 2),
    .chunk ⟨Gateway.Model.keepAlive, beat_nonempty, beat_fits⟩, .drained, .select true false,
    .peekClosed]

private theorem mail_runs :
    (run (Gateway.Model.step ferryPort) Gateway.Model.initial mailAnswers).isSome := by
  decide

private def ferryChannel : Channels.Model.RootNode where
  isElement := true
  name := lit "channel"
  props := [(lit "name", lit "sound")]
  children := [⟨true, lit "callsign", lit "W7FRY-10"⟩, ⟨true, lit "password", lit "secret"⟩,
    ⟨true, lit "statuschecker", lit "true"⟩]

private theorem ferry_noNul : (0 : UInt8) ∉ lit "W7FRY-10" := by decide

private theorem sailor_noNul : (0 : UInt8) ∉ lit "KE7SEA" := by decide

/-- The first of two hosts does not answer. -/
private def ferryLaunch : Launch where
  env := ferryPort
  start :=
    { gwcall := ⟨lit "W7FRY-10", ferry_noNul⟩
      pid := 611
      usercall := ⟨lit "KE7SEA", sailor_noNul⟩
      strdup := true
      ax25port := some (lit "sound")
      channelfile := none
      reader := Reader.start (some ⟨lit "rmschannels", [ferryChannel]⟩)
      cmsfile := some (lit "cms1:8772:pw\ncms2:8772:pw\n")
      files := fun _ => .absent
      alloc := fun _ => true
      attempt := fun k =>
        ⟨1000, .done, if k = 0 then .selectTimedOut else .connected,
          ⟨mailAnswers, _, (Option.some_get mail_runs).symm⟩⟩ }

private def ferryAtOnce (_ : Nat) : Bool := false

private theorem ferry_shown :
    shown counters freshBlock ferryLaunch.start.gwcall = some (0, 0) := by decide

private theorem ferry_told : (⟨0, 16, 0⟩ : Ust) ∈ told (heard ferryLaunch.start ferryAtOnce) := by
  decide

theorem told_as_heard_ferry :
    told (heard ferryLaunch.start ferryAtOnce) = [⟨0, 16, 0⟩] ∧
      (∃ c, ferryLaunch.sessions = [c] ∧
        (16 : UInt64) = UInt64.ofNat
          ((relayed (heard ferryLaunch.start ferryAtOnce)).length + c.discarded) ∧
        (0 : UInt64) = UInt64.ofNat c.toCms) ∧
      shown counters (ferryLaunch.start.leaves freshBlock) ferryLaunch.start.gwcall =
        some (0 + 16, 0 + 0) :=
  told_as_heard ferryLaunch ferryAtOnce freshBlock ferry_shown ferry_told

end Rmsgw.Session.Told
