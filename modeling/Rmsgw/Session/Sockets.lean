/- When the host loop closes every socket that it creates exactly once. -/

import Rmsgw.Session.Program
import Rmsgw.Session.Turns

set_option autoImplicit false
set_option relaxedAutoImplicit false

namespace Rmsgw.Session.Sockets

open Rmsgw.Lib.CStrings Rmsgw.Rms Rmsgw.StatFile Rmsgw.Hosts.Model
open Rmsgw.Session.Model Rmsgw.Session.Program Rmsgw.Session.Turns
open Rmsgw.Session.OneCms (cmsSession_talked)
open Rmsgw.Gateway.Exit (loggedIn logFits_run)
open Rmsgw.Channels.Model (Reader)

/-- The attempts that created a socket. -/
def opened (es : List Effect) : List Nat :=
  es.filterMap (fun
    | .socket k => some k
    | _ => none)

/-- The attempts whose socket was closed, once for each close. -/
def closed (es : List Effect) : List Nat :=
  es.filterMap (fun
    | .close k => some k
    | _ => none)

/-- Every socket created is closed exactly once. -/
def ClosedOnce (es : List Effect) : Prop := ∀ k ∈ opened es, (closed es).count k = 1

/-- A session that makes no socket, fails in connect(), in select() or in
getsockopt(), or fails the login. -/
def clean (connect : ConnectResult) : Outcome → Bool
  | .notConnected =>
      connect == .connectFailed || connect == .selectTimedOut || connect == .getsockoptFailed
  | .talked g => g.pc == .done && !loggedIn g
  | _ => true

variable {e : Gateway.Model.Env}

/-- Every session that the loop comes to is a clean one. -/
def AllClean (attempt : Nat → Attempt e) : Nat → List Outcome → Prop
  | _, [] => True
  | k, o :: os =>
      clean (attempt k).connect o = true ∧ (movesPast o = true → AllClean attempt (k + 1) os)

private theorem opened_append (es fs : List Effect) : opened (es ++ fs) = opened es ++ opened fs :=
  List.filterMap_append

private theorem closed_append (es fs : List Effect) : closed (es ++ fs) = closed es ++ closed fs :=
  List.filterMap_append

/-- What a list of effects does to sockets, it does to the one of attempt `k`. -/
def OnlySocket (k : Nat) (es : List Effect) : Prop :=
  (∀ j ∈ opened es, j = k) ∧ ∀ j ∈ closed es, j = k

section OneSession

variable {gwcall : CString} {k : Nat}

private theorem connectEffects_only (c : ConnectResult) : OnlySocket k (connectEffects k c) := by
  cases c <;> simp [OnlySocket, connectEffects, opened, closed]

private theorem opened_events (log : List Gateway.Model.Event) :
    opened (log.flatMap (eventEffects gwcall k)) = [] := by
  induction log with
  | nil => rfl
  | cons ev log ih =>
      rw [List.flatMap_cons, opened_append, ih]
      cases ev <;> rfl

private theorem closed_events (log : List Gateway.Model.Event) :
    closed (log.flatMap (eventEffects gwcall k)) = List.replicate (log.count .closeSock) k := by
  induction log with
  | nil => rfl
  | cons ev log ih =>
      rw [List.flatMap_cons, closed_append, ih]
      cases ev
      case closeSock => rw [List.count_cons_self, List.replicate_succ]; rfl
      all_goals rw [List.count_cons_of_ne (by simp)]; rfl

private theorem opened_hangUp (rc : Ust) : opened (hangUp gwcall k rc) = [] := by
  rw [hangUp, opened_append]
  split <;> rfl

private theorem closed_hangUp (rc : Ust) : closed (hangUp gwcall k rc) = [k] := by
  rw [hangUp, closed_append]
  split <;> rfl

private theorem opened_talked (c : ConnectResult) (g : Gateway.Model.State) :
    opened (sessionEffects gwcall k c (.talked g)) = opened (connectEffects k c) := by
  have hrest : opened (if g.pc = .done then hangUp gwcall k g.rc else []) = [] := by
    split
    · exact opened_hangUp g.rc
    · rfl
  have hevents : opened (g.log.flatMap (eventEffects gwcall k)) = [] := opened_events g.log
  simp only [sessionEffects, List.cons_append]
  simp only [opened, List.filterMap_cons_none, List.filterMap_append] at hrest hevents ⊢
  rw [hevents, hrest]
  simp

private theorem closed_talked (c : ConnectResult) (g : Gateway.Model.State) :
    closed (sessionEffects gwcall k c (.talked g)) = closed (connectEffects k c) ++
      (List.replicate (g.log.count .closeSock) k ++ if g.pc = .done then [k] else []) := by
  have hrest : closed (if g.pc = .done then hangUp gwcall k g.rc else []) =
      if g.pc = .done then [k] else [] := by
    split
    · exact closed_hangUp g.rc
    · rfl
  have hevents : closed (g.log.flatMap (eventEffects gwcall k)) =
      List.replicate (g.log.count .closeSock) k := closed_events g.log
  simp only [sessionEffects, List.cons_append]
  simp only [closed, List.filterMap_cons_none, List.filterMap_append] at hrest hevents ⊢
  rw [hevents, hrest]
  simp

private theorem sessionEffects_only (c : ConnectResult) (o : Outcome) :
    OnlySocket k (sessionEffects gwcall k c o) := by
  cases o with
  | refused => simp [OnlySocket, sessionEffects, opened, closed]
  | killed f => simp [OnlySocket, sessionEffects, opened, closed]
  | exited => exact connectEffects_only c
  | notConnected => exact connectEffects_only c
  | talked g =>
      obtain ⟨hopened, hclosed⟩ := connectEffects_only (k := k) c
      refine ⟨fun j hj => hopened j (by rwa [opened_talked] at hj), ?_⟩
      intro j hj
      rw [closed_talked, List.mem_append, List.mem_append] at hj
      rcases hj with hj | hj | hj
      · exact hclosed j hj
      · exact List.eq_of_mem_replicate hj
      · split at hj
        · exact List.mem_singleton.mp hj
        · cases hj

end OneSession

private theorem connectAndTalk_connect (setup : Setup) (r : Reader) (a : Attempt e) :
    ((cmsSession setup r a).1 = .exited → a.connect = .socketFailed) ∧
      ((cmsSession setup r a).1 = .notConnected → a.connect ≠ .connected ∧ a.connect ≠ .socketFailed) ∧
      ∀ g, (cmsSession setup r a).1 = .talked g → a.connect = .connected := by
  unfold cmsSession
  split
  · simp
  split
  · simp
  split
  · simp
  · simp
  split
  · simp
  split
  · simp
  · cases hc : a.connect <;> simp [connectAndTalk, hc, cmsConnect]

private theorem session_clean_iff (gwcall : CString) (k : Nat) (setup : Setup) (r : Reader)
    (a : Attempt e) : (k ∈ opened (sessionEffects gwcall k a.connect (cmsSession setup r a).1) →
        (closed (sessionEffects gwcall k a.connect (cmsSession setup r a).1)).count k = 1) ↔
      clean a.connect (cmsSession setup r a).1 = true := by
  obtain ⟨hexited, hnot, htalked⟩ := connectAndTalk_connect setup r a
  cases hout : (cmsSession setup r a).1 with
  | refused => simp [sessionEffects, opened, clean]
  | killed f => simp [sessionEffects, opened, clean]
  | exited =>
      rw [hexited hout]
      simp [sessionEffects, connectEffects, opened, clean]
  | notConnected =>
      obtain ⟨hconnected, hsocket⟩ := hnot hout
      cases hc : a.connect with
      | connected => exact absurd hc hconnected
      | socketFailed => exact absurd hc hsocket
      | hostUnknown => simp [sessionEffects, connectEffects, opened, closed, clean]
      | connectFailed => simp [sessionEffects, connectEffects, opened, closed, clean]
      | selectTimedOut => simp [sessionEffects, connectEffects, opened, closed, clean]
      | getsockoptFailed => simp [sessionEffects, connectEffects, opened, closed, clean]
      | socketError => simp [sessionEffects, connectEffects, opened, closed, clean]
  | talked g =>
      have hruns := a.conversation.runs
      rw [cmsSession_talked hout] at hruns
      have hcloses := (logFits_run hruns).closed
      rw [htalked g hout, opened_talked, closed_talked, hcloses]
      -- gateway() has closed the socket of a conversation that was logged in
      by_cases hdone : g.pc = .done
      · cases hin : loggedIn g <;> simp [connectEffects, opened, closed, clean, hdone, hin]
      · simp [connectEffects, opened, closed, clean, hdone]

private theorem loopEffects_from (gwcall : CString) (attempt : Nat → Attempt e) (k : Nat)
    (ts : List Tried) : (∀ j ∈ opened (loopEffects gwcall attempt k ts), k ≤ j) ∧
      ∀ j ∈ closed (loopEffects gwcall attempt k ts), k ≤ j := by
  induction ts generalizing k with
  | nil => simp [loopEffects, opened, closed]
  | cons t ts ih =>
      obtain ⟨hopened, hclosed⟩ : OnlySocket k (sessionEffects gwcall k (attempt k).connect t.outcome) :=
        sessionEffects_only _ _
      obtain ⟨hopened', hclosed'⟩ := ih (k + 1)
      have hcons : loopEffects gwcall attempt k (t :: ts) =
          [.status (.gwCms gwcall (some (cstring t.node.host)))] ++
            (sessionEffects gwcall k (attempt k).connect t.outcome ++
              loopEffects gwcall attempt (k + 1) ts) := rfl
      rw [hcons]
      constructor
      · intro j hj
        rw [opened_append, opened_append] at hj
        rcases List.mem_append.mp ((List.mem_append.mp hj).resolve_left (by simp [opened])) with hj | hj
        · exact Nat.le_of_eq (hopened j hj).symm
        · exact Nat.le_of_succ_le (hopened' j hj)
      · intro j hj
        rw [closed_append, closed_append] at hj
        rcases List.mem_append.mp ((List.mem_append.mp hj).resolve_left (by simp [closed])) with hj | hj
        · exact Nat.le_of_eq (hclosed j hj).symm
        · exact Nat.le_of_succ_le (hclosed' j hj)

private theorem closedOnce_cons (gwcall : CString) (attempt : Nat → Attempt e) (k : Nat) (t : Tried)
    (ts : List Tried) :
    ClosedOnce (loopEffects gwcall attempt k (t :: ts)) ↔
      (k ∈ opened (sessionEffects gwcall k (attempt k).connect t.outcome) →
        (closed (sessionEffects gwcall k (attempt k).connect t.outcome)).count k = 1) ∧
      ClosedOnce (loopEffects gwcall attempt (k + 1) ts) := by
  obtain ⟨hopened, hclosed⟩ : OnlySocket k (sessionEffects gwcall k (attempt k).connect t.outcome) :=
    sessionEffects_only _ _
  obtain ⟨hopened', hclosed'⟩ := loopEffects_from gwcall attempt (k + 1) ts
  have hopens : opened (loopEffects gwcall attempt k (t :: ts)) =
      opened (sessionEffects gwcall k (attempt k).connect t.outcome) ++
        opened (loopEffects gwcall attempt (k + 1) ts) := opened_append _ _
  have hcloses : closed (loopEffects gwcall attempt k (t :: ts)) =
      closed (sessionEffects gwcall k (attempt k).connect t.outcome) ++
        closed (loopEffects gwcall attempt (k + 1) ts) := closed_append _ _
  have hlater : (closed (loopEffects gwcall attempt (k + 1) ts)).count k = 0 :=
    List.count_eq_zero.mpr fun hk => Nat.not_succ_le_self k (hclosed' k hk)
  have hearlier : ∀ j, k + 1 ≤ j →
      (closed (sessionEffects gwcall k (attempt k).connect t.outcome)).count j = 0 := fun j hj =>
    List.count_eq_zero.mpr fun hmem => by have := hclosed j hmem; omega
  constructor
  · intro h
    refine ⟨fun hk => ?_, fun j hj => ?_⟩
    · have hone := h k (by rw [hopens]; exact List.mem_append_left _ hk)
      rwa [hcloses, List.count_append, hlater, Nat.add_zero] at hone
    · have hone := h j (by rw [hopens]; exact List.mem_append_right _ hj)
      rwa [hcloses, List.count_append, hearlier j (hopened' j hj), Nat.zero_add] at hone
  · rintro ⟨hk, hrest⟩ j hj
    rw [hopens] at hj
    rw [hcloses, List.count_append]
    rcases List.mem_append.mp hj with hj | hj
    · obtain rfl := hopened j hj
      rw [hlater, Nat.add_zero]
      exact hk hj
    · rw [hearlier j (hopened' j hj), Nat.zero_add]
      exact hrest j hj

/-- Over the whole host loop every socket that cmsConnect() creates is closed
exactly once, exactly if every session that the loop comes to makes no socket,
fails in connect(), in select() or in getsockopt(), or fails the login. -/
theorem sockets_closed_once_iff (gwcall : CString) (setup : Setup) (attempt : Nat → Attempt e)
    (fs : Files) (r : Reader) (cmslist : List CmsNode) :
    ClosedOnce (loopEffects gwcall attempt 0 (hostLoop setup attempt 0 fs r cmslist).tried) ↔
      AllClean attempt 0 (sessionsFrom setup attempt 0 r cmslist) := by
  suffices h : ∀ k fs r,
      ClosedOnce (loopEffects gwcall attempt k (hostLoop setup attempt k fs r cmslist).tried) ↔
        AllClean attempt k (sessionsFrom setup attempt k r cmslist) from h 0 fs r
  induction cmslist with
  | nil =>
      intro k fs r
      exact iff_of_true (fun j hj => by cases hj) trivial
  | cons cmsp rest ih =>
      intro k fs r
      have hsession := session_clean_iff gwcall k setup r (attempt k)
      have hnil : ClosedOnce (loopEffects gwcall attempt (k + 1) []) := fun j hj => by cases hj
      rcases hostLoop_turn setup attempt k fs r cmsp rest with
        ⟨hpast, htried, -⟩ | ⟨hpast, -, htried, -⟩ | ⟨hpast, -, htried, -⟩
      · rw [htried, closedOnce_cons, hsession, ih (k + 1), sessionsFrom, AllClean]
        exact and_congr_right fun _ => ⟨fun h _ => h, fun h => h hpast⟩
      · rw [htried, closedOnce_cons, hsession, sessionsFrom, AllClean]
        exact and_congr_right fun _ => iff_of_true hnil fun h => by rw [hpast] at h; cases h
      · rw [htried, closedOnce_cons, hsession, sessionsFrom, AllClean]
        exact and_congr_right fun _ => iff_of_true hnil fun h => by rw [hpast] at h; cases h

private theorem uhfPort_paclen : 0 < 128 := by decide

private def uhfPort : Gateway.Model.Env := ⟨128, uhfPort_paclen, 0, 0⟩

private def briefAnswers : List Gateway.Model.Answer :=
  [.login true, .fcntl true, .fcntl true, .select true false, .peekClosed]

private def briefTalk : Conversation uhfPort where
  answers := briefAnswers
  final := (Lib.Process.run (Gateway.Model.step uhfPort) Gateway.Model.initial briefAnswers).get
    (by decide)
  runs := (Option.some_get _).symm

private def uhfChannel : Channels.Model.RootNode where
  isElement := true
  name := lit "channel"
  props := [(lit "name", lit "uhf")]
  children := [⟨true, lit "callsign", lit "N0CALL-10"⟩, ⟨true, lit "password", lit "secret"⟩,
    ⟨true, lit "statuschecker", lit "true"⟩]

private def uhfSetup : Setup := ⟨some (lit "uhf"), lit "N0CALL-10", none⟩

/-- The name of the first host is unknown, the second host is connected. -/
private def unknownFirst (k : Nat) : Attempt uhfPort :=
  ⟨1000, .done, if k = 0 then .hostUnknown else .connected, briefTalk⟩

private def unknownFirstEffects : List Effect :=
  loopEffects ⟨lit "N0CALL-10", by decide⟩ unknownFirst 0
    (hostLoop uhfSetup unknownFirst 0 (fun _ => .absent)
      (Reader.start (some ⟨lit "rmschannels", [uhfChannel]⟩))
      [⟨lit "cms1", 8772, lit "pw", 0⟩, ⟨lit "cms2", 8772, lit "pw", 0⟩]).tried

/-- The first socket is never closed, the second one twice. -/
theorem sockets_leaked_and_closed_twice :
    opened unknownFirstEffects = [0, 1] ∧ closed unknownFirstEffects = [1, 1] ∧
      ¬ ClosedOnce unknownFirstEffects := by
  have hopened : opened unknownFirstEffects = [0, 1] := by decide
  have hclosed : closed unknownFirstEffects = [1, 1] := by decide
  refine ⟨hopened, hclosed, ?_⟩
  intro h
  have hfirst := h 0 (by rw [hopened]; decide)
  rw [hclosed] at hfirst
  cases hfirst

end Rmsgw.Session.Sockets
