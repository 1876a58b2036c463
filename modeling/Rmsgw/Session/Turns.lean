/- What one turn of the host loop can do, said once. -/

import Rmsgw.Session.OneCms

set_option autoImplicit false
set_option relaxedAutoImplicit false

namespace Rmsgw.Session.Turns

open Rmsgw.Rms Rmsgw.StatFile Rmsgw.Hosts.Model Rmsgw.Session.Model
open Rmsgw.Session.OneCms (cmsSession_talked gatewayCode_retry_iff)
open Rmsgw.Gateway.Exit (loggedIn done_login_error_iff)
open Rmsgw.Channels.Model (Reader)

variable {e : Gateway.Model.Env}

/-- A connect or a login failure: the next host is tried. -/
def movesPast : Outcome → Bool
  | .notConnected => true
  | .talked g => g.pc == .done && !loggedIn g
  | _ => false

/-- A session that main() takes for the last one: refused, or a finished
conversation that was logged in. -/
def settles : Outcome → Bool
  | .refused => true
  | .talked g => g.pc == .done && loggedIn g
  | _ => false

/-- The sessions that the hosts of a list would bring, one behind the other. -/
def sessionsFrom (setup : Setup) (attempt : Nat → Attempt e) :
    Nat → Reader → List CmsNode → List Outcome
  | _, _, [] => []
  | k, r, _ :: rest =>
      (cmsSession setup r (attempt k)).1 ::
        sessionsFrom setup attempt (k + 1) (cmsSession setup r (attempt k)).2 rest

/-- What a session returns to main(). -/
inductive Turn (o : Outcome) : Prop
  | past (h : movesPast o = true) (rc : Int) (returns : o.returns = some rc) (neg : rc < 0)
      (skip : rc ≠ errSessFatal)
  | last (h : settles o = true) (rc : Int) (returns : o.returns = some rc)
      (final : rc = errSessFatal ∨ 0 ≤ rc)
  | none (hp : movesPast o = false) (hs : settles o = false) (returns : o.returns = none)

private theorem settles_not_movesPast {o : Outcome} (h : settles o = true) :
    movesPast o = false := by
  cases o with
  | talked g =>
      simp only [settles, Bool.and_eq_true] at h
      simp [movesPast, h.2]
  | refused => rfl
  | killed f => rfl
  | exited => rfl
  | notConnected => cases h

theorem session_turn (setup : Setup) (r : Reader) (a : Attempt e) :
    Turn (cmsSession setup r a).1 := by
  cases hout : (cmsSession setup r a).1 with
  | refused => exact .last rfl errSessFatal rfl (.inl rfl)
  | killed f => exact .none rfl rfl rfl
  | exited => exact .none rfl rfl rfl
  | notConnected => exact .past rfl errSessConnect rfl (by decide) (by decide)
  | talked g =>
      have hruns := a.conversation.runs
      rw [cmsSession_talked hout] at hruns
      by_cases hdone : g.pc = .done
      · have hreturns : (Outcome.talked g).returns = some (gatewayCode g.rc.errcode) := if_pos hdone
        have hlogin := (done_login_error_iff hruns hdone).trans (gatewayCode_retry_iff _).symm
        cases hin : loggedIn g with
        | false =>
            obtain ⟨hneg, hskip⟩ := hlogin.mp hin
            exact .past (by simp [movesPast, hdone, hin]) _ hreturns hneg hskip
        | true =>
            refine .last (by simp [settles, hdone, hin]) _ hreturns ?_
            rw [hin] at hlogin
            by_contra hnot
            rw [not_or, Int.not_le] at hnot
            exact absurd (hlogin.mpr ⟨hnot.2, hnot.1⟩) (by simp)
      · exact .none (by simp [movesPast, hdone]) (by simp [settles, hdone]) (if_neg hdone)

/-- The loop goes on behind a connect or a login failure, and stops at any other
session. -/
theorem hostLoop_turn (setup : Setup) (attempt : Nat → Attempt e) (k : Nat) (fs : Files)
    (r : Reader) (cmsp : CmsNode) (rest : List CmsNode) :
    let a := attempt k
    let o := (cmsSession setup r a).1
    let t : Tried := ⟨cmsp, a.now, a.touch, o⟩
    let run := hostLoop setup attempt k fs r (cmsp :: rest)
    let more := hostLoop setup attempt (k + 1) (setcmsstat fs cmsp a.now a.touch).1
      (cmsSession setup r a).2 rest
    (movesPast o = true ∧ run.tried = t :: more.tried ∧ run.ending = more.ending) ∨
      (movesPast o = false ∧ settles o = true ∧ run.tried = [t] ∧
        (run.ending = .served ∨ run.ending = .fatal)) ∨
      (movesPast o = false ∧ settles o = false ∧ run.tried = [t] ∧ run.ending = .stopped) := by
  intro a o t run more
  cases session_turn setup r a with
  | past h rc hreturns hneg hskip =>
      refine .inl ⟨h, ?_⟩
      simp only [run, hostLoop]
      rw [hreturns]
      simp only [if_pos hneg, if_neg hskip]
      exact ⟨rfl, rfl⟩
  | last h rc hreturns hfinal =>
      refine .inr (.inl ⟨settles_not_movesPast h, h, ?_⟩)
      simp only [run, hostLoop]
      rw [hreturns]
      rcases hfinal with rfl | hpos
      · exact ⟨rfl, .inr rfl⟩
      · simp only [if_neg (Int.not_lt.mpr hpos)]
        exact ⟨rfl, .inl trivial⟩
  | none hp hs hreturns =>
      refine .inr (.inr ⟨hp, hs, ?_⟩)
      simp only [run, hostLoop]
      rw [hreturns]
      exact ⟨rfl, rfl⟩

/-- main() comes out of the loop with the last session exactly if the first session
that is no connect or login failure is one that it takes for the last. -/
theorem hostLoop_settles_iff (setup : Setup) (attempt : Nat → Attempt e) (k : Nat) (fs : Files)
    (r : Reader) (cmslist : List CmsNode) :
    ((hostLoop setup attempt k fs r cmslist).ending = .served ∨
        (hostLoop setup attempt k fs r cmslist).ending = .fatal) ↔
      ∃ o, (sessionsFrom setup attempt k r cmslist).find? (fun o => !movesPast o) = some o ∧
        settles o = true := by
  induction cmslist generalizing k fs r with
  | nil =>
      simp only [hostLoop, sessionsFrom, List.find?_nil]
      split <;> simp
  | cons cmsp rest ih =>
      rcases hostLoop_turn setup attempt k fs r cmsp rest with
        ⟨hpast, -, hending⟩ | ⟨hpast, hsettles, -, hending⟩ | ⟨hpast, hsettles, -, hending⟩
      · rw [hending, ih, sessionsFrom, List.find?_cons_of_neg (by simp [hpast])]
      · rw [sessionsFrom, List.find?_cons_of_pos (by simp [hpast])]
        exact iff_of_true hending ⟨_, rfl, hsettles⟩
      · rw [sessionsFrom, List.find?_cons_of_pos (by simp [hpast]), hending]
        refine iff_of_false (by simp) ?_
        rintro ⟨o, ho, hs⟩
        obtain rfl := Option.some.inj ho
        rw [hsettles] at hs
        cases hs

end Rmsgw.Session.Turns
