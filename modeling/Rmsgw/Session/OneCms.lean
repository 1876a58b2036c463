/- At most one CMS gets a user's session. -/

import Rmsgw.Session.Model

set_option autoImplicit false
set_option relaxedAutoImplicit false

namespace Rmsgw.Session.OneCms

open Rmsgw.Rms Rmsgw.StatFile Rmsgw.Hosts.Model Rmsgw.Session.Model
open Rmsgw.Gateway.Exit (loggedIn done_login_error_iff)
open Rmsgw.Channels.Model (Reader)

variable {e : Gateway.Model.Env}

/-- The attempt passed a successful cmslogin() and entered the relay loop. -/
def PassedLogin (t : Tried) : Prop := ∃ g, t.outcome = .talked g ∧ loggedIn g = true

def ConnectFailed (t : Tried) : Prop := t.outcome = .notConnected

def LoginFailed (t : Tried) : Prop :=
  ∃ g, t.outcome = .talked g ∧ g.pc = .done ∧ loggedIn g = false

/-- The next host of the list is tried; behind the last one the list is exhausted. -/
def MovesOn (cmslist : List CmsNode) (run : HostRun) (i : Nat) : Prop :=
  if i + 1 < cmslist.length then i + 1 < run.tried.length else ∃ n, run.ending = .exhausted n

theorem cmsSession_talked {setup : Setup} {r : Reader} {a : Attempt e} {g : Gateway.Model.State}
    (h : (cmsSession setup r a).1 = .talked g) : a.conversation.final = g := by
  unfold cmsSession at h
  split at h
  · cases h
  split at h
  · cases h
  split at h
  · cases h
  · cases h
  split at h
  · cases h
  split at h
  · cases h
  · simp only [connectAndTalk] at h
    split at h
    · cases h
    split at h
    · cases h
    · exact Outcome.talked.inj h

theorem gatewayCode_retry_iff (code : Int) :
    (gatewayCode code < 0 ∧ gatewayCode code ≠ errSessFatal) ↔ code < 0 ∧ errGwFatal < code := by
  by_cases hok : 0 ≤ code
  · simp only [gatewayCode, hok, if_true]
    omega
  by_cases hfatal : code ≤ errGwFatal
  · simp [gatewayCode, hok, hfatal]
  · simp only [gatewayCode, hok, hfatal, if_false, errSessGwskip, errSessFatal]
    omega

private theorem retries_iff (setup : Setup) (r : Reader) (a : Attempt e) (t : Tried)
    (ht : t.outcome = (cmsSession setup r a).1) :
    (∃ rc, t.outcome.returns = some rc ∧ rc < 0 ∧ rc ≠ errSessFatal) ↔
      ConnectFailed t ∨ LoginFailed t := by
  cases hout : t.outcome with
  | refused => simp [ConnectFailed, LoginFailed, hout, Outcome.returns]
  | killed f => simp [ConnectFailed, LoginFailed, hout, Outcome.returns]
  | exited => simp [ConnectFailed, LoginFailed, hout, Outcome.returns]
  | notConnected =>
      simp [ConnectFailed, hout, Outcome.returns, errSessConnect, errSessFatal]
  | talked g =>
      have hfinal := cmsSession_talked (ht.symm.trans hout)
      have hruns := a.conversation.runs
      rw [hfinal] at hruns
      by_cases hdone : g.pc = .done
      · have hlogin := done_login_error_iff hruns hdone
        simp only [ConnectFailed, LoginFailed, hout, Outcome.returns, hdone, if_true,
          Option.some.injEq, exists_eq_left', Outcome.talked.injEq, hlogin, reduceCtorEq, false_or,
          true_and]
        exact gatewayCode_retry_iff _
      · simp [ConnectFailed, LoginFailed, hout, Outcome.returns, hdone]

private theorem PassedLogin.final {t : Tried} (h : PassedLogin t) :
    ¬ (ConnectFailed t ∨ LoginFailed t) := by
  obtain ⟨g, hout, hin⟩ := h
  rintro (hc | ⟨g', hout', -, hin'⟩)
  · rw [ConnectFailed, hout] at hc
    cases hc
  · obtain rfl := Outcome.talked.inj (hout.symm.trans hout')
    rw [hin] at hin'
    cases hin'

private theorem hostLoop_progress (setup : Setup) (attempt : Nat → Attempt e) (hostTries : Nat)
    (fs : Files) (r : Reader) (cmslist : List CmsNode) :
    if 0 < cmslist.length then
      0 < (hostLoop setup attempt (hostTries + 1) fs r cmslist).tried.length
    else ∃ n, (hostLoop setup attempt (hostTries + 1) fs r cmslist).ending = .exhausted n := by
  cases cmslist with
  | nil => exact ⟨hostTries + 1, by simp [hostLoop]⟩
  | cons cmsp rest =>
      rw [if_pos (show 0 < (cmsp :: rest).length from Nat.succ_pos _)]
      simp only [hostLoop]
      split
      · exact Nat.one_pos
      split
      · split
        · exact Nat.one_pos
        · exact Nat.succ_pos _
      · exact Nat.one_pos

private theorem hostLoop_exhausted (setup : Setup) (attempt : Nat → Attempt e) (hostTries : Nat)
    (fs : Files) (r : Reader) (cmslist : List CmsNode) (n : Nat)
    (h : (hostLoop setup attempt hostTries fs r cmslist).ending = .exhausted n) :
    (hostLoop setup attempt hostTries fs r cmslist).tried.length = cmslist.length := by
  induction cmslist generalizing hostTries fs r with
  | nil => rfl
  | cons cmsp rest ih =>
      cases hreturns : (cmsSession setup r (attempt hostTries)).1.returns with
      | none =>
          simp only [hostLoop, hreturns] at h
          cases h
      | some rc =>
          simp only [hostLoop, hreturns] at h ⊢
          split at h
          · rename_i hneg
            split at h
            · cases h
            · rename_i hskip
              simp only [if_pos hneg, if_neg hskip, List.length_cons, ih _ _ _ h]
          · cases h

private theorem order_stopped {t₀ : Tried} (rest : List CmsNode) (fs : Files) {ending : Ending}
    (hend : ∀ n, ending ≠ .exhausted n) (hno : ¬ (ConnectFailed t₀ ∨ LoginFailed t₀)) :
    ([t₀].map Tried.node <+: t₀.node :: rest) ∧ ∀ i t, [t₀][i]? = some t →
      (MovesOn (t₀.node :: rest) ⟨[t₀], fs, ending⟩ i ↔ ConnectFailed t ∨ LoginFailed t) := by
  refine ⟨⟨rest, rfl⟩, ?_⟩
  intro i t hi
  obtain ⟨hlt, hget⟩ := List.getElem?_eq_some_iff.mp hi
  simp only [List.length_singleton] at hlt
  obtain rfl : i = 0 := by omega
  obtain rfl : t₀ = t := hget
  refine iff_of_false ?_ hno
  intro hmoves
  rw [MovesOn] at hmoves
  split at hmoves
  · simp at hmoves
  · obtain ⟨n, hn⟩ := hmoves
    exact hend n hn

/-- Hosts are tried in list order, and the loop moves on exactly after a connect
or a login failure. -/
theorem hostLoop_order (setup : Setup) (attempt : Nat → Attempt e) (hostTries : Nat)
    (fs : Files) (r : Reader) (cmslist : List CmsNode) :
    (hostLoop setup attempt hostTries fs r cmslist).tried.map Tried.node <+: cmslist ∧
      ∀ i t, (hostLoop setup attempt hostTries fs r cmslist).tried[i]? = some t →
        (MovesOn cmslist (hostLoop setup attempt hostTries fs r cmslist) i ↔
          ConnectFailed t ∨ LoginFailed t) := by
  induction cmslist generalizing hostTries fs r with
  | nil => exact ⟨List.nil_prefix, fun i t h => by simp [hostLoop] at h⟩
  | cons cmsp rest ih =>
      set a := attempt hostTries with ha
      set t₀ : Tried := ⟨cmsp, a.now, a.touch, (cmsSession setup r a).1⟩ with ht₀
      have hretry := retries_iff setup r a t₀ rfl
      simp only [hostLoop, ← ha, ← ht₀]
      cases hret : (cmsSession setup r a).1.returns with
      | none =>
          refine order_stopped rest _ (by simp) ?_
          intro h
          obtain ⟨rc, hrc, -⟩ := hretry.mpr h
          rw [show t₀.outcome.returns = none from hret] at hrc
          cases hrc
      | some rc =>
          have hrc : t₀.outcome.returns = some rc := hret
          by_cases hneg : rc < 0
          · by_cases hfatal : rc = errSessFatal
            · simp only [hfatal, if_true]
              rw [if_pos (hfatal ▸ hneg)]
              refine order_stopped rest _ (by simp) ?_
              intro h
              obtain ⟨rc', hrc', -, hne⟩ := hretry.mpr h
              exact hne ((Option.some.inj (hrc'.symm.trans hrc)).trans hfatal)
            · simp only [hneg, hfatal, if_true, if_false]
              have hyes : ConnectFailed t₀ ∨ LoginFailed t₀ := hretry.mp ⟨rc, hrc, hneg, hfatal⟩
              obtain ⟨⟨tail, htail⟩, hmoves⟩ := ih (hostTries + 1)
                (setcmsstat fs cmsp a.now a.touch).1 (cmsSession setup r a).2
              have hprogress := hostLoop_progress setup attempt hostTries
                (setcmsstat fs cmsp a.now a.touch).1 (cmsSession setup r a).2 rest
              refine ⟨⟨tail, by rw [List.map_cons, List.cons_append, htail]⟩, ?_⟩
              intro i t hi
              cases i with
              | zero =>
                  obtain rfl : t₀ = t := by simpa using hi
                  refine iff_of_true ?_ hyes
                  simpa [MovesOn] using hprogress
              | succ i =>
                  have hi' := hmoves i t (by simpa using hi)
                  rw [← hi']
                  simp [MovesOn]
          · simp only [hneg, if_false]
            refine order_stopped rest _ (by simp) ?_
            intro h
            obtain ⟨rc', hrc', hneg', -⟩ := hretry.mpr h
            exact hneg ((Option.some.inj (hrc'.symm.trans hrc)) ▸ hneg')

/-- At most one CMS gets a user's session: hosts are tried in list order, each place of the list
at most once, the loop moves on to the next host of the list exactly after a connect or a login
failure, and no host is tried behind one whose login was passed. -/
theorem one_cms_per_session (setup : Setup) (attempt : Nat → Attempt e) (fs : Files) (r : Reader)
    (cmslist : List CmsNode) :
    let run := hostLoop setup attempt 0 fs r cmslist
    run.tried.map Tried.node <+: cmslist ∧
      (∀ (i : Nat) (t : Tried), run.tried[i]? = some t →
        (MovesOn cmslist run i ↔ ConnectFailed t ∨ LoginFailed t)) ∧
      (∀ n, run.ending = .exhausted n → run.tried.length = cmslist.length) ∧
      (∀ (i : Nat) (t : Tried), run.tried[i]? = some t → PassedLogin t →
        i + 1 = run.tried.length ∧ ∀ n, run.ending ≠ .exhausted n) ∧
      ∀ (i j : Nat) (t u : Tried), run.tried[i]? = some t → run.tried[j]? = some u → PassedLogin t →
        PassedLogin u → i = j := by
  intro run
  obtain ⟨hfront, hmoves⟩ := hostLoop_order setup attempt 0 fs r cmslist
  have hall : ∀ n, run.ending = .exhausted n → run.tried.length = cmslist.length :=
    hostLoop_exhausted setup attempt 0 fs r cmslist
  have hlast : ∀ i t, run.tried[i]? = some t → PassedLogin t →
      i + 1 = run.tried.length ∧ ∀ n, run.ending ≠ .exhausted n := by
    intro i t hi hpass
    have hstay : ¬ MovesOn cmslist run i := fun h => hpass.final ((hmoves i t hi).mp h)
    obtain ⟨hlt, -⟩ := List.getElem?_eq_some_iff.mp hi
    have hle : run.tried.length ≤ cmslist.length := by
      rw [← List.length_map (f := Tried.node)]
      exact hfront.length_le
    rw [MovesOn] at hstay
    split at hstay
    · refine ⟨by omega, fun n hn => ?_⟩
      have hlength := hall n hn
      omega
    · exact ⟨by omega, fun n hn => hstay ⟨n, hn⟩⟩
  refine ⟨hfront, hmoves, hall, hlast, ?_⟩
  intro i j t u hi hj ht hu
  have h1 := (hlast i t hi ht).1
  have h2 := (hlast j u hj hu).1
  omega

end Rmsgw.Session.OneCms
