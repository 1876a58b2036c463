/- Every exit of gateway(): the error code tells whether the login was passed. -/

import Rmsgw.Gateway.Steps

set_option autoImplicit false
set_option relaxedAutoImplicit false

namespace Rmsgw.Gateway.Exit

open Rmsgw.Lib.Process Rmsgw.Rms Rmsgw.Gateway.Model Rmsgw.Gateway.Steps

/-- gateway() has passed cmslogin() and gone on to the relay loop. -/
def loggedIn (s : State) : Bool := s.log.contains (.gwState .gwLoggedIn)

/-- The error code against the progress of the conversation. -/
def CodeFits (s : State) : Prop :=
  match s.pc with
  | .login => loggedIn s = false ∧ s.rc.errcode = 0
  | .done =>
      (loggedIn s = false ∧ s.rc.errcode = errGwLogin) ∨
        (loggedIn s = true ∧ (0 ≤ s.rc.errcode ∨ s.rc.errcode ≤ errGwFatal))
  | _ => loggedIn s = true ∧ (s.rc.errcode = 0 ∨ s.rc.errcode = 10)

theorem loggedIn_append {log : List Event} {s : State} (es : List Event)
    (h : loggedIn s = true) (hlog : log = s.log ++ es) :
    log.contains (.gwState .gwLoggedIn) = true := by
  rw [hlog]
  simp only [loggedIn, List.contains_iff_mem] at h ⊢
  exact List.mem_append_left _ h

/-- The login was passed, and no exit has set a code yet. -/
def Relaying (s : State) : Prop :=
  loggedIn s = true ∧ (s.rc.errcode = 0 ∨ s.rc.errcode = 10)

private theorem codeFits_goto {s : State} {pc : Pc} (es : List Event) (hlogin : pc ≠ .login)
    (hdone : pc ≠ .done) (h : Relaying s) : CodeFits (s.goto pc es) := by
  have hin : loggedIn (s.goto pc es) = true := loggedIn_append es h.1 rfl
  cases pc <;> first | exact absurd rfl hlogin | exact absurd rfl hdone | exact ⟨hin, h.2⟩

private theorem codeFits_finish {s : State} {code : Int} (es : List Event) (hin : loggedIn s = true)
    (hcode : 0 ≤ code ∨ code ≤ errGwFatal) : CodeFits (s.finish code es) :=
  .inr ⟨loggedIn_append es hin rfl, hcode⟩

private theorem codeFits_endOfRound {s : State} (hs : Relaying s) : CodeFits (endOfRound s) := by
  rcases endOfRound_cases s with ⟨-, h⟩ | ⟨-, h⟩
  · rw [h]
    exact codeFits_goto (s := { s with loop := s.loop + 1 }) _ (by decide) (by decide) hs
  · rw [h]
    refine codeFits_finish _ hs.1 (.inl ?_)
    split <;> decide

private theorem codeFits_axHalf {s : State} (hs : Relaying s) : CodeFits (axHalf s) := by
  rcases axHalf_cases s with h | h
  · rw [h]
    exact codeFits_goto _ (by decide) (by decide) hs
  · rw [h]
    exact codeFits_endOfRound hs

private theorem uplinkSense_errcode (e : Env) (buf : List UInt8) (n : Nat) (sense : Sense)
    (code : Int) : (uplinkSense e buf n sense code).errcode = code ∨
      (uplinkSense e buf n sense code).errcode = 10 := by
  unfold uplinkSense
  split
  · exact .inl rfl
  split
  · split
    · exact .inr rfl
    · exact .inl rfl
  · exact .inl rfl

private theorem downlinkSense_errcode (e : Env) (buf : List UInt8) (n : Nat) (sense : Sense)
    (code : Int) : (downlinkSense e buf n sense code).errcode = code ∨
      (downlinkSense e buf n sense code).errcode = 10 := by
  unfold downlinkSense
  split
  · exact .inl rfl
  split
  · split
    · exact .inr rfl
    · exact .inl rfl
  · exact .inl rfl

theorem CodeFits.relaying {s : State} (h : CodeFits s) (hlogin : s.pc ≠ .login)
    (hdone : s.pc ≠ .done) : Relaying s := by
  cases hpc : s.pc <;> simp only [CodeFits, hpc] at h <;>
    first | exact absurd hpc hlogin | exact absurd hpc hdone | exact h

theorem trans_not_done {e : Env} {s t : State} {a : Answer} (h : Trans e s a t) : s.pc ≠ .done := by
  cases h <;> rename_i at_ <;> simp [*]

theorem codeFits_step {e : Env} {s t : State} {a : Answer} (h : Trans e s a t) (hs : CodeFits s) :
    CodeFits t := by
  have hrelay : s.pc ≠ .login → Relaying s := fun hlogin => hs.relaying hlogin (trans_not_done h)
  cases h with
  | loginOk at_ =>
      simp only [CodeFits, at_] at hs
      refine ⟨?_, .inl hs.2⟩
      simp [loggedIn, State.goto]
  | loginFailed at_ =>
      simp only [CodeFits, at_] at hs
      exact .inl ⟨by simpa [loggedIn, State.finish] using hs.1, rfl⟩
  | sockOk at_ => exact codeFits_goto _ (by decide) (by decide) (hrelay (by simp [at_]))
  | sockFailed at_ => exact codeFits_finish _ (hrelay (by simp [at_])).1 (.inr (by decide))
  | stdinOk at_ => exact codeFits_goto _ (by decide) (by decide) (hrelay (by simp [at_]))
  | stdinFailed at_ => exact codeFits_finish _ (hrelay (by simp [at_])).1 (.inr (by decide))
  | selectCms at_ ax =>
      exact codeFits_goto (s := { s with axReady := ax }) _ (by decide) (by decide)
        (hrelay (by simp [at_]))
  | selectAx at_ ax =>
      exact codeFits_axHalf (s := { s with axReady := ax }) (hrelay (by simp [at_]))
  | peekClosed at_ => exact codeFits_finish _ (hrelay (by simp [at_])).1 (.inl (by decide))
  | peekByte at_ b =>
      exact codeFits_goto (s := { s with buf := s.buf.overwrite [b] (byte_fits b) }) _ (by decide)
        (by decide) (hrelay (by simp [at_]))
  | peekFailed at_ => exact codeFits_goto _ (by decide) (by decide) (hrelay (by simp [at_]))
  | cmsChunk at_ c =>
      obtain ⟨hin, hcode⟩ := hrelay (by simp [at_])
      have hcode' := uplinkSense_errcode e (s.buf.overwrite c.bytes c.fits).bytes c.bytes.length
        s.sense s.rc.errcode
      simp only [onCmsChunk]
      split
      · exact codeFits_goto _ (by decide) (by decide) ⟨hin, by simp only; omega⟩
      · exact codeFits_goto _ (by decide) (by decide) ⟨hin, by simp only; omega⟩
  | cmsDrained at_ => exact codeFits_axHalf (hrelay (by simp [at_]))
  | axWrote at_ m hm =>
      have hs' := hrelay (by simp [at_])
      split
      · exact codeFits_goto _ (by decide) (by decide) ⟨hs'.1, hs'.2⟩
      · exact codeFits_goto _ (by decide) (by decide) ⟨hs'.1, hs'.2⟩
  | axRetry at_ again =>
      have hs' := hrelay (by simp [at_])
      exact codeFits_goto _ (by decide) (by decide) ⟨hs'.1, hs'.2⟩
  | axGiveUp at_ enough =>
      exact codeFits_finish (s := { s with retryCount := s.retryCount + 1 }) _
        (hrelay (by simp [at_])).1 (.inr (by decide))
  | axFailed at_ => exact codeFits_finish _ (hrelay (by simp [at_])).1 (.inr (by decide))
  | axChunk at_ c =>
      obtain ⟨hin, hcode⟩ := hrelay (by simp [at_])
      have hcode' := downlinkSense_errcode e (s.buf.overwrite c.bytes c.fits).bytes c.bytes.length
        s.sense s.rc.errcode
      exact codeFits_goto _ (by decide) (by decide) ⟨hin, by simp only; omega⟩
  | axDrained at_ => exact codeFits_endOfRound (hrelay (by simp [at_]))
  | cmsWrote at_ m hm =>
      have hs' := hrelay (by simp [at_])
      split
      · exact codeFits_goto _ (by decide) (by decide) ⟨hs'.1, hs'.2⟩
      · exact codeFits_goto _ (by decide) (by decide) ⟨hs'.1, hs'.2⟩
  | cmsRetry at_ =>
      have hs' := hrelay (by simp [at_])
      exact codeFits_goto _ (by decide) (by decide) ⟨hs'.1, hs'.2⟩
  | cmsFailed at_ => exact codeFits_finish _ (hrelay (by simp [at_])).1 (.inr (by decide))

private theorem codeFits_run {e : Env} {as : List Answer} {s : State}
    (h : run (step e) initial as = some s) : CodeFits s :=
  run_preserves (fun _ _ _ hst hs => codeFits_step (step_trans hst) hs) h ⟨by decide, rfl⟩

/-- A finished conversation reports a login error exactly when it was not logged in. -/
theorem done_login_error_iff {e : Env} {as : List Answer} {s : State}
    (h : run (step e) initial as = some s) (hdone : s.pc = .done) :
    loggedIn s = false ↔ s.rc.errcode < 0 ∧ errGwFatal < s.rc.errcode := by
  have hfits := codeFits_run h
  simp only [CodeFits, hdone] at hfits
  rcases hfits with ⟨hin, hcode⟩ | ⟨hin, hcode⟩
  · simp [hin, hcode, errGwLogin, errGwFatal]
  · simp only [hin, Bool.true_eq_false, false_iff]
    omega

/-- What a step adds to the log: never the state GW_IDLE, and the close of the
socket exactly when it ends a conversation that was logged in. -/
def Adds (s t : State) : Prop :=
  ∃ es, t.log = s.log ++ es ∧ Event.gwState .gwIdle ∉ es ∧
    es.count .closeSock = if t.pc = .done ∧ loggedIn t = true then 1 else 0

private theorem adds_goto (s : State) {pc : Pc} {es : List Event} (hdone : pc ≠ .done)
    (hidle : Event.gwState .gwIdle ∉ es) (hclose : Event.closeSock ∉ es) : Adds s (s.goto pc es) :=
  ⟨es, rfl, hidle, by simp [State.goto, hdone, List.count_eq_zero.mpr hclose]⟩

private theorem adds_finish {s : State} (hin : loggedIn s = true) {code : Int} {es : List Event}
    (hidle : Event.gwState .gwIdle ∉ es) (hclose : es.count .closeSock = 1) :
    Adds s (s.finish code es) := by
  have hin' : loggedIn (s.finish code es) = true := loggedIn_append es hin rfl
  refine ⟨es, rfl, hidle, ?_⟩
  rw [if_pos ⟨rfl, hin'⟩]
  exact hclose

private theorem adds_endOfRound {s : State} (hin : loggedIn s = true) : Adds s (endOfRound s) := by
  rcases endOfRound_cases s with ⟨-, h⟩ | ⟨-, h⟩
  · rw [h]
    exact adds_goto { s with loop := s.loop + 1 } (by decide) (by decide) (by decide)
  · rw [h]
    exact adds_finish (s := { s with loop := s.loop + 1 }) hin (by decide) (by decide)

private theorem adds_axHalf {s : State} (hin : loggedIn s = true) : Adds s (axHalf s) := by
  rcases axHalf_cases s with h | h
  · rw [h]
    exact adds_goto s (by decide) (by decide) (by decide)
  · rw [h]
    exact adds_endOfRound hin

private theorem adds_step {e : Env} {s t : State} {a : Answer} (h : Trans e s a t)
    (hs : CodeFits s) : Adds s t := by
  have hin : s.pc ≠ .login → loggedIn s = true := fun hlogin =>
    (hs.relaying hlogin (trans_not_done h)).1
  cases h with
  | loginOk at_ => exact adds_goto s (by decide) (by decide) (by decide)
  | loginFailed at_ =>
      simp only [CodeFits, at_] at hs
      refine ⟨[], by simp [State.finish], by simp, ?_⟩
      have hout : loggedIn (s.finish errGwLogin []) = false := by
        simpa [loggedIn, State.finish] using hs.1
      simp [hout]
  | sockOk at_ => exact adds_goto s (by decide) (by decide) (by decide)
  | sockFailed at_ => exact adds_finish (hin (by simp [at_])) (by decide) (by decide)
  | stdinOk at_ => exact adds_goto s (by decide) (by decide) (by decide)
  | stdinFailed at_ => exact adds_finish (hin (by simp [at_])) (by decide) (by decide)
  | selectCms at_ ax => exact adds_goto { s with axReady := ax } (by decide) (by decide) (by decide)
  | selectAx at_ ax =>
      exact adds_axHalf (s := { s with axReady := ax }) (hin (by simp [at_]))
  | peekClosed at_ =>
      exact adds_finish (hin (by simp [at_])) (by simp) (by simp)
  | peekByte at_ b =>
      exact adds_goto { s with buf := s.buf.overwrite [b] (byte_fits b) } (by decide) (by decide)
        (by decide)
  | peekFailed at_ => exact adds_goto s (by decide) (by decide) (by decide)
  | cmsChunk at_ c =>
      simp only [onCmsChunk]
      split
      · exact adds_goto _ (by decide) (by simp) (by simp)
      · exact adds_goto _ (by decide) (by simp) (by simp)
  | cmsDrained at_ => exact adds_axHalf (hin (by simp [at_]))
  | axWrote at_ m hm => split <;> exact adds_goto _ (by decide) (by simp) (by simp)
  | axRetry at_ again => exact adds_goto _ (by decide) (by simp) (by simp)
  | axGiveUp at_ enough =>
      exact adds_finish (s := { s with retryCount := s.retryCount + 1 })
        (hin (by simp [at_])) (by simp) (by simp)
  | axFailed at_ =>
      exact adds_finish (hin (by simp [at_])) (by simp) (by simp)
  | axChunk at_ c => exact adds_goto _ (by decide) (by simp) (by simp)
  | axDrained at_ => exact adds_endOfRound (hin (by simp [at_]))
  | cmsWrote at_ m hm => split <;> exact adds_goto _ (by decide) (by simp) (by simp)
  | cmsRetry at_ => exact adds_goto _ (by decide) (by simp) (by simp)
  | cmsFailed at_ =>
      exact adds_finish (hin (by simp [at_])) (by simp) (by simp)

/-- gateway() never sets GW_IDLE, and has closed the socket exactly once at the end
of a conversation that was logged in, and not at all elsewhere. -/
structure LogFits (s : State) : Prop where
  code : CodeFits s
  idle : Event.gwState .gwIdle ∉ s.log
  closed : s.log.count .closeSock = if s.pc = .done ∧ loggedIn s = true then 1 else 0

theorem logFits_run {e : Env} {as : List Answer} {s : State}
    (h : run (step e) initial as = some s) : LogFits s := by
  refine run_preserves (P := LogFits) (fun s a t hst hs => ?_) h
    ⟨⟨by decide, rfl⟩, by decide, by decide⟩
  have htrans := step_trans hst
  obtain ⟨es, hlog, hidle, hclose⟩ := adds_step htrans hs.code
  have hopen : s.log.count .closeSock = 0 := by
    rw [hs.closed, if_neg fun hdone => trans_not_done htrans hdone.1]
  refine ⟨codeFits_step htrans hs.code, ?_, ?_⟩
  · rw [hlog, List.mem_append]
    exact fun hmem => hmem.elim hs.idle hidle
  · rw [hlog, List.count_append, hopen, Nat.zero_add]
    exact hclose

end Rmsgw.Gateway.Exit
