/- What the verdict of the secure gateway login says: a login counts as complete
   once the response has been offered, whatever came of the write. -/

import Rmsgw.Gateway.Model
import Rmsgw.Login.Safety

set_option autoImplicit false
set_option relaxedAutoImplicit false

namespace Rmsgw.Login.Verdict

open Rmsgw.Lib.CStrings Rmsgw.Lib.Process Rmsgw.Rms Rmsgw.Login.Model Rmsgw.Login.Steps
open Rmsgw.Login.Safety (attempts)

/-- cmslogin(): without a channel or a configuration there is no conversation. -/
def cmslogin (c cfg : Bool) (sgl : State) : Int :=
  if c = false then fail
  else if cfg = false then fail
  else returnCode sgl

/-- `cmslogin(..) < 0` in gateway(). -/
def loginAnswer (rc : Int) : Gateway.Model.Answer := .login (!decide (rc < 0))

/-- The response line was written as a whole. -/
def ResponseWritten (s : State) : Prop :=
  ∃ text, Event.send .response text (.wrote text.length) ∈ s.log

/-- The last thing done was to offer the response line to the CMS. -/
def ResponseOffered (g : Credentials) (s : State) : Prop :=
  ∃ front r, s.log = front ++ [.send .response (lineText g s .response) r]

def Unanswered (s : State) : Prop := ∀ e ∈ s.log, attempts .response e = false

/-- What the state of the machine says about the response. -/
def Inv (g : Credentials) (s : State) : Prop :=
  match s.sglState, s.running with
  | .callsign, true => s.pending ≠ some .response ∧ Unanswered s
  | .challenge, true => (s.pending = none ∨ s.pending = some .response) ∧ Unanswered s
  | .callsignFail, false => Unanswered s
  | .challengeFail, false => Unanswered s
  | .responseSent, false => ResponseOffered g s
  | .loginComplete, false => ResponseOffered g s
  | _, _ => False

private theorem unanswered_snoc {s t : State} {e : Event} (h : Unanswered s)
    (hlog : t.log = s.log ++ [e]) (he : attempts .response e = false) : Unanswered t := by
  intro x hx
  rw [hlog, List.mem_append, List.mem_singleton] at hx
  rcases hx with hx | rfl
  · exact h x hx
  · exact he

private theorem inv_onRead {g : Credentials} {s : State} (hs : Inv g s) (hrun : s.running = true)
    (hpend : s.pending = none) (r : ReadResult) : Inv g (onRead s r) := by
  have hread : Unanswered s → ∀ t : State, t.log = s.log ++ [.read r] → Unanswered t :=
    fun h t hlog => unanswered_snoc h hlog rfl
  cases hst : s.sglState with
  | callsign =>
      simp only [Inv, hst, hrun] at hs
      cases r with
      | line rbuf =>
          simp only [onRead, hst, onCallsign]
          split
          · simp only [Inv, hrun]
            exact ⟨hs.1, hread hs.2 _ rfl⟩
          split
          · simp only [Inv, hrun]
            exact ⟨by simp, hread hs.2 _ rfl⟩
          split
          · exact hread hs.2 _ rfl
          · simp only [Inv, hrun]
            exact ⟨by simp, hread hs.2 _ rfl⟩
      | eof => simp only [onRead, hst, onCallsign]; exact hread hs.2 _ rfl
      | error => simp only [onRead, hst, onCallsign]; exact hread hs.2 _ rfl
  | challenge =>
      simp only [Inv, hst, hrun] at hs
      cases r with
      | line rbuf =>
          simp only [onRead, hst, onChallenge]
          split
          · simp only [Inv, hrun]
            exact ⟨.inl hpend, hread hs.2 _ rfl⟩
          split
          · simp only [Inv, hrun]
            exact ⟨.inr trivial, hread hs.2 _ rfl⟩
          · exact hread hs.2 _ rfl
      | eof => simp only [onRead, hst, onChallenge]; exact hread hs.2 _ rfl
      | error => simp only [onRead, hst, onChallenge]; exact hread hs.2 _ rfl
  | _ => simp [Inv, hst, hrun] at hs

private theorem inv_onSend {g : Credentials} {s : State} {line : Line} (hs : Inv g s)
    (hrun : s.running = true) (hpend : s.pending = some line) (r : WriteResult) :
    Inv g (onSend g s line r) := by
  cases hst : s.sglState with
  | callsign =>
      simp only [Inv, hst, hrun, hpend] at hs
      obtain ⟨hline, hnone⟩ := hs
      cases line with
      | callsigns =>
          have hsent : ∀ t : State,
              t.log = s.log ++ [.send .callsigns (lineText g s .callsigns) r] → Unanswered t :=
            fun t hlog => unanswered_snoc hnone hlog rfl
          simp only [onSend]
          split
          · exact hsent _ rfl
          · simp only [Inv, hrun]
            exact ⟨.inl trivial, hsent _ rfl⟩
      | cr =>
          have hsent : ∀ t : State,
              t.log = s.log ++ [.send .cr (lineText g s .cr) r] → Unanswered t :=
            fun t hlog => unanswered_snoc hnone hlog rfl
          simp only [onSend]
          split
          · exact hsent _ rfl
          · simp only [Inv, hst, hrun]
            exact ⟨by simp, hsent _ rfl⟩
      | response => exact absurd rfl hline
  | challenge =>
      simp only [Inv, hst, hrun, hpend] at hs
      obtain rfl : line = .response := by simpa using hs.1
      simp only [onSend]
      split
      · exact ⟨s.log, r, rfl⟩
      · exact ⟨s.log, r, rfl⟩
  | _ => simp [Inv, hst, hrun] at hs

private theorem inv_step {g : Credentials} {s t : State} {a : Answer} (h : step g s a = some t)
    (hs : Inv g s) : Inv g t := by
  cases step_trans h with
  | read hrun hpend r => exact inv_onRead hs hrun hpend r
  | send hrun line hpend r => exact inv_onSend hs hrun hpend r

private theorem offered_not_unanswered {g : Credentials} {s : State} (h : ResponseOffered g s) :
    ¬ Unanswered s := by
  obtain ⟨front, r, hlog⟩ := h
  intro hnone
  have hmem : Event.send .response (lineText g s .response) r ∈ s.log := by rw [hlog]; simp
  have hfalse := hnone _ hmem
  simp [attempts] at hfalse

/-- A finished conversation has failed with no response attempted, or has
succeeded and the response was the last thing offered. -/
private theorem Inv.finished {g : Credentials} {s : State} (h : Inv g s)
    (hdone : s.running = false) :
    (returnCode s = fail ∧ Unanswered s) ∨ (returnCode s = succeed ∧ ResponseOffered g s) := by
  cases hst : s.sglState with
  | callsignFail => simp only [Inv, hst, hdone] at h; exact .inl ⟨by simp [returnCode, hst], h⟩
  | challengeFail => simp only [Inv, hst, hdone] at h; exact .inl ⟨by simp [returnCode, hst], h⟩
  | responseSent => simp only [Inv, hst, hdone] at h; exact .inr ⟨by simp [returnCode, hst], h⟩
  | loginComplete => simp only [Inv, hst, hdone] at h; exact .inr ⟨by simp [returnCode, hst], h⟩
  | _ => simp [Inv, hst, hdone] at h

/-- Once sglProcess() has returned, it and cmslogin() report success, and gateway()
goes on to the relay loop, exactly when the last thing done was to offer the whole
response line to the CMS, whatever came of this write; and failure exactly when no
response was attempted. -/
theorem login_succeeds_iff_offered (g : Credentials) (as : List Answer) (s : State)
    (h : run (step g) initial as = some s) (hdone : s.running = false) :
    (cmslogin true true s = succeed ↔ ResponseOffered g s) ∧
      (cmslogin true true s = fail ↔ Unanswered s) ∧
      (loginAnswer (cmslogin true true s) = .login true ↔ ResponseOffered g s) := by
  have hinit : Inv g initial := ⟨by simp [initial], fun e he => by cases he⟩
  have hinv : Inv g s := run_preserves (fun _ _ _ hstep => inv_step hstep) h hinit
  have hcode : cmslogin true true s = returnCode s := rfl
  rw [hcode]
  rcases hinv.finished hdone with ⟨hrc, hnone⟩ | ⟨hrc, hoffered⟩
  · have hno : ¬ ResponseOffered g s := fun ho => offered_not_unanswered ho hnone
    rw [hrc]
    exact ⟨iff_of_false (by decide) hno, iff_of_true rfl hnone, iff_of_false (by decide) hno⟩
  · have hno := offered_not_unanswered hoffered
    rw [hrc]
    exact ⟨iff_of_true rfl hoffered, iff_of_false (by decide) hno, iff_of_true rfl hoffered⟩

private def caller : Credentials := ⟨lit "SECRET", lit "N0USR", lit "N0GWY-10", fun _ _ => 0⟩

private def answeredWith (r : WriteResult) : List Answer :=
  [.readln (.line (lit "Callsign :\r")), .write (.wrote 15),
    .readln (.line (lit ";SQ: 12345678\r")), .write r]

theorem login_succeeds_iff_offered_complete :
    ∃ s, run (step caller) initial (answeredWith (.wrote 26)) = some s ∧
      (cmslogin true true s = succeed ↔ ResponseOffered caller s) ∧
      (cmslogin true true s = fail ↔ Unanswered s) ∧
      (loginAnswer (cmslogin true true s) = .login true ↔ ResponseOffered caller s) := by
  have hend : (run (step caller) initial (answeredWith (.wrote 26))).map State.running =
      some false := by decide
  obtain ⟨s, hs, hdone⟩ := Option.map_eq_some_iff.mp hend
  exact ⟨s, hs, login_succeeds_iff_offered caller _ s hs hdone⟩

/-- Three of the twenty-six bytes of the response are written, and the login succeeds. -/
theorem short_response_succeeds :
    ∃ s, run (step caller) initial (answeredWith (.wrote 3)) = some s ∧ s.running = false ∧
      cmslogin true true s = succeed ∧ ¬ ResponseWritten s := by
  have hend : (run (step caller) initial (answeredWith (.wrote 3))).map
      (fun s => (s.running, cmslogin true true s, s.log.map (attempts .response), s.log.getLast?)) =
        some (false, succeed, [false, false, false, true],
          some (.send .response (lit ";SR: 00000000 25000001 20\r") (.wrote 3))) := by decide
  obtain ⟨s, hs, heq⟩ := Option.map_eq_some_iff.mp hend
  simp only [Prod.mk.injEq] at heq
  obtain ⟨hdone, hcode, hattempts, hlast⟩ := heq
  refine ⟨s, hs, hdone, hcode, ?_⟩
  rintro ⟨text, hmem⟩
  obtain ⟨front, hlog⟩ := List.getLast?_eq_some_iff.mp hlast
  rw [hlog, List.map_append] at hattempts
  have hfront : front.map (attempts .response) = [false, false, false] :=
    (List.append_inj' hattempts rfl).1
  rw [hlog, List.mem_append, List.mem_singleton] at hmem
  rcases hmem with hmem | hmem
  · have hin := List.mem_map_of_mem (f := attempts .response) hmem
    rw [hfront] at hin
    simp [attempts] at hin
  · simp only [Event.send.injEq, true_and, WriteResult.wrote.injEq] at hmem
    obtain ⟨rfl, hlen⟩ := hmem
    exact absurd hlen (by decide)

end Rmsgw.Login.Verdict
