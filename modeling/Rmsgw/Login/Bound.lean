/- How long the secure gateway login can be kept waiting: the lines that it reads
   against the lines that it counts. -/

import Rmsgw.Login.Steps

set_option autoImplicit false
set_option relaxedAutoImplicit false

namespace Rmsgw.Login.Bound

open Rmsgw.Lib.CStrings Rmsgw.Lib.Process Rmsgw.Rms Rmsgw.Login.Model Rmsgw.Login.Steps

/-- The CMS and the socket under it: the line that follows a transcript, and what
becomes of the line written next. -/
structure Peer where
  line : List Event → ReadResult
  outcome : List Event → Str → WriteResult
  fits : ∀ log text, WriteResult.fits text (outcome log text) = true

def Peer.answer (p : Peer) (g : Credentials) (s : State) : Answer :=
  match s.pending with
  | none => .readln (p.line s.log)
  | some line => .write (p.outcome s.log (lineText g s line))

/-- The login against a peer, after `n` system calls at most. -/
def after (g : Credentials) (p : Peer) (n : Nat) : State := drive (step g) (p.answer g) initial n

def isRead : Event → Bool
  | .read _ => true
  | .send _ _ _ => false

/-- A lone CR, which is eaten. -/
def isLoneCr : Event → Bool
  | .read (.line rbuf) => text rbuf == lit "\r"
  | _ => false

def linesRead (s : State) : Nat := s.log.countP isRead

def loneCrs (s : State) : Nat := s.log.countP isLoneCr

/-- sglProcess() returns, having called readln() at most `N` times. -/
def EndsWithin (g : Credentials) (N : Nat) (p : Peer) : Prop :=
  ∃ n, (after g p n).running = false ∧ linesRead (after g p n) ≤ N

/-- Lines other than lone CRs: five at most up to the login prompt, and one more
for the challenge. -/
def Pace (running : Bool) (sglState : SglState) (pending : Option Line) (loopCnt lines crs : Nat) :
    Prop :=
  match running, sglState, pending with
  | true, .callsign, none => lines ≤ crs + loopCnt ∧ loopCnt ≤ 4
  | true, .callsign, some .cr => lines ≤ crs + loopCnt ∧ loopCnt ≤ 4
  | true, .callsign, some .callsigns => lines ≤ crs + loopCnt + 1 ∧ loopCnt ≤ 4
  | true, .challenge, none => lines ≤ crs + 5
  | true, .challenge, some .response => lines ≤ crs + 6
  | true, _, _ => False
  | false, _, _ => lines ≤ crs + 6

def Paced (s : State) : Prop :=
  Pace s.running s.sglState s.pending s.loopCnt (linesRead s) (loneCrs s)

/-- Each line written follows a line read. -/
def Replies (s : State) : Prop :=
  s.log.length + (if s.pending = none then 0 else 1) ≤ 2 * linesRead s

private theorem linesRead_onRead (s : State) (r : ReadResult) :
    linesRead (onRead s r) = linesRead s + 1 := by
  rw [linesRead, log_onRead, List.countP_append]
  rfl

private theorem loneCrs_onRead (s : State) (r : ReadResult) :
    loneCrs (onRead s r) = loneCrs s + if isLoneCr (.read r) then 1 else 0 := by
  rw [loneCrs, log_onRead, List.countP_append, List.countP_singleton]
  rfl

private theorem linesRead_onSend (g : Credentials) (s : State) (line : Line) (r : WriteResult) :
    linesRead (onSend g s line r) = linesRead s := by
  rw [linesRead, log_onSend, List.countP_append]
  rfl

private theorem loneCrs_onSend (g : Credentials) (s : State) (line : Line) (r : WriteResult) :
    loneCrs (onSend g s line r) = loneCrs s := by
  rw [loneCrs, log_onSend, List.countP_append]
  rfl

private theorem paced_onRead_callsign {s : State} (hs : Paced s) (hrun : s.running = true)
    (hst : s.sglState = .callsign) (hpend : s.pending = none) (r : ReadResult) :
    Paced (onRead s r) := by
  unfold Paced at hs ⊢
  rw [linesRead_onRead, loneCrs_onRead]
  simp only [hrun, hst, hpend, Pace] at hs
  obtain ⟨hlines, hcnt⟩ := hs
  cases r with
  | line rbuf =>
      simp only [onRead, hst, onCallsign]
      split
      · rename_i hcr
        simp only [hrun, hpend, Pace, isLoneCr, hcr, beq_self_eq_true, if_true]
        omega
      split
      · simp only [hrun, Pace]
        omega
      split
      · simp only [State.stop, Pace]
        omega
      · rename_i hmore
        simp only [loopLimit] at hmore
        simp only [hrun, Pace]
        omega
  | eof =>
      simp only [onRead, hst, onCallsign, State.stop, Pace]
      omega
  | error =>
      simp only [onRead, hst, onCallsign, State.stop, Pace]
      omega

private theorem paced_onRead_challenge {s : State} (hs : Paced s) (hrun : s.running = true)
    (hst : s.sglState = .challenge) (hpend : s.pending = none) (r : ReadResult) :
    Paced (onRead s r) := by
  unfold Paced at hs ⊢
  rw [linesRead_onRead, loneCrs_onRead]
  simp only [hrun, hst, hpend, Pace] at hs
  cases r with
  | line rbuf =>
      simp only [onRead, hst, onChallenge]
      split
      · rename_i hcr
        simp only [hrun, hpend, Pace, isLoneCr, hcr, beq_self_eq_true, if_true]
        omega
      split
      · simp only [hrun, Pace]
        omega
      · simp only [State.stop, Pace]
        omega
  | eof =>
      simp only [onRead, hst, onChallenge, State.stop, Pace]
      omega
  | error =>
      simp only [onRead, hst, onChallenge, State.stop, Pace]
      omega

private theorem paced_onSend {g : Credentials} {s : State} {line : Line} (hs : Paced s)
    (hrun : s.running = true) (hpend : s.pending = some line) (r : WriteResult) :
    Paced (onSend g s line r) := by
  unfold Paced at hs ⊢
  rw [linesRead_onSend, loneCrs_onSend]
  cases hst : s.sglState with
  | callsign =>
      cases line with
      | callsigns =>
          simp only [hrun, hst, hpend, Pace] at hs
          simp only [onSend]
          split
          · simp only [State.stop, Pace]
            omega
          · simp only [hrun, Pace]
            omega
      | cr =>
          simp only [hrun, hst, hpend, Pace] at hs
          simp only [onSend]
          split
          · simp only [State.stop, Pace]
            omega
          · simp only [hrun, hst, Pace]
            exact hs
      | response => simp [Pace, hrun, hst, hpend] at hs
  | challenge =>
      cases line with
      | response =>
          simp only [hrun, hst, hpend, Pace] at hs
          simp only [onSend]
          split
          · exact hs
          · exact hs
      | _ => simp [Pace, hrun, hst, hpend] at hs
  | _ => cases line <;> simp [Pace, hrun, hst, hpend] at hs

private theorem paced_step {g : Credentials} {s t : State} {a : Answer} (h : step g s a = some t)
    (hs : Paced s) : Paced t := by
  cases step_trans h with
  | read hrun hpend r =>
      cases hst : s.sglState with
      | callsign => exact paced_onRead_callsign hs hrun hst hpend r
      | challenge => exact paced_onRead_challenge hs hrun hst hpend r
      | _ => simp [Paced, Pace, hrun, hst, hpend] at hs
  | send hrun line hpend r => exact paced_onSend hs hrun hpend r

private theorem Paced.linesRead_le {s : State} (h : Paced s) : linesRead s ≤ loneCrs s + 6 := by
  unfold Paced at h
  generalize linesRead s = lines at h ⊢
  generalize loneCrs s = crs at h ⊢
  unfold Pace at h
  split at h <;> first | exact h.elim | omega

private theorem replies_step {g : Credentials} {s t : State} {a : Answer} (h : step g s a = some t)
    (hs : Replies s) : Replies t := by
  unfold Replies at hs ⊢
  cases step_trans h with
  | read hrun hpend r =>
      rw [linesRead_onRead, log_onRead, List.length_append, List.length_singleton]
      simp only [hpend, if_true] at hs
      split <;> omega
  | send hrun line hpend r =>
      have hidle : (onSend g s line r).pending = none := by
        cases line <;> simp only [onSend] <;> split <;> rfl
      rw [linesRead_onSend, log_onSend, List.length_append, List.length_singleton, hidle]
      simp only [hpend, reduceCtorEq, if_false] at hs
      simpa using hs

private theorem log_grows {g : Credentials} {s t : State} {a : Answer} (h : step g s a = some t) :
    s.log.length < t.log.length := by
  cases step_trans h with
  | read hrun hpend r =>
      rw [log_onRead, List.length_append, List.length_singleton]
      exact Nat.lt_succ_self _
  | send hrun line hpend r =>
      rw [log_onSend, List.length_append, List.length_singleton]
      exact Nat.lt_succ_self _

private theorem step_answer_eq_none {g : Credentials} {p : Peer} {s : State}
    (h : step g s (p.answer g s) = none) : s.running = false := by
  cases hrun : s.running with
  | false => rfl
  | true =>
      cases hpend : s.pending with
      | none => simp [step, Peer.answer, hrun, hpend] at h
      | some line => simp [step, Peer.answer, hrun, hpend, p.fits] at h

private theorem paced_after (g : Credentials) (p : Peer) (n : Nat) : Paced (after g p n) :=
  drive_preserves (fun _ _ => paced_step) (s := initial) ⟨Nat.le_refl 0, Nat.zero_le 4⟩ n

private theorem replies_after (g : Credentials) (p : Peer) (n : Nat) : Replies (after g p n) :=
  drive_preserves (fun _ _ => replies_step) (s := initial) (Nat.le_refl 0) n

private theorem linesRead_mono {g : Credentials} {s t : State} {a : Answer}
    (h : step g s a = some t) : linesRead s ≤ linesRead t := by
  cases step_trans h with
  | read hrun hpend r =>
      rw [linesRead_onRead]
      exact Nat.le_succ _
  | send hrun line hpend r => rw [linesRead_onSend]

private theorem loneCrs_le_linesRead (s : State) : loneCrs s ≤ linesRead s := by
  refine List.countP_mono_left fun ev _ hcr => ?_
  cases ev with
  | read r => rfl
  | send line text r => cases hcr

private theorem endsWithin_of_loneCrs_le {g : Credentials} {p : Peer} {K : Nat}
    (h : ∀ n, loneCrs (after g p n) ≤ K) : EndsWithin g (K + 6) p := by
  have hlines : ∀ n, linesRead (after g p n) ≤ K + 6 := by
    intro n
    have := (paced_after g p n).linesRead_le
    have := h n
    omega
  have hlog : ∀ n, (drive (step g) (p.answer g) initial n).log.length ≤ 2 * (K + 6) := by
    intro n
    have hreply := replies_after g p n
    simp only [Replies, after] at hreply
    have := hlines n
    simp only [after] at this
    omega
  obtain ⟨n, hrest⟩ := drive_rests (fun _ _ => log_grows) hlog
  exact ⟨n, step_answer_eq_none hrest, hlines n⟩

private theorem loneCrs_le_of_endsWithin {g : Credentials} {p : Peer} {N : Nat}
    (h : EndsWithin g N p) (n : Nat) : loneCrs (after g p n) ≤ N := by
  obtain ⟨m, hstop, hlines⟩ := h
  refine Nat.le_trans (loneCrs_le_linesRead _) (Nat.le_trans ?_ hlines)
  rcases Nat.le_total n m with hnm | hmn
  · exact drive_monotone (fun _ _ => linesRead_mono) initial hnm
  · have hrest : step g (after g p m) (p.answer g (after g p m)) = none := by
      simp [step, hstop]
    exact Nat.le_of_eq (congrArg linesRead (drive_resting hmn hrest))

/-- For a given choice of peers there is one bound on the lines that any of them
can make sglProcess() read exactly when there is one on the lone CRs among these:
every other line is counted. -/
theorem login_ends_iff_loneCrs_bounded (g : Credentials) (peers : Peer → Prop) :
    (∃ N, ∀ p, peers p → EndsWithin g N p) ↔
      ∃ K, ∀ p, peers p → ∀ n, loneCrs (after g p n) ≤ K := by
  constructor
  · rintro ⟨N, hN⟩
    exact ⟨N, fun p hp => loneCrs_le_of_endsWithin (hN p hp)⟩
  · rintro ⟨K, hK⟩
    exact ⟨K + 6, fun p hp => endsWithin_of_loneCrs_le (hK p hp)⟩

/-- A CMS that sends lone CRs for ever. -/
private def crSender : Peer where
  line := fun _ => .line (lit "\r")
  outcome := fun _ _ => .failed
  fits := fun _ _ => rfl

private def operator : Credentials := ⟨lit "secret", lit "N0CALL", lit "W1AW-10", fun _ _ => 0⟩

private theorem crSender_waits (n : Nat) :
    after operator crSender n =
      { initial with log := List.replicate n (.read (.line (lit "\r"))) } := by
  induction n with
  | zero => rfl
  | succ n ih =>
      simp only [after] at ih
      simp only [after, drive, ih]
      rw [List.replicate_succ']
      rfl

/-- Lone CRs keep the login waiting for the prompt for any number of lines. -/
theorem lone_crs_hold_login :
    ∃ g p, (∀ n, (after g p n).running = true ∧ linesRead (after g p n) = n) ∧
      ¬ ∃ N, ∀ p, EndsWithin g N p := by
  refine ⟨operator, crSender, ?_, ?_⟩
  · intro n
    rw [crSender_waits]
    refine ⟨rfl, ?_⟩
    simp only [linesRead, List.countP_replicate, isRead, if_true]
  · rintro ⟨N, hN⟩
    obtain ⟨n, hstop, -⟩ := hN crSender
    rw [crSender_waits] at hstop
    cases hstop

end Rmsgw.Login.Bound
