/- The secure gateway login on the byte stream of its socket: sglProcess() with
   readln() taking its lines from the stream. -/

import Rmsgw.Login.Bound
import Rmsgw.Readln.Lines

set_option autoImplicit false
set_option relaxedAutoImplicit false

namespace Rmsgw.Login.Stream

open Rmsgw.Lib.CStrings Rmsgw.Lib.Process Rmsgw.Rms Rmsgw.Login.Model
open Rmsgw.Readln.Model Rmsgw.Readln.Lines
open Rmsgw.Login.Steps (step_trans Trans)

/-- `sizeof(rbuf)`. -/
def rbufSize : Nat := 1024

def carriageReturn : UInt8 := 13

/-- sglProcess() and its socket: the bytes not read yet, `rbuf`, and what each call
of readln() has taken. -/
structure State where
  login : Model.State
  src : Source
  rbuf : List UInt8
  taken : List Str

def start (src : Source) (rbuf : List UInt8) : State := ⟨Model.initial, src, rbuf, []⟩

/-- What a call of readln() brings: nothing or an error, or else the buffer. -/
def received (r : Result) : ReadResult :=
  if r.rc = 0 then .eof
  else if r.rc < 0 then .error
  else .line r.buf

/-- From one call to the next; only what write() returns comes from outside. -/
def step (g : Credentials) : Step State (Option WriteResult) := fun s a =>
  match s.login.pending, a with
  | none, none =>
      let r := readln s.src s.rbuf rbufSize carriageReturn
      (Model.step g s.login (.readln (received r))).map
        (fun l => ⟨l, r.rest, r.buf, s.taken ++ [r.stored]⟩)
  | some _, some w => (Model.step g s.login (.write w)).map (fun l => { s with login := l })
  | _, _ => none

/-- A piece of the stream reads as a line with `needle` in it. -/
def Says (needle : Str) (piece : Str) : Prop := strcasestr (text piece) needle = true

def LoneCr (piece : Str) : Prop := text piece = lit "\r"

/-- Lines without a prompt, and then one with it. -/
def Prompted (lines : List Str) : Prop :=
  ∃ before prompt, lines = before ++ [prompt] ∧
    (∀ p ∈ before, ¬ Says (lit "Callsign :") p) ∧ Says (lit "Callsign :") prompt

/-- Behind the prompt nothing but lone CRs, and then the challenge. -/
def Challenged (lines : List Str) : Prop :=
  ∃ prompted crs challenge, lines = prompted ++ (crs ++ [challenge]) ∧ Prompted prompted ∧
    (∀ p ∈ crs, LoneCr p) ∧ ¬ LoneCr challenge ∧ Says (lit ";SQ: ") challenge

/-- What the pieces taken so far say, by the state of the machine. -/
def Heard (s : State) : Prop :=
  match s.login.sglState, s.login.running with
  | .callsign, true =>
      if s.login.pending = some .callsigns then Prompted s.taken
      else s.login.pending ≠ some .response ∧ ∀ p ∈ s.taken, ¬ Says (lit "Callsign :") p
  | .challenge, true =>
      if s.login.pending = some .response then Challenged s.taken
      else s.login.pending = none ∧ ∃ prompted crs, s.taken = prompted ++ crs ∧
        Prompted prompted ∧ ∀ p ∈ crs, LoneCr p
  | .responseSent, false => Challenged s.taken
  | .loginComplete, false => Challenged s.taken
  | .callsignFail, false => True
  | .challengeFail, false => True
  | _, _ => False

/-- No byte of the stream is lost, and each piece but the last is a line or a full buffer. -/
structure Cut (src : Source) (s : State) : Prop where
  all : src.bytes = s.taken.flatten ++ s.src.bytes
  pieces : ∀ p ∈ s.taken, p.length ≤ rbufSize - 1 ∧ carriageReturn ∉ p.dropLast
  whole : ∀ p ∈ s.taken, p.getLast? = some carriageReturn ∨ p.length = rbufSize - 1 ∨
    s.src.bytes = []

private theorem text_append_zero (s rest : List UInt8) : text (s ++ 0 :: rest) = text s := by
  induction s with
  | nil => rfl
  | cons b s ih =>
      by_cases hb : b = 0
      · subst hb
        rfl
      · rw [List.cons_append, text_cons_of_ne hb, text_cons_of_ne hb, ih]

private theorem received_cases (src : Source) (buf : List UInt8) :
    (∃ rbuf, received (readln src buf rbufSize carriageReturn) = .line rbuf ∧
        text rbuf = text (readln src buf rbufSize carriageReturn).stored) ∨
      received (readln src buf rbufSize carriageReturn) = .eof ∨
      received (readln src buf rbufSize carriageReturn) = .error := by
  have hreturns := readln_returns src buf rbufSize (show carriageReturn < 128 by decide)
  generalize readln src buf rbufSize carriageReturn = r at hreturns ⊢
  have line : 0 < r.rc → r.buf = strcpy buf r.stored →
      ∃ rbuf, received r = .line rbuf ∧ text rbuf = text r.stored := by
    intro hpos hbuf
    refine ⟨r.buf, ?_, ?_⟩
    · rw [received, if_neg (by omega), if_neg (by omega)]
    · rw [hbuf, strcpy, text_append_zero]
  cases hreturns with
  | line front stored before short rc kept =>
      have hlen : r.stored.length = front.length + 1 := by simp [stored]
      exact .inl (line (by omega) kept)
  | full stored none rc kept => exact .inl (line (by omega) kept)
  | cut some short none all ending rc kept => exact .inl (line (by omega) kept)
  | nothing all ending rc => exact .inr (.inl (by rw [received, if_pos rc]))
  | failed short none all ending rc =>
      exact .inr (.inr (by rw [received, if_neg (by omega), if_pos (by omega)]))

section Runs

variable {g : Credentials} {src : Source} {s t : State} {a : Option WriteResult}

private theorem step_cases (h : step g s a = some t) :
    (s.login.running = true ∧ s.login.pending = none ∧
        t = ⟨onRead s.login (received (readln s.src s.rbuf rbufSize carriageReturn)),
          (readln s.src s.rbuf rbufSize carriageReturn).rest,
          (readln s.src s.rbuf rbufSize carriageReturn).buf,
          s.taken ++ [(readln s.src s.rbuf rbufSize carriageReturn).stored]⟩) ∨
      ∃ line w, s.login.running = true ∧ s.login.pending = some line ∧
        t = { s with login := onSend g s.login line w } := by
  simp only [step] at h
  split at h
  · obtain ⟨l, hl, rfl⟩ := Option.map_eq_some_iff.mp h
    cases step_trans hl with
    | read hrun idle => exact .inl ⟨hrun, idle, rfl⟩
  · obtain ⟨l, hl, rfl⟩ := Option.map_eq_some_iff.mp h
    cases step_trans hl with
    | send hrun line busy => exact .inr ⟨line, _, hrun, busy, rfl⟩
  · cases h

/-- The login on a stream is the login machine on the lines of the stream. -/
theorem run_login {as : List (Option WriteResult)} {rbuf : List UInt8}
    (h : run (step g) (start src rbuf) as = some s) :
    ∃ answers, run (Model.step g) Model.initial answers = some s.login := by
  refine run_induction (P := fun _ s => ∃ answers,
    run (Model.step g) Model.initial answers = some s.login) ⟨[], rfl⟩ ?_ h
  rintro _ u a t hstep ⟨answers, hrun⟩
  simp only [step] at hstep
  split at hstep
  · obtain ⟨l, hl, rfl⟩ := Option.map_eq_some_iff.mp hstep
    exact ⟨_, run_snoc_eq_some.mpr ⟨u.login, hrun, hl⟩⟩
  · obtain ⟨l, hl, rfl⟩ := Option.map_eq_some_iff.mp hstep
    exact ⟨_, run_snoc_eq_some.mpr ⟨u.login, hrun, hl⟩⟩
  · cases hstep

private theorem cut_step (h : step g s a = some t) (hs : Cut src s) : Cut src t := by
  rcases step_cases h with ⟨-, -, rfl⟩ | ⟨line, w, -, -, rfl⟩
  · have htakes := (readln_takes s.src s.rbuf rbufSize carriageReturn).1
    have hreturns := readln_returns s.src s.rbuf rbufSize (show carriageReturn < 128 by decide)
    generalize readln s.src s.rbuf rbufSize carriageReturn = r at htakes hreturns ⊢
    have hpiece : r.stored.length ≤ rbufSize - 1 ∧ carriageReturn ∉ r.stored.dropLast := by
      cases hreturns with
      | line front stored before short rc kept =>
          rw [stored, List.length_append, List.length_singleton, List.dropLast_concat]
          exact ⟨short, before⟩
      | full stored none rc kept =>
          exact ⟨Nat.le_of_eq stored, fun hmem => none (List.mem_of_mem_dropLast hmem)⟩
      | cut some short none all ending rc kept =>
          exact ⟨Nat.le_of_lt short, fun hmem => none (List.mem_of_mem_dropLast hmem)⟩
      | nothing all ending rc => rw [all.1]; exact ⟨by simp, by simp⟩
      | failed short none all ending rc =>
          exact ⟨Nat.le_of_lt short, fun hmem => none (List.mem_of_mem_dropLast hmem)⟩
    have hwhole : r.stored.getLast? = some carriageReturn ∨ r.stored.length = rbufSize - 1 ∨
        r.rest.bytes = [] := by
      cases hreturns with
      | line front stored before short rc kept => exact .inl (by rw [stored, List.getLast?_concat])
      | full stored none rc kept => exact .inr (.inl stored)
      | cut some short none all ending rc kept => exact .inr (.inr all)
      | nothing all ending rc => exact .inr (.inr all.2)
      | failed short none all ending rc => exact .inr (.inr all)
    constructor
    case all =>
      show src.bytes = (s.taken ++ [r.stored]).flatten ++ r.rest.bytes
      rw [hs.all, htakes, List.flatten_append, List.flatten_singleton, List.append_assoc]
    case pieces =>
      intro p hp
      rcases List.mem_append.mp hp with hp | hp
      · exact hs.pieces p hp
      · exact List.mem_singleton.mp hp ▸ hpiece
    case whole =>
      intro p hp
      rcases List.mem_append.mp hp with hp | hp
      · refine (hs.whole p hp).imp_right fun h => h.imp_right fun hnil => ?_
        rw [hnil] at htakes
        exact (List.append_eq_nil_iff.mp htakes.symm).2
      · exact List.mem_singleton.mp hp ▸ hwhole
  · exact ⟨hs.all, hs.pieces, hs.whole⟩

private theorem not_says_of_loneCr {p : Str} (h : LoneCr p) : ¬ Says (lit "Callsign :") p := by
  rw [Says, h]
  decide

private theorem forall_concat {P : Str → Prop} {ps : List Str} {p : Str} (h : ∀ q ∈ ps, P q)
    (hp : P p) : ∀ q ∈ ps ++ [p], P q := by
  intro q hq
  rcases List.mem_append.mp hq with hq | hq
  · exact h q hq
  · exact List.mem_singleton.mp hq ▸ hp

private theorem heard_read (hs : Heard s) (hrun : s.login.running = true)
    (idle : s.login.pending = none)
    {r : ReadResult} {piece : Str} (hr : (∃ rbuf, r = .line rbuf ∧ text rbuf = text piece) ∨
      r = .eof ∨ r = .error) (src' : Source) (rbuf' : List UInt8) :
    Heard ⟨onRead s.login r, src', rbuf', s.taken ++ [piece]⟩ := by
  cases hst : s.login.sglState with
  | callsign =>
      simp only [Heard, hst, hrun, idle, reduceCtorEq, if_false, ne_eq, not_false_eq_true,
        true_and] at hs
      rcases hr with ⟨rbuf, rfl, htext⟩ | rfl | rfl
      · simp only [onRead, hst, onCallsign, htext]
        split
        · rename_i hcr
          simp only [Heard, hrun, idle, reduceCtorEq, if_false, ne_eq, not_false_eq_true, true_and]
          exact forall_concat hs (not_says_of_loneCr hcr)
        split
        · rename_i hprompt
          simp only [Heard, hrun, if_true]
          exact ⟨s.taken, piece, rfl, hs, hprompt⟩
        · rename_i hprompt
          split
          · simp only [Model.State.stop, Heard]
          · simp only [Heard, hrun, Option.some.injEq, reduceCtorEq, if_false, ne_eq,
              not_false_eq_true, true_and]
            exact forall_concat hs hprompt
      · simp only [onRead, hst, onCallsign, Model.State.stop, Heard]
      · simp only [onRead, hst, onCallsign, Model.State.stop, Heard]
  | challenge =>
      simp only [Heard, hst, hrun, idle, reduceCtorEq, if_false, true_and] at hs
      obtain ⟨prompted, crs, htaken, hprompted, hcrs⟩ := hs
      rcases hr with ⟨rbuf, rfl, htext⟩ | rfl | rfl
      · simp only [onRead, hst, onChallenge, htext]
        split
        · rename_i hcr
          simp only [Heard, hrun, idle, reduceCtorEq, if_false, true_and]
          refine ⟨prompted, crs ++ [piece], ?_, hprompted, forall_concat hcrs hcr⟩
          rw [htaken, List.append_assoc]
        split
        · rename_i hcr hsq
          simp only [Heard, hrun, if_true]
          refine ⟨prompted, crs, piece, ?_, hprompted, hcrs, hcr, hsq⟩
          rw [htaken, List.append_assoc]
        · simp only [Model.State.stop, Heard]
      · simp only [onRead, hst, onChallenge, Model.State.stop, Heard]
      · simp only [onRead, hst, onChallenge, Model.State.stop, Heard]
  | _ => simp only [Heard, hst, hrun] at hs

private theorem heard_send (hs : Heard s) (hrun : s.login.running = true) {line : Line}
    (busy : s.login.pending = some line) (w : WriteResult) :
    Heard { s with login := onSend g s.login line w } := by
  cases hst : s.login.sglState with
  | callsign =>
      simp only [Heard, hst, hrun, busy] at hs
      cases line with
      | callsigns =>
          simp only [if_true] at hs
          simp only [onSend]
          split
          · simp only [Model.State.stop, Heard]
          · simp only [Heard, hrun, reduceCtorEq, if_false, true_and]
            exact ⟨s.taken, [], by simp, hs, by simp⟩
      | cr =>
          simp only [Option.some.injEq, reduceCtorEq, if_false, ne_eq, not_false_eq_true,
            true_and] at hs
          simp only [onSend]
          split
          · simp only [Model.State.stop, Heard]
          · simp only [Heard, hst, hrun, reduceCtorEq, if_false, ne_eq, not_false_eq_true, true_and]
            exact hs
      | response => simp at hs
  | challenge =>
      simp only [Heard, hst, hrun, busy] at hs
      cases line with
      | response =>
          simp only [if_true] at hs
          simp only [onSend]
          split <;> simp only [Model.State.stop, Heard] <;> exact hs
      | callsigns => simp at hs
      | cr => simp at hs
  | _ => simp only [Heard, hst, hrun] at hs

private theorem heard_step (h : step g s a = some t) (hs : Heard s) : Heard t := by
  rcases step_cases h with ⟨hrun, idle, rfl⟩ | ⟨line, w, hrun, busy, rfl⟩
  · exact heard_read hs hrun idle (received_cases s.src s.rbuf) _ _
  · exact heard_send hs hrun busy w

theorem login_keeps {rbuf : List UInt8} {as : List (Option WriteResult)}
    (h : run (step g) (start src rbuf) as = some s) : Cut src s ∧ Heard s := by
  refine run_preserves (P := fun s => Cut src s ∧ Heard s) ?_ h ⟨⟨by simp [start], ?_, ?_⟩, ?_⟩
  · exact fun u a t hstep hu => ⟨cut_step hstep hu.1, heard_step hstep hu.2⟩
  · exact fun p hp => by cases hp
  · exact fun p hp => by cases hp
  · simp [Heard, start, Model.initial]

theorem Heard.challenged (heard : Heard s) (hstop : s.login.running = false)
    (hsucceed : returnCode s.login = succeed) : Challenged s.taken := by
  rw [Heard, hstop] at heard
  cases hst : s.login.sglState with
  | responseSent => rw [hst] at heard; exact heard
  | loginComplete => rw [hst] at heard; exact heard
  | callsignFail => rw [returnCode, hst] at hsucceed; cases hsucceed
  | challengeFail => rw [returnCode, hst] at hsucceed; cases hsucceed
  | callsign => rw [hst] at heard; exact heard.elim
  | challenge => rw [hst] at heard; exact heard.elim
  | badState => rw [hst] at heard; exact heard.elim

/-- The login takes whole lines off the front of the stream, up to and with the
challenge if it succeeds, and leaves everything behind them unread. -/
theorem login_stops_behind_challenge (g : Credentials) (src : Source) (rbuf : List UInt8)
    (as : List (Option WriteResult)) (s : State)
    (h : run (step g) (start src rbuf) as = some s) :
    Cut src s ∧
      (s.login.running = false → returnCode s.login = succeed → Challenged s.taken) :=
  ⟨(login_keeps h).1, (login_keeps h).2.challenged⟩

private def secretStation : Credentials := ⟨lit "SECRET", lit "KF7VOL", lit "W1AW-10", fun _ _ => 7⟩

private def wire : Source :=
  ⟨lit "[WL2K-5.0-B2FWIHJM$]\rCallsign :\r\r;SQ: 23753528\r;PM: W1AW\rCMS>\r", .eof⟩

private def writes : List (Option WriteResult) :=
  [none, some (.wrote 1), none, some (.wrote 15), none, none, some (.wrote 26)]

private theorem writes_run :
    (run (step secretStation) (start wire (List.replicate 1024 0)) writes).isSome := by decide +kernel

private def behind : State :=
  (run (step secretStation) (start wire (List.replicate 1024 0)) writes).get writes_run

theorem login_stops_behind_challenge_mail :
    Cut wire behind ∧ (behind.login.running = false → returnCode behind.login = succeed →
      Challenged behind.taken) :=
  login_stops_behind_challenge secretStation wire _ writes _ (Option.some_get writes_run).symm

example : behind.login.sglState = .responseSent ∧
    behind.src = ⟨lit ";PM: W1AW\rCMS>\r", .eof⟩ := by decide +kernel

end Runs

end Rmsgw.Login.Stream
