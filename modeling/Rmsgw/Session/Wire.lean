/- One connection to a CMS from the login to its end: what the login leaves unread
   of the stream is what the relay sends to AX.25, and what comes from there follows
   what the login has said. -/

import Rmsgw.Gateway.Relay
import Rmsgw.Login.Spoken
import Rmsgw.Login.Stream

set_option autoImplicit false
set_option relaxedAutoImplicit false

namespace Rmsgw.Session.Wire

open Rmsgw.Lib.CStrings Rmsgw.Lib.Process Rmsgw.Lib.ByteLink Rmsgw.Rms
open Rmsgw.Readln.Model Rmsgw.Login.Model Rmsgw.Gateway.Relay
open Rmsgw.Login.Spoken (spoken Said said_step)
open Rmsgw.Login.Stream (Challenged login_keeps run_login)

/-- gateway() on one connection: cmslogin() takes its lines from the stream, and recv()
gives what is left of it, in order, as far as the relay loop has come. -/
structure Connection (g : Credentials) (e : Gateway.Model.Env) (src : Source) where
  rbuf : List UInt8
  loginAnswers : List (Option WriteResult)
  login : Login.Stream.State
  logged : run (Login.Stream.step g) (Login.Stream.start src rbuf) loginAnswers = some login
  ended : login.login.running = false
  answers : List Gateway.Model.Answer
  final : Gateway.Model.State
  relayed : run (Gateway.Model.step e) Gateway.Model.initial
    (.login (returnCode login.login = succeed) :: answers) = some final
  inOrder : stream Event.fromCms final <+: login.src.bytes

variable {g : Credentials} {e : Gateway.Model.Env} {src : Source}

/-- The keep alive filter has eaten nothing. -/
def Connection.Unfiltered (c : Connection g e src) : Prop :=
  ∀ bytes, Gateway.Model.Event.cmsRecv bytes true ∉ c.final.log

private theorem passed_eq_fromCms {log : List Gateway.Model.Event}
    (h : ∀ bytes, Gateway.Model.Event.cmsRecv bytes true ∉ log) :
    log.flatMap Event.passed = log.flatMap Event.fromCms := by
  refine List.flatMap_congr fun ev hev => ?_
  cases ev with
  | cmsRecv bytes eaten =>
      cases eaten with
      | true => exact absurd hev (h bytes)
      | false => rfl
  | _ => rfl

private theorem relays_nothing (c : Connection g e src) (h : returnCode c.login.login = fail)
    (f : Gateway.Model.Event → List UInt8) (quiet : f (.gwState .gwLogin) = []) :
    stream f c.final = [] := by
  have hrun := c.relayed
  rw [h] at hrun
  obtain ⟨t, ht, hrest⟩ := run_cons_eq_some.mp hrun
  obtain rfl : Gateway.Model.initial.finish errGwLogin [] = t := Option.some.inj ht
  cases hanswers : c.answers with
  | nil =>
      rw [hanswers] at hrest
      rw [← Option.some.inj hrest]
      exact (List.append_nil _).trans quiet
  | cons a as =>
      rw [hanswers] at hrest
      obtain ⟨u, hu, -⟩ := run_cons_eq_some.mp hrest
      cases hu

/-- The stream of the CMS is the lines of the login up to the challenge, what the radio
has been sent, what is on its way to it, and what has not been read: the relay leaves out
nothing behind the challenge and sends nothing in front of it. -/
theorem radio_hears_behind_challenge (c : Connection g e src) (unfiltered : c.Unfiltered) :
    (returnCode c.login.login = succeed → Challenged c.login.taken ∧
      ∃ unread, src.bytes = c.login.taken.flatten ++
        (stream Event.toAx c.final ++ (heldForAx c.final ++ unread))) ∧
      (returnCode c.login.login = fail → stream Event.toAx c.final = []) := by
  obtain ⟨cut, heard⟩ := login_keeps c.logged
  refine ⟨fun hsucceed => ⟨heard.challenged c.ended hsucceed, ?_⟩,
    fun hfail => relays_nothing c hfail Event.toAx rfl⟩
  have hexact : stream Event.passed c.final =
      stream Event.toAx c.final ++ heldForAx c.final := (links_exact c.relayed).2
  have hpassed : stream Event.passed c.final = stream Event.fromCms c.final :=
    passed_eq_fromCms unfiltered
  obtain ⟨unread, hunread⟩ := c.inOrder
  refine ⟨unread, ?_⟩
  rw [cut.all, ← hunread, ← hpassed, hexact, List.append_assoc]

/-- What the CMS is sent on the connection. -/
def Connection.toCms (c : Connection g e src) : List UInt8 :=
  spoken c.login.login ++ stream Event.toCms c.final

/-- The CMS hears CRs, four at most, the callsign line or nothing of it, the response as
far as it was taken, and then what the radio sends from its first byte on, save what is on
its way; from a login that has failed it hears nothing of the radio. -/
theorem cms_hears_radio_behind_response (c : Connection g e src) :
    (returnCode c.login.login = succeed → ∃ n callsigns response,
      c.toCms = List.replicate n 13 ++ callsigns ++ response ++ stream Event.toCms c.final ∧
        n ≤ loopLimit + 1 ∧
        (callsigns = lineText g c.login.login .callsigns ∨ callsigns = []) ∧
        response <+: lineText g c.login.login .response ∧
        stream Event.fromAx c.final = stream Event.toCms c.final ++ heldForCms c.final) ∧
      (returnCode c.login.login = fail →
        stream Event.toCms c.final = [] ∧ stream Event.fromAx c.final = []) := by
  obtain ⟨answers, hlogin⟩ := run_login c.logged
  have hstart : Said g Login.Model.initial :=
    ⟨by simp [Login.Model.initial], by decide, 0, by decide, rfl⟩
  have hsaid : Said g c.login.login :=
    run_preserves (fun _ _ _ hstep => said_step hstep) hlogin hstart
  constructor
  · intro hsucceed
    obtain ⟨⟨front, response, hbytes, ⟨crs, callsigns, hfront, ⟨n, hn, hcrs⟩, hcallsigns⟩,
      hresponse⟩, hcnt⟩ := hsaid.succeeded c.ended hsucceed
    have hexact : stream Event.fromAx c.final =
        stream Event.toCms c.final ++ heldForCms c.final := (links_exact c.relayed).1
    refine ⟨n, callsigns, response, ?_, Nat.le_trans hn hcnt, hcallsigns, hresponse, hexact⟩
    rw [Connection.toCms, hbytes, hfront, hcrs]
  · intro hfail
    exact ⟨relays_nothing c hfail Event.toCms rfl, relays_nothing c hfail Event.fromAx rfl⟩

private def secrets : Credentials := ⟨lit "SECRET", lit "KF7VOL", lit "W1AW-10", fun _ _ => 7⟩

private theorem hfPort_paclen : 0 < 128 := by decide

private def hfPort : Gateway.Model.Env := ⟨128, hfPort_paclen, (0, 0)⟩

private def mail : Source := ⟨lit "Callsign :\r;SQ: 23753528\rCMS>\r", .eof⟩

private def replies : List (Option WriteResult) :=
  [none, some (.wrote 15), none, some (.wrote 26)]

private theorem replies_run :
    (run (Login.Stream.step secrets) (Login.Stream.start mail (List.replicate 1024 0))
      replies).isSome := by decide +kernel

private def loggedIn : Login.Stream.State :=
  (run (Login.Stream.step secrets) (Login.Stream.start mail (List.replicate 1024 0)) replies).get
    replies_run

private def relayAnswers : List Gateway.Model.Answer :=
  [.fcntl true, .fcntl true, .select true false, .peekByte 67,
    .chunk ⟨lit "CMS>\r", by decide, by decide⟩, .write (.wrote 3), .write (.wrote 2), .drained,
    .select true false, .peekClosed]

private theorem relayAnswers_run :
    (run (Gateway.Model.step hfPort) Gateway.Model.initial
      (.login (returnCode loggedIn.login = succeed) :: relayAnswers)).isSome := by decide +kernel

private def relayedMail : Connection secrets hfPort mail where
  rbuf := List.replicate 1024 0
  loginAnswers := replies
  login := loggedIn
  logged := (Option.some_get replies_run).symm
  ended := by decide +kernel
  answers := relayAnswers
  final := _
  relayed := (Option.some_get relayAnswers_run).symm
  inOrder := by decide +kernel

private theorem relayedMail_unfiltered : relayedMail.Unfiltered := by
  have hpassed : ∀ ev ∈ relayedMail.final.log, Event.passed ev = Event.fromCms ev := by
    decide +kernel
  have hempty : Gateway.Model.Event.cmsRecv [] true ∉ relayedMail.final.log := by decide +kernel
  intro bytes hmem
  obtain rfl : [] = bytes := hpassed _ hmem
  exact hempty hmem

theorem radio_hears_behind_challenge_mail :
    (returnCode relayedMail.login.login = succeed → Challenged relayedMail.login.taken ∧
      ∃ unread, mail.bytes = relayedMail.login.taken.flatten ++
        (stream Event.toAx relayedMail.final ++ (heldForAx relayedMail.final ++ unread))) ∧
      (returnCode relayedMail.login.login = fail → stream Event.toAx relayedMail.final = []) :=
  radio_hears_behind_challenge relayedMail relayedMail_unfiltered

theorem cms_hears_radio_behind_response_mail :
    (returnCode relayedMail.login.login = succeed → ∃ n callsigns response,
      relayedMail.toCms = List.replicate n 13 ++ callsigns ++ response ++
          stream Event.toCms relayedMail.final ∧
        n ≤ loopLimit + 1 ∧
        (callsigns = lineText secrets relayedMail.login.login .callsigns ∨ callsigns = []) ∧
        response <+: lineText secrets relayedMail.login.login .response ∧
        stream Event.fromAx relayedMail.final =
          stream Event.toCms relayedMail.final ++ heldForCms relayedMail.final) ∧
      (returnCode relayedMail.login.login = fail →
        stream Event.toCms relayedMail.final = [] ∧ stream Event.fromAx relayedMail.final = []) :=
  cms_hears_radio_behind_response relayedMail

end Rmsgw.Session.Wire
