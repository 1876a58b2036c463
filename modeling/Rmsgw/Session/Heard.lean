/- What the gateway program says to its client over a whole run, what it relays to him,
   and that the client can tell from it how the run has ended. -/

import Rmsgw.Session.Accounting

set_option autoImplicit false
set_option relaxedAutoImplicit false

namespace Rmsgw.Session.Heard

open Rmsgw.Lib.CStrings Rmsgw.Lib.Process Rmsgw.Rms Rmsgw.StatFile
open Rmsgw.Hosts.Model Rmsgw.Session.Model Rmsgw.Session.Program Rmsgw.Session.Turns
open Rmsgw.Gateway.Exit (loggedIn)
open Rmsgw.Gateway.Steps (Trans step_trans)
open Rmsgw.Session.OneCms (cmsSession_talked)
open Rmsgw.Channels.Model (Reader)

/-- What err() is called with behind the banner. -/
inductive Complaint
  | noStorage
  | invalidUsercall
  | noSocket
  | invalidTable
  | noConnection (hostTries : Nat)
  deriving DecidableEq

/-- What is said to the client: the notices of cmsConnect(), what one write of the relay has
taken, the notice that the CMS is gone, the lines behind a session, and errors. -/
inductive Words
  | hostName (node : CmsNode)
  | connected
  | notConnected (node : CmsNode) (why : ConnectResult)
  | relayed (bytes : Str)
  | closed (notice : Str)
  | statistics (rc : Ust)
  | signOff (usercall gwcall : Str)
  | misconfigured
  | error (c : Complaint)

/-- cmsConnect(): a connection that is there at once is not reported. -/
def connectHeard (node : CmsNode) (immediate : Bool) : ConnectResult → List Words
  | .connected => .hostName node :: if immediate then [] else [.connected]
  | .socketFailed => [.error .noSocket]
  | why => [.hostName node, .notConnected node why]

/-- gateway(). -/
def eventHeard : Gateway.Model.Event → List Words
  | .axWrite offered (.wrote m) => [.relayed (offered.take m)]
  | .axNotice bytes => [.closed bytes]
  | _ => []

/-- cmsSession() behind the return of gateway(). -/
def goodbye (usercall gwcall : Str) (rc : Ust) : List Words :=
  if 0 ≤ rc.errcode then [.statistics rc, .signOff usercall gwcall] else []

/-- The channel of the session has no password. -/
def noPassword (setup : Setup) (r : Reader) : Bool :=
  match setup.ax25port with
  | none => false
  | some port =>
      if port = [] then false
      else match findChannel setup r port with
        | .ok (some chnl, _) => chnl.child .password = none ∨ chnl.child .password = some []
        | _ => false

variable {e : Gateway.Model.Env}

/-- cmsSession(), as far as it has come. -/
def sessionHeard (usercall gwcall : Str) (setup : Setup) (r : Reader) (node : CmsNode)
    (a : Attempt e) (immediate : Bool) : List Words :=
  match (cmsSession setup r a).1 with
  | .refused => if noPassword setup r then [.misconfigured] else []
  | .killed _ => []
  | .exited => connectHeard node immediate a.connect
  | .notConnected => connectHeard node immediate a.connect
  | .talked g =>
      connectHeard node immediate a.connect ++ g.log.flatMap eventHeard ++
        if g.pc = .done then goodbye usercall gwcall g.rc else []

/-- The host loop from attempt `k` on. -/
def loopHeard (usercall gwcall : Str) (setup : Setup) (attempt : Nat → Attempt e)
    (immediate : Nat → Bool) : Nat → Reader → List CmsNode → List Words
  | _, _, [] => []
  | k, r, node :: rest =>
      let (outcome, r') := cmsSession setup r (attempt k)
      sessionHeard usercall gwcall setup r node (attempt k) (immediate k) ++
        match outcome.returns with
        | none => []
        | some rc =>
            if rc < 0 ∧ rc ≠ errSessFatal then
              loopHeard usercall gwcall setup attempt immediate (k + 1) r' rest
            else []

/-- The last words of main(). -/
def endHeard : Ending → List Words
  | .badTable => [.error .invalidTable]
  | .exhausted hostTries => [.error (.noConnection hostTries)]
  | _ => []

/-- What the client hears of main() behind the banner. -/
def heard (m : Start e) (immediate : Nat → Bool) : List Words :=
  match fmtucall m.strdup m.usercall with
  | none => [.error (if m.strdup then .invalidUsercall else .noStorage)]
  | some usercall =>
      match m.hosts with
      | .error _ => []
      | .ok cmslist =>
          loopHeard usercall.bytes m.gwcall.bytes m.setup m.attempt immediate 0 m.reader cmslist ++
            endHeard (m.loop cmslist).ending

/-- A client who follows the program: `tries` host names have been told so far, the last one that
of `node`, and `reported` says whether the connection to it was. -/
inductive Client
  | waiting (tries : Nat)
  | trying (tries : Nat) (node : CmsNode) (reported : Bool)
  | relaying
  | closed
  | told (rc : Ust)
  | signedOff (rc : Ust)
  | refused
  | failed (c : Complaint)
  deriving DecidableEq

/-- The complaint that can come when so many hosts have been tried. -/
def Complaint.fits (tries : Nat) : Complaint → Bool
  | .noStorage => tries = 0
  | .invalidUsercall => tries = 0
  | .noSocket => true
  | .invalidTable => tries = 0
  | .noConnection hostTries => tries = hostTries ∧ 0 < hostTries

/-- What the client makes of what he hears: a failure is that of the host named last, behind a
relay there is no other host, and behind the last words there is nothing. -/
def Client.hear : Client → Words → Option Client
  | .waiting n, .hostName node => some (.trying (n + 1) node false)
  | .waiting n, .error c => if c.fits n then some (.failed c) else none
  | .waiting _, .misconfigured => some .refused
  | .trying n _ _, .hostName node => some (.trying (n + 1) node false)
  | .trying n _ _, .error c => if c.fits n then some (.failed c) else none
  | .trying _ _ _, .misconfigured => some .refused
  | .trying n node false, .notConnected lost _ => if lost = node then some (.waiting n) else none
  | .trying n node false, .connected => some (.trying n node true)
  | .trying _ _ _, .relayed _ => some .relaying
  | .trying _ _ _, .closed _ => some .closed
  | .trying _ _ _, .statistics rc => some (.told rc)
  | .relaying, .relayed _ => some .relaying
  | .relaying, .closed _ => some .closed
  | .relaying, .statistics rc => some (.told rc)
  | .closed, .statistics rc => some (.told rc)
  | .told rc, .signOff _ _ => some (.signedOff rc)
  | _, _ => none

/-- The client after a run has been followed. -/
def follow (c : Client) (hs : List Words) : Option Client := run Client.hear c hs

section Conversation

open Rmsgw.Gateway.Model Rmsgw.Gateway.Steps Rmsgw.Gateway.Exit

/-- What a step adds: nothing, what a write to AX.25 has taken, or the notice at the end of a
good session. -/
inductive Utters (s t : State) : List Event → Prop
  | nothing (es : List Event) (silent : es.flatMap eventHeard = []) : Utters s t es
  | relayed (at_ : s.pc = .writeAx) (offered : Str) (m : Nat) :
      Utters s t [.axWrite offered (.wrote m)]
  | closed (at_ : s.pc = .peek) (done : t.pc = .done) (good : t.rc.errcode = 0) (notice : Str) :
      Utters s t [.axNotice notice, .closeSock, .gwState .gwConnected]

/-- The log goes on with what a step adds. -/
def GoesOn (s t : State) : Prop := ∃ es, t.log = s.log ++ es ∧ Utters s t es

private theorem quiet_endOfRound (s : State) :
    ∃ es, (endOfRound s).log = s.log ++ es ∧ es.flatMap eventHeard = [] := by
  rcases endOfRound_cases s with ⟨-, h⟩ | ⟨-, h⟩
  · rw [h]
    exact ⟨_, rfl, rfl⟩
  · rw [h]
    exact ⟨_, rfl, rfl⟩

private theorem quiet_axHalf (s : State) :
    ∃ es, (axHalf s).log = s.log ++ es ∧ es.flatMap eventHeard = [] := by
  rcases axHalf_cases s with h | h
  · rw [h]
    exact ⟨_, rfl, rfl⟩
  · rw [h]
    exact quiet_endOfRound s

private theorem goesOn_of_quiet {s t : State}
    (h : ∃ es, t.log = s.log ++ es ∧ es.flatMap eventHeard = []) : GoesOn s t := by
  obtain ⟨es, hlog, hsilent⟩ := h
  exact ⟨es, hlog, .nothing es hsilent⟩

private theorem trans_goesOn {env : Env} {s t : State} {a : Answer} (h : Trans env s a t) :
    GoesOn s t := by
  cases h with
  | loginOk at_ => exact ⟨_, rfl, .nothing _ rfl⟩
  | loginFailed at_ => exact ⟨_, rfl, .nothing _ rfl⟩
  | sockOk at_ => exact ⟨_, rfl, .nothing _ rfl⟩
  | sockFailed at_ => exact ⟨_, rfl, .nothing _ rfl⟩
  | stdinOk at_ => exact ⟨_, rfl, .nothing _ rfl⟩
  | stdinFailed at_ => exact ⟨_, rfl, .nothing _ rfl⟩
  | selectCms at_ ax => exact ⟨_, rfl, .nothing _ rfl⟩
  | selectAx at_ ax => exact goesOn_of_quiet (quiet_axHalf { s with axReady := ax })
  | peekClosed at_ => exact ⟨_, rfl, .closed at_ rfl rfl _⟩
  | peekByte at_ b => exact ⟨_, rfl, .nothing _ rfl⟩
  | peekFailed at_ => exact ⟨_, rfl, .nothing _ rfl⟩
  | cmsChunk at_ c =>
      by_cases hkeep : isKeepAlive (s.buf.overwrite c.bytes c.fits).bytes = true
      · exact ⟨_, (onCmsChunk_eaten hkeep).2, .nothing _ rfl⟩
      · exact ⟨_, (onCmsChunk_passed hkeep).2.1, .nothing _ rfl⟩
  | cmsDrained at_ => exact goesOn_of_quiet (quiet_axHalf s)
  | axWrote at_ m hm => exact ⟨_, rfl, .relayed at_ _ m⟩
  | axRetry at_ again => exact ⟨_, rfl, .nothing _ rfl⟩
  | axGiveUp at_ enough => exact ⟨_, rfl, .nothing _ rfl⟩
  | axFailed at_ => exact ⟨_, rfl, .nothing _ rfl⟩
  | axChunk at_ c => exact ⟨_, rfl, .nothing _ rfl⟩
  | axDrained at_ => exact goesOn_of_quiet (quiet_endOfRound s)
  | cmsWrote at_ m hm => exact ⟨_, rfl, .nothing _ rfl⟩
  | cmsRetry at_ => exact ⟨_, rfl, .nothing _ rfl⟩
  | cmsFailed at_ => exact ⟨_, rfl, .nothing _ rfl⟩

/-- The client hears chunks of the relay and behind them at most one notice, which ends a
good session; before the login was passed he hears nothing. -/
structure Conveys (s : State) (chunks notices : List Str) : Prop where
  log : s.log.flatMap eventHeard = chunks.map Words.relayed ++ notices.map Words.closed
  silent : loggedIn s = false → chunks = [] ∧ notices = []
  last : notices = [] ∨ (s.pc = .done ∧ s.rc.errcode = 0 ∧ ∃ notice, notices = [notice])

private theorem conveys_step {env : Env} {s t : State} {a : Answer} (htrans : Trans env s a t)
    (hfits : CodeFits s) {chunks notices : List Str} (hs : Conveys s chunks notices) :
    ∃ chunks notices, Conveys t chunks notices := by
  have hopen : notices = [] :=
    hs.last.resolve_right fun h => trans_not_done htrans h.1
  subst hopen
  obtain ⟨es, hlog, hutters⟩ := trans_goesOn htrans
  have hheard : t.log.flatMap eventHeard =
      chunks.map Words.relayed ++ es.flatMap eventHeard := by
    rw [hlog, List.flatMap_append, hs.log, List.map_nil, List.append_nil]
  have hin : s.pc ≠ .login → loggedIn t = true := fun hlogin =>
    loggedIn_append es (hfits.relaying hlogin (trans_not_done htrans)).1 hlog
  cases hutters with
  | nothing es hsilent =>
      refine ⟨chunks, [], by rw [hheard, hsilent]; rfl, fun hout => ⟨?_, rfl⟩, .inl rfl⟩
      refine (hs.silent ?_).1
      by_contra hlogged
      rw [Bool.not_eq_false] at hlogged
      rw [loggedIn, loggedIn_append es hlogged hlog] at hout
      cases hout
  | relayed at_ offered m =>
      refine ⟨chunks ++ [offered.take m], [], ?_, fun hout => ?_, .inl rfl⟩
      · rw [hheard, List.map_append, List.map_nil, List.append_nil]
        rfl
      · rw [hin (by simp [at_])] at hout
        cases hout
  | closed at_ done good notice =>
      refine ⟨chunks, [notice], hheard, fun hout => ?_, .inr ⟨done, good, notice, rfl⟩⟩
      rw [hin (by simp [at_])] at hout
      cases hout

theorem conveys_run {env : Env} {as : List Answer} {s : State}
    (h : run (step env) initial as = some s) : ∃ chunks notices, Conveys s chunks notices := by
  have hboth : CodeFits s ∧ ∃ chunks notices, Conveys s chunks notices := by
    refine run_preserves (P := fun s => CodeFits s ∧ ∃ chunks notices, Conveys s chunks notices)
      (fun s a t hst hs => ?_) h ⟨⟨by decide, rfl⟩, [], [], rfl, fun _ => ⟨rfl, rfl⟩, .inl rfl⟩
    obtain ⟨hfits, chunks, notices, hconveys⟩ := hs
    exact ⟨codeFits_step (step_trans hst) hfits, conveys_step (step_trans hst) hfits hconveys⟩
  exact hboth.2

end Conversation

/-- The client has heard of `n` hosts, and waits for what comes of the last one. -/
inductive Ready (n : Nat) : Client → Prop
  | waiting : Ready n (.waiting n)
  | trying (node : CmsNode) (reported : Bool) : Ready n (.trying n node reported)

/-- No last words have been heard. -/
inductive Unfinished : Client → Prop
  | waiting (n : Nat) : Unfinished (.waiting n)
  | trying (n : Nat) (node : CmsNode) (reported : Bool) : Unfinished (.trying n node reported)
  | relaying : Unfinished .relaying
  | closed : Unfinished .closed
  | refused : Unfinished .refused

section Following

variable {n : Nat} {c : Client}

private theorem follow_cons (c : Client) (w : Words) (ws : List Words) :
    follow c (w :: ws) = (c.hear w).bind (fun c => follow c ws) := rfl

private theorem follow_append (c : Client) (hs ts : List Words) :
    follow c (hs ++ ts) = (follow c hs).bind (fun c => follow c ts) := run_append _ _ _ _

private theorem Ready.unfinished (h : Ready n c) : Unfinished c := by
  cases h with
  | waiting => exact .waiting n
  | trying node reported => exact .trying n node reported

private theorem Ready.hostName (h : Ready n c) (node : CmsNode) :
    c.hear (.hostName node) = some (.trying (n + 1) node false) := by
  cases h with
  | waiting => rfl
  | trying node reported => cases reported <;> rfl

private theorem Ready.error (h : Ready n c) {k : Complaint} (fits : k.fits n = true) :
    c.hear (.error k) = some (.failed k) := by
  cases h with
  | waiting => exact if_pos fits
  | trying node reported => cases reported <;> exact if_pos fits

private theorem Ready.fails (h : Ready n c) {k : Complaint} (fits : k.fits n = true) :
    follow c [.error k] = some (.failed k) := by
  rw [follow_cons, h.error fits]
  rfl

private theorem Ready.misconfigured (h : Ready n c) : c.hear .misconfigured = some .refused := by
  cases h with
  | waiting => rfl
  | trying node reported => cases reported <;> rfl

private theorem hear_notConnected (n : Nat) (node : CmsNode) (why : ConnectResult) :
    (Client.trying n node false).hear (.notConnected node why) = some (.waiting n) := if_pos rfl

private theorem follow_connect (h : Ready n c) (node : CmsNode) (immediate : Bool)
    (r : ConnectResult) : follow c (connectHeard node immediate r) =
      some (match r with
        | .connected => .trying (n + 1) node (!immediate)
        | .socketFailed => .failed .noSocket
        | _ => .waiting (n + 1)) := by
  cases r with
  | connected =>
      rw [connectHeard, follow_cons, h.hostName]
      cases immediate <;> rfl
  | socketFailed =>
      rw [connectHeard, follow_cons, h.error rfl]
      rfl
  | _ =>
      simp only [connectHeard, follow_cons, h.hostName, Option.bind_some, hear_notConnected]
      rfl

private theorem follow_relay (node : CmsNode) (reported : Bool) (chunks : List Str) :
    follow (.trying n node reported) (chunks.map .relayed) =
      some (if chunks = [] then .trying n node reported else .relaying) := by
  cases chunks with
  | nil => rfl
  | cons chunk chunks =>
      have hrest : follow .relaying (chunks.map .relayed) = some .relaying := by
        induction chunks with
        | nil => rfl
        | cons chunk chunks ih => exact ih
      cases reported <;> exact hrest

/-- Where the client stands in a relay. -/
inductive Online (n : Nat) : Client → Prop
  | trying (node : CmsNode) (reported : Bool) : Online n (.trying n node reported)
  | relaying : Online n .relaying

private theorem Online.closed (h : Online n c) (notice : Str) :
    c.hear (.closed notice) = some .closed := by
  cases h with
  | trying node reported => cases reported <;> rfl
  | relaying => rfl

private theorem Online.statistics (h : Online n c) (rc : Ust) :
    c.hear (.statistics rc) = some (.told rc) := by
  cases h with
  | trying node reported => cases reported <;> rfl
  | relaying => rfl

private theorem Online.unfinished (h : Online n c) : Unfinished c := by
  cases h with
  | trying node reported => exact .trying n node reported
  | relaying => exact .relaying

private theorem Unfinished.signedOff (h : Unfinished c) (rc : Ust) : c ≠ .signedOff rc := by
  rintro rfl
  cases h

private theorem Unfinished.failed (h : Unfinished c) (k : Complaint) : c ≠ .failed k := by
  rintro rfl
  cases h

end Following

section Sessions

variable {n : Nat} {c : Client} {usercall gwcall : Str} {setup : Setup} {r : Reader}
  {node : CmsNode} {a : Attempt e} {immediate : Bool}

/-- What an outcome says of the connection. -/
def Explains (connect : ConnectResult) : Outcome → Prop
  | .talked _ => connect = .connected
  | .exited => connect = .socketFailed
  | .notConnected => connect ≠ .connected ∧ connect ≠ .socketFailed
  | _ => True

private theorem explains_connectAndTalk (a : Attempt e) :
    Explains a.connect (connectAndTalk a) := by
  rw [connectAndTalk]
  cases a.connect <;> simp [cmsConnect, Explains]

private theorem explains_cmsSession (setup : Setup) (r : Reader) (a : Attempt e) :
    Explains a.connect (cmsSession setup r a).1 := by
  cases hport : setup.ax25port with
  | none =>
      rw [cmsSession, hport]
      trivial
  | some port =>
      simp only [cmsSession, hport]
      by_cases hempty : port = []
      · rw [if_pos hempty]
        trivial
      rw [if_neg hempty]
      cases findChannel setup r port with
      | error f => trivial
      | ok found =>
          obtain ⟨chnl, r'⟩ := found
          cases chnl with
          | none => trivial
          | some chnl =>
              simp only
              cases chnl.child .password with
              | none => trivial
              | some password =>
                  by_cases hpassword : password = []
                  · simp only [if_pos hpassword]
                    trivial
                  · simp only [if_neg hpassword]
                    exact explains_connectAndTalk a

/-- The client behind a session: ready for the next host, signed off, or left alone. -/
structure Behind (n : Nat) (o : Outcome) (c : Client) : Prop where
  past : movesPast o = true → Ready (n + 1) c
  served : (∃ rc, c = .signedOff rc) ↔ ∃ rc, o.returns = some rc ∧ 0 ≤ rc
  failed : (∃ k, c = .failed k) ↔ o = .exited

private theorem behind_unfinished {o : Outcome} (h : Unfinished c)
    (past : movesPast o = true → Ready (n + 1) c) (bad : ∀ rc, o.returns = some rc → rc < 0)
    (stays : o ≠ .exited) : Behind n o c := by
  refine ⟨past, iff_of_false ?_ ?_, iff_of_false ?_ stays⟩
  · rintro ⟨rc, hrc⟩
    exact h.signedOff rc hrc
  · rintro ⟨rc, hrc, hpos⟩
    have hneg := bad rc hrc
    omega
  · rintro ⟨k, hk⟩
    exact h.failed k hk

private theorem gatewayCode_nonneg_iff (code : Int) : 0 ≤ gatewayCode code ↔ 0 ≤ code := by
  rw [gatewayCode]
  split
  · rename_i hpos
    exact iff_of_true (Int.le_refl 0) hpos
  split <;> simp only [errSessFatal, errSessGwskip] <;> omega

private theorem follow_talk {g : Gateway.Model.State} {as : List Gateway.Model.Answer}
    (reported : Bool) (hruns : run (Gateway.Model.step e) Gateway.Model.initial as = some g) :
    ∃ c, follow (.trying (n + 1) node reported) (g.log.flatMap eventHeard ++
        if g.pc = .done then goodbye usercall gwcall g.rc else []) = some c ∧
      Behind n (.talked g) c := by
  obtain ⟨chunks, notices, hconveys⟩ := conveys_run hruns
  rw [follow_append, hconveys.log, follow_append, follow_relay, Option.bind_some]
  have honline : Online (n + 1)
      (if chunks = [] then Client.trying (n + 1) node reported else .relaying) := by
    split
    · exact .trying node reported
    · exact .relaying
  have hreturns : ∀ rc, (Outcome.talked g).returns = some rc →
      g.pc = .done ∧ rc = gatewayCode g.rc.errcode := by
    intro rc hrc
    rw [Outcome.returns] at hrc
    split at hrc
    · rename_i hdone
      exact ⟨hdone, (Option.some.inj hrc).symm⟩
    · cases hrc
  by_cases hgood : g.pc = .done ∧ 0 ≤ g.rc.errcode
  · rw [if_pos hgood.1, goodbye, if_pos hgood.2]
    refine ⟨.signedOff g.rc, ?_, ?_, ?_, ?_⟩
    · rcases hconveys.last with hnil | ⟨-, -, notice, hnotice⟩
      · rw [hnil, List.map_nil, show follow _ [] = some _ from rfl, Option.bind_some, follow_cons,
          honline.statistics]
        rfl
      · rw [hnotice, List.map_cons, follow_cons, honline.closed]
        rfl
    · intro hpast
      simp only [movesPast, Bool.and_eq_true, Bool.not_eq_true'] at hpast
      have hneg := (Gateway.Exit.done_login_error_iff hruns hgood.1).mp hpast.2
      omega
    · refine iff_of_true ⟨_, rfl⟩ ⟨gatewayCode g.rc.errcode, if_pos hgood.1, ?_⟩
      exact (gatewayCode_nonneg_iff _).mpr hgood.2
    · simp
  · have hnil : notices = [] :=
      hconveys.last.resolve_right fun h => hgood ⟨h.1, h.2.1 ▸ Int.le_refl 0⟩
    have hnone : (if g.pc = .done then goodbye usercall gwcall g.rc else []) = [] := by
      split
      · rename_i hdone
        rw [goodbye, if_neg fun h => hgood ⟨hdone, h⟩]
      · rfl
    rw [hnil, hnone]
    refine ⟨_, rfl, behind_unfinished honline.unfinished (fun hpast => ?_) (fun rc hrc => ?_)
      (by simp)⟩
    · simp only [movesPast, Bool.and_eq_true, Bool.not_eq_true'] at hpast
      rw [if_pos (hconveys.silent hpast.2).1]
      exact .trying node reported
    · obtain ⟨hdone, rfl⟩ := hreturns rc hrc
      have hneg : ¬ 0 ≤ gatewayCode g.rc.errcode := fun h =>
        hgood ⟨hdone, (gatewayCode_nonneg_iff _).mp h⟩
      omega

private theorem follow_session (usercall gwcall : Str) (setup : Setup) (r : Reader) (node : CmsNode)
    (a : Attempt e) (immediate : Bool) (h : Ready n c) :
    ∃ c', follow c (sessionHeard usercall gwcall setup r node a immediate) = some c' ∧
      Behind n (cmsSession setup r a).1 c' := by
  have hconnect := explains_cmsSession setup r a
  rw [sessionHeard]
  cases hout : (cmsSession setup r a).1 with
  | refused =>
      have hbad : ∀ rc, Outcome.refused.returns = some rc → rc < 0 := by
        intro rc hrc
        rw [← Option.some.inj hrc]
        decide
      simp only
      cases noPassword setup r with
      | true =>
          rw [if_pos rfl, follow_cons, h.misconfigured]
          exact ⟨_, rfl, behind_unfinished .refused (by simp [movesPast]) hbad (by simp)⟩
      | false =>
          exact ⟨c, rfl, behind_unfinished h.unfinished (by simp [movesPast]) hbad (by simp)⟩
  | killed f =>
      exact ⟨c, rfl, behind_unfinished h.unfinished (by simp [movesPast])
        (by simp [Outcome.returns]) (by simp)⟩
  | exited =>
      rw [hout] at hconnect
      simp only at hconnect ⊢
      rw [hconnect, follow_connect h]
      exact ⟨_, rfl, by simp [movesPast], by simp [Outcome.returns], by simp⟩
  | notConnected =>
      rw [hout] at hconnect
      have hbad : ∀ rc, Outcome.notConnected.returns = some rc → rc < 0 := by
        intro rc hrc
        rw [← Option.some.inj hrc]
        decide
      refine ⟨.waiting (n + 1), ?_,
        behind_unfinished (.waiting _) (fun _ => .waiting) hbad (by simp)⟩
      simp only
      rw [follow_connect h]
      cases hr : a.connect with
      | connected => exact absurd hr hconnect.1
      | socketFailed => exact absurd hr hconnect.2
      | _ => rfl
  | talked g =>
      rw [hout] at hconnect
      have hruns := a.conversation.runs
      rw [cmsSession_talked hout] at hruns
      simp only at hconnect ⊢
      rw [List.append_assoc, follow_append, hconnect, follow_connect h, Option.bind_some]
      exact follow_talk _ hruns

/-- The client at the end of the host loop. -/
structure Closes (run : HostRun) (c : Client) : Prop where
  exhausted : ∀ n, run.ending = .exhausted n → 0 < n ∧ Ready n c
  badTable : run.ending = .badTable → Ready 0 c
  served : (∃ rc, c = .signedOff rc) ↔ run.ending = .served
  failed : (∃ k, c = .failed k) ↔ run.ending = .stopped ∧ stoppedBy run = err

private theorem stoppedBy_past {t : Tried} (h : movesPast t.outcome = true) (ts : List Tried)
    (fs fs' : Files) (end_ end' : Ending) :
    stoppedBy ⟨t :: ts, fs, end_⟩ = err ↔ stoppedBy ⟨ts, fs', end'⟩ = err := by
  cases ts with
  | cons u us => rfl
  | nil =>
      refine iff_of_false ?_ (by simp [stoppedBy, err])
      cases ho : t.outcome with
      | notConnected => simp [stoppedBy, err, ho]
      | talked g => simp [stoppedBy, err, ho]
      | _ =>
          rw [ho] at h
          cases h

private theorem stoppedBy_last (t : Tried) (fs : Files) (end_ : Ending) :
    stoppedBy ⟨[t], fs, end_⟩ = err ↔ t.outcome = .exited := by
  cases ho : t.outcome <;> simp [stoppedBy, err, ho]

private theorem stoppedBy_ne_served (run : HostRun) : stoppedBy run ≠ .code 0 := by
  rw [stoppedBy]
  split <;> simp [err]

private theorem follow_loop (usercall gwcall : Str) (setup : Setup) (attempt : Nat → Attempt e)
    (immediate : Nat → Bool) (k : Nat) (fs : Files) (r : Reader) (cmslist : List CmsNode)
    (h : Ready k c) :
    ∃ c', follow c (loopHeard usercall gwcall setup attempt immediate k r cmslist) = some c' ∧
      Closes (hostLoop setup attempt k fs r cmslist) c' := by
  induction cmslist generalizing k fs r c with
  | nil =>
      refine ⟨c, rfl, ?_⟩
      have hserved : ¬ ∃ rc, c = .signedOff rc := fun ⟨rc, hrc⟩ => h.unfinished.signedOff rc hrc
      have hfailed : ¬ ∃ w, c = .failed w := fun ⟨w, hw⟩ => h.unfinished.failed w hw
      rw [hostLoop]
      by_cases hnone : k < 1
      · obtain rfl : k = 0 := by omega
        rw [if_pos hnone]
        exact ⟨by simp, fun _ => h, iff_of_false hserved (by simp), iff_of_false hfailed (by simp)⟩
      · rw [if_neg hnone]
        refine ⟨fun n hn => ?_, by simp, iff_of_false hserved (by simp),
          iff_of_false hfailed (by simp)⟩
        obtain rfl := Ending.exhausted.inj hn
        exact ⟨by omega, h⟩
  | cons node rest ih =>
      obtain ⟨c', hfollow, hbehind⟩ :=
        follow_session usercall gwcall setup r node (attempt k) (immediate k) h
      rw [loopHeard, follow_append, hfollow, Option.bind_some]
      simp only [hostLoop]
      cases session_turn setup r (attempt k) with
      | past hpast rc hreturns hneg hskip =>
          rw [hreturns]
          simp only [if_pos hneg, if_neg hskip, if_pos (And.intro hneg hskip)]
          obtain ⟨c'', hrest, hcloses⟩ := ih (k + 1)
            (setcmsstat fs node (attempt k).now (attempt k).touch).1
            (cmsSession setup r (attempt k)).2 (hbehind.past hpast)
          refine ⟨c'', hrest, hcloses.exhausted, hcloses.badTable, hcloses.served, ?_⟩
          rw [hcloses.failed, stoppedBy_past hpast]
      | last hlast rc hreturns hfinal =>
          rw [hreturns]
          have hgoes : ¬ (rc < 0 ∧ rc ≠ errSessFatal) := by
            rintro ⟨hneg, hskip⟩
            rcases hfinal with hfatal | hpos
            · exact hskip hfatal
            · omega
          simp only [if_neg hgoes]
          have hexit : (cmsSession setup r (attempt k)).1 ≠ .exited := fun ho => by
            rw [ho] at hlast
            cases hlast
          refine ⟨c', rfl, ?_⟩
          have hfailed : ¬ ∃ w, c' = .failed w := fun hw => hexit (hbehind.failed.mp hw)
          have hserved : (∃ rc, c' = .signedOff rc) ↔ 0 ≤ rc := by
            rw [hbehind.served, hreturns]
            simp
          rcases hfinal with rfl | hpos
          · refine ⟨by simp [errSessFatal], by simp [errSessFatal], ?_,
              iff_of_false hfailed (by simp [errSessFatal])⟩
            exact iff_of_false (fun hc => absurd (hserved.mp hc) (by decide))
              (by simp [errSessFatal])
          · simp only [if_neg (Int.not_lt.mpr hpos)]
            exact ⟨by simp, by simp, iff_of_true (hserved.mpr hpos) rfl,
              iff_of_false hfailed (by simp)⟩
      | none hp hs hreturns =>
          rw [hreturns]
          refine ⟨c', rfl, by simp, by simp, iff_of_false ?_ (by simp), ?_⟩
          · rw [hbehind.served, hreturns]
            simp
          · rw [hbehind.failed, stoppedBy_last]
            simp

end Sessions

/-- The client can follow every run. He ends with the sign-off exactly if the program ends with
status 0, and with a message of err() exactly if it ends with status 1. -/
theorem client_follows (m : Start e) (immediate : Nat → Bool) :
    ∃ c, follow (.waiting 0) (heard m immediate) = some c ∧
      (m.main.2 = .code 0 ↔ ∃ rc, c = .signedOff rc) ∧
      (m.main.2 = .code 1 ↔ ∃ k, c = .failed k) := by
  rw [heard, Start.main]
  cases fmtucall m.strdup m.usercall with
  | none =>
      refine ⟨.failed (if m.strdup then .invalidUsercall else .noStorage), ?_, ?_, ?_⟩
      · cases m.strdup <;> rfl
      · simp [err]
      · simp [err]
  | some usercall =>
      simp only
      cases m.hosts with
      | error f => exact ⟨.waiting 0, rfl, by simp, by simp⟩
      | ok cmslist =>
          obtain ⟨c, hfollow, hcloses⟩ := follow_loop usercall.bytes m.gwcall.bytes m.setup
            m.attempt immediate 0 m.files m.reader cmslist .waiting
          simp only [follow_append, hfollow, Option.bind_some, Start.loop]
          generalize hostLoop m.setup m.attempt 0 m.files m.reader cmslist = run at hcloses ⊢
          have hserved := hcloses.served
          have hfailed := hcloses.failed
          cases hend : run.ending with
          | served =>
              rw [hend] at hserved hfailed
              exact ⟨c, rfl, by simpa using hserved, by simpa using hfailed⟩
          | fatal =>
              rw [hend] at hserved hfailed
              exact ⟨c, rfl, by simpa using hserved, by simpa using hfailed⟩
          | stopped =>
              rw [hend] at hserved hfailed
              refine ⟨c, rfl, iff_of_false (stoppedBy_ne_served run) (by simpa using hserved), ?_⟩
              rw [hfailed]
              exact (and_iff_right rfl).symm
          | badTable =>
              have hready := hcloses.badTable hend
              exact ⟨_, hready.fails rfl, by simp [err], by simp [err]⟩
          | exhausted n =>
              obtain ⟨hpos, hready⟩ := hcloses.exhausted n hend
              exact ⟨_, hready.fails (by simp [Complaint.fits, hpos]), by simp [err], by simp [err]⟩

end Rmsgw.Session.Heard
