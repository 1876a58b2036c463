/- The byte counters of the status block against the bytes that the sessions of a
   callsign have relayed. -/

import Rmsgw.Gateway.Counters
import Rmsgw.Session.Idle

set_option autoImplicit false
set_option relaxedAutoImplicit false

namespace Rmsgw.Session.Accounting

open Rmsgw.Lib.CStrings Rmsgw.Lib.SlotTable Rmsgw.Lib.SlotStability Rmsgw.Rms Rmsgw.StatFile
open Rmsgw.Hosts.Model Rmsgw.Statblock.Model Rmsgw.Statblock.Refinement Rmsgw.Statblock.Invariant
open Rmsgw.Statblock.Shown Rmsgw.Session.Model Rmsgw.Session.Program Rmsgw.Session.Turns
open Rmsgw.Session.OneCms (cmsSession_talked)
open Rmsgw.Session.Idle (On statusCalls_main_on main_effects)
open Rmsgw.Gateway.Relay (stream Event.toAx Event.toCms)
open Rmsgw.Gateway.Counters (counters_done)
open Rmsgw.Channels.Model (Reader XmlDoc)

/-- A conversation that gateway() has ended without an error. -/
structure Talk where
  env : Gateway.Model.Env
  conversation : Conversation env
  done : conversation.final.pc = .done
  good : 0 ≤ conversation.final.rc.errcode

/-- The number of bytes relayed to AX.25. -/
def Talk.toAx (c : Talk) : Nat := (stream Event.toAx c.conversation.final).length

/-- The number of bytes relayed to the CMS. -/
def Talk.toCms (c : Talk) : Nat := (stream Event.toCms c.conversation.final).length

def Talk.discarded (c : Talk) : Nat := Gateway.Counters.discarded c.env c.conversation.answers

def Talk.rc (c : Talk) : Ust := c.conversation.final.rc

/-- The outcome's byte counts are those of the bytes written. -/
def Talk.Counted (c : Talk) : Prop :=
  c.rc.bytesSent.toNat = c.toAx ∧ c.rc.bytesRecv.toNat = c.toCms

def total (f : Talk → Nat) (cs : List Talk) : Nat := cs.foldr (fun c n => f c + n) 0

/-- One run of the gateway program. -/
structure Launch where
  env : Gateway.Model.Env
  start : Start env

section Sessions

variable {e : Gateway.Model.Env}

/-- The session of an attempt, if it is over without an error. -/
def finished (a : Attempt e) : Outcome → List Talk
  | .talked _ =>
      if h : a.conversation.final.pc = .done ∧ 0 ≤ a.conversation.final.rc.errcode then
        [⟨e, a.conversation, h.1, h.2⟩]
      else []
  | _ => []

def finishedFrom (attempt : Nat → Attempt e) : Nat → List Tried → List Talk
  | _, [] => []
  | k, t :: ts => finished (attempt k) t.outcome ++ finishedFrom attempt (k + 1) ts

end Sessions

/-- The sessions of a run of the program that are over without an error. -/
def Launch.sessions (m : Launch) : List Talk :=
  match fmtucall m.start.strdup m.start.usercall, m.start.hosts with
  | some _, .ok cmslist => finishedFrom m.start.attempt 0 (m.start.loop cmslist).tried
  | _, _ => []

/-- The counters gw_bytes_out and gw_bytes_in of a record. -/
def counters (r : RmsgwStat) : UInt64 × UInt64 := (r.gwBytesOut, r.gwBytesIn)

/-- The status block behind one run of the program after the other. -/
def leftBy (ms : List Launch) (p : RmsStatus) : RmsStatus :=
  ms.foldl (fun p m => m.start.leaves p) p

/-- Every session counts the bytes that it relayed, and the callsign's record shows
their sums. -/
def Balanced (p : RmsStatus) (gwcall : CString) (cs : List Talk) : Prop :=
  (∀ c ∈ cs, c.Counted) ∧
    (shown counters p gwcall).map (fun q => (q.1.toNat, q.2.toNat)) =
      some (total Talk.toAx cs, total Talk.toCms cs)

/-- What a call does to the counters of its record. -/
def credit (x : UInt64 × UInt64) : SbOp → UInt64 × UInt64
  | .gwBytesOut _ count => (x.1 + UInt64.ofInt count, x.2)
  | .gwBytesIn _ count => (x.1, x.2 + UInt64.ofInt count)
  | _ => x

/-- What a session adds to the counters. -/
def book (x : UInt64 × UInt64) (c : Talk) : UInt64 × UInt64 :=
  (x.1 + c.rc.bytesSent, x.2 + c.rc.bytesRecv)

/-- What the effects of a program do to the counters. -/
def booked (es : List Effect) (x : UInt64 × UInt64) : UInt64 × UInt64 :=
  (statusCalls es).foldl credit x

/-- No call that counts bytes. -/
def Uncounted : Effect → Prop
  | .status o => ∀ x, credit x o = x
  | _ => True

private theorem ofInt_toNat (n : UInt64) : UInt64.ofInt n.toNat = n := by
  have hlt := n.toNat_lt
  have hsame : ((n.toNat : Int) % 2 ^ 64).toNat = n.toNat := by omega
  rw [UInt64.ofInt, hsame, UInt64.ofNat_toNat]

private theorem booked_append (es fs : List Effect) (x : UInt64 × UInt64) :
    booked (es ++ fs) x = booked fs (booked es x) := by
  rw [booked, statusCalls, List.filterMap_append, List.foldl_append]
  rfl

private theorem booked_uncounted {es : List Effect} (h : ∀ f ∈ es, Uncounted f)
    (x : UInt64 × UInt64) : booked es x = x := by
  induction es with
  | nil => rfl
  | cons f es ih =>
      have hrest := ih fun g hg => h g (List.mem_cons_of_mem f hg)
      have hf := h f List.mem_cons_self
      cases f with
      | status o =>
          change booked es (credit x o) = x
          rw [hf x, hrest]
      | socket k => exact hrest
      | close k => exact hrest

private theorem booked_sessionEffects {e : Gateway.Model.Env} (gwcall : CString) (k : Nat)
    (setup : Setup) (r : Reader) (a : Attempt e) (x : UInt64 × UInt64) :
    booked (sessionEffects gwcall k a.connect (cmsSession setup r a).1) x =
      (finished a (cmsSession setup r a).1).foldl book x := by
  have hconnect : ∀ f ∈ connectEffects k a.connect, Uncounted f := by
    cases a.connect <;> simp [connectEffects, Uncounted]
  cases hout : (cmsSession setup r a).1 with
  | refused => rfl
  | killed f => rfl
  | exited => exact booked_uncounted hconnect x
  | notConnected => exact booked_uncounted hconnect x
  | talked g =>
      obtain rfl := cmsSession_talked hout
      have hevents : ∀ f ∈ a.conversation.final.log.flatMap (eventEffects gwcall k), Uncounted f := by
        intro f hf
        obtain ⟨ev, -, hf⟩ := List.mem_flatMap.mp hf
        cases ev <;> simp [eventEffects] at hf <;> simp [hf, Uncounted, credit]
      have hfront : ∀ f ∈ .status (.gwState .gwConnecting gwcall) :: connectEffects k a.connect ++
          .status (.gwState .gwConnected gwcall) ::
            a.conversation.final.log.flatMap (eventEffects gwcall k), Uncounted f := by
        intro f hf
        simp only [List.cons_append, List.mem_cons, List.mem_append] at hf
        rcases hf with rfl | hf | rfl | hf
        · exact fun _ => rfl
        · exact hconnect f hf
        · exact fun _ => rfl
        · exact hevents f hf
      rw [sessionEffects, booked_append, booked_uncounted hfront, finished]
      by_cases hdone : a.conversation.final.pc = .done
      · by_cases hgood : 0 ≤ a.conversation.final.rc.errcode
        · rw [if_pos hdone, dif_pos ⟨hdone, hgood⟩, hangUp, if_pos hgood]
          simp [booked, statusCalls, credit, book, Talk.rc, ofInt_toNat]
        · rw [if_pos hdone, dif_neg fun h => hgood h.2, hangUp, if_neg hgood]
          rfl
      · rw [if_neg hdone, dif_neg fun h => hdone h.1]
        rfl

private theorem booked_loopEffects {e : Gateway.Model.Env} (gwcall : CString) (setup : Setup)
    (attempt : Nat → Attempt e) (k : Nat) (fs : Files) (r : Reader) (cmslist : List CmsNode)
    (x : UInt64 × UInt64) :
    booked (loopEffects gwcall attempt k (hostLoop setup attempt k fs r cmslist).tried) x =
      (finishedFrom attempt k (hostLoop setup attempt k fs r cmslist).tried).foldl book x := by
  induction cmslist generalizing k fs r x with
  | nil => rfl
  | cons cmsp rest ih =>
      have hhead : ∀ (o : Outcome) (now : Int) (touch : TouchResult) (ts : List Tried),
          o = (cmsSession setup r (attempt k)).1 →
          booked (loopEffects gwcall attempt k (⟨cmsp, now, touch, o⟩ :: ts)) x =
            booked (loopEffects gwcall attempt (k + 1) ts)
              ((finished (attempt k) o).foldl book x) := by
        rintro o now touch ts rfl
        rw [loopEffects, booked_append, ← booked_sessionEffects gwcall]
        rfl
      rcases hostLoop_turn setup attempt k fs r cmsp rest with
        ⟨-, htried, -⟩ | ⟨-, -, htried, -⟩ | ⟨-, -, htried, -⟩
      · rw [htried, hhead _ _ _ _ rfl, ih, finishedFrom, List.foldl_append]
      · rw [htried, hhead _ _ _ _ rfl, finishedFrom, List.foldl_append]
        rfl
      · rw [htried, hhead _ _ _ _ rfl, finishedFrom, List.foldl_append]
        rfl

theorem booked_main (m : Launch) (x : UInt64 × UInt64) :
    booked m.start.main.1 x = m.sessions.foldl book x := by
  have hidle : ∀ f ∈ [m.start.idle], Uncounted f := by simp [Start.idle, Uncounted, credit]
  have hannounce : ∀ f ∈ m.start.announce, Uncounted f := by
    simp [Start.announce, Uncounted, credit]
  rw [Start.main, Launch.sessions]
  cases fmtucall m.start.strdup m.start.usercall with
  | none => exact booked_uncounted hannounce x
  | some usercall =>
      have hstarted : ∀ f ∈ m.start.announce ++
          [.status (.gwUsercall m.start.gwcall (some usercall))], Uncounted f := by
        intro f hf
        rcases List.mem_append.mp hf with hf | hf
        · exact hannounce f hf
        · obtain rfl := List.mem_singleton.mp hf
          exact fun _ => rfl
      cases m.start.hosts with
      | error f => exact booked_uncounted hstarted x
      | ok cmslist =>
          have hloop := booked_loopEffects m.start.gwcall m.start.setup m.start.attempt 0
            m.start.files m.start.reader cmslist x
          simp only
          cases (m.start.loop cmslist).ending <;>
            simp only [booked_append, booked_uncounted hstarted, booked_uncounted hidle] <;>
            exact hloop

theorem counters_update {o : SbOp} {q : Op CString RmsgwStat} (h : gwOp o = some q)
    (r : RmsgwStat) : counters (q.update r) = credit (counters r) o := by
  cases o <;> cases h
  case gwUsercall usercall => cases usercall <;> rfl
  case gwCms cmsHost => cases cmsHost <;> rfl
  all_goals rfl

theorem shown_leaves (m : Launch) (p : RmsStatus) {x : UInt64 × UInt64}
    (h : shown counters p m.start.gwcall = some x) :
    shown counters (m.start.leaves p) m.start.gwcall = some (m.sessions.foldl book x) := by
  rw [Start.leaves, shown_foldl (g := credit) (fun _ _ => rfl) ?_ (room_of_shown h), h,
    Option.map_some, ← booked_main]
  · rfl
  · intro o ho
    obtain ⟨q, hq, hkey⟩ := statusCalls_main_on m.start o ho
    exact ⟨q, hq, hkey, counters_update hq⟩

private theorem shown_leftBy {gwcall : CString} {ms : List Launch}
    (hcall : ∀ m ∈ ms, m.start.gwcall = gwcall) (p : RmsStatus) {x : UInt64 × UInt64}
    (h : shown counters p gwcall = some x) :
    shown counters (leftBy ms p) gwcall = some ((ms.flatMap Launch.sessions).foldl book x) := by
  induction ms generalizing p x with
  | nil => exact h
  | cons m ms ih =>
      obtain rfl := hcall m List.mem_cons_self
      rw [List.flatMap_cons, List.foldl_append]
      exact ih (fun m' hm' => hcall m' (List.mem_cons_of_mem m hm')) _ (shown_leaves m p h)

section Sums

variable (f g : Talk → Nat) (c : Talk) (cs : List Talk)

private theorem total_cons : total f (c :: cs) = f c + total f cs := rfl

private theorem le_total {c : Talk} {cs : List Talk} (h : c ∈ cs) : f c ≤ total f cs := by
  induction cs with
  | nil => cases h
  | cons d cs ih =>
      rw [total_cons]
      rcases List.mem_cons.mp h with rfl | h
      · exact Nat.le_add_right _ _
      · exact Nat.le_trans (ih h) (Nat.le_add_left _ _)

private theorem dvd_total {n : Nat} {cs : List Talk} (h : ∀ c ∈ cs, n ∣ f c) : n ∣ total f cs := by
  induction cs with
  | nil => exact Nat.dvd_zero n
  | cons c cs ih =>
      exact Nat.dvd_add (h c List.mem_cons_self) (ih fun d hd => h d (List.mem_cons_of_mem c hd))

end Sums

theorem talk_counters (c : Talk) :
    c.rc.bytesSent = UInt64.ofNat (c.toAx + c.discarded) ∧
      c.rc.bytesRecv = UInt64.ofNat c.toCms :=
  counters_done c.conversation.runs c.done c.good

theorem book_total (cs : List Talk) (a b : Nat) :
    cs.foldl book (UInt64.ofNat a, UInt64.ofNat b) =
      (UInt64.ofNat (a + (total Talk.toAx cs + total Talk.discarded cs)),
        UInt64.ofNat (b + total Talk.toCms cs)) := by
  induction cs generalizing a b with
  | nil => rfl
  | cons c cs ih =>
      obtain ⟨hsent, hrecv⟩ := talk_counters c
      have hbook : book (UInt64.ofNat a, UInt64.ofNat b) c =
          (UInt64.ofNat (a + (c.toAx + c.discarded)), UInt64.ofNat (b + c.toCms)) := by
        simp only [book, hsent, hrecv, UInt64.ofNat_add]
      rw [List.foldl_cons, hbook, ih, total_cons, total_cons, total_cons]
      congr 2 <;> omega

private theorem counted_iff (c : Talk) :
    c.Counted ↔ UInt64.size ∣ c.discarded ∧ c.toAx < UInt64.size ∧ c.toCms < UInt64.size := by
  obtain ⟨hsent, hrecv⟩ := talk_counters c
  have hsize : UInt64.size = 18446744073709551616 := rfl
  rw [Talk.Counted, hsent, hrecv, UInt64.toNat_ofNat', UInt64.toNat_ofNat', hsize]
  omega

/-- Every session counts the bytes it relayed, and a record that starts with zero
counters shows their sums, exactly if the sessions discarded nothing modulo the
width of a counter and relayed less than a counter holds. -/
theorem byte_accounting_iff (ms : List Launch) (gwcall : CString) (p : RmsStatus)
    (hcall : ∀ m ∈ ms, m.start.gwcall = gwcall) (hzero : shown counters p gwcall = some (0, 0)) :
    Balanced (leftBy ms p) gwcall (ms.flatMap Launch.sessions) ↔
      (∀ c ∈ ms.flatMap Launch.sessions, UInt64.size ∣ c.discarded) ∧
        total Talk.toAx (ms.flatMap Launch.sessions) < UInt64.size ∧
        total Talk.toCms (ms.flatMap Launch.sessions) < UInt64.size := by
  have hshown := shown_leftBy hcall p hzero
  generalize ms.flatMap Launch.sessions = cs at hshown ⊢
  have hsize : UInt64.size = 18446744073709551616 := rfl
  have hbook := book_total cs 0 0
  rw [Nat.zero_add, Nat.zero_add] at hbook
  rw [Balanced, hshown, Option.map_some, show ((0 : UInt64), (0 : UInt64)) =
    (UInt64.ofNat 0, UInt64.ofNat 0) from rfl, hbook, UInt64.toNat_ofNat', UInt64.toNat_ofNat',
    Option.some.injEq, Prod.mk.injEq]
  constructor
  · rintro ⟨hcounted, hax, hcms⟩
    refine ⟨fun c hc => ((counted_iff c).mp (hcounted c hc)).1, ?_, ?_⟩ <;> omega
  · rintro ⟨hdisc, hax, hcms⟩
    have hnone := dvd_total Talk.discarded hdisc
    rw [hsize] at hnone hax hcms
    refine ⟨fun c hc => (counted_iff c).mpr ⟨hdisc c hc, ?_, ?_⟩, ?_, ?_⟩
    · exact Nat.lt_of_le_of_lt (le_total Talk.toAx hc) hax
    · exact Nat.lt_of_le_of_lt (le_total Talk.toCms hc) hcms
    · omega
    · omega

private theorem uhfPort_paclen : 0 < 200 := by decide

private def uhfPort : Gateway.Model.Env := ⟨200, uhfPort_paclen, 0, 0⟩

private theorem banner_nonempty : 0 < (lit "[WL2K-5.0]\r").length := by decide

private theorem banner_fits : (lit "[WL2K-5.0]\r").length ≤ Gateway.Model.bufLen := by decide

private def bannerAnswers : List Gateway.Model.Answer :=
  [.login true, .fcntl true, .fcntl true, .select true false, .peekByte 91,
    .chunk ⟨lit "[WL2K-5.0]\r", banner_nonempty, banner_fits⟩, .write (.wrote 11), .drained,
    .select true false, .peekClosed]

private theorem pulse_nonempty : 0 < Gateway.Model.keepAlive.length := by decide

private theorem pulse_fits : Gateway.Model.keepAlive.length ≤ Gateway.Model.bufLen := by decide

/-- The CMS sends one keep alive packet and closes the connection. -/
private def pulseAnswers : List Gateway.Model.Answer :=
  [.login true, .fcntl true, .fcntl true, .select true false, .peekByte 59,
    .chunk ⟨Gateway.Model.keepAlive, pulse_nonempty, pulse_fits⟩, .drained, .select true false,
    .peekClosed]

private def uhfChannel : Channels.Model.RootNode where
  isElement := true
  name := lit "channel"
  props := [(lit "name", lit "uhf")]
  children := [⟨true, lit "callsign", lit "N0CALL-11"⟩, ⟨true, lit "password", lit "secret"⟩,
    ⟨true, lit "statuschecker", lit "true"⟩]

private theorem station_noNul : (0 : UInt8) ∉ lit "N0CALL-11" := by decide

private theorem client_noNul : (0 : UInt8) ∉ lit "N2USER" := by decide

private def talking (t : Conversation uhfPort) : Launch where
  env := uhfPort
  start :=
    { gwcall := ⟨lit "N0CALL-11", station_noNul⟩
      pid := 4712
      usercall := ⟨lit "N2USER", client_noNul⟩
      strdup := true
      ax25port := some (lit "uhf")
      channelfile := none
      reader := Reader.start (some ⟨lit "rmschannels", [uhfChannel]⟩)
      cmsfile := some (lit "cms1:8772:pw\n")
      files := fun _ => .absent
      alloc := fun _ => true
      attempt := fun _ => ⟨1000, .done, .connected, t⟩ }

private theorem banner_runs :
    (Lib.Process.run (Gateway.Model.step uhfPort) Gateway.Model.initial bannerAnswers).isSome := by
  decide

private def bannerLaunch : Launch :=
  talking ⟨bannerAnswers, _, (Option.some_get banner_runs).symm⟩

private theorem pulse_runs :
    (Lib.Process.run (Gateway.Model.step uhfPort) Gateway.Model.initial pulseAnswers).isSome := by
  decide

private def pulseLaunch : Launch :=
  talking ⟨pulseAnswers, _, (Option.some_get pulse_runs).symm⟩

theorem byte_accounting_iff_banner :
    Balanced (leftBy [bannerLaunch] freshBlock) bannerLaunch.start.gwcall
        ([bannerLaunch].flatMap Launch.sessions) ↔
      (∀ c ∈ [bannerLaunch].flatMap Launch.sessions, UInt64.size ∣ c.discarded) ∧
        total Talk.toAx ([bannerLaunch].flatMap Launch.sessions) < UInt64.size ∧
        total Talk.toCms ([bannerLaunch].flatMap Launch.sessions) < UInt64.size :=
  byte_accounting_iff [bannerLaunch] bannerLaunch.start.gwcall freshBlock
    (by simp) (by decide)

/-- The keep alive packet is counted as eight bytes sent, and nothing went to AX.25. -/
theorem keepAlive_counted_as_sent :
    shown counters freshBlock pulseLaunch.start.gwcall = some (0, 0) ∧
      shown counters (leftBy [pulseLaunch] freshBlock) pulseLaunch.start.gwcall = some (8, 0) ∧
      pulseLaunch.sessions.map (fun c => (c.rc.bytesSent, c.toAx)) = [(8, 0)] ∧
      ¬ Balanced (leftBy [pulseLaunch] freshBlock) pulseLaunch.start.gwcall
        ([pulseLaunch].flatMap Launch.sessions) := by
  have hshown : shown counters (leftBy [pulseLaunch] freshBlock) pulseLaunch.start.gwcall =
      some (8, 0) := by decide
  have hsent : pulseLaunch.sessions.map (fun c => (c.rc.bytesSent, c.toAx)) = [(8, 0)] := by
    decide
  refine ⟨by decide, hshown, hsent, ?_⟩
  rintro ⟨hcounted, -⟩
  obtain ⟨c, hc, hpair⟩ := List.mem_map.mp (hsent ▸ List.mem_singleton_self ((8 : UInt64), 0))
  have hbytes := (hcounted c (by simpa using hc)).1
  rw [(Prod.mk.inj hpair).1, (Prod.mk.inj hpair).2] at hbytes
  exact absurd hbytes (by decide)

end Rmsgw.Session.Accounting
