/- The FF/FQ handshake read off the log of a conversation, and the error code that
   it makes of a time out. -/

import Rmsgw.Lib.Transcript
import Rmsgw.Gateway.Analysis
import Rmsgw.Gateway.Exit

set_option autoImplicit false
set_option relaxedAutoImplicit false

namespace Rmsgw.Gateway.Handshake

open Rmsgw.Lib.CStrings Rmsgw.Lib.Process Rmsgw.Lib.Transcript Rmsgw.Rms
open Rmsgw.Gateway.Model Rmsgw.Gateway.Steps Rmsgw.Gateway.Analysis Rmsgw.Gateway.Exit

def Side.other : Side → Side
  | .cms => .ax25
  | .ax25 => .cms

/-- The chunk that an event brings from a side. -/
def chunkFrom : Side → Event → Option (List UInt8)
  | .cms, .cmsRecv bytes _ => some bytes
  | .ax25, .axRead bytes => some bytes
  | _, _ => none

/-- The chunk ends in "FF" and one more byte. -/
def EndsFF (bytes : List UInt8) : Prop := ∃ front x, bytes = front ++ [70, 70, x]

/-- The chunk is "FQ" and one more byte. -/
def Quits (bytes : List UInt8) : Prop := ∃ x, bytes = [70, 81, x]

/-- A chunk of three bytes that is neither. -/
def TurnsAround (bytes : List UInt8) : Prop :=
  bytes.length = 3 ∧ ¬ EndsFF bytes ∧ ¬ Quits bytes

def sends (side : Side) (what : List UInt8 → Prop) (ev : Event) : Prop :=
  ∃ bytes, chunkFrom side ev = some bytes ∧ what bytes

/-- A side has sent FF, and the other side has not turned the line around since. -/
def FlagSet (side : Side) (log : List Event) : Prop :=
  Since (sends side EndsFF) (sends (Side.other side) TurnsAround) log

/-- At some point a side sent FQ while the FF flag of the other side was set. -/
def Completed (log : List Event) : Prop :=
  Occurs (fun before ev => ∃ side, sends side Quits ev ∧ FlagSet (Side.other side) before) log

/-- The bottom of the main loop where the conversation is given up. -/
def timeoutExit : List Event := [.gwState .gwCommWait, .closeSock, .gwState .gwConnected]

/-- gateway() has returned through the CONV_TIMEOUT exit. -/
def TimedOut (s : State) : Prop := s.pc = .done ∧ timeoutExit <:+ s.log

/-- A read brings three bytes at least. -/
def longChunk : Answer → Bool
  | .chunk c => 3 ≤ c.bytes.length
  | _ => true

def NormalCode (s : State) : Prop :=
  s.rc.errcode ≠ 10 ∧
    (TimedOut s →
      (s.rc.errcode = 0 ↔ Completed s.log) ∧ (¬ Completed s.log → s.rc.errcode = 1))

/-- The sense flags and the error code against the log. -/
structure Hears (s : State) : Prop where
  ffup : s.sense.ffup = true ↔ FlagSet .cms s.log
  ffdn : s.sense.ffdn = true ↔ FlagSet .ax25 s.log
  code : s.pc ≠ .done → (s.rc.errcode = 10 ↔ Completed s.log)
  ended : s.pc = .done → NormalCode s
  start : s.pc = .login → s.log.getLast? = some (.gwState .gwLogin)

private theorem three_at_end {bytes : List UInt8} (h : 3 ≤ bytes.length) :
    ∃ front a b x, bytes = front ++ [a, b, x] ∧ front.length = bytes.length - 3 := by
  refine ⟨bytes.take (bytes.length - 3), ?_⟩
  have hlen : (bytes.drop (bytes.length - 3)).length = 3 := by
    rw [List.length_drop]
    omega
  obtain ⟨a, b, x, hend⟩ := List.length_eq_three.mp hlen
  refine ⟨a, b, x, ?_, by rw [List.length_take]; omega⟩
  rw [← hend, List.take_append_drop]

private theorem sentFF_received {e : Env} {old : CArray bufLen} {c : Chunk}
    (hn : 3 ≤ c.bytes.length) :
    sentFF e (received old c) c.bytes.length = true ↔ EndsFF c.bytes := by
  obtain ⟨front, a, b, x, hbytes, hfront⟩ := three_at_end hn
  have hlen := congrArg List.length hbytes
  simp only [List.length_append, List.length_cons, List.length_nil] at hlen
  have hthird : ((c.bytes.length : Int) - 3).toNat = front.length := by omega
  have hsecond : ((c.bytes.length : Int) - 2).toNat = front.length + 1 := by omega
  have hfirst : (front ++ [a, b, x]).getD front.length 0 = a := by
    rw [List.getD_append_right _ _ _ _ (Nat.le_refl _), Nat.sub_self]
    rfl
  have hnext : (front ++ [a, b, x]).getD (front.length + 1) 0 = b := by
    rw [List.getD_append_right _ _ _ (front.length + 1) (by omega), Nat.add_sub_cancel_left]
    rfl
  rw [sentFF, byteAt_received e old c (by omega) (by omega),
    byteAt_received e old c (by omega) (by omega), hthird, hsecond, EndsFF, hbytes, hfirst, hnext,
    Bool.and_eq_true, beq_iff_eq, beq_iff_eq]
  constructor
  · rintro ⟨rfl, rfl⟩
    exact ⟨front, x, rfl⟩
  · rintro ⟨front', x', heq⟩
    obtain ⟨-, htail⟩ := List.append_inj' heq rfl
    simp only [List.cons.injEq] at htail
    exact ⟨htail.1, htail.2.1⟩

private theorem sentFQ_received {old : CArray bufLen} {c : Chunk} (hn : c.bytes.length = 3) :
    sentFQ (received old c) = true ↔ Quits c.bytes := by
  obtain ⟨a, b, x, hbytes⟩ := List.length_eq_three.mp hn
  have hbuf : received old c = [a, b, x] ++ old.bytes.drop c.bytes.length := by
    rw [received, CArray.overwrite_bytes, hbytes]
  rw [sentFQ, hbuf, Quits, hbytes]
  simp

private theorem quits_not_endsFF {bytes : List UInt8} (h : Quits bytes) : ¬ EndsFF bytes := by
  rintro ⟨front, x, heq⟩
  obtain ⟨y, rfl⟩ := h
  have hsplit : [] ++ [70, 81, y] = front ++ [70, 70, x] := heq
  obtain ⟨-, htail⟩ := List.append_inj' hsplit rfl
  exact absurd (List.cons.inj (List.cons.inj htail).2).1 (by decide)

private theorem Quits.length {bytes : List UInt8} (h : Quits bytes) : bytes.length = 3 := by
  obtain ⟨x, rfl⟩ := h
  rfl

private theorem uplinkSense_spec {e : Env} {old : CArray bufLen} {c : Chunk}
    (hn : 3 ≤ c.bytes.length) (sense : Sense) (code : Int) :
    let v := uplinkSense e (received old c) c.bytes.length sense code
    (v.sense.ffup = true ↔ EndsFF c.bytes ∨ sense.ffup = true) ∧
      (v.sense.ffdn = true ↔ sense.ffdn = true ∧ ¬ TurnsAround c.bytes) ∧
      (v.errcode = 10 ↔ code = 10 ∨ Quits c.bytes ∧ sense.ffdn = true) := by
  intro v
  have hff := @sentFF_received e old c hn
  by_cases hend : EndsFF c.bytes
  · have hquit : ¬ Quits c.bytes := fun h => quits_not_endsFF h hend
    have hv : v = ⟨{ sense with ffup := true }, 0, code⟩ := if_pos (hff.mpr hend)
    simp [hv, hend, hquit, TurnsAround]
  · have hno : ¬ sentFF e (received old c) c.bytes.length = true := fun h => hend (hff.mp h)
    by_cases hask : c.bytes.length = 3 ∧ sense.ffdn = true
    · have hfq := @sentFQ_received old c hask.1
      by_cases hquit : Quits c.bytes
      · have hv : v = ⟨{ sense with fqup := true }, convTimeout, 10⟩ := by
          simp only [v, uplinkSense, if_neg hno, if_pos hask, if_pos (hfq.mpr hquit)]
        simp [hv, hend, hquit, hask.2, TurnsAround]
      · have hv : v = ⟨{ sense with ffdn := false }, 0, code⟩ := by
          simp only [v, uplinkSense, if_neg hno, if_pos hask, if_neg fun h => hquit (hfq.mp h)]
        simp [hv, hend, hquit, hask.1, TurnsAround]
    · have hv : v = ⟨sense, 0, code⟩ := by
        simp only [v, uplinkSense, if_neg hno, if_neg hask]
      have hturn : sense.ffdn = true → ¬ TurnsAround c.bytes := fun hdn ht => hask ⟨ht.1, hdn⟩
      have hquit : Quits c.bytes → sense.ffdn ≠ true := fun hq hdn => hask ⟨hq.length, hdn⟩
      refine ⟨by simp [hv, hend], ?_, ?_⟩
      · rw [hv]
        exact ⟨fun hdn => ⟨hdn, hturn hdn⟩, And.left⟩
      · rw [hv]
        exact ⟨.inl, fun h => h.resolve_right fun hq => hquit hq.1 hq.2⟩

/-- The flags with the two sides exchanged. -/
def Sense.swap (s : Sense) : Sense := ⟨s.ffdn, s.fqdn, s.ffup, s.fqup⟩

/-- The two branches, written apart in the source, are mirror images. -/
private theorem downlinkSense_mirror (e : Env) (buf : List UInt8) (n : Nat) (sense : Sense)
    (code : Int) : downlinkSense e buf n sense code =
      ⟨Sense.swap (uplinkSense e buf n (Sense.swap sense) code).sense,
        (uplinkSense e buf n (Sense.swap sense) code).loop,
        (uplinkSense e buf n (Sense.swap sense) code).errcode⟩ := by
  unfold downlinkSense uplinkSense
  split
  · rfl
  split
  · rename_i hask
    have hswap : n = 3 ∧ (Sense.swap sense).ffdn = true := hask
    rw [if_pos hswap]
    split <;> rfl
  · rename_i hask
    have hswap : ¬ (n = 3 ∧ (Sense.swap sense).ffdn = true) := hask
    rw [if_neg hswap]
    rfl

private theorem downlinkSense_spec {e : Env} {old : CArray bufLen} {c : Chunk}
    (hn : 3 ≤ c.bytes.length) (sense : Sense) (code : Int) :
    let v := downlinkSense e (received old c) c.bytes.length sense code
    (v.sense.ffdn = true ↔ EndsFF c.bytes ∨ sense.ffdn = true) ∧
      (v.sense.ffup = true ↔ sense.ffup = true ∧ ¬ TurnsAround c.bytes) ∧
      (v.errcode = 10 ↔ code = 10 ∨ Quits c.bytes ∧ sense.ffup = true) := by
  intro v
  have hv : v = _ := downlinkSense_mirror e (received old c) c.bytes.length sense code
  rw [hv]
  exact uplinkSense_spec hn (Sense.swap sense) code

private theorem other_other (side : Side) : Side.other (Side.other side) = side := by
  cases side <;> rfl

private theorem flags_snoc {side : Side} {log : List Event} {ev : Event} {bytes : List UInt8}
    (hown : chunkFrom side ev = some bytes) (hother : chunkFrom (Side.other side) ev = none) :
    (FlagSet side (log ++ [ev]) ↔ EndsFF bytes ∨ FlagSet side log) ∧
      (FlagSet (Side.other side) (log ++ [ev]) ↔
        FlagSet (Side.other side) log ∧ ¬ TurnsAround bytes) ∧
      (Completed (log ++ [ev]) ↔
        Completed log ∨ Quits bytes ∧ FlagSet (Side.other side) log) := by
  have hsends : ∀ what, sends side what ev ↔ what bytes := by
    intro what
    simp [sends, hown]
  have hsilent : ∀ what, ¬ sends (Side.other side) what ev := by
    intro what
    simp [sends, hother]
  refine ⟨?_, ?_, ?_⟩
  · rw [FlagSet, since_snoc, hsends]
    simp [FlagSet, hsilent]
  · rw [FlagSet, since_snoc, other_other, hsends]
    simp [FlagSet, hsilent, other_other]
  · rw [Completed, occurs_snoc]
    refine or_congr_right ?_
    constructor
    · rintro ⟨from_, hquit, hflag⟩
      by_cases hside : from_ = side
      · subst hside
        exact ⟨(hsends _).mp hquit, hflag⟩
      · have hmirror : from_ = Side.other side := by
          cases side <;> cases from_ <;> first | rfl | exact absurd rfl hside
        exact absurd (hmirror ▸ hquit) (hsilent _)
    · rintro ⟨hquit, hflag⟩
      exact ⟨side, (hsends _).mpr hquit, hflag⟩

private theorem flags_quiet {log es : List Event}
    (h : ∀ ev ∈ es, ∀ side, chunkFrom side ev = none) :
    (∀ side, FlagSet side (log ++ es) ↔ FlagSet side log) ∧
      (Completed (log ++ es) ↔ Completed log) := by
  have hsilent : ∀ ev ∈ es, ∀ side what, ¬ sends side what ev := by
    intro ev hev side what
    simp [sends, h ev hev side]
  refine ⟨fun side => since_append_quiet fun ev hev => ⟨hsilent ev hev _ _, hsilent ev hev _ _⟩,
    occurs_append_quiet fun ev hev before => ?_⟩
  rintro ⟨side, hquit, -⟩
  exact hsilent ev hev side _ hquit

/-- No chunk among the events. -/
def Quiet (es : List Event) : Prop := ∀ ev ∈ es, ∀ side, chunkFrom side ev = none

private theorem quiet_of_all {es : List Event}
    (h : es.all (fun ev => (chunkFrom .cms ev).isNone && (chunkFrom .ax25 ev).isNone) = true) :
    Quiet es := by
  intro ev hev side
  have hboth := List.all_eq_true.mp h ev hev
  rw [Bool.and_eq_true, Option.isNone_iff_eq_none, Option.isNone_iff_eq_none] at hboth
  cases side with
  | cms => exact hboth.1
  | ax25 => exact hboth.2

private theorem hears_quiet {s t : State} {es : List Event} (hs : Hears s) (hopen : s.pc ≠ .done)
    (hquiet : Quiet es) (hsense : t.sense = s.sense) (hlog : t.log = s.log ++ es)
    (hcode : t.pc ≠ .done → t.rc.errcode = s.rc.errcode) (hend : t.pc = .done → NormalCode t)
    (hlogin : t.pc ≠ .login) : Hears t := by
  obtain ⟨hflags, hcompleted⟩ := @flags_quiet s.log _ hquiet
  constructor
  case ffup => rw [hsense, hlog, hflags]; exact hs.ffup
  case ffdn => rw [hsense, hlog, hflags]; exact hs.ffdn
  case code =>
    intro hpc
    rw [hcode hpc, hlog, hcompleted]
    exact hs.code hopen
  case ended => exact hend
  case start => exact fun hpc => absurd hpc hlogin

private theorem hears_goto {s : State} {pc : Pc} {es : List Event} (hs : Hears s)
    (hopen : s.pc ≠ .done)
    (hquiet : Quiet es) (hdone : pc ≠ .done) (hlogin : pc ≠ .login) : Hears (s.goto pc es) :=
  hears_quiet hs hopen hquiet rfl rfl (fun _ => rfl) (fun hpc => absurd hpc hdone) hlogin

private theorem hears_finish {s : State} {code : Int} {es : List Event} (hs : Hears s)
    (hopen : s.pc ≠ .done) (hquiet : Quiet es) (hend : NormalCode (s.finish code es)) :
    Hears (s.finish code es) :=
  hears_quiet hs hopen hquiet rfl rfl (fun hpc => absurd rfl hpc) (fun _ => hend)
    (fun hpc => by cases hpc)

private theorem normalCode_other {s : State} (hcode : s.rc.errcode ≠ 10)
    (hlast : s.log.getLast? ≠ some (.gwState .gwConnected)) : NormalCode s := by
  refine ⟨hcode, ?_⟩
  rintro ⟨-, front, hlog⟩
  refine absurd ?_ hlast
  rw [← hlog, List.getLast?_append]
  rfl

private theorem hears_endOfRound {s : State} (hs : Hears s) (hopen : s.pc ≠ .done) :
    Hears (endOfRound s) := by
  have hquiet : Quiet [.gwState .gwCommWait, .closeSock, .gwState .gwConnected] := quiet_of_all rfl
  rcases endOfRound_cases s with ⟨-, h⟩ | ⟨-, h⟩
  · rw [h]
    exact hears_goto ⟨hs.ffup, hs.ffdn, hs.code, hs.ended, hs.start⟩ hopen (quiet_of_all rfl)
      (by decide) (by decide)
  · rw [h]
    refine hears_finish ⟨hs.ffup, hs.ffdn, hs.code, hs.ended, hs.start⟩ hopen hquiet ?_
    have hcompleted := (@flags_quiet s.log _ hquiet).2
    have hcode := hs.code hopen
    by_cases hten : s.rc.errcode = 10
    · have hdone := hcode.mp hten
      simp only [NormalCode, State.finish, hcompleted, if_pos hten]
      exact ⟨by decide, fun _ => ⟨⟨fun _ => hdone, fun _ => trivial⟩, fun hno => absurd hdone hno⟩⟩
    · have hno : ¬ Completed s.log := fun hdone => hten (hcode.mpr hdone)
      simp only [NormalCode, State.finish, hcompleted, if_neg hten]
      exact ⟨by decide, fun _ =>
        ⟨⟨fun h => absurd h (by decide), fun h => absurd h hno⟩, fun _ => trivial⟩⟩

private theorem hears_axHalf {s : State} (hs : Hears s) (hopen : s.pc ≠ .done) :
    Hears (axHalf s) := by
  rcases axHalf_cases s with h | h
  · rw [h]
    exact hears_goto hs hopen (quiet_of_all rfl) (by decide) (by decide)
  · rw [h]
    exact hears_endOfRound hs hopen

private theorem hears_cmsChunk {e : Env} {s : State} {c : Chunk} (hs : Hears s)
    (hopen : s.pc ≠ .done) (hn : 3 ≤ c.bytes.length) : Hears (onCmsChunk e s c) := by
  obtain ⟨hsense, -, hcode, hlog⟩ := onCmsChunk_analyse e s c
  obtain ⟨hup, hdn, hten⟩ := @uplinkSense_spec e s.buf c hn s.sense s.rc.errcode
  obtain ⟨hown, hother, hcompleted⟩ :=
    @flags_snoc .cms s.log
      (.cmsRecv c.bytes (analyse .cms e s.buf c s.sense s.rc.errcode).eaten) c.bytes rfl rfl
  have hpc : (onCmsChunk e s c).pc = .recvCms ∨ (onCmsChunk e s c).pc = .writeAx := by
    simp only [onCmsChunk]
    split
    · exact .inl rfl
    · exact .inr rfl
  constructor
  case ffup =>
    rw [hsense, hlog, hown, ← hs.ffup]
    exact hup
  case ffdn =>
    rw [hsense, hlog]
    exact hdn.trans ((and_congr_left fun _ => hs.ffdn).trans hother.symm)
  case code =>
    intro _
    rw [hcode, hlog, hcompleted, ← hs.code hopen]
    exact hten.trans (or_congr_right (and_congr_right fun _ => hs.ffdn))
  case ended => exact fun h => by rcases hpc with hpc | hpc <;> rw [hpc] at h <;> cases h
  case start => exact fun h => by rcases hpc with hpc | hpc <;> rw [hpc] at h <;> cases h

private theorem hears_axChunk {e : Env} {s : State} {c : Chunk} (hs : Hears s)
    (hopen : s.pc ≠ .done) (hn : 3 ≤ c.bytes.length) : Hears (onAxChunk e s c) := by
  obtain ⟨hdn, hup, hten⟩ := @downlinkSense_spec e s.buf c hn s.sense s.rc.errcode
  obtain ⟨hown, hother, hcompleted⟩ :=
    @flags_snoc .ax25 s.log (.axRead c.bytes) c.bytes rfl rfl
  constructor
  case ffup => exact hup.trans ((and_congr_left fun _ => hs.ffup).trans hother.symm)
  case ffdn => exact hdn.trans ((or_congr_right hs.ffdn).trans hown.symm)
  case code =>
    intro _
    refine hten.trans (Iff.trans ?_ hcompleted.symm)
    rw [← hs.code hopen]
    exact or_congr_right (and_congr_right fun _ => hs.ffup)
  case ended => exact fun h => by cases h
  case start => exact fun h => by cases h

private theorem hears_step {e : Env} {s t : State} {a : Answer} (h : Trans e s a t)
    (ha : longChunk a = true) (hs : Hears s) : Hears t := by
  have hopen : s.pc ≠ .done := trans_not_done h
  have hclosed : ∀ (u : State) (code : Int) (es : List Event), code ≠ 10 →
      NormalCode (u.finish code (es ++ [.closeSock])) := by
    intro u code es hcode
    refine normalCode_other hcode ?_
    simp [State.finish]
  cases h with
  | loginOk at_ => exact hears_goto hs hopen (quiet_of_all rfl) (by decide) (by decide)
  | loginFailed at_ =>
      have hcode : (s.finish errGwLogin []).rc.errcode ≠ 10 := by simp [State.finish, errGwLogin]
      refine hears_finish hs hopen (quiet_of_all rfl) (normalCode_other hcode ?_)
      simp [State.finish, hs.start at_]
  | sockOk at_ => exact hears_goto hs hopen (quiet_of_all rfl) (by decide) (by decide)
  | sockFailed at_ => exact hears_finish hs hopen (quiet_of_all rfl) (hclosed s _ [] (by decide))
  | stdinOk at_ => exact hears_goto hs hopen (quiet_of_all rfl) (by decide) (by decide)
  | stdinFailed at_ => exact hears_finish hs hopen (quiet_of_all rfl) (hclosed s _ [] (by decide))
  | selectCms at_ ax =>
      exact hears_goto (s := { s with axReady := ax })
        ⟨hs.ffup, hs.ffdn, hs.code, hs.ended, hs.start⟩ hopen (quiet_of_all rfl) (by decide)
        (by decide)
  | selectAx at_ ax =>
      exact hears_axHalf (s := { s with axReady := ax })
        ⟨hs.ffup, hs.ffdn, hs.code, hs.ended, hs.start⟩ hopen
  | peekClosed at_ =>
      refine hears_finish hs hopen (quiet_of_all rfl) ⟨by simp [State.finish], ?_⟩
      rintro ⟨-, front, hlog⟩
      -- the notice to the client stands where the time out has GW_COMMWAIT
      obtain ⟨-, hlast⟩ := List.append_inj' hlog rfl
      cases (List.cons.inj hlast).1
  | peekByte at_ b =>
      exact hears_goto (s := { s with buf := s.buf.overwrite [b] (byte_fits b) })
        ⟨hs.ffup, hs.ffdn, hs.code, hs.ended, hs.start⟩ hopen (quiet_of_all rfl) (by decide)
        (by decide)
  | peekFailed at_ => exact hears_goto hs hopen (quiet_of_all rfl) (by decide) (by decide)
  | cmsChunk at_ c => exact hears_cmsChunk hs hopen (of_decide_eq_true ha)
  | cmsDrained at_ => exact hears_axHalf hs hopen
  | axWrote at_ m hm =>
      have hs' : Hears { s with retryCount := 0, cp := s.cp + m, n := s.n - m } :=
        ⟨hs.ffup, hs.ffdn, hs.code, hs.ended, hs.start⟩
      split <;> exact hears_goto hs' hopen (quiet_of_all rfl) (by decide) (by decide)
  | axRetry at_ again =>
      exact hears_goto (s := { s with retryCount := s.retryCount + 1 })
        ⟨hs.ffup, hs.ffdn, hs.code, hs.ended, hs.start⟩ hopen (quiet_of_all rfl) (by decide)
        (by decide)
  | axGiveUp at_ enough =>
      exact hears_finish (s := { s with retryCount := s.retryCount + 1 })
        ⟨hs.ffup, hs.ffdn, hs.code, hs.ended, hs.start⟩ hopen (quiet_of_all rfl)
        (hclosed _ _ [.axWrite (offerAx e s) .eagain] (by decide))
  | axFailed at_ =>
      exact hears_finish hs hopen (quiet_of_all rfl)
        (hclosed s _ [.axWrite (offerAx e s) .failed] (by decide))
  | axChunk at_ c => exact hears_axChunk hs hopen (of_decide_eq_true ha)
  | axDrained at_ => exact hears_endOfRound hs hopen
  | cmsWrote at_ m hm =>
      have hs' : Hears { s with cp := s.cp + m, n := s.n - m } :=
        ⟨hs.ffup, hs.ffdn, hs.code, hs.ended, hs.start⟩
      split <;> exact hears_goto hs' hopen (quiet_of_all rfl) (by decide) (by decide)
  | cmsRetry at_ => exact hears_goto hs hopen (quiet_of_all rfl) (by decide) (by decide)
  | cmsFailed at_ =>
      exact hears_finish hs hopen (quiet_of_all rfl)
        (hclosed s _ [.cmsWrite (offerCms s) .failed] (by decide))

private theorem hears_initial : Hears initial := by
  have hflags : ∀ side, ¬ FlagSet side initial.log := by
    rintro side ⟨before, ev, after, heq, ⟨bytes, hev, -⟩, -⟩
    have hmem : ev ∈ initial.log := heq ▸ by simp
    obtain rfl := List.mem_singleton.mp hmem
    cases side <;> cases hev
  have hnone : ¬ Completed initial.log := by
    rintro ⟨before, ev, after, heq, side, ⟨bytes, hev, -⟩, -⟩
    have hmem : ev ∈ initial.log := heq ▸ by simp
    obtain rfl := List.mem_singleton.mp hmem
    cases side <;> cases hev
  constructor
  case ffup => exact ⟨nofun, fun h => absurd h (hflags .cms)⟩
  case ffdn => exact ⟨nofun, fun h => absurd h (hflags .ax25)⟩
  case code => exact fun _ => ⟨fun h => absurd h (by decide), fun h => absurd h hnone⟩
  case ended => exact fun h => by cases h
  case start => exact fun _ => rfl

private theorem hears_run {e : Env} {as : List Answer} {s : State}
    (h : run (step e) initial as = some s) (hlong : ∀ a ∈ as, longChunk a = true) : Hears s := by
  have hmeets : Meets (step e) (fun _ a => longChunk a = true) initial as := Meets.of_forall hlong
  exact hmeets.preserves (fun _ _ _ ha hst hs => hears_step (step_trans hst) ha hs) h hears_initial

private theorem errcode_done_step {e : Env} {s t : State} {a : Answer} (h : Trans e s a t)
    (hdone : t.pc = .done) : t.rc.errcode ≠ 10 := by
  have hround : ∀ u : State, (endOfRound u).pc = .done → (endOfRound u).rc.errcode ≠ 10 := by
    intro u hu
    rcases endOfRound_cases u with ⟨-, hgo⟩ | ⟨-, hend⟩
    · rw [hgo] at hu
      cases hu
    · rw [hend, State.finish]
      change (if u.rc.errcode = 10 then (0 : Int) else 1) ≠ 10
      split <;> decide
  have hhalf : ∀ u : State, (axHalf u).pc = .done → (axHalf u).rc.errcode ≠ 10 := by
    intro u hu
    rcases axHalf_cases u with hgo | hend
    · rw [hgo] at hu
      cases hu
    · rw [hend] at hu ⊢
      exact hround u hu
  cases h with
  | selectAx at_ ax => exact hhalf _ hdone
  | cmsDrained at_ => exact hhalf _ hdone
  | axDrained at_ => exact hround _ hdone
  | cmsChunk at_ c =>
      simp only [onCmsChunk] at hdone
      split at hdone <;> cases hdone
  | axWrote at_ m hm => split at hdone <;> cases hdone
  | cmsWrote at_ m hm => split at hdone <;> cases hdone
  | loginFailed at_ => exact (by decide : errGwLogin ≠ 10)
  | sockFailed at_ => exact (by decide : errGwSock ≠ 10)
  | stdinFailed at_ => exact (by decide : errGwAx25 ≠ 10)
  | peekClosed at_ => exact (by decide : (0 : Int) ≠ 10)
  | axGiveUp at_ enough => exact (by decide : errGwAx25Io ≠ 10)
  | axFailed at_ => exact (by decide : errGwAx25Io ≠ 10)
  | cmsFailed at_ => exact (by decide : errGwSockIo ≠ 10)
  | _ => cases hdone

/-- No exit of gateway() returns the internal code; and where each chunk has three
bytes at least, the time out is reported as a normal end exactly when one side sent
FQ while the FF flag of the other side was set, and as a time out otherwise. -/
theorem timeout_normal_iff_completed (e : Env) (as : List Answer) (s : State)
    (h : run (step e) initial as = some s) (hdone : s.pc = .done) :
    s.rc.errcode ≠ 10 ∧
      ((∀ a ∈ as, longChunk a = true) → TimedOut s →
        (s.rc.errcode = 0 ↔ Completed s.log) ∧ (¬ Completed s.log → s.rc.errcode = 1)) := by
  refine ⟨?_, fun hlong => ((hears_run h hlong).ended hdone).2⟩
  refine run_preserves (P := fun s => s.pc = .done → s.rc.errcode ≠ 10) ?_ h (fun hpc => by cases hpc)
    hdone
  exact fun _ _ _ hst _ => errcode_done_step (step_trans hst)

private def terminal : Env := ⟨64, by decide, (0, 0)⟩

/-- The CMS sends FF, the client FQ. -/
private def farewell : List Answer :=
  [.login true, .fcntl true, .fcntl true, .select true true, .peekByte 70,
    .chunk ⟨[70, 70, 13], by decide, by decide⟩, .write (.wrote 3), .drained,
    .chunk ⟨[70, 81, 13], by decide, by decide⟩, .write (.wrote 3), .drained]

theorem timeout_normal_iff_completed_farewell :
    ∃ s, run (step terminal) initial farewell = some s ∧ s.pc = .done ∧ TimedOut s ∧
      s.rc.errcode = 0 ∧ (∀ a ∈ farewell, longChunk a = true) ∧ s.rc.errcode ≠ 10 ∧
      Completed s.log := by
  have hend : (run (step terminal) initial farewell).map
      (fun s => (s.pc, s.rc.errcode, s.log.reverse.take 3)) =
        some (.done, 0, timeoutExit.reverse) := by decide
  obtain ⟨s, hs, heq⟩ := Option.map_eq_some_iff.mp hend
  simp only [Prod.mk.injEq] at heq
  obtain ⟨hpc, hcode, hlog⟩ := heq
  have hlong : ∀ a ∈ farewell, longChunk a = true := by decide
  have hsuffix : timeoutExit <:+ s.log := by
    rw [← List.reverse_prefix, ← hlog]
    exact List.take_prefix 3 s.log.reverse
  obtain ⟨hten, hnormal⟩ := timeout_normal_iff_completed terminal farewell s hs hpc
  exact ⟨s, hs, hpc, ⟨hpc, hsuffix⟩, hcode, hlong, hten,
    (hnormal hlong ⟨hpc, hsuffix⟩).1.mp hcode⟩

end Rmsgw.Gateway.Handshake
