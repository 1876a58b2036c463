/- Incomplete channels: when neither the calls of the reader nor the check-in program
   hands a NULL pointer to a string function. -/

import Rmsgw.Channels.Omissions
import Rmsgw.Aci.Steps

set_option autoImplicit false
set_option relaxedAutoImplicit false

namespace Rmsgw.Aci.Incomplete

open Rmsgw.Lib.CStrings Rmsgw.Lib.Process Rmsgw.Rms Rmsgw.StatFile Rmsgw.Channels.Model
open Rmsgw.Channels.Entry Rmsgw.Channels.Traversal Rmsgw.Channels.Bounds Rmsgw.Channels.Omissions
open Rmsgw.Aci.Model Rmsgw.Aci.Steps
open Rmsgw.Channels.Isolation (fieldText)

/-- Every run of the program finds the document in the channel file. -/
def OnDocument (d : ChannelsDoc) (answers : List Answer) : Prop :=
  ∀ a ∈ answers, ∀ cfg doc now, a = .start cfg doc now → doc = some d.toXmlDoc

/-- Neither calls of the reader nor histories of check-in runs pass a NULL pointer on. -/
def NeverNull (d : ChannelsDoc) : Prop :=
  CallsSafe d ∧
    ∀ fs answers s, OnDocument d answers → run step (initial fs) answers = some s →
      Event.passed (.killed .nullDeref) ∉ s.history

/-- A channel that is read within the buffers has a status checker to be substituted
and the attributes name and active. -/
def Complete (left : Option Str) (e : RootNode) : Prop :=
  Sized left e → (effective left e).isSome ∧ (xmlGetProp e (lit "name")).isSome ∧
    (xmlGetProp e (lit "active")).isSome

/-- What is known of the static structure on the way through a document that lacks nothing. -/
def Supplied (d : ChannelsDoc) (c : Channel) (es : List RootNode) : Prop :=
  Along d Complete c es ∧ Called d c es

private theorem aciStatFile_fault {kind name : Str} {f : Fault}
    (h : aciStatFile kind name = .error f) : f = .bufferOverflow := by
  rw [aciStatFile] at h
  split at h
  · cases h
  · exact (Except.error.inj h).symm

/-- What a round of the loop makes of the next channel, its name and callsign apart. -/
inductive Examined (d : ChannelsDoc) (r : Reader) (env : ChannelEnv) : Verdict × Reader → Prop
  | atEnd (none : ahead d r = []) :
      Examined d r env (.atEnd, ⟨some d.toXmlDoc, .none, [], r.curent⟩)
  | unread {e : RootNode} {es : List RootNode} {f : Fault} (next : ahead d r = e :: es)
      (read : readEntry r.curent e = .error f) : Examined d r env (.killed f, r)
  | unmarked {e : RootNode} {rest : List RootNode} {c : Channel}
      (next : ahead d r = e :: rest.filter isChannel) (read : readEntry r.curent e = .ok c)
      (none : c.chActive = none) :
      Examined d r env (.killed .nullDeref, opened d (e :: rest) c)
  | inactive {e : RootNode} {rest : List RootNode} {c : Channel} (i : Nat)
      (next : ahead d r = e :: rest.filter isChannel) (read : readEntry r.curent e = .ok c)
      (marked : c.chActive.isSome) : Examined d r env (.inactive i, opened d (e :: rest) c)
  | active {e : RootNode} {rest : List RootNode} {c : Channel} {v : Verdict}
      (next : ahead d r = e :: rest.filter isChannel) (read : readEntry r.curent e = .ok c)
      (marked : c.chActive.isSome)
      (down : channelAvailable env.checker = false → ∃ i, v = .down i)
      (passed : v ≠ .killed .nullDeref) :
      Examined d r env (v, opened d (e :: rest) (defaultServicecode c))

private theorem examine_examined {d : ChannelsDoc} {r : Reader} (hr : InDocument d r) (job : Job)
    (fs : Files) (env : ChannelEnv) : Examined d r env (examine job fs r env) := by
  rw [examine, getchanent_inDocument hr]
  cases hes : ahead d r with
  | nil =>
      rw [nextent_end hr hes]
      exact .atEnd hes
  | cons e es =>
      obtain ⟨rest, rfl, hnext⟩ := nextent_channel hr hes
      rw [hnext]
      cases hread : readEntry r.curent e with
      | error f => exact .unread hes hread
      | ok c =>
          simp only [Except.map, if_true, opened_curent, markedActive]
          cases hactive : c.chActive with
          | none => exact .unmarked hes hread hactive
          | some active =>
              have hmarked : c.chActive.isSome := by rw [hactive]; rfl
              cases hyes : strcaseequal active (lit "yes") with
              | false => simpa only [hyes] using .inactive _ hes hread hmarked
              | true =>
                  simp only [hyes]
                  split
                  case isFalse hdown =>
                    exact .active hes hread hmarked (fun _ => ⟨_, rfl⟩) fun hv => by cases hv
                  case isTrue hup =>
                    have hnever : channelAvailable env.checker ≠ false := by simp [hup]
                    split
                    · rename_i hname
                      obtain rfl := aciStatFile_fault hname
                      exact .active hes hread hmarked (fun hdown => absurd hdown hnever) fun hv => by
                        cases hv
                    · refine .active hes hread hmarked (fun hdown => absurd hdown hnever) fun hv => ?_
                      split at hv <;> cases hv

section Safety

variable {d : ChannelsDoc}

private theorem complete_own (left : Option Str) (e : RootNode)
    (own : (fieldText e .statuschecker).isSome) (h : Complete none e) : Complete left e := by
  obtain ⟨text, htext⟩ := Option.isSome_iff_exists.mp own
  have hsame : effective none e = effective left e := by
    rw [effective_own htext, effective_own htext]
  intro hsized
  rw [← hsame]
  exact h ((sized_congr hsame).mpr hsized)

private theorem supplied_kept (h : Throughout Complete none d.channels) (first : FirstCalled d) :
    Kept d (Supplied d) := (along_kept complete_own h).and (called_kept first)

variable {c c' : Channel} {e : RootNode} {es : List RootNode}

private theorem supplied_unread (h : Throughout Complete none d.channels)
    (hP : Supplied d c (e :: es))
    {f : Fault} (hread : readEntry c e = .error f) : f = .bufferOverflow := by
  by_cases hsized : Sized (c.child .statuschecker) e
  · obtain ⟨c', hok⟩ := readEntry_ok_iff.mpr ⟨hsized, (hP.1.head h hsized).1⟩
    rw [hread] at hok
    cases hok
  · exact Except.error.inj (hread.symm.trans (readEntry_overflow_iff.mpr hsized))

private theorem supplied_read (h : Throughout Complete none d.channels) (first : FirstCalled d)
    (hP : Supplied d c (e :: es)) (hread : readEntry c e = .ok c') :
    c'.chName.isSome ∧ c'.chActive.isSome ∧ (c'.child .callsign).isSome := by
  obtain ⟨-, hname, hactive⟩ := hP.1.head h (readEntry_ok_iff.mp ⟨c', hread⟩).1
  rw [readEntry_chName hread, readEntry_chActive hread]
  exact ⟨hname, hactive, hP.2.read first hread⟩

private theorem faulty_overflow (h : Throughout Complete none d.channels) (first : FirstCalled d)
    {f : Fault} (hf : Faulty (Supplied d) f) : f = .bufferOverflow := by
  cases hf with
  | read at_ read => exact supplied_unread h at_ read
  | compare at_ read compare =>
      obtain ⟨hname, -, hcall⟩ := supplied_read h first at_ read
      obtain ⟨hit, hok⟩ := matchesName_ok hname hcall _ _
      rw [compare] at hok
      cases hok

theorem defaultServicecode_child {f : ChildField} (hf : f ≠ .servicecode) (c : Channel) :
    (defaultServicecode c).child f = c.child f := by
  rw [defaultServicecode]
  split
  · rw [Channel.set_child, if_neg hf]
  · split
    · rw [Channel.set_child, if_neg hf]
    · rfl

private theorem supplied_default (hP : Supplied d c es) : Supplied d (defaultServicecode c) es := by
  have hchecker := defaultServicecode_child (f := .statuschecker) (by decide) c
  have hcall := defaultServicecode_child (f := .callsign) (by decide) c
  rwa [Supplied, Along, Called, hchecker, hcall]

private theorem examined_supplied (h : Throughout Complete none d.channels) (first : FirstCalled d)
    {r r' : Reader} {env : ChannelEnv} {v : Verdict} (hr : InDocument d r)
    (hP : Supplied d r.curent (ahead d r)) (hex : Examined d r env (v, r')) :
    v ≠ .killed .nullDeref ∧ InDocument d r' ∧ Supplied d r'.curent (ahead d r') := by
  have hkept := supplied_kept h first
  cases hex with
  | atEnd none =>
      refine ⟨(fun hv => by cases hv), .closed r.curent, ?_⟩
      rw [ahead_null rfl]
      exact hkept.again hP
  | unread next read =>
      have hf := supplied_unread h (next ▸ hP) read
      refine ⟨fun hv => ?_, hr, hP⟩
      rw [hf] at hv
      cases hv
  | unmarked next read none =>
      have hactive := (supplied_read h first (next ▸ hP) read).2.1
      rw [none] at hactive
      cases hactive
  | @inactive e rest c i next read marked =>
      have hP' := hkept.read (next ▸ hP) read
      exact ⟨(fun hv => by cases hv), .parsed _ _, by simpa using hP'⟩
  | @active e rest c v next read marked down passed =>
      have hP' := supplied_default (hkept.read (next ▸ hP) read)
      exact ⟨passed, .parsed _ _, by simpa using hP'⟩

/-- No NULL pointer was passed on, and the program is on its way through the document. -/
def Untroubled (d : ChannelsDoc) (s : State) : Prop :=
  Event.passed (.killed .nullDeref) ∉ s.history ∧
    ∀ job r, s.pc = .channels job r → InDocument d r ∧ Supplied d r.curent (ahead d r)

private theorem untroubled_off {s t : State} {es : List Event} (hs : Untroubled d s)
    (history : t.history = s.history ++ es) (pc : ∀ job r, t.pc ≠ .channels job r)
    (events : Event.passed (.killed .nullDeref) ∉ es) : Untroubled d t := by
  refine ⟨fun hmem => ?_, fun job r hpc => absurd hpc (pc job r)⟩
  rw [history, List.mem_append] at hmem
  exact hmem.elim hs.1 events

private theorem untroubled_round {s t : State} {job : Job} {r r' : Reader} {env : ChannelEnv}
    {v : Verdict}
    {es : List Event} (h : Throughout Complete none d.channels) (first : FirstCalled d)
    (hs : Untroubled d s) (at_ : s.pc = .channels job r) (saw : examine job s.files r env = (v, r'))
    (history : t.history = s.history ++ es) (pc : t.pc = .channels job r')
    (events : Event.passed (.killed .nullDeref) ∈ es → v = .killed .nullDeref) :
    Untroubled d t := by
  obtain ⟨hr, hP⟩ := hs.2 job r at_
  have hex := examine_examined hr job s.files env
  rw [saw] at hex
  obtain ⟨hv, hr', hP'⟩ := examined_supplied h first hr hP hex
  refine ⟨fun hmem => ?_, fun job' r'' hpc => ?_⟩
  · rw [history, List.mem_append] at hmem
    exact hmem.elim hs.1 fun hes => hv (events hes)
  · obtain ⟨rfl, rfl⟩ := Pc.channels.inj (pc.symm.trans hpc)
    exact ⟨hr', hP'⟩

private theorem untroubled_step (h : Throughout Complete none d.channels) (first : FirstCalled d)
    {s t : State} {a : Answer} (doc : ∀ cfg doc now, a = .start cfg doc now → doc = some d.toXmlDoc)
    (htrans : Trans s a t) (hs : Untroubled d s) : Untroubled d t := by
  cases htrans with
  | outside at_ path st => exact ⟨hs.1, hs.2⟩
  | start at_ cfg file now =>
      obtain rfl := doc cfg file now rfl
      refine ⟨fun hmem => ?_, fun job r hpc => ?_⟩
      · rw [startUp_history, List.mem_append] at hmem
        refine hmem.elim hs.1 fun hlog => ?_
        simp only [startUp] at hlog
        split at hlog <;> simp [State.goto] at hlog
      · simp only [startUp] at hpc
        split at hpc
        · simp [at_] at hpc
        · obtain ⟨-, rfl⟩ := Pc.channels.inj hpc
          refine ⟨.closed .cleared, ?_⟩
          rw [ahead_null rfl]
          exact (supplied_kept h first).start
  | @killed job r r' e f at_ saw =>
      obtain ⟨hr, hP⟩ := hs.2 _ _ at_
      have hex := examine_examined hr job s.files e
      rw [saw] at hex
      have hv := (examined_supplied h first hr hP hex).1
      refine untroubled_off hs (goto_history _ _ _) (fun _ _ hpc => by cases hpc) fun hmem => ?_
      exact hv (Event.passed.inj (List.mem_singleton.mp hmem)).symm
  | atEnd at_ saw =>
      exact untroubled_off hs (goto_history _ _ _) (fun _ _ hpc => by cases hpc) (by simp)
  | skipped at_ saw skip =>
      refine untroubled_round h first hs at_ saw (goto_history _ _ _) rfl fun hmem => ?_
      exact (Event.passed.inj (List.mem_singleton.mp hmem)).symm
  | sent at_ saw =>
      exact untroubled_round h first hs at_ saw (goto_history _ _ _) rfl fun hmem => by simp at hmem
  | versionKilled at_ name =>
      obtain rfl := aciStatFile_fault name
      exact untroubled_off hs (goto_history _ _ _) (fun _ _ hpc => by cases hpc) (by simp)
  | reported at_ name due =>
      exact untroubled_off hs (goto_history _ _ _) (fun _ _ hpc => by cases hpc) (by simp)
  | notReported at_ name notDue =>
      exact untroubled_off hs (goto_history _ _ _) (fun _ _ hpc => by cases hpc) (by simp)

private theorem untroubled_run (h : Throughout Complete none d.channels) (first : FirstCalled d)
    {fs : Files} {answers : List Answer} {s : State} (doc : OnDocument d answers)
    (hrun : run step (initial fs) answers = some s) : Untroubled d s := by
  have hmeets : Meets step (fun _ a => ∀ cfg doc now, a = .start cfg doc now →
      doc = some d.toXmlDoc) (initial fs) answers := .of_forall doc
  refine hmeets.preserves (fun s a t hdoc hstep => untroubled_step h first hdoc (step_trans hstep))
    hrun ⟨?_, ?_⟩
  · simp [initial, State.history]
  · exact fun job r hpc => by cases hpc

end Safety

section Faults

variable {d : ChannelsDoc}

/-- A channel that is read has the attribute active. -/
def Marked (left : Option Str) (e : RootNode) : Prop :=
  Sized left e → (effective left e).isSome → (xmlGetProp e (lit "active")).isSome

/-- A round of the loop while the checker reports the channel down. -/
def downEnv : ChannelEnv := ⟨exited 1, 0, .notReady 0, 0, .done⟩

/-- However the runs go on, no NULL pointer is passed on. -/
def SafeFrom (d : ChannelsDoc) (s : State) : Prop :=
  ∀ answers t, OnDocument d answers → run step s answers = some t →
    Event.passed (.killed .nullDeref) ∉ t.history

private theorem OnDocument.cons {a : Answer} {answers : List Answer}
    (ha : ∀ cfg doc now, a = .start cfg doc now → doc = some d.toXmlDoc)
    (h : OnDocument d answers) : OnDocument d (a :: answers) := List.forall_mem_cons.mpr ⟨ha, h⟩

private theorem SafeFrom.step {s t : State} {env : ChannelEnv} (h : SafeFrom d s)
    (hstep : step s (.channel env) = some t) : SafeFrom d t := fun answers u hdoc hrun =>
  h (.channel env :: answers) u (hdoc.cons fun _ _ _ heq => by cases heq)
    (run_cons_eq_some.mpr ⟨t, hstep, hrun⟩)

private theorem SafeFrom.here {s : State} (h : SafeFrom d s) :
    Event.passed (.killed .nullDeref) ∉ s.history :=
  h [] s (fun a ha => by cases ha) rfl

private theorem SafeFrom.unkilled {s : State} {job : Job} {r r' : Reader} {env : ChannelEnv}
    (h : SafeFrom d s) (at_ : s.pc = .channels job r) :
    examine job s.files r env ≠ (.killed .nullDeref, r') := by
  intro saw
  have hstep : Model.step s (.channel env) = some (channelRound job r env s) := by
    simp only [Model.step, at_]
  refine (h.step hstep).here ?_
  simp only [channelRound, saw, goto_history]
  exact List.mem_append_right _ (List.mem_singleton_self _)

private theorem SafeFrom.skipped {s : State} {job : Job} {r r' : Reader} {env : ChannelEnv}
    {v : Verdict} (h : SafeFrom d s) (at_ : s.pc = .channels job r)
    (saw : examine job s.files r env = (v, r')) (skip : (∃ i, v = .inactive i) ∨ ∃ i, v = .down i) :
    ∃ t : State, t.pc = .channels job r' ∧ SafeFrom d t := by
  have hstep : Model.step s (.channel env) = some (channelRound job r env s) := by
    simp only [Model.step, at_]
  refine ⟨channelRound job r env s, ?_, h.step hstep⟩
  rcases skip with ⟨i, rfl⟩ | ⟨i, rfl⟩ <;> simp only [channelRound, saw, State.goto]

private theorem marked_of_safe {es : List RootNode} {s : State} {job : Job} {r : Reader}
    (safe : SafeFrom d s) (at_ : s.pc = .channels job r) (hr : InDocument d r) (hes : ahead d r = es) :
    Throughout Marked (r.curent.child .statuschecker) es := by
  induction es generalizing s r with
  | nil => trivial
  | cons e es ih =>
      have hread : ∀ c, readEntry r.curent e = .ok c →
          c.chActive.isSome ∧ Throughout Marked (c.child .statuschecker) es := by
        intro c hok
        have hex := examine_examined hr job s.files downEnv
        generalize saw : examine job s.files r downEnv = out at hex
        cases hex with
        | atEnd none =>
            rw [hes] at none
            cases none
        | unread next read =>
            obtain ⟨rfl, -⟩ := List.cons.inj (hes.symm.trans next)
            rw [hok] at read
            cases read
        | unmarked next read none => exact absurd saw (safe.unkilled at_)
        | @inactive e' rest c' i next read marked =>
            obtain ⟨rfl, rfl⟩ := List.cons.inj (hes.symm.trans next)
            obtain rfl := Except.ok.inj (hok.symm.trans read)
            obtain ⟨t, hpc, hsafe⟩ := safe.skipped at_ saw (.inl ⟨i, rfl⟩)
            exact ⟨marked, ih hsafe hpc (.parsed _ _) (ahead_opened_cons e rest c)⟩
        | @active e' rest c' v next read marked down passed =>
            obtain ⟨rfl, rfl⟩ := List.cons.inj (hes.symm.trans next)
            obtain rfl := Except.ok.inj (hok.symm.trans read)
            obtain ⟨t, hpc, hsafe⟩ := safe.skipped at_ saw (.inr (down (by decide)))
            have hchecker := defaultServicecode_child (f := .statuschecker) (by decide) c
            rw [← hchecker]
            exact ⟨marked, ih hsafe hpc (.parsed _ _) (ahead_opened_cons e rest _)⟩
      refine ⟨fun hsized hsome => ?_, fun hsized hsome => ?_⟩
      · obtain ⟨c, hok⟩ := readEntry_ok_iff.mpr ⟨hsized, hsome⟩
        rw [← readEntry_chActive hok]
        exact (hread c hok).1
      · obtain ⟨c, hok⟩ := readEntry_ok_iff.mpr ⟨hsized, hsome⟩
        rw [← readEntry_statuschecker hok]
        exact (hread c hok).2

private theorem marked_of_neverNull (h : NeverNull d) : Throughout Marked none d.channels := by
  let cfg : Config := ⟨lit "N0CALL-10", none, none, none⟩
  let s := startUp (initial fun _ => .absent) cfg (some d.toXmlDoc) 0
  have hpc : s.pc = .channels ⟨cfg, fun _ => .absent, 0, d.channels⟩
      (Reader.start (some d.toXmlDoc)) := by
    simp only [s, startUp]
    rw [if_neg (by decide)]
    rfl
  refine marked_of_safe (fun answers t hdoc hrun => ?_) hpc (.closed .cleared) (ahead_null rfl)
  refine h.2 (fun _ => .absent) (.start cfg (some d.toXmlDoc) 0 :: answers) t (hdoc.cons ?_) ?_
  · exact fun _ _ _ heq => (Answer.start.inj heq).2.1.symm
  · exact run_cons_eq_some.mpr ⟨s, rfl, hrun⟩

/-- Neither the calls of the reader nor the check-in program pass a NULL pointer on
exactly when every channel that is read has a status checker, a name and the active
mark, and the first one a callsign. -/
theorem never_null_iff (d : ChannelsDoc) :
    NeverNull d ↔ Throughout Complete none d.channels ∧ FirstCalled d := by
  constructor
  · intro h
    have hmarked := marked_of_neverNull h
    refine ⟨throughout_iff (c := .cleared).mpr fun c e es hreads hsized => ?_, h.1.firstCalled⟩
    obtain ⟨hchecker, hname⟩ := h.1.supplied hreads hsized
    exact ⟨hchecker, hname, throughout_iff (c := .cleared).mp hmarked c e es hreads hsized hchecker⟩
  · rintro ⟨hcomplete, first⟩
    refine ⟨fun calls hcalls => ?_, fun fs answers s hdoc hrun =>
      (untroubled_run hcomplete first hdoc hrun).1⟩
    have hends := (supplied_kept hcomplete first).performAll calls
    rw [hcalls] at hends
    cases hends with
    | error faulty => cases faulty_overflow hcomplete first faulty

private def uncheckedChannel : RootNode where
  isElement := true
  name := lit "channel"
  props := [(lit "name", lit "radio"), (lit "active", lit "yes")]
  children := [⟨true, lit "callsign", lit "N0CALL-10"⟩]

private def uncheckedDoc : ChannelsDoc := ⟨⟨lit "rmschannels", [uncheckedChannel]⟩, rfl⟩

/-- A first channel without a status checker ends the first read. -/
theorem missing_checker_null : ¬ NeverNull uncheckedDoc := by
  intro h
  have hnone : effective none uncheckedChannel = none := by decide
  have hsized : Sized none uncheckedChannel := (sized_none_iff hnone).mpr (by decide)
  have hreads : Reads .cleared uncheckedDoc.channels .cleared [uncheckedChannel] := .refl _ _
  obtain ⟨calls, hcalls⟩ := hreads.faulty (readEntry_null hsized hnone)
  exact h.1 calls hcalls

end Faults

end Rmsgw.Aci.Incomplete
