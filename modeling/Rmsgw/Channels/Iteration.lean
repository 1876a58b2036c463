/- Iteration over a document: after any calls each channel is visited once, in document
   order, and a lookup searches from the first channel on. -/

import Rmsgw.Channels.Omissions

set_option autoImplicit false
set_option relaxedAutoImplicit false

namespace Rmsgw.Channels.Iteration

open Rmsgw.Lib.CStrings Rmsgw.Rms Rmsgw.Channels.Model Rmsgw.Channels.Isolation
open Rmsgw.Channels.Entry Rmsgw.Channels.Traversal Rmsgw.Channels.Bounds Rmsgw.Channels.Omissions

/-- The elements that successive calls of getchanent() come to, `none` for NULL. -/
def visits : Nat → Reader → Except Fault (List (Option RootNode))
  | 0, _ => .ok []
  | n + 1, r =>
      (getchanent r).bind (fun (found, r) =>
        (visits n r).map (fun seen => found.bind (fun _ => r.curNode.head?) :: seen))

/-- The calls for the next entry visit the channels of the document and then return NULL. -/
def VisitsAll (d : ChannelsDoc) (r : Reader) : Prop :=
  visits (d.channels.length + 1) r = .ok (d.channels.map some ++ [none])

/-- What the reader can be relied on for in any state. -/
structure Restartable (d : ChannelsDoc) (r : Reader) : Prop where
  null : r.doc = none → r.curNode = []
  closed : r.doc = none → VisitsAll d r
  reopened : (setchanent r).1 = true ∧ VisitsAll d (setchanent r).2
  lookup : ∀ chname callsign,
    Lookup d (search chname callsign r.curent d.channels) (getchannam r chname callsign)

/-- Any calls lead to a state from which the document can be gone through again. -/
def Dependable (d : ChannelsDoc) : Prop :=
  ∀ calls, ∃ r, performAll (Reader.start (some d.toXmlDoc)) calls = .ok r ∧ Restartable d r

/-- Every channel has a status checker of its own. -/
def Checked (d : ChannelsDoc) : Prop := ∀ e ∈ d.channels, (fieldText e .statuschecker).isSome

instance (d : ChannelsDoc) : Decidable (Checked d) :=
  inferInstanceAs (Decidable (∀ e ∈ d.channels, _))

/-- The channel is read to its end and has a name. -/
def Nameable (left : Option Str) (e : RootNode) : Prop :=
  Sized left e ∧ (effective left e).isSome ∧ (xmlGetProp e (lit "name")).isSome

section Reads

variable {d : ChannelsDoc}

private theorem nameable_iff (left : Option Str) {e : RootNode}
    (own : (fieldText e .statuschecker).isSome) :
    Nameable left e ↔ Sized none e ∧ (xmlGetProp e (lit "name")).isSome := by
  obtain ⟨text, htext⟩ := Option.isSome_iff_exists.mp own
  have hsame : effective left e = effective none e := by
    rw [effective_own htext, effective_own htext]
  rw [Nameable, sized_congr hsame, effective_own htext]
  exact and_congr_right fun _ => and_iff_right rfl

private theorem throughout_checked {left : Option Str} {es : List RootNode}
    (checked : ∀ e ∈ es, (fieldText e .statuschecker).isSome) :
    Throughout Nameable left es ↔
      ∀ e ∈ es, Sized none e ∧ (xmlGetProp e (lit "name")).isSome := by
  induction es generalizing left with
  | nil => exact iff_of_true trivial fun e he => by cases he
  | cons e es ih =>
      rw [Throughout, ih fun e he => checked e (List.mem_cons_of_mem _ he), List.forall_mem_cons,
        ← nameable_iff left (checked e List.mem_cons_self)]
      exact and_congr_right fun hhead => ⟨fun h => h hhead.1 hhead.2.1, fun h _ _ => h⟩

private theorem readEntry_own {c : Channel} {e : RootNode}
    (own : (fieldText e .statuschecker).isSome)
    (sized : Sized none e) : ∃ c', readEntry c e = .ok c' := by
  obtain ⟨text, htext⟩ := Option.isSome_iff_exists.mp own
  refine readEntry_ok_iff.mpr ⟨sized_own _ e own sized, ?_⟩
  rw [effective_own htext]
  rfl

private theorem visits_ahead {es : List RootNode} {r : Reader} (hr : InDocument d r)
    (hes : ahead d r = es)
    (readable : ∀ e ∈ es, (fieldText e .statuschecker).isSome ∧ Sized none e) :
    visits (es.length + 1) r = .ok (es.map some ++ [none]) := by
  induction es generalizing r with
  | nil =>
      rw [List.length_nil, visits, getchanent_inDocument hr, nextent_end hr hes]
      rfl
  | cons e es ih =>
      obtain ⟨rest, rfl, hnext⟩ := nextent_channel hr hes
      obtain ⟨own, sized⟩ := readable e List.mem_cons_self
      obtain ⟨c, hread⟩ := readEntry_own (c := r.curent) own sized
      have hrest := ih (.parsed (e :: rest) c) (ahead_opened_cons e rest c)
        fun e he => readable e (List.mem_cons_of_mem _ he)
      rw [List.length_cons, visits, getchanent_inDocument hr, hnext, hread]
      simp only [Except.map, Except.bind, if_true, hrest]
      rfl

private theorem restartable {r : Reader} (hr : InDocument d r)
    (readable : ∀ e ∈ d.channels, (fieldText e .statuschecker).isSome ∧ Sized none e) :
    Restartable d r where
  null := hr.null
  closed := fun hdoc => visits_ahead hr (ahead_null (hr.null hdoc)) readable
  reopened := by
    rw [setchanent_eq hr.file hr.null]
    exact ⟨rfl, visits_ahead (.parsed [] r.curent) (ahead_opened_nil r.curent) readable⟩
  lookup := getchannam_lookup hr.file hr.null

end Reads

section Calls

variable {d : ChannelsDoc}

private theorem dependable_of_nameable (checked : Checked d)
    (nameable : ∀ e ∈ d.channels, Sized none e ∧ (xmlGetProp e (lit "name")).isSome)
    (first : FirstCalled d) : Dependable d := by
  intro calls
  have hall : Throughout Nameable none d.channels := (throughout_checked checked).mpr nameable
  have hown : ∀ left e, (fieldText e .statuschecker).isSome → Nameable none e → Nameable left e :=
    fun left e own h => (nameable_iff left own).mpr ((nameable_iff none own).mp h)
  have hends := ((along_kept hown hall).and (called_kept first)).performAll calls
  generalize performAll (Reader.start (some d.toXmlDoc)) calls = out at hends ⊢
  cases hends with
  | @ok r reading kept =>
      exact ⟨r, rfl, restartable reading fun e he => ⟨checked e he, (nameable e he).1⟩⟩
  | error faulty =>
      cases faulty with
      | read at_ read =>
          obtain ⟨hsized, hsome, -⟩ := at_.1.head hall
          obtain ⟨c', hok⟩ := readEntry_ok_iff.mpr ⟨hsized, hsome⟩
          rw [read] at hok
          cases hok
      | @compare c c' e _ _ _ _ at_ read compare =>
          have hname : c'.chName.isSome := by
            rw [readEntry_chName read]
            exact (at_.1.head hall).2.2
          obtain ⟨hit, hok⟩ := matchesName_ok hname (at_.2.read first read) _ _
          rw [compare] at hok
          cases hok

private theorem Dependable.safe (h : Dependable d) {calls : List Traversal.Call} {f : Fault} :
    performAll (Reader.start (some d.toXmlDoc)) calls ≠ .error f := by
  intro hcalls
  obtain ⟨r, hok, -⟩ := h calls
  rw [hcalls] at hok
  cases hok

/-- With a status checker in every channel, the document can be gone through again
from any state exactly when all channels are read within the buffers and have a name,
and the first one has a callsign. -/
theorem dependable_iff (checked : Checked d) :
    Dependable d ↔
      (∀ e ∈ d.channels, Sized none e ∧ (xmlGetProp e (lit "name")).isSome) ∧
        ∀ e ∈ d.channels.head?, (fieldText e .callsign).isSome := by
  constructor
  · intro h
    have safe : CallsSafe d := fun calls => h.safe
    have hall : Throughout Nameable none d.channels := by
      refine throughout_iff (c := .cleared).mpr fun c e es hreads => ?_
      have hsized : Sized (c.child .statuschecker) e := by
        by_contra hunsized
        obtain ⟨calls, hcalls⟩ := hreads.faulty (readEntry_overflow_iff.mpr hunsized)
        exact h.safe hcalls
      exact ⟨hsized, safe.supplied hreads hsized⟩
    have nameable := (throughout_checked checked).mp hall
    exact ⟨nameable, fun e he => safe.firstCalled e he (nameable e (List.mem_of_mem_head? he)).1⟩
  · rintro ⟨nameable, first⟩
    exact dependable_of_nameable checked nameable fun e he _ => first e he

private def calledChannel : RootNode where
  isElement := true
  name := lit "channel"
  props := [(lit "name", lit "radio")]
  children := [⟨true, lit "callsign", lit "N0CALL-10"⟩, ⟨true, lit "statuschecker", lit "true"⟩]

private def mixedDoc : ChannelsDoc :=
  ⟨⟨lit "rmschannels", [⟨false, lit "comment", [], []⟩, calledChannel, ⟨false, lit "text", [], []⟩,
    calledChannel, ⟨true, lit "note", [], []⟩]⟩, rfl⟩

theorem dependable_iff_mixed : Dependable mixedDoc := by
  have hchecker : effective none calledChannel = some (lit "true") :=
    effective_own (by decide) none
  have hsized := sized_plain (by decide) hchecker (by decide) (by decide)
  have hchannels : mixedDoc.channels = [calledChannel, calledChannel] := by decide
  refine (dependable_iff (by decide)).mpr ⟨fun e he => ?_, by decide⟩
  rw [hchannels] at he
  obtain rfl : e = calledChannel := by simpa using he
  exact ⟨hsized, by decide⟩

private def namelessChannel : RootNode where
  isElement := true
  name := lit "channel"
  props := []
  children := [⟨true, lit "callsign", lit "N0CALL-10"⟩, ⟨true, lit "statuschecker", lit "true"⟩]

private def namelessDoc : ChannelsDoc := ⟨⟨lit "rmschannels", [namelessChannel]⟩, rfl⟩

/-- A lookup in a document with a nameless channel does not come back. -/
theorem nameless_not_dependable : Checked namelessDoc ∧ ¬ Dependable namelessDoc := by
  refine ⟨by decide, fun h => ?_⟩
  have hchecker : effective none namelessChannel = some (lit "true") :=
    effective_own (by decide) none
  have hsized := sized_plain (by decide) hchecker (by decide) (by decide)
  obtain ⟨c, hread⟩ := readEntry_own (c := .cleared) (by decide) hsized
  have hreads : Reads .cleared namelessDoc.channels .cleared [namelessChannel] := .refl _ _
  obtain ⟨calls, hcalls⟩ := nameless_faulty hreads hread (by decide)
  exact h.safe hcalls

end Calls

end Rmsgw.Channels.Iteration
