/- The lookup by name and callsign, which compares no further than its arguments go:
   when it returns the first channel that matches exactly. -/

import Rmsgw.Channels.Omissions

set_option autoImplicit false
set_option relaxedAutoImplicit false

namespace Rmsgw.Channels.Lookup

open Rmsgw.Lib.CStrings Rmsgw.Rms Rmsgw.Channels.Model Rmsgw.Channels.Isolation
open Rmsgw.Channels.Entry Rmsgw.Channels.Traversal Rmsgw.Channels.Bounds Rmsgw.Channels.Omissions

/-- The channel has a name and a callsign. -/
def Identified (e : RootNode) : Prop :=
  (xmlGetProp e (lit "name")).isSome ∧ (fieldText e .callsign).isSome

instance (e : RootNode) : Decidable (Identified e) := inferInstanceAs (Decidable (_ ∧ _))

/-- The channel has exactly that name, and that callsign but for letter case. -/
def exactly (chname callsign : Str) (e : RootNode) : Bool :=
  match xmlGetProp e (lit "name"), fieldText e .callsign with
  | some name, some call => name == chname && strcaseequal call callsign
  | _, _ => false

/-- The name and the callsign of the channel begin with the arguments. -/
def beginning (chname callsign : Str) (e : RootNode) : Bool :=
  match xmlGetProp e (lit "name"), fieldText e .callsign with
  | some name, some call =>
      chname.isPrefixOf name && (callsign.map tolower).isPrefixOf (call.map tolower)
  | _, _ => false

/-- The lookup returns the first channel that matches exactly, as it is read, and
stands on it; it returns NULL if there is none. -/
def FindsExact (d : ChannelsDoc) (r : Reader) (chname callsign : Str) : Prop :=
  match d.channels.dropWhile (fun e => !exactly chname callsign e) with
  | [] => ∃ r', getchannam r chname callsign = .ok (none, r')
  | e :: es =>
      ∃ left rest c, readEntry left e = .ok c ∧ rest.filter isChannel = es ∧
        getchannam r chname callsign = .ok (some c, opened d (e :: rest) c)

/-- The channels are read to their ends up to the first that begins with the
arguments, and that one matches them exactly. -/
def Unmistaken (chname callsign : Str) : Option Str → List RootNode → Prop
  | _, [] => True
  | left, e :: es =>
      Sized left e ∧ (effective left e).isSome ∧
        if beginning chname callsign e then exactly chname callsign e = true
        else Unmistaken chname callsign (leftover left e) es

section Matching

variable {chname callsign : Str} {e : RootNode}

private theorem beginning_of_exactly (h : exactly chname callsign e = true) :
    beginning chname callsign e = true := by
  simp only [exactly] at h
  split at h
  case h_2 => cases h
  case h_1 name call hname hcall =>
    obtain ⟨rfl, hcase⟩ : name = chname ∧ strcaseequal call callsign = true := by simpa using h
    have hsame : call.map tolower = callsign.map tolower := by simpa [strcaseequal] using hcase
    simp [beginning, hname, hcall, hsame]

private theorem matchesName_beginning {c c' : Channel} (identified : Identified e)
    (hread : readEntry c e = .ok c') :
    matchesName chname callsign c' = .ok (beginning chname callsign e) := by
  obtain ⟨name, hname⟩ := Option.isSome_iff_exists.mp identified.1
  obtain ⟨call, hcall⟩ := Option.isSome_iff_exists.mp identified.2
  have hchName : c'.chName = some name := (readEntry_chName hread).trans hname
  have hcallsign : c'.child .callsign = some call := by
    rw [readEntry_child hread (by decide), hcall]
    rfl
  have hprefix : strnequal name chname chname.length = chname.isPrefixOf name := by
    rw [Bool.eq_iff_iff, List.isPrefixOf_iff_prefix, strnequal, List.take_length, beq_iff_eq]
    exact ⟨fun h => List.prefix_iff_eq_take.mpr h.symm, fun h => (List.prefix_iff_eq_take.mp h).symm⟩
  have hcase : strcaseequal (call.take callsign.length) (callsign.take callsign.length) =
      (callsign.map tolower).isPrefixOf (call.map tolower) := by
    rw [Bool.eq_iff_iff, List.isPrefixOf_iff_prefix, strcaseequal, List.take_length, beq_iff_eq,
      List.map_take, List.prefix_iff_eq_take, List.length_map]
    exact eq_comm
  simp only [matchesName, hchName, hcallsign, beginning, hname, hcall, hprefix, hcase]
  cases chname.isPrefixOf name <;> rfl

end Matching

section Search

variable {d : ChannelsDoc} {chname callsign : Str}

/-- What the search itself comes to when the lookup is exact. -/
def SearchExact (chname callsign : Str) (c : Channel) (es : List RootNode) : Prop :=
  match es.dropWhile (fun e => !exactly chname callsign e) with
  | [] => ∃ c', search chname callsign c es = .ok ([], c')
  | e :: es' => ∃ left c', readEntry left e = .ok c' ∧ search chname callsign c es = .ok (e :: es', c')

section Cons

variable {c c' : Channel} {e : RootNode} {es : List RootNode}

private theorem not_searchExact_unread {f : Fault} (hread : readEntry c e = .error f) :
    ¬ SearchExact chname callsign c (e :: es) := by
  intro h
  have hsearch : search chname callsign c (e :: es) = .error f := by
    rw [search, hread]
    rfl
  rw [SearchExact, hsearch] at h
  split at h
  · obtain ⟨c', heq⟩ := h
    cases heq
  · obtain ⟨left, c', -, heq⟩ := h
    cases heq

private theorem searchExact_passed (hread : readEntry c e = .ok c')
    (hmatch : matchesName chname callsign c' = .ok false)
    (hother : exactly chname callsign e = false) :
    SearchExact chname callsign c (e :: es) ↔ SearchExact chname callsign c' es := by
  simp only [SearchExact, search, hread, Except.bind, hmatch, Bool.false_eq_true, if_false,
    List.dropWhile_cons, hother, Bool.not_false, if_true]

/-- Where the search stops is right only if the channel matches exactly: the channels
from an exact match further on are fewer. -/
private theorem searchExact_stopped (hread : readEntry c e = .ok c')
    (hmatch : matchesName chname callsign c' = .ok true) :
    SearchExact chname callsign c (e :: es) ↔ exactly chname callsign e = true := by
  have hsearch : search chname callsign c (e :: es) = .ok (e :: es, c') := by
    simp only [search, hread, Except.bind, hmatch, if_true]
  cases hexact : exactly chname callsign e with
  | true =>
      refine iff_of_true ?_ rfl
      simp only [SearchExact, List.dropWhile_cons, hexact, Bool.not_true, Bool.false_eq_true,
        if_false]
      exact ⟨c, c', hread, hsearch⟩
  | false =>
      refine iff_of_false (fun h => ?_) Bool.false_ne_true
      simp only [SearchExact, List.dropWhile_cons, hexact, Bool.not_false, if_true, hsearch] at h
      split at h
      · obtain ⟨c'', heq⟩ := h
        cases heq
      · rename_i e' es' hdrop
        obtain ⟨left, c'', -, heq⟩ := h
        have hlist : e :: es = e' :: es' := (Prod.mk.inj (Except.ok.inj heq)).1
        have hle :=
          (List.dropWhile_suffix (p := fun e => !exactly chname callsign e) (l := es)).length_le
        rw [hdrop, ← hlist, List.length_cons] at hle
        omega

end Cons

private theorem searchExact_iff {c : Channel} {es : List RootNode}
    (identified : ∀ e ∈ es, Identified e) : SearchExact chname callsign c es ↔
      Unmistaken chname callsign (c.child .statuschecker) es := by
  induction es generalizing c with
  | nil => exact iff_of_true ⟨c, rfl⟩ trivial
  | cons e es ih =>
      rw [Unmistaken]
      cases hread : readEntry c e with
      | error f =>
          refine iff_of_false (not_searchExact_unread hread) fun h => ?_
          obtain ⟨c', hok⟩ := readEntry_ok_iff.mpr ⟨h.1, h.2.1⟩
          rw [hread] at hok
          cases hok
      | ok c' =>
          obtain ⟨hsized, hsome⟩ := readEntry_ok_iff.mp ⟨c', hread⟩
          have hmatch : matchesName chname callsign c' = .ok (beginning chname callsign e) :=
            matchesName_beginning (identified e List.mem_cons_self) hread
          rw [and_iff_right hsized, and_iff_right hsome, ← readEntry_statuschecker hread]
          cases hbegin : beginning chname callsign e with
          | true =>
              rw [hbegin] at hmatch
              rw [if_pos rfl]
              exact searchExact_stopped hread hmatch
          | false =>
              have hother : exactly chname callsign e = false := by
                by_contra hexact
                rw [beginning_of_exactly (by simpa using hexact)] at hbegin
                cases hbegin
              rw [hbegin] at hmatch
              rw [if_neg Bool.false_ne_true, searchExact_passed hread hmatch hother]
              exact ih fun e he => identified e (List.mem_cons_of_mem _ he)

private theorem findsExact_iff {r : Reader} (file : r.chanfile = some d.toXmlDoc)
    (null : r.doc = none → r.curNode = []) :
    FindsExact d r chname callsign ↔ SearchExact chname callsign r.curent d.channels := by
  have hlookup := getchannam_lookup file null chname callsign
  rw [FindsExact, SearchExact]
  generalize search chname callsign r.curent d.channels = found at hlookup ⊢
  generalize getchannam r chname callsign = out at hlookup ⊢
  split
  · cases hlookup with
    | missing c => exact iff_of_true ⟨_, rfl⟩ ⟨c, rfl⟩
    | found e rest c => exact iff_of_false (fun ⟨_, h⟩ => by cases h) fun ⟨_, h⟩ => by cases h
    | faulty f => exact iff_of_false (fun ⟨_, h⟩ => by cases h) fun ⟨_, h⟩ => by cases h
  · rename_i e es hdrop
    cases hlookup with
    | missing c =>
        exact iff_of_false (fun ⟨_, _, _, _, _, h⟩ => by cases h) fun ⟨_, _, _, h⟩ => by cases h
    | faulty f =>
        exact iff_of_false (fun ⟨_, _, _, _, _, h⟩ => by cases h) fun ⟨_, _, _, h⟩ => by cases h
    | found e' rest' c' =>
        constructor
        · rintro ⟨left, rest, c, hread, rfl, h⟩
          cases h
          exact ⟨left, _, hread, rfl⟩
        · rintro ⟨left, c, hread, h⟩
          cases h
          exact ⟨left, rest', _, hread, rfl, rfl⟩

/-- The lookup finds what matches exactly if and only if the first channel that
begins with its arguments does, and is read like those before it. -/
theorem lookup_exact_iff {r : Reader} (identified : ∀ e ∈ d.channels, Identified e)
    (file : r.chanfile = some d.toXmlDoc) (null : r.doc = none → r.curNode = []) :
    FindsExact d r chname callsign ↔
      Unmistaken chname callsign (r.curent.child .statuschecker) d.channels :=
  (findsExact_iff file null).trans (searchExact_iff identified)

private def channelAt (name callsign : String) : RootNode where
  isElement := true
  name := lit "channel"
  props := [(lit "name", lit name)]
  children := [⟨true, lit "callsign", lit callsign⟩, ⟨true, lit "statuschecker", lit "true"⟩]

private def bothPorts : ChannelsDoc :=
  ⟨⟨lit "rmschannels", [channelAt "uhf" "N0CALL-10", channelAt "vhf" "N0CALL-10"]⟩, rfl⟩

theorem lookup_exact_iff_second :
    FindsExact bothPorts (Reader.start (some bothPorts.toXmlDoc)) (lit "vhf") (lit "n0call-10") := by
  have huhf : ∀ left, effective left (channelAt "uhf" "N0CALL-10") = some (lit "true") :=
    effective_own (by decide)
  have hvhf : ∀ left, effective left (channelAt "vhf" "N0CALL-10") = some (lit "true") :=
    effective_own (by decide)
  refine (lookup_exact_iff (by decide) rfl fun _ => rfl).mpr ⟨?_, ?_, ?_⟩
  · exact sized_plain (by decide) (huhf _) (by decide) (by decide)
  · rw [huhf]
    rfl
  rw [if_neg (by decide)]
  refine ⟨?_, ?_, ?_⟩
  · exact sized_plain (by decide) (hvhf _) (by decide) (by decide)
  · rw [hvhf]
    rfl
  · rw [if_pos (by decide)]
    decide

private def longerPort : ChannelsDoc :=
  ⟨⟨lit "rmschannels", [channelAt "radio2" "N0CALL-10"]⟩, rfl⟩

/-- Another port and another SSID that only begin like the arguments are returned. -/
theorem longer_name_found :
    (∀ e ∈ longerPort.channels, Identified e) ∧
      ¬ FindsExact longerPort (Reader.start (some longerPort.toXmlDoc)) (lit "radio")
        (lit "N0CALL-1") := by
  have hfound : (match getchannam (Reader.start (some longerPort.toXmlDoc)) (lit "radio")
      (lit "N0CALL-1") with
    | .ok (some _, _) => true
    | _ => false) = true := by decide
  refine ⟨by decide, ?_⟩
  rintro ⟨r', hnull⟩
  rw [hnull] at hfound
  cases hfound

end Search

end Rmsgw.Channels.Lookup
