/- What a channel may leave out: the attributes and elements without which a read or
   a comparison of names takes a NULL pointer. -/

import Rmsgw.Channels.Bounds
import Mathlib.Algebra.Order.BigOperators.Group.List
import Mathlib.Algebra.Order.Group.Nat

set_option autoImplicit false
set_option relaxedAutoImplicit false

namespace Rmsgw.Channels.Omissions

open Rmsgw.Lib.CStrings Rmsgw.Rms Rmsgw.Channels.Model Rmsgw.Channels.Isolation
open Rmsgw.Channels.Entry Rmsgw.Channels.Traversal Rmsgw.Channels.Bounds

/-- The first channel has a callsign, if it can be read. -/
def FirstCalled (d : ChannelsDoc) : Prop :=
  ∀ e ∈ d.channels.head?, Sized none e → (fieldText e .callsign).isSome

/-- The static structure has a callsign, or nothing was read yet. -/
def Called (d : ChannelsDoc) (c : Channel) (es : List RootNode) : Prop :=
  (c.child .callsign).isSome ∨ (c.child .statuschecker = none ∧ es = d.channels)

section Present

variable {d : ChannelsDoc} {c c' : Channel} {e : RootNode}

private theorem readEntry_called (h : readEntry c e = .ok c') :
    (c'.child .callsign).isSome ↔ (fieldText e .callsign).isSome ∨ (c.child .callsign).isSome := by
  rw [readEntry_child h (by decide)]
  cases fieldText e .callsign <;> simp

theorem Called.read {es : List RootNode} (first : FirstCalled d) (hP : Called d c (e :: es))
    (hread : readEntry c e = .ok c') : (c'.child .callsign).isSome := by
  refine (readEntry_called hread).mpr ?_
  rcases hP with hcalled | ⟨hnone, hes⟩
  · exact .inr hcalled
  · have hsized := (readEntry_ok_iff.mp ⟨c', hread⟩).1
    rw [hnone] at hsized
    exact .inl (first e (by rw [← hes]; rfl) hsized)

theorem called_kept (first : FirstCalled d) : Kept d (Called d) where
  start := .inr ⟨rfl, rfl⟩
  read := fun hP hread => .inl (hP.read first hread)
  again := fun hP => hP.imp_right fun h => ⟨h.1, rfl⟩

theorem matchesName_ok (hname : c.chName.isSome) (hcall : (c.child .callsign).isSome)
    (chname callsign : Str) : ∃ hit, matchesName chname callsign c = .ok hit := by
  obtain ⟨name, hname⟩ := Option.isSome_iff_exists.mp hname
  obtain ⟨call, hcall⟩ := Option.isSome_iff_exists.mp hcall
  simp only [matchesName, hname, hcall]
  split
  · exact ⟨_, rfl⟩
  · exact ⟨false, rfl⟩

private theorem matchesName_nameless (hname : c.chName = none) (chname callsign : Str) :
    matchesName chname callsign c = .error .nullDeref := by
  rw [matchesName, hname]

private theorem matchesName_callless (hcall : c.child .callsign = none) :
    matchesName [] [] c = .error .nullDeref := by
  rw [matchesName]
  cases c.chName with
  | none => rfl
  | some name => simp [strnequal, hcall]

end Present

section Calls

variable {d : ChannelsDoc}

private theorem search_faulty {chname callsign : Str} {f : Fault}
    (h : search chname callsign .cleared d.channels = .error f) :
    performAll (Reader.start (some d.toXmlDoc)) [.getchannam chname callsign] = .error f := by
  have hlookup := getchannam_lookup (d := d) (r := Reader.start (some d.toXmlDoc)) rfl (fun _ => rfl)
    chname callsign
  have hsearch : search chname callsign (Reader.start (some d.toXmlDoc)).curent d.channels =
      .error f := h
  rw [hsearch] at hlookup
  rw [performAll, perform]
  generalize getchannam (Reader.start (some d.toXmlDoc)) chname callsign = out at hlookup ⊢
  cases hlookup
  rfl

private theorem exists_unmatched (es : List RootNode) :
    ∃ chname : Str, ∀ e ∈ es, ∀ name, xmlGetProp e (lit "name") = some name →
      strnequal name chname chname.length = false := by
  let lengths := es.map fun e => ((xmlGetProp e (lit "name")).getD []).length
  refine ⟨List.replicate (lengths.sum + 1) 65, fun e he name hname => ?_⟩
  have hle : name.length ≤ lengths.sum := by
    refine List.le_sum_of_mem (List.mem_map.mpr ⟨e, he, ?_⟩)
    rw [hname]
    rfl
  refine beq_eq_false_iff_ne.mpr fun heq => ?_
  have hlen := congrArg List.length heq
  simp only [List.length_take, List.length_replicate] at hlen
  omega

private theorem search_nameless {chname callsign : Str} {c c' c'' : Channel} {e : RootNode}
    {es es' : List RootNode} (hreads : Reads c es c' (e :: es'))
    (unmatched : ∀ e ∈ es, ∀ name, xmlGetProp e (lit "name") = some name →
      strnequal name chname chname.length = false)
    (hread : readEntry c' e = .ok c'') (nameless : xmlGetProp e (lit "name") = none) :
    search chname callsign c es = .error .nullDeref := by
  generalize hlast : e :: es' = last at hreads
  induction hreads with
  | refl c es =>
      subst hlast
      have hname : c''.chName = none := (readEntry_chName hread).trans nameless
      simp only [search, hread, Except.bind, matchesName_nameless hname]
  | @read c c₁ c' e₁ es es' read rest ih =>
      have htail := ih (fun e he => unmatched e (List.mem_cons_of_mem _ he)) hread hlast
      have hname := readEntry_chName read
      simp only [search, read, Except.bind]
      cases hown : xmlGetProp e₁ (lit "name") with
      | none => rw [matchesName_nameless (hname.trans hown)]
      | some name =>
          have hother : matchesName chname callsign c₁ = .ok false := by
            simp only [matchesName, hname, hown, unmatched e₁ List.mem_cons_self name hown,
              Bool.false_eq_true, if_false]
          simpa only [hother, Bool.false_eq_true, if_false] using htail

theorem nameless_faulty {c c' : Channel} {e : RootNode} {es : List RootNode}
    (hreads : Reads .cleared d.channels c (e :: es)) (hread : readEntry c e = .ok c')
    (nameless : xmlGetProp e (lit "name") = none) :
    ∃ calls, performAll (Reader.start (some d.toXmlDoc)) calls = .error .nullDeref := by
  obtain ⟨chname, unmatched⟩ := exists_unmatched d.channels
  have hsearch : search chname [] .cleared d.channels = .error .nullDeref :=
    search_nameless hreads unmatched hread nameless
  exact ⟨_, search_faulty hsearch⟩

private theorem callless_faulty {c : Channel} {e : RootNode} {es : List RootNode}
    (first : d.channels = e :: es) (hread : readEntry .cleared e = .ok c)
    (callless : fieldText e .callsign = none) :
    ∃ calls, performAll (Reader.start (some d.toXmlDoc)) calls = .error .nullDeref := by
  have hcall : c.child .callsign = none := by
    rw [readEntry_child hread (by decide), callless]
    rfl
  refine ⟨[.getchannam [] []], search_faulty ?_⟩
  rw [first]
  simp only [search, hread, Except.bind, matchesName_callless hcall]

/-- No calls end at a NULL pointer. -/
def CallsSafe (d : ChannelsDoc) : Prop :=
  ∀ calls, performAll (Reader.start (some d.toXmlDoc)) calls ≠ .error .nullDeref

/-- Where calls are safe, a channel that is read within the buffers has a status checker
and a name. -/
theorem CallsSafe.supplied (safe : CallsSafe d) {c : Channel} {e : RootNode} {es : List RootNode}
    (hreads : Reads .cleared d.channels c (e :: es)) (sized : Sized (c.child .statuschecker) e) :
    (effective (c.child .statuschecker) e).isSome ∧ (xmlGetProp e (lit "name")).isSome := by
  have hchecker : (effective (c.child .statuschecker) e).isSome := by
    by_contra hnone
    obtain ⟨calls, hcalls⟩ := hreads.faulty (readEntry_null sized (by simpa using hnone))
    exact safe calls hcalls
  refine ⟨hchecker, ?_⟩
  by_contra hnone
  obtain ⟨c', hread⟩ := readEntry_ok_iff.mpr ⟨sized, hchecker⟩
  obtain ⟨calls, hcalls⟩ := nameless_faulty hreads hread (by simpa using hnone)
  exact safe calls hcalls

theorem CallsSafe.firstCalled (safe : CallsSafe d) : FirstCalled d := by
  intro e he hsized
  by_contra hnone
  obtain ⟨es, hes⟩ : ∃ es, d.channels = e :: es := List.head?_eq_some_iff.mp he
  have hreads : Reads .cleared d.channels .cleared (e :: es) := hes ▸ .refl _ _
  have hchecker := (safe.supplied hreads hsized).1
  obtain ⟨c, hread⟩ := readEntry_ok_iff (c := .cleared).mpr ⟨hsized, hchecker⟩
  obtain ⟨calls, hcalls⟩ := callless_faulty hes hread (by simpa using hnone)
  exact safe calls hcalls

end Calls

end Rmsgw.Channels.Omissions
