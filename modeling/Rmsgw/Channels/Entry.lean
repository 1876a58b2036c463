/- One entry: when its texts fit the buffers, the three things that reading it can
   come to, and the status checker that it is read with. -/

import Rmsgw.Channels.Isolation
import Rmsgw.Channels.Subst

set_option autoImplicit false
set_option relaxedAutoImplicit false

namespace Rmsgw.Channels.Entry

open Rmsgw.Lib.CStrings Rmsgw.Lib.Templates Rmsgw.Rms Rmsgw.Channels.Model
open Rmsgw.Channels.Isolation Rmsgw.Channels.Subst

/-- A content fits the buffer as it is copied, blanks at its end included, and with
its terminator once trimmed. -/
def ContentFits (content : Str) : Prop :=
  (content.dropWhile isBlank).length ≤ bigBuf ∧ (trimText content).length < bigBuf

instance (content : Str) : Decidable (ContentFits content) := inferInstanceAs (Decidable (_ ∧ _))

/-- The status checker to be substituted: the element's own, else what is left in
the static structure. -/
def effective (left : Option Str) (e : RootNode) : Option Str :=
  (fieldText e .statuschecker).or left

/-- The status checker that is left in the static structure behind a channel. -/
def leftover (left : Option Str) (e : RootNode) : Option Str :=
  (effective left e).map (substituted (symbolsOf e))

def ContentsFit (e : RootNode) : Prop :=
  ∀ n ∈ e.children, n.isElement = true → ContentFits n.content

instance (e : RootNode) : Decidable (ContentsFit e) :=
  inferInstanceAs (Decidable (∀ n ∈ e.children, n.isElement = true → ContentFits n.content))

/-- The element is read within the buffers: its contents, the names in the status
checker and the command that it is expanded to. -/
structure Sized (left : Option Str) (e : RootNode) : Prop where
  contents : ContentsFit e
  names : ∀ raw, effective left e = some raw → NamesFit raw
  command : ∀ raw, effective left e = some raw →
    (substituted (symbolsOf e) raw).length < bigBuf

/-- The static structure behind a read. -/
def entryOver (curent : Channel) (e : RootNode) (command : Str) : Channel :=
  (overlay (readProps curent e) e.children).set .statuschecker (some command)

/-- What reading an element can come to. -/
inductive Reading (curent : Channel) (e : RootNode) : Except Fault Channel → Prop
  | overflow (unsized : ¬ Sized (curent.child .statuschecker) e) :
      Reading curent e (.error .bufferOverflow)
  | nullChecker (contents : ContentsFit e)
      (none : effective (curent.child .statuschecker) e = none) :
      Reading curent e (.error .nullDeref)
  | entry (sized : Sized (curent.child .statuschecker) e) (raw : Str)
      (checker : effective (curent.child .statuschecker) e = some raw) :
      Reading curent e (.ok (entryOver curent e (substituted (symbolsOf e) raw)))

section Sizes

variable {left left' : Option Str} {e : RootNode} {raw : Str}

theorem sized_none_iff (none : effective left e = none) : Sized left e ↔ ContentsFit e := by
  refine ⟨Sized.contents, fun contents => ⟨contents, fun raw hraw => ?_, fun raw hraw => ?_⟩⟩
  · rw [none] at hraw
    cases hraw
  · rw [none] at hraw
    cases hraw

private theorem sized_some_iff (checker : effective left e = some raw) :
    Sized left e ↔
      ContentsFit e ∧ NamesFit raw ∧ (substituted (symbolsOf e) raw).length < bigBuf := by
  constructor
  · exact fun h => ⟨h.contents, h.names raw checker, h.command raw checker⟩
  · rintro ⟨contents, names, command⟩
    refine ⟨contents, fun raw' hraw' => ?_, fun raw' hraw' => ?_⟩
    · obtain rfl := Option.some.inj (checker.symm.trans hraw')
      exact names
    · obtain rfl := Option.some.inj (checker.symm.trans hraw')
      exact command

theorem sized_congr (h : effective left e = effective left' e) : Sized left e ↔ Sized left' e := by
  constructor
  · exact fun hs => ⟨hs.contents, h ▸ hs.names, h ▸ hs.command⟩
  · exact fun hs => ⟨hs.contents, h ▸ hs.names, h ▸ hs.command⟩

theorem effective_own (own : fieldText e .statuschecker = some raw) (left : Option Str) :
    effective left e = some raw := by
  rw [effective, own]
  rfl

theorem sized_own (left : Option Str) (e : RootNode) (own : (fieldText e .statuschecker).isSome)
    (h : Sized none e) : Sized left e := by
  obtain ⟨text, htext⟩ := Option.isSome_iff_exists.mp own
  refine (sized_congr ?_).mp h
  rw [effective_own htext, effective_own htext]

theorem sized_plain (contents : ContentsFit e) (checker : effective left e = some raw)
    (plain : (0 : UInt8) ∉ raw ∧ (36 : UInt8) ∉ raw ∧ (92 : UInt8) ∉ raw)
    (room : raw.length < bigBuf) : Sized left e := by
  have hplain : ∀ c ∈ raw, c ≠ 0 ∧ c ≠ 36 ∧ c ≠ 92 := fun c hc =>
    ⟨fun h => plain.1 (h ▸ hc), fun h => plain.2.1 (h ▸ hc), fun h => plain.2.2 (h ▸ hc)⟩
  have hscan : scan raw = literals raw := by
    have hread := scan_plainText hplain []
    rwa [List.append_nil, scan_nil, List.append_nil] at hread
  refine (sized_some_iff checker).mpr ⟨contents, ?_, ?_⟩
  · rw [NamesFit, hscan, names_literals]
    exact fun n hn => by cases hn
  · rwa [substituted, hscan, expand_literals]

end Sizes

theorem strtrim_eq_ok_iff {content text : Str} :
    strtrim content = .ok text ↔ ContentFits content ∧ text = trimText content := by
  rw [strtrim]
  change (if ContentFits content then _ else _) = _ ↔ _
  split
  case isTrue h =>
    rw [and_iff_right h]
    exact ⟨fun he => (Except.ok.inj he).symm, fun he => congrArg _ he.symm⟩
  case isFalse h => exact iff_of_false (fun he => by cases he) fun he => h he.1

private theorem strtrim_eq_error {content : Str} (h : ¬ ContentFits content) :
    strtrim content = .error .bufferOverflow := by
  rw [strtrim]
  exact if_neg h

private theorem textsFit_iff (e : RootNode) : TextsFit e.children ↔ ContentsFit e := by
  refine forall₃_congr fun n _ _ => ?_
  simp [strtrim_eq_ok_iff]

private theorem readChildren_unfit {ns : List ChildNode}
    (h : ∃ n ∈ ns, n.isElement = true ∧ ¬ ContentFits n.content) (st : Channel × SymTab) :
    readChildren st ns = .error .bufferOverflow := by
  induction ns generalizing st with
  | nil =>
      obtain ⟨n, hn, -⟩ := h
      cases hn
  | cons n ns ih =>
      by_cases hn : n.isElement = true ∧ ¬ ContentFits n.content
      · rw [readChildren, readChild, if_pos hn.1, strtrim_eq_error hn.2]
        rfl
      · have hrest : ∃ m ∈ ns, m.isElement = true ∧ ¬ ContentFits m.content := by
          obtain ⟨m, hm, hbad⟩ := h
          rcases List.mem_cons.mp hm with rfl | hm
          · exact absurd hbad hn
          · exact ⟨m, hm, hbad⟩
        rw [readChildren]
        cases hread : readChild st n with
        | ok st' => exact ih hrest st'
        | error f =>
            rw [readChild] at hread
            split at hread
            case isFalse => cases hread
            case isTrue helem =>
              have hfits : ContentFits n.content := by
                by_contra hnot
                exact hn ⟨helem, hnot⟩
              rw [strtrim_eq_ok_iff.mpr ⟨hfits, rfl⟩] at hread
              simp only [Except.bind] at hread
              split at hread <;> cases hread

private theorem readEntry_reading (curent : Channel) (e : RootNode) :
    Reading curent e (readEntry curent e) := by
  by_cases hfit : ContentsFit e
  · have hchecker : (overlay (readProps curent e) e.children).child .statuschecker =
        effective (curent.child .statuschecker) e := by
      have hstored : (lastText .statuschecker e.children).map (storedText .statuschecker) =
          fieldText e .statuschecker := by
        rw [fieldText]
        cases lastText .statuschecker e.children <;> rfl
      exact congrArg (Option.or · _) hstored
    rw [readEntry_fit ((textsFit_iff e).mpr hfit), substChecker]
    cases heff : effective (curent.child .statuschecker) e with
    | none =>
        simp only [hchecker, heff]
        exact .nullChecker hfit heff
    | some raw =>
        simp only [hchecker, heff, varsubst_eq, buffered, List.length_nil, Nat.zero_add,
          List.nil_append]
        split
        case isTrue hroom => exact .entry ((sized_some_iff heff).mpr ⟨hfit, hroom⟩) raw heff
        case isFalse hroom => exact .overflow fun h => hroom ((sized_some_iff heff).mp h).2
  · have hbad : ∃ n ∈ e.children, n.isElement = true ∧ ¬ ContentFits n.content := by
      simpa [ContentsFit] using hfit
    rw [readEntry, readChildren_unfit hbad]
    exact .overflow fun hsized => hfit hsized.contents

section Reads

variable {c c' : Channel} {e : RootNode}

theorem readEntry_ok_iff :
    (∃ c', readEntry c e = .ok c') ↔
      Sized (c.child .statuschecker) e ∧ (effective (c.child .statuschecker) e).isSome := by
  have hreading := readEntry_reading c e
  generalize readEntry c e = out at hreading ⊢
  cases hreading with
  | overflow unsized => exact iff_of_false (fun ⟨_, h⟩ => by cases h) fun h => unsized h.1
  | nullChecker contents none =>
      refine iff_of_false (fun ⟨_, h⟩ => by cases h) fun h => ?_
      rw [none] at h
      cases h.2
  | entry sized raw checker => exact iff_of_true ⟨_, rfl⟩ ⟨sized, by rw [checker]; rfl⟩

private theorem readEntry_eq_ok (h : readEntry c e = .ok c') :
    ∃ command, c' = entryOver c e command ∧ leftover (c.child .statuschecker) e = some command := by
  have hreading := readEntry_reading c e
  rw [h] at hreading
  cases hreading with
  | entry sized raw checker => exact ⟨_, rfl, by rw [leftover, checker]; rfl⟩

theorem readEntry_overflow_iff :
    readEntry c e = .error .bufferOverflow ↔ ¬ Sized (c.child .statuschecker) e := by
  have hreading := readEntry_reading c e
  generalize readEntry c e = out at hreading ⊢
  cases hreading with
  | overflow unsized => exact iff_of_true rfl unsized
  | nullChecker contents none =>
      exact iff_of_false (fun h => by cases h) fun h => h ((sized_none_iff none).mpr contents)
  | entry sized raw checker => exact iff_of_false (fun h => by cases h) fun h => h sized

theorem readEntry_null (sized : Sized (c.child .statuschecker) e)
    (none : effective (c.child .statuschecker) e = none) : readEntry c e = .error .nullDeref := by
  have hreading := readEntry_reading c e
  generalize readEntry c e = out at hreading ⊢
  cases hreading with
  | overflow unsized => exact absurd sized unsized
  | nullChecker => rfl
  | entry sized raw checker =>
      rw [none] at checker
      cases checker

theorem readEntry_statuschecker (h : readEntry c e = .ok c') :
    c'.child .statuschecker = leftover (c.child .statuschecker) e := by
  obtain ⟨command, rfl, hleft⟩ := readEntry_eq_ok h
  rw [hleft]
  rfl

theorem readEntry_chName (h : readEntry c e = .ok c') : c'.chName = xmlGetProp e (lit "name") := by
  obtain ⟨command, rfl, -⟩ := readEntry_eq_ok h
  rfl

theorem readEntry_chActive (h : readEntry c e = .ok c') :
    c'.chActive = xmlGetProp e (lit "active") := by
  obtain ⟨command, rfl, -⟩ := readEntry_eq_ok h
  rfl

theorem readEntry_child (h : readEntry c e = .ok c') {f : ChildField} (hf : f ≠ .statuschecker) :
    c'.child f = ((fieldText e f).map (storedText f)).or (c.child f) := by
  obtain ⟨command, rfl, -⟩ := readEntry_eq_ok h
  simp only [entryOver, Channel.set_child, if_neg hf]
  rfl

end Reads

section Values

/-- What the channel itself says about a name: its last child element of that name,
else its attribute name, type or active. -/
def ownValue (e : RootNode) (n : Str) : Str :=
  if n = [] then []
  else match lastNamed n e.children with
    | some text => text
    | none => if n ∈ [lit "name", lit "type", lit "active"] then (xmlGetProp e n).getD [] else []

private theorem symLookup_symAdd (symtab : SymTab) (s v n : Str) :
    symLookup (symAdd symtab s v) n = if s ≠ [] ∧ s = n then some v else symLookup symtab n := by
  by_cases hs : s = []
  · simp [symAdd, hs]
  · by_cases hn : s = n
    · subst hn
      simp [symAdd, symLookup, hs]
    · simp [symAdd, symLookup, hs, hn]

private theorem symLookup_symAddProp (symtab : SymTab) {s : Str} (hs : s ≠ []) (v : Option Str)
    (n : Str) : symLookup (symAddProp symtab s v) n =
      if s = n then v.or (symLookup symtab n) else symLookup symtab n := by
  cases v with
  | none => simp [symAddProp]
  | some v => simp [symAddProp, symLookup_symAdd, hs]

private theorem symLookup_propSymbols (e : RootNode) (n : Str) :
    symLookup (propSymbols e) n =
      if n ∈ [lit "name", lit "type", lit "active"] then xmlGetProp e n else none := by
  have hnone : symLookup [] n = none := rfl
  have hname : lit "name" ≠ [] := by decide
  have htype : lit "type" ≠ [] := by decide
  have hactive : lit "active" ≠ [] := by decide
  simp only [propSymbols, symLookup_symAddProp _ hname, symLookup_symAddProp _ htype,
    symLookup_symAddProp _ hactive, hnone, Option.or_none, List.mem_cons, List.not_mem_nil, or_false]
  by_cases h1 : n = lit "name"
  · subst h1
    have h2 : lit "type" ≠ lit "name" := by decide
    have h3 : lit "active" ≠ lit "name" := by decide
    simp [h2, h3]
  by_cases h2 : n = lit "type"
  · subst h2
    have h3 : lit "active" ≠ lit "type" := by decide
    have h4 : lit "name" ≠ lit "type" := by decide
    simp [h3, h4]
  by_cases h3 : n = lit "active"
  · subst h3
    have h4 : lit "name" ≠ lit "active" := by decide
    have h5 : lit "type" ≠ lit "active" := by decide
    simp [h4, h5]
  · simp [h1, h2, h3, Ne.symm h1, Ne.symm h2, Ne.symm h3]

private theorem symLookup_addSymbols (symtab : SymTab) (ns : List ChildNode) (n : Str) :
    symLookup (addSymbols symtab ns) n =
      if n = [] then symLookup symtab n else (lastNamed n ns).or (symLookup symtab n) := by
  induction ns generalizing symtab with
  | nil => by_cases hn : n = [] <;> simp [addSymbols, lastNamed, hn]
  | cons c ns ih =>
      rw [addSymbols, ih, lastNamed_cons]
      cases helem : c.isElement with
      | false =>
          have hnot : isNamed n c = false := by simp [isNamed, helem]
          simp [hnot]
      | true =>
          rw [if_pos rfl, symLookup_symAdd]
          by_cases hn : n = []
          · subst hn
            simp
          · by_cases hc : c.name = n
            · have hnamed : isNamed n c = true := by simp [isNamed, helem, hc]
              simp [hn, hnamed, hc]
            · have hnamed : isNamed n c = false := by simp [isNamed, helem, hc]
              simp [hn, hnamed, hc]

private theorem valueIn_symbolsOf (e : RootNode) : valueIn (symbolsOf e) = ownValue e := by
  funext n
  change (symLookup (symbolsOf e) n).getD [] = ownValue e n
  rw [symbolsOf, symLookup_addSymbols, symLookup_propSymbols, ownValue]
  by_cases hn : n = []
  · have hnone : ([] : Str) ∉ [lit "name", lit "type", lit "active"] := by decide
    simp [hn, hnone]
  · simp only [hn, if_false]
    cases lastNamed n e.children with
    | some text => rfl
    | none => split <;> rfl

/-- The status checker of a channel that has one is its own text scanned once, with
the channel's own values in the places of the names, whatever was read before. -/
theorem checker_one_pass (r : Reader) {e : RootNode} {raw : Str} (next : pending r = some e)
    (own : fieldText e .statuschecker = some raw) (contents : ContentsFit e)
    (names : NamesFit raw) (room : (expand (ownValue e) (scan raw)).length < bigBuf) :
    ∃ r', nextent r = .ok (true, r') ∧ r'.curNode.head? = some e ∧
      r'.curent.child .statuschecker = some (expand (ownValue e) (scan raw)) := by
  have hvalue : substituted (symbolsOf e) raw = expand (ownValue e) (scan raw) := by
    rw [substituted, valueIn_symbolsOf]
  have heff := effective_own own (r.curent.child .statuschecker)
  have hsized := (sized_some_iff heff).mpr ⟨contents, names, by rwa [hvalue]⟩
  obtain ⟨c, hentry⟩ := readEntry_ok_iff.mpr ⟨hsized, by rw [heff]; rfl⟩
  rcases nextent_cases r with ⟨hnone, -⟩ | ⟨e', he', r', hread, hhead⟩
  · rw [next] at hnone
    cases hnone
  · obtain rfl := Option.some.inj (next.symm.trans he')
    rw [hread, hentry]
    refine ⟨_, rfl, hhead, ?_⟩
    change c.child .statuschecker = _
    rw [readEntry_statuschecker hentry, leftover, heff, Option.map_some, hvalue]

private def checkedChannel : RootNode where
  isElement := true
  name := lit "channel"
  props := [(lit "name", lit "vhf"), (lit "type", lit "ax25")]
  children := [⟨true, lit "callsign", lit " $type "⟩, ⟨true, lit "statuschecker", lit "up $callsign\n"⟩]

private theorem scan_checker : scan (lit "up $callsign") =
    literals (lit "up ") ++ [.ref (lit "callsign")] := by
  have hbytes : lit "up $callsign" = 117 :: 112 :: 32 :: 36 :: lit "callsign" := by decide
  have htake : (lit "callsign").takeWhile isNameChar = lit "callsign" := by decide
  have hdrop : (lit "callsign").dropWhile isNameChar = [] := by decide
  rw [hbytes, scan_plain (by decide) (by decide), scan_plain (by decide) (by decide),
    scan_plain (by decide) (by decide), scan_dollar, htake, hdrop, List.take_nil, List.drop_nil,
    scan_nil]
  rfl

theorem checker_one_pass_dollar :
    ∃ r', nextent (Reader.start (some ⟨lit "rmschannels", [checkedChannel]⟩)) = .ok (true, r') ∧
      r'.curNode.head? = some checkedChannel ∧
      r'.curent.child .statuschecker = some (lit "up $type") := by
  have htext : expand (ownValue checkedChannel) (scan (lit "up $callsign")) = lit "up $type" := by
    rw [scan_checker]
    decide
  rw [← htext]
  refine checker_one_pass _ (by decide) (by decide) (by decide) ?_ ?_
  · rw [NamesFit, scan_checker]
    decide
  · rw [htext]
    decide

end Values

end Rmsgw.Channels.Entry
