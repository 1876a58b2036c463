/- When a channel entry is a function of its own element: what nextent() leaves
   in the static structure against what the element says. -/

import Rmsgw.Lib.Process
import Rmsgw.Channels.Model

set_option autoImplicit false
set_option relaxedAutoImplicit false

namespace Rmsgw.Channels.Isolation

open Rmsgw.Lib.CStrings Rmsgw.Lib.Process Rmsgw.Rms Rmsgw.Channels.Model

/-- A text without the blanks around it. -/
def trimText (content : Str) : Str := (content.dropWhile isBlank).rdropWhile isBlank

def isField (f : ChildField) (n : ChildNode) : Bool := n.isElement && n.name == f.tag

/-- What the last child element of a field's name says. -/
def lastText (f : ChildField) (ns : List ChildNode) : Option Str :=
  (ns.filter (isField f)).getLast?.map (fun n => trimText n.content)

/-- What the channel element itself says about a field. -/
def fieldText (e : RootNode) (f : ChildField) : Option Str := lastText f e.children

/-- The symbols that child elements add to a table. -/
def addSymbols : SymTab → List ChildNode → SymTab
  | symtab, [] => symtab
  | symtab, n :: ns =>
      addSymbols (if n.isElement then symAdd symtab n.name (trimText n.content) else symtab) ns

def symbolsOf (e : RootNode) : SymTab := addSymbols (propSymbols e) e.children

/-- The status checker of a channel element after substitution. -/
def checkerOf (e : RootNode) : Except Fault (Option Str) :=
  match fieldText e .statuschecker with
  | none => .ok none
  | some raw => (varsubst (symbolsOf e) raw).map some

/-- The channel that an element describes: a function of the element alone. -/
def channelOf (e : RootNode) : Except Fault Channel :=
  (checkerOf e).map (fun checker =>
    { chName := xmlGetProp e (lit "name")
      chType := xmlGetProp e (lit "type")
      chActive := xmlGetProp e (lit "active")
      child := fun f =>
        if f = .statuschecker then checker else (fieldText e f).map (storedText f) })

/-- An entry as it was read is what its own element describes, NULL where the
element has no child. -/
def ReadAs (e : RootNode) (c : Channel) : Prop :=
  channelOf e = .ok c ∧ ∀ f, fieldText e f = none → c.child f = none

def TextsFit (ns : List ChildNode) : Prop :=
  ∀ n ∈ ns, n.isElement = true → ∃ text, strtrim n.content = .ok text

/-- The element's texts fit the buffers, also the status checker once substituted. -/
def Fits (e : RootNode) : Prop :=
  TextsFit e.children ∧
    ∀ raw, fieldText e .statuschecker = some raw → ∃ text, varsubst (symbolsOf e) raw = .ok text

/-- The element has a status checker, and a field it leaves out was still NULL. -/
def OwnFields (curent : Channel) (e : RootNode) : Prop :=
  Fits e ∧ (fieldText e .statuschecker).isSome ∧
    ∀ f, f ≠ .statuschecker → fieldText e f = none → curent.child f = none

/-- A structure with the fields that child elements provide stored over it. -/
def overlay (c : Channel) (ns : List ChildNode) : Channel :=
  { c with child := fun f => ((lastText f ns).map (storedText f)).or (c.child f) }

private theorem strtrim_ok {content text : Str} (h : strtrim content = .ok text) :
    text = trimText content := by
  simp only [strtrim] at h
  split at h
  · exact (Except.ok.inj h).symm
  · cases h

def isNamed (name : Str) (n : ChildNode) : Bool := n.isElement && n.name == name

/-- The text of the last child element of a name. -/
def lastNamed (name : Str) (ns : List ChildNode) : Option Str :=
  (ns.filter (isNamed name)).getLast?.map (fun n => trimText n.content)

theorem lastNamed_cons (name : Str) (n : ChildNode) (ns : List ChildNode) :
    lastNamed name (n :: ns) =
      (lastNamed name ns).or (if isNamed name n then some (trimText n.content) else none) := by
  by_cases hn : isNamed name n = true
  · rw [lastNamed, List.filter_cons_of_pos hn, List.getLast?_cons, if_pos hn]
    cases h : (ns.filter (isNamed name)).getLast? with
    | none => simp [lastNamed, h]
    | some m => simp [lastNamed, h]
  · rw [lastNamed, List.filter_cons_of_neg hn, if_neg hn, Option.or_none]
    rfl

private theorem lastText_cons (f : ChildField) (n : ChildNode) (ns : List ChildNode) :
    lastText f (n :: ns) =
      (lastText f ns).or (if isField f n then some (trimText n.content) else none) :=
  lastNamed_cons f.tag n ns

private theorem overlay_nil (c : Channel) : overlay c [] = c := by
  ext <;> simp [overlay, lastText]

private theorem overlay_cons_other {c : Channel} {n : ChildNode} (ns : List ChildNode)
    (h : ∀ f, isField f n = false) : overlay c (n :: ns) = overlay c ns := by
  ext1 <;> simp [overlay, lastText_cons, h]

private theorem overlay_cons_field {c : Channel} {n : ChildNode} {f : ChildField}
    (ns : List ChildNode) (helem : n.isElement = true) (hname : n.name = f.tag) :
    overlay c (n :: ns) = overlay (c.set f (some (storedText f (trimText n.content)))) ns := by
  ext1
  · rfl
  · rfl
  · rfl
  · funext g
    simp only [overlay, lastText_cons, Channel.set_child]
    by_cases hg : g = f
    · subst hg
      have hfield : isField g n = true := by simp [isField, helem, hname]
      cases lastText g ns <;> simp [hfield]
    · have hfield : isField g n = false := by
        simp only [isField, helem, hname, Bool.true_and, beq_eq_false_iff_ne]
        exact fun h => hg (ChildField.tag_injective h.symm)
      simp [hfield, hg]

private theorem readChildren_fit {ns : List ChildNode} (h : TextsFit ns) (c : Channel)
    (symtab : SymTab) : readChildren (c, symtab) ns = .ok (overlay c ns, addSymbols symtab ns) := by
  induction ns generalizing c symtab with
  | nil => rw [overlay_nil]; rfl
  | cons n ns ih =>
      have hns : TextsFit ns := fun m hm => h m (List.mem_cons_of_mem _ hm)
      cases helem : n.isElement with
      | false =>
          rw [overlay_cons_other ns (fun f => by simp [isField, helem])]
          simp only [readChildren, readChild, helem, Except.bind, addSymbols]
          exact ih hns c symtab
      | true =>
          obtain ⟨text, htext⟩ := h n List.mem_cons_self helem
          obtain rfl := strtrim_ok htext
          simp only [readChildren, readChild, helem, htext, Except.bind, addSymbols, if_true]
          cases hf : ChildField.ofName n.name with
          | none =>
              rw [overlay_cons_other ns]
              · exact ih hns c _
              · intro f
                simp only [isField, helem, Bool.true_and, beq_eq_false_iff_ne]
                intro hname
                rw [hname, ChildField.ofName_tag] at hf
                cases hf
          | some f =>
              rw [overlay_cons_field ns helem (ChildField.ofName_eq_some.mp hf)]
              exact ih hns _ _

private theorem textsFit_of_readChildren {ns : List ChildNode} {st st' : Channel × SymTab}
    (h : readChildren st ns = .ok st') : TextsFit ns := by
  induction ns generalizing st with
  | nil => intro n hn; cases hn
  | cons n ns ih =>
      simp only [readChildren] at h
      cases hn : readChild st n with
      | error f => rw [hn] at h; cases h
      | ok st₁ =>
          rw [hn] at h
          have htail := ih h
          intro m hm helem
          rcases List.mem_cons.mp hm with rfl | hm
          · cases ht : strtrim m.content with
            | error f => simp [readChild, helem, ht, Except.bind] at hn
            | ok text => exact ⟨text, rfl⟩
          · exact htail m hm helem

theorem readEntry_fit {curent : Channel} {e : RootNode} (h : TextsFit e.children) :
    readEntry curent e =
      substChecker (overlay (readProps curent e) e.children, symbolsOf e) := by
  rw [readEntry, readChildren_fit h]
  rfl

private theorem ownFields_of_readAs {curent c : Channel} {e : RootNode}
    (hread : readEntry curent e = .ok c) (h : ReadAs e c) : OwnFields curent e := by
  obtain ⟨hown, habsent⟩ := h
  have hfit : TextsFit e.children := by
    rw [readEntry] at hread
    cases hch : readChildren (readProps curent e, propSymbols e) e.children with
    | error f => rw [hch] at hread; cases hread
    | ok st => exact textsFit_of_readChildren hch
  rw [readEntry_fit hfit] at hread
  simp only [substChecker] at hread
  split at hread
  · cases hread
  · rename_i raw hraw
    cases hsub : varsubst (symbolsOf e) raw with
    | error f => rw [hsub] at hread; cases hread
    | ok text =>
        rw [hsub] at hread
        obtain rfl := Except.ok.inj hread
        have hsome : (fieldText e .statuschecker).isSome := by
          cases hf : fieldText e .statuschecker with
          | some _ => rfl
          | none => exact absurd (habsent _ hf) (by simp)
        obtain ⟨own, howntext⟩ := Option.isSome_iff_exists.mp hsome
        refine ⟨⟨hfit, ?_⟩, hsome, ?_⟩
        · intro raw' hraw'
          have hsame : raw' = raw := by
            have : lastText .statuschecker e.children = some raw' := hraw'
            simpa [overlay, this, storedText] using hraw
          exact ⟨text, hsame ▸ hsub⟩
        · intro f hf hnone
          have hlast : lastText f e.children = none := hnone
          simpa [overlay, readProps, hf, hlast] using habsent f hnone

private theorem readAs_of_ownFields {curent : Channel} {e : RootNode} (h : OwnFields curent e) :
    ∃ c, readEntry curent e = .ok c ∧ ReadAs e c := by
  obtain ⟨⟨hfit, hsubst⟩, hsome, habsent⟩ := h
  obtain ⟨raw, hraw⟩ := Option.isSome_iff_exists.mp hsome
  obtain ⟨text, htext⟩ := hsubst raw hraw
  have hlast : lastText .statuschecker e.children = some raw := hraw
  have hchecker : (overlay (readProps curent e) e.children).child .statuschecker = some raw := by
    simp [overlay, hlast, storedText]
  rw [readEntry_fit hfit]
  simp only [substChecker, hchecker, htext]
  refine ⟨_, rfl, ?_, ?_⟩
  · simp only [channelOf, checkerOf, hraw, htext, Except.map]
    congr 1
    ext1
    · rfl
    · rfl
    · rfl
    · funext f
      by_cases hf : f = .statuschecker
      · simp [hf]
      · cases hown : fieldText e f with
        | some own =>
            have : lastText f e.children = some own := hown
            simp [overlay, hf, this, hown]
        | none =>
            have : lastText f e.children = none := hown
            simp [overlay, readProps, hf, this, hown, habsent f hf hown]
  · intro f hnone
    have hf : f ≠ .statuschecker := by rintro rfl; rw [hraw] at hnone; cases hnone
    have : lastText f e.children = none := hnone
    simp [overlay, readProps, hf, this, habsent f hf hnone]

private theorem readEntry_readAs_iff (curent : Channel) (e : RootNode) :
    (∃ c, readEntry curent e = .ok c ∧ ReadAs e c) ↔ OwnFields curent e := by
  constructor
  · rintro ⟨c, hread, h⟩
    exact ownFields_of_readAs hread h
  · exact readAs_of_ownFields

/-- The calls that the programs make on the reader. A search by name makes a
restart and entry reads. -/
inductive Call
  | setchanfile (file : Option XmlDoc)
  | setchanent
  | nextent
  | endchanent
  | defaultServicecode

/-- The reader, every entry read so far with its element, and whether a call
has brought the process down. -/
structure History where
  reader : Reader
  reads : List (RootNode × Channel)
  crashed : Bool

def History.start (file : Option XmlDoc) : History := ⟨Reader.start file, [], false⟩

def entryOf (r : Reader) : List (RootNode × Channel) :=
  r.curNode.head?.toList.map (fun e => (e, r.curent))

def step (s : History) (call : Call) : Option History :=
  if s.crashed then none
  else match call with
    | .setchanfile file => some { s with reader := { s.reader with chanfile := file } }
    | .setchanent => some { s with reader := (setchanent s.reader).2 }
    | .nextent =>
        match nextent s.reader with
        | .error _ => some { s with crashed := true }
        | .ok (false, r) => some { s with reader := r }
        | .ok (true, r) => some { s with reader := r, reads := s.reads ++ entryOf r }
    | .endchanent => some { s with reader := endchanent s.reader }
    | .defaultServicecode =>
        some { s with reader := { s.reader with curent := defaultServicecode s.reader.curent } }

/-- No read has crashed, and every entry was read as its own element describes it. -/
def Isolated (s : History) : Prop := s.crashed = false ∧ ∀ p ∈ s.reads, ReadAs p.1 p.2

def pending (r : Reader) : Option RootNode :=
  (openDoc r).bind (fun p => (seekChannel p.1.children p.2.curNode).head?)

/-- The next element to be read has its own fields. -/
def ReadsOwnFields (s : History) : Call → Prop
  | .nextent => ∀ e, pending s.reader = some e → OwnFields s.reader.curent e
  | _ => True

private theorem setchanent_curent (r : Reader) : (setchanent r).2.curent = r.curent := by
  simp only [setchanent]
  split <;> split <;> try rfl
  all_goals split <;> rfl

private theorem openDoc_curent {r r' : Reader} {d : XmlDoc} (h : openDoc r = some (d, r')) :
    r'.curent = r.curent := by
  simp only [openDoc] at h
  split at h
  · cases h; rfl
  · split at h
    · rename_i hset
      obtain ⟨d', -, heq⟩ := Option.map_eq_some_iff.mp h
      cases heq
      have hcurent := setchanent_curent r
      rwa [hset] at hcurent
    · cases h

theorem nextent_cases (r : Reader) :
    (pending r = none ∧ ∃ r' : Reader, nextent r = .ok (false, r')) ∨
    (∃ e, pending r = some e ∧ ∃ r' : Reader, nextent r =
      (readEntry r.curent e).map (fun c => (true, { r' with curent := c })) ∧
        r'.curNode.head? = some e) := by
  cases hopen : openDoc r with
  | none =>
      exact .inl ⟨by simp [pending, hopen], (setchanent r).2, by simp only [nextent, hopen]⟩
  | some p =>
      obtain ⟨d, r'⟩ := p
      cases hseek : seekChannel d.children r'.curNode with
      | nil =>
          exact .inl ⟨by simp [pending, hopen, hseek], { r' with curNode := [] },
            by simp only [nextent, hopen, hseek]⟩
      | cons e rest =>
          refine .inr ⟨e, by simp [pending, hopen, hseek], { r' with curNode := e :: rest }, ?_, rfl⟩
          simp only [nextent, hopen, hseek, openDoc_curent hopen]

private theorem isolated_step {s t : History} {call : Call} (h : step s call = some t) :
    Isolated t ↔ Isolated s ∧ ReadsOwnFields s call := by
  have hup : s.crashed = false := by
    cases hc : s.crashed with
    | false => rfl
    | true => simp [step, hc] at h
  simp only [step, hup, Bool.false_eq_true, if_false] at h
  cases call with
  | nextent =>
      simp only [ReadsOwnFields]
      rcases nextent_cases s.reader with ⟨hpend, r', hnext⟩ | ⟨e, hpend, r', hnext, hhead⟩
      · simp only [hnext] at h
        obtain rfl := Option.some.inj h
        simp [Isolated, hpend, hup]
      · rw [hpend]
        cases hread : readEntry s.reader.curent e with
        | error f =>
            simp only [hnext, hread, Except.map] at h
            obtain rfl := Option.some.inj h
            refine iff_of_false (fun hiso => by cases hiso.1) (fun ⟨_, hown⟩ => ?_)
            obtain ⟨c, hc, -⟩ := (readEntry_readAs_iff _ _).mpr (hown e rfl)
            rw [hread] at hc
            cases hc
        | ok c =>
            simp only [hnext, hread, Except.map] at h
            obtain rfl := Option.some.inj h
            have hlast : ReadAs e c ↔ OwnFields s.reader.curent e := by
              rw [← readEntry_readAs_iff, hread]
              simp
            simp only [Isolated, hup, entryOf, hhead, Option.toList_some, List.map_cons,
              List.map_nil, List.forall_mem_append, List.forall_mem_singleton, hlast,
              Option.some.injEq, forall_eq', and_assoc]
  | _ =>
      obtain rfl := Option.some.inj h
      simp [Isolated, hup, ReadsOwnFields]

/-- Over any history of calls, every channel entry is a function of its own
element, NULL where the element has no child, exactly when every element read
had its own fields. -/
theorem channels_isolated_iff (file : Option XmlDoc) (calls : List Call) (s : History)
    (h : run step (History.start file) calls = some s) :
    Isolated s ↔ Meets step ReadsOwnFields (History.start file) calls := by
  rw [run_iff_meets (Q := Isolated) (fun _ _ _ => isolated_step) h]
  exact and_iff_right ⟨rfl, fun p hp => by cases hp⟩

private def textNode (name content : String) : ChildNode := ⟨true, lit name, lit content⟩

private def firstChannel : RootNode where
  isElement := true
  name := lit "channel"
  props := [(lit "name", lit "vhf"), (lit "active", lit "yes")]
  children := [textNode "password" " S3CRET\n", textNode "statuschecker" "check $name"]

private def secondChannel : RootNode where
  isElement := true
  name := lit "channel"
  props := [(lit "name", lit "uhf"), (lit "active", lit "yes")]
  children := [textNode "statuschecker" "check $name"]

private def twoChannels : XmlDoc := ⟨lit "rmschannels", [firstChannel, secondChannel]⟩

private def thirdChannel : RootNode where
  isElement := true
  name := lit "channel"
  props := [(lit "name", lit "hf"), (lit "active", lit "yes")]
  children := [textNode "password" "0THER", textNode "statuschecker" "check -p $name"]

private def ownFields : XmlDoc := ⟨lit "rmschannels", [firstChannel, thirdChannel]⟩

/-- Two channels with a password and a status checker of their own. -/
theorem channels_isolated_iff_both :
    ∃ s, run step (History.start (some ownFields)) [.setchanent, .nextent, .nextent] = some s ∧
      s.reads.map (fun p => (p.1, p.2.child .password, p.2.child .statuschecker)) =
        [(firstChannel, some (lit "S3CRET"), some (lit "check vhf")),
          (thirdChannel, some (lit "0THER"), some (lit "check -p hf"))] ∧
      (Isolated s ↔ Meets step ReadsOwnFields (History.start (some ownFields))
        [.setchanent, .nextent, .nextent]) := by
  have hend : (run step (History.start (some ownFields)) [.setchanent, .nextent, .nextent]).map
      (fun s => s.reads.map (fun p => (p.1, p.2.child .password, p.2.child .statuschecker))) =
        some [(firstChannel, some (lit "S3CRET"), some (lit "check vhf")),
          (thirdChannel, some (lit "0THER"), some (lit "check -p hf"))] := by decide
  obtain ⟨s, hs, heq⟩ := Option.map_eq_some_iff.mp hend
  exact ⟨s, hs, heq, channels_isolated_iff (some ownFields) _ s hs⟩

/-- The second channel has no password element and is read with the password of
the first. -/
theorem password_leaks :
    ∃ s, run step (History.start (some twoChannels)) [.nextent, .nextent] = some s ∧
      s.reads.map (fun p => (p.1, fieldText p.1 .password, p.2.child .password)) =
        [(firstChannel, some (lit "S3CRET"), some (lit "S3CRET")),
          (secondChannel, none, some (lit "S3CRET"))] ∧
      ¬ Isolated s := by
  have hend : (run step (History.start (some twoChannels)) [.nextent, .nextent]).map
      (fun s => s.reads.map (fun p => (p.1, fieldText p.1 .password, p.2.child .password))) =
        some [(firstChannel, some (lit "S3CRET"), some (lit "S3CRET")),
          (secondChannel, none, some (lit "S3CRET"))] := by decide
  obtain ⟨s, hs, heq⟩ := Option.map_eq_some_iff.mp hend
  refine ⟨s, hs, heq, ?_⟩
  intro hiso
  have hmem : (secondChannel, (none : Option Str), some (lit "S3CRET")) ∈
      s.reads.map (fun p => (p.1, fieldText p.1 .password, p.2.child .password)) := by
    rw [heq]; exact List.mem_cons_of_mem _ List.mem_cons_self
  obtain ⟨⟨e, c⟩, hp, hpe⟩ := List.mem_map.mp hmem
  simp only [Prod.mk.injEq] at hpe
  have hnull := (hiso.2 _ hp).2 .password hpe.2.1
  exact absurd (hpe.2.2.symm.trans hnull) (by simp)

end Rmsgw.Channels.Isolation
