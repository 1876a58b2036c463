/- The way of the reader through a document: what each call does to the cursor, and
   what holds over all sequences of calls. -/

import Rmsgw.Channels.Entry

set_option autoImplicit false
set_option relaxedAutoImplicit false

namespace Rmsgw.Channels.Traversal

open Rmsgw.Lib.CStrings Rmsgw.Rms Rmsgw.Channels.Model

/-- A document that the reader accepts. -/
structure ChannelsDoc extends XmlDoc where
  root : rootName = lit "rmschannels"

/-- The channel children of the root, in document order. -/
def ChannelsDoc.channels (d : ChannelsDoc) : List RootNode := d.children.filter isChannel

/-- The reader with the document open. -/
def opened (d : ChannelsDoc) (cur : List RootNode) (curent : Channel) : Reader :=
  ⟨some d.toXmlDoc, some d.toXmlDoc, cur, curent⟩

/-- The file holds the document. While it is not open the cursor is NULL. -/
inductive InDocument (d : ChannelsDoc) : Reader → Prop
  | closed (curent : Channel) : InDocument d ⟨some d.toXmlDoc, none, [], curent⟩
  | parsed (cur : List RootNode) (curent : Channel) : InDocument d (opened d cur curent)

/-- The channels that the cursor has not come to. -/
def ahead (d : ChannelsDoc) (r : Reader) : List RootNode :=
  (seekChannel d.children r.curNode).filter isChannel

/-- The search of getchannam() through channels in order: the channels from the
match on, and the static structure behind the last read. -/
def search (chname callsign : Str) :
    Channel → List RootNode → Except Fault (List RootNode × Channel)
  | curent, [] => .ok ([], curent)
  | curent, e :: es =>
      (readEntry curent e).bind (fun c =>
        (matchesName chname callsign c).bind (fun hit =>
          if hit then .ok (e :: es, c) else search chname callsign c es))

/-- What a search comes to for the caller of getchannam(). -/
inductive Lookup (d : ChannelsDoc) :
    Except Fault (List RootNode × Channel) → Except Fault (Option Channel × Reader) → Prop
  | missing (c : Channel) : Lookup d (.ok ([], c)) (.ok (none, opened d [] c))
  | found (e : RootNode) (rest : List RootNode) (c : Channel) :
      Lookup d (.ok (e :: rest.filter isChannel, c)) (.ok (some c, opened d (e :: rest) c))
  | faulty (f : Fault) : Lookup d (.error f) (.error f)

section Cursor

theorem openDoc_keeps {r r' : Reader} {d : XmlDoc} (h : openDoc r = some (d, r')) :
    r'.doc = some d ∧ r'.curNode = r.curNode := by
  simp only [openDoc] at h
  split at h
  · rename_i d' hdoc
    cases h
    exact ⟨hdoc, rfl⟩
  · rename_i hdoc
    simp only [setchanent, hdoc, Option.isSome_none, Bool.false_eq_true, if_false] at h
    cases hfile : r.chanfile with
    | none => simp [hfile] at h
    | some d' =>
        by_cases hroot : d'.rootName = lit "rmschannels"
        · simp only [hfile, hroot, if_true, Option.map_some, Option.some.injEq,
            Prod.mk.injEq] at h
          obtain ⟨rfl, rfl⟩ := h
          exact ⟨rfl, rfl⟩
        · simp [hfile, hroot] at h

theorem openDoc_again {r r' : Reader} {d : XmlDoc} (h : openDoc r = some (d, r')) :
    openDoc r' = some (d, r') := by
  simp only [openDoc, (openDoc_keeps h).1]

private theorem filter_dropWhile_not {α : Type} (p : α → Bool) (l : List α) :
    (l.dropWhile (fun x => !p x)).filter p = l.filter p := by
  induction l with
  | nil => rfl
  | cons x l ih =>
      cases hp : p x with
      | true => simp [hp]
      | false => simpa [List.dropWhile_cons, hp] using ih

theorem seekChannel_filter (root cur : List RootNode) :
    (seekChannel root cur).filter isChannel =
      (match cur with
        | [] => root
        | _ :: rest => rest).filter isChannel := by
  cases cur with
  | nil => exact filter_dropWhile_not isChannel root
  | cons node rest => exact filter_dropWhile_not isChannel rest

theorem seekChannel_head {root cur rest : List RootNode} {node : RootNode}
    (h : seekChannel root cur = node :: rest) : isChannel node = true := by
  have stops : ∀ l : List RootNode, l.dropWhile (fun n => !isChannel n) = node :: rest →
      isChannel node = true := by
    intro l hl
    have hhead := List.head?_dropWhile_not (fun n => !isChannel n) l
    rw [hl] at hhead
    simpa using hhead
  cases cur with
  | nil => exact stops root h
  | cons _ cur => exact stops cur h

end Cursor

section Calls

variable {d : ChannelsDoc} {r : Reader}

theorem ahead_null (h : r.curNode = []) : ahead d r = d.channels := by
  rw [ahead, seekChannel_filter, h]
  rfl

@[simp] theorem ahead_opened_nil (c : Channel) : ahead d (opened d [] c) = d.channels :=
  ahead_null rfl

@[simp] theorem ahead_opened_cons (e : RootNode) (rest : List RootNode) (c : Channel) :
    ahead d (opened d (e :: rest) c) = rest.filter isChannel := seekChannel_filter _ _

@[simp] theorem opened_curent (cur : List RootNode) (c : Channel) :
    (opened d cur c).curent = c := rfl

theorem setchanent_eq (file : r.chanfile = some d.toXmlDoc) (null : r.doc = none → r.curNode = []) :
    setchanent r = (true, opened d [] r.curent) := by
  obtain ⟨chanfile, doc, cur, curent⟩ := r
  obtain rfl : chanfile = some d.toXmlDoc := file
  cases doc with
  | none =>
      obtain rfl : cur = [] := null rfl
      simp [setchanent, d.root, opened]
  | some _ => simp [setchanent, d.root, opened]

theorem InDocument.file (h : InDocument d r) : r.chanfile = some d.toXmlDoc := by cases h <;> rfl

theorem InDocument.null (h : InDocument d r) (hdoc : r.doc = none) : r.curNode = [] := by
  cases h with
  | closed curent => rfl
  | parsed cur curent => cases hdoc

private theorem openDoc_inDocument (h : InDocument d r) :
    openDoc r = some (d.toXmlDoc, opened d r.curNode r.curent) := by
  cases h with
  | closed curent =>
      rw [openDoc, setchanent_eq rfl fun _ => rfl]
      rfl
  | parsed cur curent => rfl

theorem nextent_end (h : InDocument d r) (none : ahead d r = []) :
    nextent r = .ok (false, opened d [] r.curent) := by
  simp only [nextent, openDoc_inDocument h]
  cases hseek : seekChannel d.children (opened d r.curNode r.curent).curNode with
  | nil => rfl
  | cons e rest =>
      have hfilter : ahead d r = e :: rest.filter isChannel :=
        (congrArg (List.filter isChannel) hseek).trans
          (List.filter_cons_of_pos (seekChannel_head hseek))
      rw [none] at hfilter
      cases hfilter

theorem nextent_channel (h : InDocument d r) {e : RootNode} {es : List RootNode}
    (next : ahead d r = e :: es) :
    ∃ rest, rest.filter isChannel = es ∧
      nextent r = (readEntry r.curent e).map (fun c => (true, opened d (e :: rest) c)) := by
  simp only [nextent, openDoc_inDocument h]
  cases hseek : seekChannel d.children (opened d r.curNode r.curent).curNode with
  | nil =>
      have hnil : ahead d r = [] := congrArg (List.filter isChannel) hseek
      rw [next] at hnil
      cases hnil
  | cons e' rest =>
      have hfilter : ahead d r = e' :: rest.filter isChannel :=
        (congrArg (List.filter isChannel) hseek).trans
          (List.filter_cons_of_pos (seekChannel_head hseek))
      obtain ⟨rfl, rfl⟩ := List.cons.inj (next.symm.trans hfilter)
      exact ⟨rest, rfl, rfl⟩

theorem getchanent_inDocument (h : InDocument d r) :
    getchanent r =
      (nextent r).map (fun (found, r) => (if found then some r.curent else none, r)) := by
  have hagain : nextent (opened d r.curNode r.curent) = nextent r := by
    simp only [nextent, openDoc_inDocument h, openDoc_inDocument (.parsed r.curNode r.curent)]
    rfl
  simp only [getchanent, openDoc_inDocument h, hagain]

private theorem findChannel_lookup (h : InDocument d r) (chname callsign : Str) {fuel : Nat}
    (enough : (ahead d r).length < fuel) :
    Lookup d (search chname callsign r.curent (ahead d r))
      (findChannel chname callsign fuel r) := by
  induction fuel generalizing r with
  | zero => exact absurd enough (Nat.not_lt_zero _)
  | succ fuel ih =>
      rw [findChannel]
      cases hes : ahead d r with
      | nil =>
          rw [nextent_end h hes]
          exact .missing r.curent
      | cons e es =>
          obtain ⟨rest, rfl, hnext⟩ := nextent_channel h hes
          rw [hnext, search]
          cases readEntry r.curent e with
          | error f => exact .faulty f
          | ok c =>
              have hmore : (ahead d (opened d (e :: rest) c)).length < fuel := by
                rw [ahead_opened_cons]
                rw [hes, List.length_cons] at enough
                omega
              simp only [Except.map, Except.bind, if_true, opened_curent]
              cases hmatch : matchesName chname callsign c with
              | error f => exact .faulty f
              | ok hit =>
                  cases hit with
                  | true => exact .found e rest c
                  | false => simpa using ih (.parsed (e :: rest) c) hmore

/-- The lookup searches from the first channel on, wherever the cursor was. -/
theorem getchannam_lookup (file : r.chanfile = some d.toXmlDoc)
    (null : r.doc = none → r.curNode = []) (chname callsign : Str) :
    Lookup d (search chname callsign r.curent d.channels) (getchannam r chname callsign) := by
  rw [getchannam, setchanent_eq file null, ← ahead_opened_nil r.curent]
  refine findChannel_lookup (.parsed [] r.curent) chname callsign ?_
  rw [ahead_opened_nil]
  exact Nat.lt_succ_of_le (List.length_filter_le isChannel d.children)

end Calls

section Runs

/-- The entry points of the reader. -/
inductive Call
  | setchanent
  | getchanent
  | getchannam (chname callsign : Str)
  | endchanent

def perform (r : Reader) : Call → Except Fault Reader
  | .setchanent => .ok (setchanent r).2
  | .getchanent => (getchanent r).map Prod.snd
  | .getchannam chname callsign => (getchannam r chname callsign).map Prod.snd
  | .endchanent => .ok (endchanent r)

/-- A process that makes the calls one after the other, until a fault ends it. -/
def performAll : Reader → List Call → Except Fault Reader
  | r, [] => .ok r
  | r, call :: calls => (perform r call).bind (fun r => performAll r calls)

private theorem performAll_append (r : Reader) (calls more : List Call) :
    performAll r (calls ++ more) = (performAll r calls).bind (fun r => performAll r more) := by
  induction calls generalizing r with
  | nil => rfl
  | cons call calls ih =>
      rw [List.cons_append, performAll, performAll]
      cases perform r call with
      | error f => rfl
      | ok r => exact ih r

variable {d : ChannelsDoc}

/-- A relation of the static structure to the channels ahead that reads keep, on the
way through the document and when it starts over. -/
structure Kept (d : ChannelsDoc) (P : Channel → List RootNode → Prop) : Prop where
  start : P .cleared d.channels
  read : ∀ {c c' : Channel} {e : RootNode} {es : List RootNode},
    P c (e :: es) → readEntry c e = .ok c' → P c' es
  again : ∀ {c : Channel} {es : List RootNode}, P c es → P c d.channels

/-- Where a fault comes from: an element that is read, or the comparison of one with
what is looked for. -/
inductive Faulty (P : Channel → List RootNode → Prop) : Fault → Prop
  | read {c : Channel} {e : RootNode} {es : List RootNode} {f : Fault} (at_ : P c (e :: es))
      (read : readEntry c e = .error f) : Faulty P f
  | compare {c c' : Channel} {e : RootNode} {es : List RootNode} {chname callsign : Str}
      {f : Fault} (at_ : P c (e :: es)) (read : readEntry c e = .ok c')
      (compare : matchesName chname callsign c' = .error f) : Faulty P f

/-- How calls end that keep a relation. -/
inductive Ends (d : ChannelsDoc) (P : Channel → List RootNode → Prop) : Except Fault Reader → Prop
  | ok {r : Reader} (reading : InDocument d r) (kept : P r.curent (ahead d r)) : Ends d P (.ok r)
  | error {f : Fault} (faulty : Faulty P f) : Ends d P (.error f)

variable {P : Channel → List RootNode → Prop}

theorem Kept.and {Q : Channel → List RootNode → Prop} (hP : Kept d P) (hQ : Kept d Q) :
    Kept d (fun c es => P c es ∧ Q c es) where
  start := ⟨hP.start, hQ.start⟩
  read := fun h hread => ⟨hP.read h.1 hread, hQ.read h.2 hread⟩
  again := fun h => ⟨hP.again h.1, hQ.again h.2⟩

private theorem Kept.search (h : Kept d P) (chname callsign : Str) {c : Channel}
    {es : List RootNode} (hP : P c es) :
    (∃ l c', search chname callsign c es = .ok (l, c') ∧ P c' l.tail) ∨
      ∃ f, search chname callsign c es = .error f ∧ Faulty P f := by
  induction es generalizing c with
  | nil => exact .inl ⟨[], c, rfl, hP⟩
  | cons e es ih =>
      rw [Traversal.search]
      cases hread : readEntry c e with
      | error f => exact .inr ⟨f, rfl, .read hP hread⟩
      | ok c' =>
          have hP' := h.read hP hread
          cases hmatch : matchesName chname callsign c' with
          | error f => exact .inr ⟨f, by simp only [Except.bind, hmatch], .compare hP hread hmatch⟩
          | ok hit =>
              cases hit with
              | true => exact .inl ⟨e :: es, c', by simp only [Except.bind, hmatch, if_true], hP'⟩
              | false => simpa [Except.bind, hmatch] using ih hP'

private theorem Kept.getchannam (h : Kept d P) {r : Reader} (hr : InDocument d r)
    (hP : P r.curent (ahead d r)) (chname callsign : Str) :
    Ends d P ((getchannam r chname callsign).map Prod.snd) := by
  have hlookup := getchannam_lookup hr.file hr.null chname callsign
  generalize Model.getchannam r chname callsign = out at hlookup ⊢
  rcases h.search chname callsign (h.again hP) with ⟨l, c', hsearch, hl⟩ | ⟨f, hsearch, hf⟩
  · rw [hsearch] at hlookup
    cases hlookup with
    | missing => exact .ok (.parsed [] c') (by simpa using h.again hl)
    | found e rest => exact .ok (.parsed (e :: rest) c') (by simpa using hl)
  · rw [hsearch] at hlookup
    cases hlookup
    exact .error hf

private theorem Kept.getchanent (h : Kept d P) {r : Reader} (hr : InDocument d r)
    (hP : P r.curent (ahead d r)) : Ends d P ((getchanent r).map Prod.snd) := by
  rw [getchanent_inDocument hr]
  cases hes : ahead d r with
  | nil =>
      rw [nextent_end hr hes]
      exact .ok (.parsed [] r.curent) (by simpa using h.again hP)
  | cons e es =>
      obtain ⟨rest, rfl, hnext⟩ := nextent_channel hr hes
      rw [hes] at hP
      rw [hnext]
      cases hread : readEntry r.curent e with
      | error f => exact .error (.read hP hread)
      | ok c => exact .ok (.parsed (e :: rest) c) (by simpa using h.read hP hread)

private theorem endchanent_inDocument {r : Reader} (hr : InDocument d r) :
    endchanent r = ⟨some d.toXmlDoc, none, [], r.curent⟩ := by cases hr <;> rfl

private theorem Kept.perform (h : Kept d P) {r : Reader} (hr : InDocument d r)
    (hP : P r.curent (ahead d r)) (call : Call) : Ends d P (perform r call) := by
  cases call with
  | setchanent =>
      rw [Traversal.perform, setchanent_eq hr.file hr.null]
      exact .ok (.parsed [] r.curent) (by simpa using h.again hP)
  | getchanent => exact h.getchanent hr hP
  | getchannam chname callsign => exact h.getchannam hr hP chname callsign
  | endchanent =>
      rw [Traversal.perform, endchanent_inDocument hr]
      refine .ok (.closed r.curent) ?_
      rw [ahead_null rfl]
      exact h.again hP

/-- What reads keep holds at the end of every sequence of calls, and behind every fault. -/
theorem Kept.performAll (h : Kept d P) (calls : List Call) :
    Ends d P (performAll (Reader.start (some d.toXmlDoc)) calls) := by
  have hgo : ∀ r, InDocument d r → P r.curent (ahead d r) →
      Ends d P (Traversal.performAll r calls) := by
    induction calls with
    | nil => exact fun r hr hP => .ok hr hP
    | cons call calls ih =>
        intro r hr hP
        have hstep := h.perform hr hP call
        rw [Traversal.performAll]
        generalize Traversal.perform r call = out at hstep ⊢
        cases hstep with
        | ok reading kept => exact ih _ reading kept
        | error faulty => exact .error faulty
  refine hgo _ (.closed .cleared) ?_
  rw [ahead_null rfl]
  exact h.start

/-- The static structure with the channels ahead, behind reads in a row. -/
inductive Reads : Channel → List RootNode → Channel → List RootNode → Prop
  | refl (c : Channel) (es : List RootNode) : Reads c es c es
  | read {c c' c'' : Channel} {e : RootNode} {es es' : List RootNode}
      (read : readEntry c e = .ok c') (rest : Reads c' es c'' es') : Reads c (e :: es) c'' es'

private theorem Reads.called {c c' : Channel} {es es' : List RootNode} (h : Reads c es c' es')
    {r : Reader} (hr : InDocument d r) (hc : r.curent = c) (hes : ahead d r = es) :
    ∃ calls r', performAll r calls = .ok r' ∧ InDocument d r' ∧ r'.curent = c' ∧ ahead d r' = es' := by
  induction h generalizing r with
  | refl c es => exact ⟨[], r, rfl, hr, hc, hes⟩
  | @read c c₁ c' e es es' read rest ih =>
      subst hc
      obtain ⟨cur, rfl, hnext⟩ := nextent_channel hr hes
      obtain ⟨calls, r', hcalls, hrest⟩ :=
        ih (.parsed (e :: cur) c₁) rfl (ahead_opened_cons e cur c₁)
      refine ⟨.getchanent :: calls, r', ?_, hrest⟩
      rw [performAll, perform, getchanent_inDocument hr, hnext, read]
      exact hcalls

private theorem getchanent_faulty {r : Reader} (hr : InDocument d r) {e : RootNode}
    {es : List RootNode}
    {f : Fault} (hes : ahead d r = e :: es) (hread : readEntry r.curent e = .error f) :
    getchanent r = .error f := by
  obtain ⟨rest, -, hnext⟩ := nextent_channel hr hes
  rw [getchanent_inDocument hr, hnext, hread]
  rfl

/-- What fails in a channel that reads in a row come to fails in a call for the next entry. -/
theorem Reads.faulty {c : Channel} {e : RootNode} {es : List RootNode} {f : Fault}
    (h : Reads .cleared d.channels c (e :: es)) (hread : readEntry c e = .error f) :
    ∃ calls, performAll (Reader.start (some d.toXmlDoc)) calls = .error f := by
  obtain ⟨calls, r, hcalls, hr, rfl, hes⟩ := h.called (.closed .cleared) rfl (ahead_null rfl)
  refine ⟨calls ++ [.getchanent], ?_⟩
  change performAll ⟨some d.toXmlDoc, none, [], .cleared⟩ _ = _
  rw [performAll_append, hcalls]
  simp only [Except.bind, performAll, perform, getchanent_faulty hr hes hread, Except.map]

end Runs

end Rmsgw.Channels.Traversal
