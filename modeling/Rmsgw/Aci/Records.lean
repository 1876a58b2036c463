/- The records that updatechannel.py posts: what goes out for a channel, against the
   entry that the programs read for it from the same document. -/

import Rmsgw.Aci.Incomplete
import Rmsgw.Aci.Posting
import Rmsgw.Channels.Entry

set_option autoImplicit false
set_option relaxedAutoImplicit false

namespace Rmsgw.Aci.Records

open Rmsgw.Lib.CStrings Rmsgw.Lib.Process Rmsgw.Rms Rmsgw.Channels.Model
open Rmsgw.Channels.Isolation Rmsgw.Channels.Entry Rmsgw.Aci.Model

/-- The elements of `channel_add`. -/
inductive Element
  | baseCallsign | baud | callsign | frequency | gridSquare | mode | power | height | gain
  | direction | hours | serviceCode | key
  deriving DecidableEq

/-- The texts of the elements; `none` is the text of an empty one. -/
abbrev Record := Element → Option Str

/-- `channel_add` ahead of the loop. -/
def channelAdd : Record := fun _ => none

/-- `channel.find(tag)`. -/
def find (channel : RootNode) (f : ChildField) : Option ChildNode :=
  channel.children.find? (isField f)

/-- `.text` of an element that has nothing but text. -/
def textOf (content : Str) : Option Str := if content = [] then none else some content

/-- `channel.find(tag).text`, where the element is there. -/
def findText (channel : RootNode) (f : ChildField) : Option Str :=
  (find channel f).bind fun n => textOf n.content

/-- The assignments of the loop in their order. -/
def assignments : List (Element × ChildField) :=
  [(.baseCallsign, .basecall), (.baud, .baud), (.callsign, .callsign), (.direction, .direction),
    (.frequency, .frequency), (.gain, .gain), (.gridSquare, .gridsquare), (.height, .height),
    (.mode, .mode), (.power, .power), (.hours, .hours), (.serviceCode, .servicecode)]

/-- `channel_add.find(..).text = channel.find(..).text`, one after the other; `none` is
the exception at an element that is not there. -/
def assign (channel : RootNode) : List (Element × ChildField) → Record → Option Record
  | [], r => some r
  | (e, f) :: rest, r =>
      (find channel f).bind fun n => assign channel rest (Function.update r e (textOf n.content))

/-- The body of the loop up to the post; the callsign is looked up for the log first. -/
def fill (accessCode : Str) (channel : RootNode) (r : Record) : Option Record :=
  (find channel .callsign).bind fun _ =>
    (assign channel assignments r).map fun r => Function.update r .key (textOf accessCode)

/-- The posting loop with the tree that it fills again and again: the records that go
out with the positions of their channels, and the result of `system()`. -/
def postRecords (accessCode : Str) (replies : Nat → Reply) :
    Record → Nat → List RootNode → List (Nat × Record) × Int
  | _, _, [] => ([], exited 0)
  | r, i, channel :: rest =>
      match fill accessCode channel r with
      | none => ([], exited 1)
      | some r =>
          match replies i with
          | .accepted =>
              let (posted, rc) := postRecords accessCode replies r (i + 1) rest
              ((i, r) :: posted, rc)
          | .refused => ([(i, r)], exited 1)
          | .unreachable => ([], exited 1)
          | .died posted rc => (if posted then [(i, r)] else [], rc)

/-- What the channel alone makes of the record. -/
def recordOf (accessCode : Str) (channel : RootNode) : Record := fun e =>
  match assignments.lookup e with
  | some f => findText channel f
  | none => textOf accessCode

section Filling

variable {channel : RootNode} {r r' : Record}

private theorem find_isSome_iff (channel : RootNode) (f : ChildField) :
    (find channel f).isSome =
      channel.children.any (fun n => n.isElement && n.name == f.tag) := by
  rw [Bool.eq_iff_iff, find, List.find?_isSome, List.any_eq_true]
  rfl

private theorem assign_lookup {as : List (Element × ChildField)} (nodup : (as.map Prod.fst).Nodup)
    (h : assign channel as r = some r') (e : Element) :
    r' e = match as.lookup e with
      | some f => findText channel f
      | none => r e := by
  induction as generalizing r with
  | nil =>
      obtain rfl := Option.some.inj h
      rfl
  | cons a as ih =>
      obtain ⟨e', f⟩ := a
      obtain ⟨n, hn, hrest⟩ := Option.bind_eq_some_iff.mp h
      have hnot : e' ∉ as.map Prod.fst := (List.nodup_cons.mp nodup).1
      rw [ih (List.nodup_cons.mp nodup).2 hrest]
      by_cases he : e = e'
      · subst he
        have hnone : as.lookup e = none := by
          rw [List.lookup_eq_none_iff]
          intro q hq
          simp only [bne_iff_ne, ne_eq]
          rintro heq
          exact hnot (heq ▸ List.mem_map_of_mem hq)
        simp [hnone, findText, hn]
      · have hbeq : (e == e') = false := beq_eq_false_iff_ne.mpr he
        simp [List.lookup_cons, hbeq, Function.update_of_ne he]

private theorem assign_isSome (as : List (Element × ChildField)) (r : Record) :
    (assign channel as r).isSome = as.all (fun a => (find channel a.2).isSome) := by
  induction as generalizing r with
  | nil => rfl
  | cons a as ih =>
      rw [assign, List.all_cons]
      cases find channel a.2 with
      | none => rfl
      | some n => rw [Option.bind_some, ih, Option.isSome_some, Bool.true_and]

private theorem fill_isSome (accessCode : Str) (channel : RootNode) (r : Record) :
    (fill accessCode channel r).isSome = completeRecord channel := by
  have hfields : completeRecord channel =
      recordFields.all (fun f => (find channel f).isSome) := by
    rw [completeRecord]
    exact congrArg recordFields.all (funext fun f => (find_isSome_iff channel f).symm)
  rw [hfields, fill]
  cases hcall : find channel .callsign with
  | none => simp [recordFields, hcall]
  | some n =>
      rw [Option.bind_some, Option.isSome_map, assign_isSome]
      simp [assignments, recordFields, hcall]

private theorem fill_eq {accessCode : Str} (h : fill accessCode channel r = some r') :
    r' = recordOf accessCode channel := by
  obtain ⟨n, -, hmap⟩ := Option.bind_eq_some_iff.mp h
  obtain ⟨r₁, hassign, rfl⟩ := Option.map_eq_some_iff.mp hmap
  funext e
  have hlookup := assign_lookup (by decide) hassign e
  by_cases he : e = .key
  · subst he
    rw [Function.update_self]
    rfl
  · rw [Function.update_of_ne he, hlookup, recordOf]
    cases e with
    | key => exact absurd rfl he
    | _ => rfl

end Filling

private theorem postRecords_eq (accessCode : Str) (replies : Nat → Reply) (r : Record) (i : Nat)
    (channels : List RootNode) :
    postRecords accessCode replies r i channels =
      (((channels.zipIdx i).take (postChannels replies i channels).1.length).map
        (fun p => (p.2, recordOf accessCode p.1)), (postChannels replies i channels).2) := by
  induction channels generalizing r i with
  | nil => rfl
  | cons channel rest ih =>
      have hcomplete := fill_isSome accessCode channel r
      cases hfill : fill accessCode channel r with
      | none =>
          rw [hfill, Option.isSome_none] at hcomplete
          simp [postRecords, postChannels, hfill, ← hcomplete]
      | some r' =>
          rw [hfill, Option.isSome_some] at hcomplete
          obtain rfl := fill_eq hfill
          cases hreply : replies i with
          | accepted =>
              simp [postRecords, postChannels, hfill, ← hcomplete, hreply, ih, List.zipIdx_cons]
          | refused =>
              simp [postRecords, postChannels, hfill, ← hcomplete, hreply, List.zipIdx_cons]
          | unreachable => simp [postRecords, postChannels, hfill, ← hcomplete, hreply]
          | died posted rc =>
              cases posted with
              | true =>
                  simp [postRecords, postChannels, hfill, ← hcomplete, hreply, List.zipIdx_cons]
              | false => simp [postRecords, postChannels, hfill, ← hcomplete, hreply]

/-- The loop posts for the same channels and ends with the same result as if it had no
tree, and each record that goes out is its own channel's: of the channels before it
nothing is left. -/
theorem posted_records (accessCode : Str) (replies : Nat → Reply) (channels : List RootNode) :
    (postRecords accessCode replies channelAdd 0 channels).1.map Prod.fst =
        (postChannels replies 0 channels).1 ∧
      (postRecords accessCode replies channelAdd 0 channels).2 =
        (postChannels replies 0 channels).2 ∧
      ∀ i r, (i, r) ∈ (postRecords accessCode replies channelAdd 0 channels).1 →
        ∃ channel, channels[i]? = some channel ∧ completeRecord channel = true ∧
          r = recordOf accessCode channel := by
  obtain ⟨n, hn, hposted⟩ := Posting.postChannels_posted replies 0 channels
  have hle : n ≤ channels.length := by
    by_contra hlt
    obtain ⟨c, hc, -⟩ := hn.complete channels.length (by omega)
    rw [List.getElem?_eq_none (Nat.le_refl _)] at hc
    cases hc
  rw [postRecords_eq, hposted, List.length_range']
  refine ⟨?_, rfl, fun i r hmem => ?_⟩
  · rw [List.map_map]
    change ((channels.zipIdx).take n).map Prod.snd = List.range' 0 n
    rw [List.map_take, List.zipIdx_map_snd, List.take_range'_of_length_ge hle]
  · obtain ⟨p, hp, heq⟩ := List.mem_map.mp hmem
    obtain ⟨rfl, rfl⟩ := Prod.mk.inj heq
    have hsame := List.mem_zipIdx_iff_getElem?.mp (List.mem_of_mem_take hp)
    refine ⟨p.1, hsame, ?_, rfl⟩
    have hlt : p.2 < n := by
      have hnumber : p.2 ∈ ((channels.zipIdx).take n).map Prod.snd := List.mem_map_of_mem hp
      rw [List.map_take, List.zipIdx_map_snd, List.take_range'_of_length_ge hle,
        List.mem_range'_1] at hnumber
      omega
    obtain ⟨c, hc, hcomplete⟩ := hn.complete p.2 hlt
    obtain rfl := Option.some.inj (hsame.symm.trans hc)
    exact hcomplete

section Agreement

private def element (name content : String) : ChildNode := ⟨true, lit name, lit content⟩

private def listedChannel : RootNode where
  isElement := true
  name := lit "channel"
  props := [(lit "name", lit "vhf"), (lit "type", lit "ax25"), (lit "active", lit "yes")]
  children :=
    [element "basecall" "W1AW", element "callsign" " W1AW-10 ", element "frequency" "145050000",
      element "gridsquare" "FN31pr", element "mode" "0", element "baud" "1200",
      element "power" "25", element "height" "10", element "gain" "3", element "direction" "0",
      element "hours" "00-23", element "servicecode" "PUBLIC", element "statuschecker" "check"]

private def listing : XmlDoc := ⟨lit "rmschannels", [listedChannel]⟩

end Agreement

end Rmsgw.Aci.Records
