/- The channel reader: nextent() and its callers over the tree that the XML
   parser returns, with the static structure they fill in field by field. -/

import Rmsgw.Rms
import Mathlib.Data.List.DropRight

set_option autoImplicit false
set_option relaxedAutoImplicit false

namespace Rmsgw.Channels.Model

open Rmsgw.Lib.CStrings Rmsgw.Rms

/-- A child of a channel element: its name and its text content. -/
structure ChildNode where
  isElement : Bool
  name : Str
  content : Str
  deriving DecidableEq

structure RootNode where
  isElement : Bool
  name : Str
  props : List (Str × Str)
  children : List ChildNode
  deriving DecidableEq

structure XmlDoc where
  rootName : Str
  children : List RootNode
  deriving DecidableEq

/-- The elements that make up a channel. -/
inductive ChildField
  | basecall | callsign | password | gridsquare | frequency | mode | autoonly | baud | power
  | height | gain | direction | hours | groupreference | servicecode | statuschecker
  deriving DecidableEq

namespace ChildField

def tag : ChildField → Str
  | basecall => lit "basecall"
  | callsign => lit "callsign"
  | password => lit "password"
  | gridsquare => lit "gridsquare"
  | frequency => lit "frequency"
  | mode => lit "mode"
  | autoonly => lit "autoonly"
  | baud => lit "baud"
  | power => lit "power"
  | height => lit "height"
  | gain => lit "gain"
  | direction => lit "direction"
  | hours => lit "hours"
  | groupreference => lit "groupreference"
  | servicecode => lit "servicecode"
  | statuschecker => lit "statuschecker"

/-- The fields in the order in which nextent() compares their names. -/
def all : List ChildField :=
  [basecall, callsign, password, gridsquare, frequency, mode, autoonly, baud, power, height, gain,
    direction, hours, groupreference, servicecode, statuschecker]

def ofName (name : Str) : Option ChildField := all.find? (fun f => f.tag == name)

@[simp] theorem ofName_tag (f : ChildField) : ofName f.tag = some f := by cases f <;> decide

theorem tag_injective {f g : ChildField} (h : f.tag = g.tag) : f = g :=
  Option.some.inj ((ofName_tag f).symm.trans ((congrArg ofName h).trans (ofName_tag g)))

theorem ofName_eq_some {name : Str} {f : ChildField} : ofName name = some f ↔ name = f.tag := by
  constructor
  · intro h
    have hbeq := List.find?_some (p := fun g : ChildField => g.tag == name) h
    exact (beq_iff_eq.mp hbeq).symm
  · rintro rfl
    exact ofName_tag f

end ChildField

/-- The structure that nextent() fills in; a missing value is NULL. -/
@[ext] structure Channel where
  chName : Option Str
  chType : Option Str
  chActive : Option Str
  child : ChildField → Option Str

/-- The static structure before the first entry is read. -/
def Channel.cleared : Channel := ⟨none, none, none, fun _ => none⟩

def Channel.set (c : Channel) (f : ChildField) (v : Option Str) : Channel :=
  { c with child := fun g => if g = f then v else c.child g }

@[simp] theorem Channel.set_child (c : Channel) (f g : ChildField) (v : Option Str) :
    (c.set f v).child g = if g = f then v else c.child g := rfl

/-- A symbol table, the newest entry first. -/
abbrev SymTab := List (Str × Str)

def symLookup (symtab : SymTab) (s : Str) : Option Str :=
  (symtab.find? (fun e => e.1 == s)).map Prod.snd

def symAdd (symtab : SymTab) (s v : Str) : SymTab := if s = [] then symtab else (s, v) :: symtab

/-- Size of the buffer that a text is trimmed and substituted in. -/
def bigBuf : Nat := 2048

/-- Size of the buffer that a variable name is collected in. -/
def vbufSize : Nat := 256

/-- The characters " \t\n". -/
def isBlank (c : UInt8) : Bool := c == 32 || c == 9 || c == 10

/-- `strtrim(cbuf, content, " \t\n", 0)`: everything behind the leading blanks is
copied before the trailing ones are cut off. -/
def strtrim (content : Str) : Except Fault Str :=
  let copied := content.dropWhile isBlank
  let trimmed := copied.rdropWhile isBlank
  if copied.length ≤ bigBuf ∧ trimmed.length < bigBuf then .ok trimmed else .error .bufferOverflow

/-- What varsubst() is doing with the next character. -/
inductive SubstMode
  | copy
  | escaped
  | variable (name : Str)
  deriving DecidableEq

/-- Append to the copy buffer, which must keep room for a terminator. -/
def put (out more : Str) : Except Fault Str :=
  if out.length + more.length < bigBuf then .ok (out ++ more) else .error .bufferOverflow

def putVariable (symtab : SymTab) (out name : Str) : Except Fault Str :=
  if name.length < vbufSize then put out ((symLookup symtab name).getD [])
  else .error .bufferOverflow

/-- The loop of varsubst(); the empty rest is the terminator. -/
def substLoop (symtab : SymTab) : SubstMode → Str → Str → Except Fault Str
  | .variable name, out, [] => putVariable symtab out name
  | .copy, out, [] => put out []
  | .escaped, out, [] => put out []
  | .escaped, out, c :: rest => (put out [c]).bind (fun out => substLoop symtab .copy out rest)
  | .variable name, out, c :: rest =>
      if isalnum c || c == 95 || c == 36 then
        if name.length + 1 < vbufSize then substLoop symtab (.variable (name ++ [c])) out rest
        else .error .bufferOverflow
      else
        (putVariable symtab out name).bind (fun out =>
          (put out [c]).bind (fun out => substLoop symtab .copy out rest))
  | .copy, out, c :: rest =>
      if c = 92 then substLoop symtab .escaped out rest
      else if c = 36 then substLoop symtab (.variable []) out rest
      else (put out [c]).bind (fun out => substLoop symtab .copy out rest)

def varsubst (symtab : SymTab) (rbuf : Str) : Except Fault Str := substLoop symtab .copy [] rbuf

def xmlGetProp (node : RootNode) (name : Str) : Option Str :=
  (node.props.find? (fun p => p.1 == name)).map Prod.snd

def symAddProp (symtab : SymTab) (s : Str) : Option Str → SymTab
  | some v => symAdd symtab s v
  | none => symtab

def propSymbols (node : RootNode) : SymTab :=
  symAddProp (symAddProp (symAddProp [] (lit "name") (xmlGetProp node (lit "name")))
    (lit "type") (xmlGetProp node (lit "type"))) (lit "active") (xmlGetProp node (lit "active"))

/-- The value stored for a field: a service code is cut to its maximum length. -/
def storedText (f : ChildField) (content : Str) : Str :=
  if f = .servicecode then content.take maxServiceCode else content

def readChild (st : Channel × SymTab) (n : ChildNode) : Except Fault (Channel × SymTab) :=
  if n.isElement then
    (strtrim n.content).bind (fun content =>
      let symtab := symAdd st.2 n.name content
      match ChildField.ofName n.name with
      | some f => .ok (st.1.set f (some (storedText f content)), symtab)
      | none => .ok (st.1, symtab))
  else .ok st

def readChildren : Channel × SymTab → List ChildNode → Except Fault (Channel × SymTab)
  | st, [] => .ok st
  | st, n :: ns => (readChild st n).bind (fun st => readChildren st ns)

/-- The static structure with the attributes of a channel node. -/
def readProps (curent : Channel) (node : RootNode) : Channel :=
  { curent with
    chName := xmlGetProp node (lit "name")
    chType := xmlGetProp node (lit "type")
    chActive := xmlGetProp node (lit "active") }

/-- Substitute in whatever the static structure has for a status checker. -/
def substChecker (st : Channel × SymTab) : Except Fault Channel :=
  match st.1.child .statuschecker with
  | none => .error .nullDeref
  | some raw => (varsubst st.2 raw).map (fun text => st.1.set .statuschecker (some text))

/-- Fill the static structure from a channel node. -/
def readEntry (curent : Channel) (node : RootNode) : Except Fault Channel :=
  (readChildren (readProps curent node, propSymbols node) node.children).bind substChecker

/-- The static data of the reader. The cursor is the rest of the root's children
from `cur_node` on, empty for NULL; `chanfile` is what parsing the file now gives. -/
structure Reader where
  chanfile : Option XmlDoc
  doc : Option XmlDoc
  curNode : List RootNode
  curent : Channel

def Reader.start (chanfile : Option XmlDoc) : Reader := ⟨chanfile, none, [], .cleared⟩

/-- Start or restart the XML parser for the channel file. -/
def setchanent (r : Reader) : Bool × Reader :=
  let r := if r.doc.isSome then { r with doc := none, curNode := [] } else r
  match r.chanfile with
  | none => (false, r)
  | some d =>
      if d.rootName = lit "rmschannels" then (true, { r with doc := some d })
      else (false, { r with doc := none, curNode := [] })

/-- A document to read from, parsed now if there is none yet. -/
def openDoc (r : Reader) : Option (XmlDoc × Reader) :=
  match r.doc with
  | some d => some (d, r)
  | none =>
      match setchanent r with
      | (true, r) => r.doc.map (fun d => (d, r))
      | (false, _) => none

def isChannel (node : RootNode) : Bool := node.isElement && node.name == lit "channel"

/-- The cursor on the next channel node. -/
def seekChannel (root cur : List RootNode) : List RootNode :=
  (match cur with
    | [] => root
    | _ :: rest => rest).dropWhile (fun node => !isChannel node)

/-- Read and parse the next entry: `true` if one was read. -/
def nextent (r : Reader) : Except Fault (Bool × Reader) :=
  match openDoc r with
  | none => .ok (false, (setchanent r).2)
  | some (d, r) =>
      match seekChannel d.children r.curNode with
      | [] => .ok (false, { r with curNode := [] })
      | node :: rest =>
          (readEntry r.curent node).map
            (fun c => (true, { r with curNode := node :: rest, curent := c }))

def endchanent (r : Reader) : Reader :=
  if r.doc.isSome then { r with doc := none, curNode := [] } else r

/-- The next channel entry, NULL at the end. -/
def getchanent (r : Reader) : Except Fault (Option Channel × Reader) :=
  match openDoc r with
  | none => .ok (none, (setchanent r).2)
  | some (_, r) => (nextent r).map (fun (found, r) => (if found then some r.curent else none, r))

/-- `!strncmp(ch_name, chname, strlen(chname)) && !strncasecmp(ch_callsign, callsign, ..)`. -/
def matchesName (chname callsign : Str) (c : Channel) : Except Fault Bool :=
  match c.chName with
  | none => .error .nullDeref
  | some name =>
      if strnequal name chname chname.length then
        match c.child .callsign with
        | none => .error .nullDeref
        | some call =>
            .ok (strcaseequal (call.take callsign.length) (callsign.take callsign.length))
      else .ok false

/-- The search loop of getchannam(); every round moves the cursor on. -/
def findChannel (chname callsign : Str) : Nat → Reader → Except Fault (Option Channel × Reader)
  | 0, r => .ok (none, r)
  | fuel + 1, r =>
      (nextent r).bind (fun (found, r) =>
        if found then
          (matchesName chname callsign r.curent).bind (fun hit =>
            if hit then .ok (some r.curent, r) else findChannel chname callsign fuel r)
        else .ok (none, r))

/-- Search for a channel name and callsign. -/
def getchannam (r : Reader) (chname callsign : Str) : Except Fault (Option Channel × Reader) :=
  match setchanent r with
  | (false, r) => .ok (none, r)
  | (true, r) => findChannel chname callsign ((r.doc.map (·.children.length)).getD 0 + 1) r

/-- The default service code string if none is defined. -/
def dfltServiceCode : Str := lit "PUBLIC"

/-- The caller's default for a channel without a service code. -/
def defaultServicecode (c : Channel) : Channel :=
  match c.child .servicecode with
  | none => c.set .servicecode (some dfltServiceCode)
  | some code => if code = [] then c.set .servicecode (some dfltServiceCode) else c

end Rmsgw.Channels.Model
