/- The CMS host table: reading the host file line by line, and the list of hosts
   in the order in which they are to be tried. -/

import Rmsgw.StatFile

set_option autoImplicit false
set_option relaxedAutoImplicit false

namespace Rmsgw.Hosts.Model

open Rmsgw.Lib.CStrings Rmsgw.Rms Rmsgw.StatFile

/-- Size of the buffer for reading the host file. -/
def cbufSize : Nat := 2048

structure Cms where
  host : Str
  port : Int
  passwd : Str
  deriving DecidableEq

structure CmsNode where
  host : Str
  port : Int
  passwd : Str
  statTime : Int
  deriving DecidableEq

/-- What one fgets() brings: it leaves room for the terminator. -/
structure Piece where
  bytes : Str
  fits : bytes.length < cbufSize
  deriving DecidableEq

/-- What the successive calls of `fgets(cbuf, sizeof(cbuf), cmsfp)` bring, with
`cur` read so far. -/
def fgetsAll (cur : { l : Str // l.length + 1 < cbufSize }) : Str → List Piece
  | [] => if cur.val = [] then [] else [⟨cur.val, Nat.lt_of_succ_lt cur.property⟩]
  | b :: rest =>
      have fits : (cur.val ++ [b]).length < cbufSize := by
        simpa using cur.property
      if b = 10 then ⟨cur.val ++ [b], fits⟩ :: fgetsAll ⟨[], by decide⟩ rest
      else if more : (cur.val ++ [b]).length + 1 < cbufSize then
        fgetsAll ⟨cur.val ++ [b], more⟩ rest
      else ⟨cur.val ++ [b], fits⟩ :: fgetsAll ⟨[], by decide⟩ rest

theorem fgetsAll_skip (cur : { l : Str // l.length + 1 < cbufSize }) {bs : Str}
    (hbs : (10 : UInt8) ∉ bs) (rest : Str) (hfits : (cur.val ++ bs).length + 1 < cbufSize) :
    fgetsAll cur (bs ++ rest) = fgetsAll ⟨cur.val ++ bs, hfits⟩ rest := by
  induction bs generalizing cur with
  | nil => simp
  | cons b bs ih =>
      have hb : b ≠ 10 := fun h => hbs (h ▸ List.mem_cons_self)
      have hmore : (cur.val ++ [b]).length + 1 < cbufSize := by
        simp only [List.length_append, List.length_cons, List.length_nil] at hfits ⊢
        omega
      have hnext := ih ⟨cur.val ++ [b], hmore⟩ (fun h => hbs (List.mem_cons_of_mem b h))
        (by simpa using hfits)
      simp only [List.cons_append, fgetsAll, hb, if_false, dif_pos hmore]
      rw [hnext]
      simp

theorem fgetsAll_line (cur : { l : Str // l.length + 1 < cbufSize }) {body : Str}
    (hbody : (10 : UInt8) ∉ body) (file : Str)
    (hfits : (cur.val ++ (body ++ [10])).length < cbufSize) :
    fgetsAll cur ((body ++ [10]) ++ file) =
      ⟨cur.val ++ (body ++ [10]), hfits⟩ :: fgetsAll ⟨[], by decide⟩ file := by
  have hskip : (cur.val ++ body).length + 1 < cbufSize := by
    simpa [Nat.add_assoc] using hfits
  rw [List.append_assoc, fgetsAll_skip cur hbody _ hskip]
  simp [fgetsAll]

/-- Where a scan that starts at `p` stops. -/
def scanTo (buf : Str) (p : Nat) (stop : UInt8 → Bool) : Nat :=
  p + ((buf.drop p).takeWhile (fun c => !stop c)).length

/-- `*p == '\0' || *p == ':'`. -/
def atColon (c : UInt8) : Bool := c == 0 || c == 58

/-- `*p == '\0' || *p == ':' || *p == '\n'`. -/
def atColonOrEol (c : UInt8) : Bool := c == 0 || c == 58 || c == 10

def inBuffer (i : Nat) : Except Fault Unit :=
  if i < cbufSize then .ok () else .error .bufferOverflow

/-- Split the line in the buffer into its three fields, in place: the entry and
the buffer with the terminators stored. The host name starts the buffer, blanks
in front of it included. -/
def parseFields (buf : CArray cbufSize) (start : Nat) : Except Fault (Cms × CArray cbufSize) :=
  let colon := scanTo buf.bytes start atColon
  (inBuffer colon).bind fun _ =>
  let bytes := buf.bytes.set colon 0
  (inBuffer (colon + 1)).bind fun _ =>
  let port := atoi (text (bytes.drop (colon + 1)))
  let colon' := scanTo bytes (colon + 1) atColon
  (inBuffer colon').bind fun _ =>
  let bytes := bytes.set colon' 0
  (inBuffer (colon' + 1)).bind fun _ =>
  let eol := scanTo bytes (colon' + 1) atColonOrEol
  (inBuffer eol).bind fun _ =>
  let bytes := bytes.set eol 0
  .ok (⟨text bytes, port, text (bytes.drop (colon' + 1))⟩,
    ⟨(((buf.bytes.set colon 0).set colon' 0).set eol 0), by simp [buf.length_bytes]⟩)

/-- The line in the buffer: skipped if it is a comment or empty, else parsed. -/
def parseLine (buf : CArray cbufSize) : Except Fault (Option (Cms × CArray cbufSize)) :=
  if buf.bytes.head? = some 35 then .ok none
  else
    let start := scanTo buf.bytes 0 (fun c => !isspace c)
    if cbufSize ≤ start ∨ buf.bytes[start]? = some 0 ∨ buf.bytes[start]? = some 10 then .ok none
    else (parseFields buf start).map some

/-- The buffer after fgets() has stored a piece and its terminator. -/
def store (buf : CArray cbufSize) (piece : Piece) : CArray cbufSize :=
  buf.overwrite (piece.bytes ++ [0]) (by simpa using Nat.succ_le_of_lt piece.fits)

/-- The entries that successive calls of getcmsent() return until the first NULL. -/
def getcmsents (buf : CArray cbufSize) : List Piece → Except Fault (List Cms)
  | [] => .ok []
  | piece :: rest =>
      (parseLine (store buf piece)).bind fun parsed =>
      match parsed with
      | none => getcmsents (store buf piece) rest
      | some (c, buf) => (getcmsents buf rest).map (fun cs => c :: cs)

/-- The entries of a host file, none if it cannot be opened. -/
def hostEntries : Option Str → Except Fault (List Cms)
  | none => .ok []
  | some file => getcmsents (CArray.zero cbufSize) (fgetsAll ⟨[], by decide⟩ file)

/-- A host, a port outside the well-known range and a password. -/
def accepted (c : Cms) : Bool :=
  1 ≤ c.host.length && (1024 ≤ c.port && c.port ≤ 65535) && 1 ≤ c.passwd.length

def cmsStatFile (host : Str) : Str := statPath cmsStatDir host

/-- Add an entry with its status time to the list, behind the last node that is
not later; without memory for the node the list is given up. -/
def addcmsnode (alloc : Bool) (clist : List CmsNode) (c : Cms) (stime : Int) : List CmsNode :=
  if alloc then insert ⟨c.host, c.port, c.passwd, stime⟩ clist else []
where
  insert (t : CmsNode) : List CmsNode → List CmsNode
    | [] => [t]
    | p :: rest => if p.statTime ≤ t.statTime then p :: insert t rest else t :: p :: rest

def addEntry (fs : Files) (alloc : Cms → Bool) (cmslist : List CmsNode) (c : Cms) : List CmsNode :=
  if accepted c then
    match fs (cmsStatFile c.host) with
    | .absent => addcmsnode (alloc c) cmslist c 0
    | .unreadable => cmslist
    | .times atime _ => addcmsnode (alloc c) cmslist c atime
  else cmslist

/-- The list of CMS hosts, least recently tried first. -/
def getcmslist (cmsfile : Option Str) (fs : Files) (alloc : Cms → Bool) :
    Except Fault (List CmsNode) :=
  (hostEntries cmsfile).map (fun cs => cs.foldl (addEntry fs alloc) [])

def setcmsstat (fs : Files) (node : CmsNode) (now : Int) (r : TouchResult) : Files × Int :=
  setstatfile fs (cmsStatFile node.host) now r

end Rmsgw.Hosts.Model
