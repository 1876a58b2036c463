/- gateway.conf and its readers: loadConfig() of the gateway, and the updater scripts from
   their loading loop on to the callsign. -/

import Rmsgw.Hosts.Model
import Rmsgw.Lib.Utf8

set_option autoImplicit false
set_option relaxedAutoImplicit false

namespace Rmsgw.Conf.Model

open Rmsgw.Lib.CStrings Rmsgw.Lib.Utf8 Rmsgw.Hosts.Model Rmsgw.Rms

/-- Map error codes of fmapname(). -/
inductive MapError
  | mapOpen | noMem | notFound
  deriving DecidableEq

/-- Error codes of loadConfig(). -/
inductive CfgError
  | mapError | invalidCall | missingCall
  deriving DecidableEq

structure Config where
  gwcall : Str
  channelfile : Option Str
  gridsquare : Option Str
  bannerfile : Option Str
  logfacility : Option Str
  logmask : Option Str
  python : Option Str
  versionupd : Option Str
  channelupd : Option Str
  rmsgwenv : Option Str
  rmsgwacienv : Option Str
  hookdir : Option Str
  deriving DecidableEq

def hookDir : Str := lit "/etc/rmsgw/hooks"

/-- The logical names, in the order of the pointers that take their values. -/
def logicals : List Str :=
  [lit "GWCALL", lit "CHANNELFILE", lit "GRIDSQUARE", lit "BANNERFILE", lit "LOGFACILITY",
    lit "LOGMASK", lit "PYTHON", lit "VERSIONUPD", lit "CHANNELUPD", lit "RMSGWENV",
    lit "RMSGWACIENV", lit "HOOKDIR"]

/-- fgets with trailing newline dropped: what stands in the buffer. -/
def fgetline (buf : Str) : Str :=
  let s := text buf
  if s.getLast? = some 10 then s.dropLast else s

/-- `strtrim(entrybuf, entrybuf, " \t", 1)`. -/
def strtrim (entry : Str) : Str := entry.rdropWhile (fun c => decide (c ∈ lit " \t"))

/-- The first entry that starts with the logical name and '=', behind these. -/
def mapEntry (entries : List Str) (logical : Str) : Option Str :=
  let namebuf := (logical ++ lit "=").take 255
  entries.findSome? (fun entry =>
    if strnequal namebuf entry namebuf.length then some (entry.drop namebuf.length) else none)

/-- `strdup` says for which strings there is storage. -/
def mapLogicals (failOnNotFound : Bool) (strdup : Str → Bool) (entries : List Str) :
    List Str → Except MapError (List (Option Str))
  | [] => .ok []
  | logical :: rest =>
      match mapEntry entries logical with
      | some physical =>
          if strdup physical then
            (mapLogicals failOnNotFound strdup entries rest).map (fun ps => some physical :: ps)
          else .error .noMem
      | none =>
          if failOnNotFound then .error .notFound
          else (mapLogicals failOnNotFound strdup entries rest).map (fun ps => none :: ps)

theorem nothing_read : ([] : Str).length + 1 < cbufSize := by decide

/-- The map file is read from its start for each logical name; `none` is a file
that cannot be opened. -/
def fmapname (failOnNotFound : Bool) (strdup : Str → Bool) (mapfile : Option Str)
    (logical : List Str) : Except MapError (List (Option Str)) :=
  match mapfile with
  | none => .error .mapOpen
  | some file =>
      mapLogicals failOnNotFound strdup
        ((fgetsAll ⟨[], nothing_read⟩ file).map (fun piece => strtrim (fgetline piece.bytes))) logical

def upcase (s : Str) : Str := s.map toupper

def loadConfig (strdup : Str → Bool) (cfgfile : Option Str) : Except CfgError Config :=
  match fmapname false strdup cfgfile logicals with
  | .error _ => .error .mapError
  | .ok physicals =>
      match physicals[0]?.join with
      | none => .error .missingCall
      | some gwcall =>
          if maxGwCall < gwcall.length then .error .invalidCall
          else .ok {
            gwcall := upcase gwcall
            channelfile := physicals[1]?.join
            gridsquare := physicals[2]?.join
            bannerfile := physicals[3]?.join
            logfacility := physicals[4]?.join
            logmask := physicals[5]?.join
            python := physicals[6]?.join
            versionupd := physicals[7]?.join
            channelupd := physicals[8]?.join
            rmsgwenv := physicals[9]?.join
            rmsgwacienv := physicals[10]?.join
            hookdir := match physicals[11]?.join with
              | some hookdir => some hookdir
              | none => if strdup hookDir then some hookDir else none }

/-- The GWCALL value that loadConfig() obtains. -/
def configGwcall : Except CfgError Config → Option Str
  | .ok conf => some conf.gwcall
  | .error _ => none

/-- The lines of a text with their newlines, with `cur` read so far. -/
def linesFrom (cur : List Char) : List Char → List (List Char)
  | [] => if cur = [] then [] else [cur]
  | c :: rest =>
      if c = '\n' then (cur ++ [c]) :: linesFrom [] rest else linesFrom (cur ++ [c]) rest

/-- What open() in text mode makes of line ends. -/
def universalNewlines : List Char → List Char
  | [] => []
  | '\r' :: '\n' :: rest => '\n' :: universalNewlines rest
  | '\r' :: rest => '\n' :: universalNewlines rest
  | c :: rest => c :: universalNewlines rest

/-- `for line in gwfile`. -/
def scriptLines (t : List Char) : List (List Char) := linesFrom [] (universalNewlines t)

/-- White space as `str.isspace()` has it. -/
def isSpace (c : Char) : Bool :=
  let n := c.toNat
  (9 ≤ n && n ≤ 13) || (28 ≤ n && n ≤ 32) || n == 133 || n == 160 || n == 5760 ||
    (8192 ≤ n && n ≤ 8202) || n == 8232 || n == 8233 || n == 8239 || n == 8287 || n == 12288

def strip (s : List Char) : List Char := (s.dropWhile isSpace).rdropWhile isSpace

/-- `line.strip().startswith('#')`. -/
def isComment (line : List Char) : Bool := (strip line).head? == some '#'

/-- `line.partition("=")[::2]`. -/
def partition (line : List Char) : List Char × List Char :=
  (line.takeWhile (fun c => c != '='), (line.dropWhile (fun c => c != '=')).drop 1)

/-- One turn of the loading loop on the dictionary. -/
def loadLine (d : List Char → Option (List Char)) (line : List Char) :
    List Char → Option (List Char) :=
  if isComment line then d
  else fun key =>
    if key = strip (partition line).1 then some (strip (partition line).2) else d key

/-- The dictionary gw_config. -/
def gwConfig (t : List Char) : List Char → Option (List Char) :=
  (scriptLines t).foldl loadLine (fun _ => none)

/-- What ends a script ahead of its callsign: a key that gw_config does not have, or a
function where a number has to be. -/
inductive ScriptError
  | keyError (key : List Char)
  | typeError
  deriving DecidableEq

/-- The names of the module syslog that start with "LOG_" and are functions; all others are
numbers. -/
def syslogFunctions : List (List Char) := ["LOG_MASK".toList, "LOG_UPTO".toList]

/-- `getattr(syslog, 'LOG_' + val.upper(), ...)` is a number, for which the default is one, too;
`upper` is what `str.upper()` makes of one character. -/
def isLogNumber (upper : Char → List Char) (val : List Char) : Bool :=
  decide ("LOG_".toList ++ val.flatMap upper ∉ syslogFunctions)

/-- `syslog.openlog()` and `syslog.setlogmask()`, which take numbers. -/
def setupSyslog (upper : Char → List Char) (facility mask : List Char) :
    Except ScriptError Unit :=
  if isLogNumber upper facility ∧ isLogNumber upper mask then .ok () else .error .typeError

/-- `gw_config['GWCALL'].upper()`, if there is one. -/
def gwcallUpper (upper : Char → List Char) (d : List Char → Option (List Char)) :
    Option (List Char) :=
  (d "GWCALL".toList).map (fun val => val.flatMap upper)

/-- `d[key]`. -/
def item (d : List Char → Option (List Char)) (key : List Char) :
    Except ScriptError (List Char) :=
  match d key with
  | none => .error (.keyError key)
  | some val => .ok val

/-- The GWCALL value of updatechannel.py. -/
def updatechannelGwcall (upper : Char → List Char) (t : List Char) :
    Except ScriptError (Option (List Char)) := do
  let facility ← item (gwConfig t) "LOGFACILITY".toList
  let mask ← item (gwConfig t) "LOGMASK".toList
  setupSyslog upper facility mask
  .ok (gwcallUpper upper (gwConfig t))

/-- The GWCALL value of updateversion.py. -/
def updateversionGwcall (upper : Char → List Char) (t : List Char) :
    Except ScriptError (Option (List Char)) := do
  let facility := (gwConfig t "LOGFACILITY".toList).getD "USER".toList
  let mask := (gwConfig t "LOGMASK".toList).getD "INFO".toList
  setupSyslog upper facility mask
  .ok (gwcallUpper upper (gwConfig t))

/-- The value that a script comes to. -/
def obtained : Except ScriptError (Option (List Char)) → Option (List Char)
  | .ok gwcall => gwcall
  | .error _ => none

end Rmsgw.Conf.Model
