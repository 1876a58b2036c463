/- The start of the two programs that take a gateway callsign, from the
   configuration file or from the command line. -/

import Rmsgw.Conf.Settings

set_option autoImplicit false
set_option relaxedAutoImplicit false

namespace Rmsgw.Conf.Startup

open Rmsgw.Lib.CStrings Rmsgw.Hosts.Model Rmsgw.Rms Rmsgw.Conf.Model
open Rmsgw.Conf.Settings (bare bare_append strtrim_eq fgetline_newline fgetline_last entries
  loadConfig_eq described)

/-- What the command line says: gateway callsign, log mask and banner file. -/
structure Args where
  gwcall : Option CString
  logmask : Option CString
  bannerfile : Option CString

/-- Why a program does not start. -/
inductive Refusal
  | config (e : CfgError)
  | unconfigured
  deriving DecidableEq

/-- Functions of the C library that take a string, not NULL. -/
inductive StringFn
  | strcmp | strlen | stat | fopen | atol
  deriving DecidableEq

/-- Why a program does not come to its loop. -/
inductive Halt
  | refused (r : Refusal)
  | noVersion
  | notAttached
  | badUsercall
  | nullPassed (f : StringFn)
  deriving DecidableEq

/-- Give a pointer to a function that takes a string; `none` is NULL. -/
def passTo (f : StringFn) : Option Str → Except Halt Str
  | none => .error (.nullPassed f)
  | some s => .ok s

def downcase (s : Option Str) : Option Str := s.map (fun cs => cs.map tolower)

/-- `prioritynames` of syslog.h. -/
def prioritynames : List (Str × Nat) :=
  [(lit "alert", 1), (lit "crit", 2), (lit "debug", 7), (lit "emerg", 0), (lit "err", 3),
    (lit "error", 3), (lit "info", 6), (lit "none", 16), (lit "notice", 5), (lit "panic", 0),
    (lit "warn", 4), (lit "warning", 4)]

/-- `facilitynames` of syslog.h. -/
def facilitynames : List (Str × Nat) :=
  [(lit "auth", 32), (lit "authpriv", 80), (lit "cron", 72), (lit "daemon", 24), (lit "ftp", 88),
    (lit "kern", 0), (lit "lpr", 48), (lit "mail", 16), (lit "mark", 192), (lit "news", 56),
    (lit "security", 32), (lit "syslog", 40), (lit "user", 8), (lit "uucp", 64),
    (lit "local0", 128), (lit "local1", 136), (lit "local2", 144), (lit "local3", 152),
    (lit "local4", 160), (lit "local5", 168), (lit "local6", 176), (lit "local7", 184)]

/-- Compare with one name after the other; without a match something sensible. -/
def mapName (sensible : Nat) (name : Option Str) : List (Str × Nat) → Except Halt Nat
  | [] => .ok sensible
  | (c_name, c_val) :: more => do
      let s ← passTo .strcmp name
      if c_name = s then .ok c_val else mapName sensible name more

def logInfo : Nat := 6

def logLocal0 : Nat := 128

def mappriority (pri : Option Str) : Except Halt Nat := mapName logInfo pri prioritynames

def mapfacility (facility : Option Str) : Except Halt Nat :=
  mapName logLocal0 facility facilitynames

/-- `LOG_UPTO(pri)`. -/
def logUpto (pri : Nat) : Nat := (1 <<< (pri + 1)) - 1

/-- The programs that take a gateway callsign. -/
inductive Program
  | rmsgw
  | rmsgwAci
  deriving DecidableEq

/-- Replace values by those of the command line; rmsgw_aci has no banner. -/
def override (p : Program) (args : Args) (cfg : Config) : Config :=
  { cfg with
    gwcall := (args.gwcall.map CString.bytes).getD cfg.gwcall
    logmask := (args.logmask.map CString.bytes).or cfg.logmask
    bannerfile := match p with
      | .rmsgw => (args.bannerfile.map CString.bytes).or cfg.bannerfile
      | .rmsgwAci => cfg.bannerfile }

/-- gwinit(), and what main() of rmsgw_aci does in its place; `strdup` says for which strings there
is storage. -/
def configuration (p : Program) (strdup : Str → Bool) (configfile : Option Str) (args : Args) :
    Except Halt Config :=
  ((loadConfig strdup configfile).map (override p args)).mapError (fun e => .refused (.config e))

/-- The log as it is opened again: its facility and mask. -/
structure Log where
  facility : Nat
  mask : Nat

def openlog (cfg : Config) : Except Halt Log := do
  let facility ← mapfacility (downcase cfg.logfacility)
  let pri ← mappriority (downcase cfg.logmask)
  .ok ⟨facility, logUpto pri⟩

/-- The check for an unconfigured gateway. -/
def checkConfigured (cfg : Config) : Except Refusal Config :=
  if cfg.gwcall = lit "N0CALL" then .error .unconfigured else .ok cfg

/-- The configuration that a program goes on with, behind its log. -/
def start (p : Program) (configfile : Option Str) (args : Args) : Except Halt Config := do
  let cfg ← configuration p (fun _ => true) configfile args
  let _ ← openlog cfg
  (checkConfigured cfg).mapError Halt.refused

/-- The callsign in effect, or why the program ends ahead of it. -/
def callInEffect (p : Program) (configfile : Option Str) (args : Args) : Except Halt Str :=
  (start p configfile args).map Config.gwcall

/-- A program that starts has a callsign of one to MAXGWCALL characters in upper case. -/
def Normalised (r : Except Halt Str) : Prop :=
  ∀ call, r = .ok call → call ≠ [] ∧ call.length ≤ maxGwCall ∧ upcase call = call

/-- The file with a line for the gateway callsign in front. -/
def withGwcall (s : CString) (file : Str) : Str := lit "GWCALL=" ++ s.bytes ++ 10 :: file

/-- A callsign from the command line has the effect that it has from the file. -/
def AsFromFile (p : Program) (file : Str) (args : Args) : Prop :=
  ∀ s, args.gwcall = some s →
    callInEffect p (some file) args =
      callInEffect p (some (withGwcall s file)) { args with gwcall := none }

/-- What fmapname() finds for GWCALL. -/
def configured (file : Str) : Option Str := mapEntry (entries file) (lit "GWCALL")

/-- A callsign as it stands behind GWCALL=, normalised already. -/
structure Callsign (s : Str) : Prop where
  some : s ≠ []
  short : s.length ≤ maxGwCall
  upper : upcase s = s
  one_line : (10 : UInt8) ∉ s
  no_blanks : bare s = s

instance (s : Str) : Decidable (Callsign s) :=
  decidable_of_iff (s ≠ [] ∧ s.length ≤ maxGwCall ∧ upcase s = s ∧ (10 : UInt8) ∉ s ∧ bare s = s)
    ⟨fun ⟨h₁, h₂, h₃, h₄, h₅⟩ => ⟨h₁, h₂, h₃, h₄, h₅⟩,
      fun h => ⟨h.some, h.short, h.upper, h.one_line, h.no_blanks⟩⟩

/-- The log can be opened: the file has a facility, and it or the command line a mask. -/
def Logged (file : Str) (args : Args) : Prop :=
  mapEntry (entries file) (lit "LOGFACILITY") ≠ none ∧
    (args.logmask.map CString.bytes).or (mapEntry (entries file) (lit "LOGMASK")) ≠ none

instance (file : Str) (args : Args) : Decidable (Logged file args) :=
  inferInstanceAs (Decidable (_ ∧ _))

/-- Without a callsign on the command line, the one in the file is not empty, or there is no log.
With one, the file has a callsign of its own, and: there is a log, and the one given is normalised
already; or the start ends for want of a log, from the command line and from the file; or both
callsigns of the file are too long. -/
def WellGiven (file : Str) (args : Args) : Prop :=
  match args.gwcall with
  | none => configured file ≠ some [] ∨ ¬ Logged file args
  | some s => ∃ call call', configured file = some call ∧
      configured (withGwcall s file) = some call' ∧
      (call.length ≤ maxGwCall ∧ Logged file args ∧ Callsign s.bytes ∨
        call.length ≤ maxGwCall ∧ ¬ Logged file args ∧
          call'.length ≤ maxGwCall ∧ ¬ Logged (withGwcall s file) args ∨
        maxGwCall < call.length ∧ maxGwCall < call'.length)

section Log

theorem mapName_some (sensible : Nat) (s : Str) (table : List (Str × Nat)) :
    mapName sensible (some s) table =
      .ok (((table.find? (fun entry => decide (entry.1 = s))).map Prod.snd).getD sensible) := by
  induction table with
  | nil => rfl
  | cons entry more ih =>
      by_cases hname : entry.1 = s
      · simp [mapName, passTo, hname, bind, Except.bind]
      · simp [mapName, passTo, hname, bind, Except.bind, ih]

theorem mapName_returns (sensible : Nat) {name : Option Str} (h : name ≠ none)
    (table : List (Str × Nat)) : ∃ v, mapName sensible (downcase name) table = .ok v := by
  obtain ⟨s, rfl⟩ := Option.ne_none_iff_exists'.mp h
  exact ⟨_, mapName_some _ _ _⟩

theorem openlog_returns {cfg : Config} (h : cfg.logfacility ≠ none ∧ cfg.logmask ≠ none) :
    ∃ log, openlog cfg = .ok log := by
  obtain ⟨facility, hfacility⟩ := mapName_returns logLocal0 h.1 facilitynames
  obtain ⟨pri, hpri⟩ := mapName_returns logInfo h.2 prioritynames
  refine ⟨⟨facility, logUpto pri⟩, ?_⟩
  rw [openlog, mapfacility, hfacility, mappriority, hpri]
  rfl

private theorem openlog_fails {cfg : Config} (h : ¬ (cfg.logfacility ≠ none ∧ cfg.logmask ≠ none)) :
    openlog cfg = .error (.nullPassed .strcmp) := by
  by_cases hfacility : cfg.logfacility = none
  · rw [openlog, hfacility]
    rfl
  · have hmask : cfg.logmask = none := by
      by_contra hmask
      exact h ⟨hfacility, hmask⟩
    obtain ⟨facility, hlookup⟩ := mapName_returns logLocal0 hfacility facilitynames
    rw [openlog, mapfacility, hlookup, hmask]
    rfl

end Log

private theorem callInEffect_eq (p : Program) (file : Str) (args : Args) :
    callInEffect p (some file) args =
      match configured file with
      | none => .error (.refused (.config .missingCall))
      | some call =>
          if maxGwCall < call.length then .error (.refused (.config .invalidCall))
          else if ¬ Logged file args then .error (.nullPassed .strcmp)
          else if (args.gwcall.map CString.bytes).getD (upcase call) = lit "N0CALL" then
            .error (.refused .unconfigured)
          else .ok ((args.gwcall.map CString.bytes).getD (upcase call)) := by
  have hload := loadConfig_eq file
  rw [callInEffect, start, configuration, hload, configured]
  cases mapEntry (entries file) (lit "GWCALL") with
  | none => rfl
  | some call =>
      by_cases hlong : maxGwCall < call.length
      · simp only [if_pos hlong]
        rfl
      simp only [if_neg hlong]
      set cfg := override p args (described (mapEntry (entries file)) call)
      change (openlog cfg >>= fun _ => (checkConfigured cfg).mapError Halt.refused).map
        Config.gwcall = _
      by_cases hlog : Logged file args
      · obtain ⟨log, hopen⟩ := @openlog_returns cfg hlog
        rw [hopen, if_neg (not_not.mpr hlog)]
        change ((checkConfigured cfg).mapError Halt.refused).map Config.gwcall = _
        rw [checkConfigured]
        split <;> rename_i hcall
        · exact (if_pos hcall).symm
        · exact (if_neg hcall).symm
      · rw [@openlog_fails cfg hlog, if_pos hlog]
        rfl

private theorem fgetsAll_first (cur : { l : Str // l.length + 1 < cbufSize }) (s file : Str) :
    ∃ piece more front, fgetsAll cur (s ++ 10 :: file) = piece :: more ∧ front <+: s ∧
      (10 : UInt8) ∉ front ∧
      (piece.bytes = cur.val ++ front ++ [10] ∨ piece.bytes = cur.val ++ front) := by
  have fits : ∀ b : UInt8, (cur.val ++ [b]).length < cbufSize := fun b => by
    simpa using cur.property
  induction s generalizing cur with
  | nil =>
      exact ⟨⟨cur.val ++ [10], fits 10⟩, fgetsAll ⟨[], nothing_read⟩ file, [], by simp [fgetsAll],
        List.prefix_refl [], by simp, .inl (by simp)⟩
  | cons b s ih =>
      by_cases hb : b = 10
      · subst hb
        exact ⟨⟨cur.val ++ [10], fits 10⟩, fgetsAll ⟨[], nothing_read⟩ (s ++ 10 :: file), [],
          by simp [fgetsAll], List.nil_prefix, by simp, .inl (by simp)⟩
      by_cases hmore : (cur.val ++ [b]).length + 1 < cbufSize
      · obtain ⟨piece, more, front, hread, hfront, hline, hbytes⟩ :=
          ih ⟨cur.val ++ [b], hmore⟩ fun c => by simpa using hmore
        refine ⟨piece, more, b :: front, ?_, ?_, ?_, ?_⟩
        · simp only [List.cons_append, fgetsAll, hb, if_false, dif_pos hmore, hread]
        · exact (List.cons_prefix_cons.mpr ⟨rfl, hfront⟩)
        · simp [Ne.symm hb, hline]
        · simpa using hbytes
      · refine ⟨⟨cur.val ++ [b], fits b⟩, fgetsAll ⟨[], nothing_read⟩ (s ++ 10 :: file), [b], ?_, ?_,
          by simp [Ne.symm hb], .inr rfl⟩
        · simp only [List.cons_append, fgetsAll, hb, if_false, dif_neg hmore]
        · exact List.cons_prefix_cons.mpr ⟨rfl, List.nil_prefix⟩

private theorem configured_line {file more : Str} {pieces : List Piece} {piece : Piece}
    (hread : fgetsAll ⟨[], nothing_read⟩ file = piece :: pieces)
    (hline : fgetline piece.bytes = lit "GWCALL=" ++ more) : configured file = some (bare more) := by
  have hname : lit "GWCALL=" = lit "GWCALL" ++ lit "=" := by decide
  have hbuf : (lit "GWCALL" ++ lit "=").take 255 = lit "GWCALL" ++ lit "=" := by decide
  have hfirst : strnequal (lit "GWCALL" ++ lit "=") (lit "GWCALL" ++ lit "=" ++ bare more)
      (lit "GWCALL" ++ lit "=").length = true :=
    (strnequal_length _ _).mpr (List.prefix_append _ _)
  rw [configured, entries, hread, List.map_cons, hline, hname, strtrim_eq, bare_append]
  simp only [mapEntry, hbuf, List.findSome?_cons, hfirst, if_true, List.drop_left]

/-- What the file has to say about a callsign written into it: it may be cut at a
newline or at the end of the buffer. -/
private theorem configured_withGwcall (s : CString) (file : Str) :
    ∃ front, configured (withGwcall s file) = some (bare front) ∧ front <+: s.bytes ∧
      (10 : UInt8) ∉ front := by
  have hkey : (10 : UInt8) ∉ lit "GWCALL=" := by decide
  have hskip := fgetsAll_skip ⟨[], nothing_read⟩ hkey (s.bytes ++ 10 :: file) (by decide)
  obtain ⟨piece, more, front, hread, hfront, hline, hbytes⟩ :=
    fgetsAll_first ⟨lit "GWCALL=", by decide⟩ s.bytes file
  have hnul : (0 : UInt8) ∉ lit "GWCALL=" ++ front :=
    List.not_mem_append (by decide) fun hmem => s.noNul (hfront.subset hmem)
  have hline' : (10 : UInt8) ∉ lit "GWCALL=" ++ front := List.not_mem_append hkey hline
  refine ⟨front, @configured_line _ _ more piece ?_ ?_, hfront, hline⟩
  · rw [withGwcall, List.append_assoc]
    exact hskip.trans hread
  · rcases hbytes with hbytes | hbytes
    · rw [hbytes, fgetline_newline hnul]
    · rw [hbytes, fgetline_last hnul hline']

private theorem entries_withGwcall {s : CString} (hline : (10 : UInt8) ∉ s.bytes)
    (hshort : s.bytes.length ≤ maxGwCall) (file : Str) :
    entries (withGwcall s file) = strtrim (lit "GWCALL=" ++ s.bytes) :: entries file := by
  have hbody : (10 : UInt8) ∉ lit "GWCALL=" ++ s.bytes := List.not_mem_append (by decide) hline
  have hnul : (0 : UInt8) ∉ lit "GWCALL=" ++ s.bytes := List.not_mem_append (by decide) s.noNul
  have hlen : (lit "GWCALL=").length = 7 := by decide
  have hfits : (([] : Str) ++ (lit "GWCALL=" ++ s.bytes ++ [10])).length < cbufSize := by
    simp only [List.nil_append, List.length_append, hlen, List.length_singleton, cbufSize, maxGwCall]
      at hshort ⊢
    omega
  have hread := fgetsAll_line ⟨[], nothing_read⟩ hbody file hfits
  rw [List.append_assoc _ [10] file] at hread
  rw [entries, withGwcall]
  refine (congrArg (List.map _) hread).trans ?_
  rw [List.map_cons, entries]
  exact congrArg (fun line => strtrim line :: _) (fgetline_newline hnul)

private theorem mapEntry_bare (name more : Str) (hname : (name ++ lit "=").length ≤ 255)
    (es : List Str) :
    mapEntry (strtrim (name ++ lit "=" ++ more) :: es) name = some (bare more) := by
  have hbuf : (name ++ lit "=").take 255 = name ++ lit "=" := List.take_of_length_le hname
  have hfirst : strnequal (name ++ lit "=") (name ++ lit "=" ++ bare more)
      (name ++ lit "=").length = true :=
    (strnequal_length _ _).mpr (List.prefix_append _ _)
  rw [strtrim_eq, bare_append]
  simp only [mapEntry, hbuf, List.findSome?_cons, hfirst, if_true, List.drop_left]

private theorem configured_withGwcall_short {s : CString} (hline : (10 : UInt8) ∉ s.bytes)
    (hshort : s.bytes.length ≤ maxGwCall) (file : Str) :
    configured (withGwcall s file) = some (bare s.bytes) := by
  rw [configured, entries_withGwcall hline hshort]
  exact mapEntry_bare (lit "GWCALL") s.bytes (by decide) _

private theorem mapEntry_other (more : Str) (name : Str) (es : List Str) :
    mapEntry (strtrim (lit "GWCALL=" ++ more) :: es) (76 :: name) = mapEntry es (76 :: name) := by
  have hkey : lit "GWCALL=" = lit "GWCALL" ++ lit "=" := by decide
  have hother : ∀ (key : Str) (n : Nat),
      strnequal (76 :: key) (lit "GWCALL=" ++ bare more) (n + 1) = false := fun key n => rfl
  rw [strtrim_eq, hkey, bare_append, ← hkey]
  simp only [mapEntry, List.cons_append, List.take_succ_cons, List.length_cons, List.findSome?_cons,
    hother, Bool.false_eq_true, if_false]

private theorem logged_withGwcall {s : CString} (hline : (10 : UInt8) ∉ s.bytes)
    (hshort : s.bytes.length ≤ maxGwCall) (file : Str) (args : Args) :
    Logged (withGwcall s file) args ↔ Logged file args := by
  have hsame : ∀ name, mapEntry (entries (withGwcall s file)) (76 :: name) =
      mapEntry (entries file) (76 :: name) := by
    intro name
    rw [entries_withGwcall hline hshort, mapEntry_other]
  have hfacility : lit "LOGFACILITY" = 76 :: lit "OGFACILITY" := by decide
  have hmask : lit "LOGMASK" = 76 :: lit "OGMASK" := by decide
  rw [Logged, Logged, hfacility, hmask, hsame, hsame]

private theorem upcase_length (s : Str) : (upcase s).length = s.length := List.length_map _

private theorem upcase_upcase (s : Str) : upcase (upcase s) = upcase s := by
  have twice : ∀ c : UInt8, toupper (toupper c) = toupper c := by
    intro c
    simp only [toupper, UInt8.le_iff_toNat_le, UInt8.reduceToNat]
    split
    case isTrue h =>
      have hle : (32 : UInt8) ≤ c := by
        simp only [UInt8.le_iff_toNat_le, UInt8.reduceToNat]
        omega
      have hsub : (c - 32).toNat = c.toNat - 32 := UInt8.toNat_sub_of_le c 32 hle
      rw [hsub, if_neg (by omega)]
    case isFalse => rfl
  rw [upcase, upcase, List.map_map]
  exact List.map_congr_left fun c _ => twice c

private theorem callsign_n0call : Callsign (lit "N0CALL") := by decide

private theorem normalised_error (h : Halt) : Normalised (.error h) := by
  intro c hc
  cases hc

private theorem normalised_of_file (p : Program) (file : Str) {args : Args}
    (hargs : args.gwcall = none) : Normalised (callInEffect p (some file) args) ↔
      configured file ≠ some [] ∨ ¬ Logged file args := by
  rw [callInEffect_eq, hargs]
  cases hconf : configured file with
  | none => simp [Normalised]
  | some call =>
      by_cases hlong : maxGwCall < call.length
      · have hne : call ≠ [] := by
          rintro rfl
          cases hlong
        simp [Normalised, hlong, hne]
      by_cases hlog : Logged file args
      · simp only [hlong, hlog, not_true, if_false, Option.map_none, Option.getD_none, Normalised,
          or_false]
        split
        case isTrue hcall =>
          refine iff_of_true (fun c hc => by cases hc) fun hnil => ?_
          rw [Option.some.inj hnil] at hcall
          exact absurd hcall (by decide)
        case isFalse =>
          constructor
          · intro h hnil
            obtain ⟨hne, -⟩ := h _ rfl
            rw [Option.some.inj hnil] at hne
            exact hne rfl
          · intro hne c hc
            obtain rfl := Except.ok.inj hc
            refine ⟨fun hnil => hne (congrArg some (List.map_eq_nil_iff.mp hnil)), ?_,
              upcase_upcase call⟩
            rw [upcase_length]
            exact Nat.not_lt.mp hlong
      · simp [Normalised, hlong, hlog]

private theorem callsign_of_upcase {s front : Str} (hfront : front <+: s)
    (hline : (10 : UInt8) ∉ front)
    (h : upcase (bare front) = s) : (10 : UInt8) ∉ s ∧ bare s = s := by
  have hlen := congrArg List.length h
  rw [upcase_length] at hlen
  have hbare : bare front <+: front := List.rdropWhile_prefix _ front
  have hfull : front = s := hfront.eq_of_length_le (hlen ▸ hbare.length_le)
  subst hfull
  exact ⟨hline, hbare.eq_of_length hlen⟩

private theorem callInEffect_given (p : Program) {file : Str} {args : Args} {s : CString}
    (hargs : args.gwcall = some s) {call : Str} (hconf : configured file = some call)
    (hshort : call.length ≤ maxGwCall) (hlog : Logged file args) :
    callInEffect p (some file) args =
      if s.bytes = lit "N0CALL" then .error (.refused .unconfigured) else .ok s.bytes := by
  rw [callInEffect_eq, hconf, hargs]
  exact (if_neg (Nat.not_lt.mpr hshort)).trans (if_neg (not_not.mpr hlog))

private theorem callInEffect_noLog (p : Program) {file : Str} {args : Args} {call : Str}
    (hconf : configured file = some call) (hshort : call.length ≤ maxGwCall)
    (hlog : ¬ Logged file args) :
    callInEffect p (some file) args = .error (.nullPassed .strcmp) := by
  rw [callInEffect_eq, hconf]
  exact (if_neg (Nat.not_lt.mpr hshort)).trans (if_pos hlog)

private theorem callInEffect_long (p : Program) {file : Str} (args : Args) {call : Str}
    (hconf : configured file = some call) (hlong : maxGwCall < call.length) :
    callInEffect p (some file) args = .error (.refused (.config .invalidCall)) := by
  rw [callInEffect_eq, hconf]
  exact if_pos hlong

private theorem callInEffect_callsign (p : Program) {args : Args} {s : CString}
    (h : Callsign s.bytes) {file : Str} (hlog : Logged file args) :
    callInEffect p (some (withGwcall s file)) { args with gwcall := none } =
      if s.bytes = lit "N0CALL" then .error (.refused .unconfigured) else .ok s.bytes := by
  have hplain := configured_withGwcall_short h.one_line h.short file
  rw [h.no_blanks] at hplain
  have hlog' : Logged (withGwcall s file) { args with gwcall := none } :=
    (logged_withGwcall h.one_line h.short file args).mpr hlog
  rw [callInEffect_eq, hplain]
  simp only [Option.map_none, Option.getD_none, h.upper, Nat.not_lt.mpr h.short, hlog', not_true,
    if_false]

private theorem callsign_of_inEffect {p : Program} {file : Str} {args : Args} {s : CString}
    (hne : s.bytes ≠ []) (hlen : s.bytes.length ≤ maxGwCall) (hupper : upcase s.bytes = s.bytes)
    (h : callInEffect p (some (withGwcall s file)) { args with gwcall := none } = .ok s.bytes) :
    Callsign s.bytes := by
  obtain ⟨front, hwritten, hfront, hline⟩ := configured_withGwcall s file
  rw [callInEffect_eq, hwritten] at h
  simp only [Option.map_none, Option.getD_none] at h
  split at h
  · cases h
  split at h
  · cases h
  split at h
  · cases h
  obtain ⟨hbytes, hbare⟩ := callsign_of_upcase hfront hline (Except.ok.inj h)
  exact ⟨hne, hlen, hupper, hbytes, hbare⟩

section Given

variable {p : Program} {file : Str} {args : Args} {s : CString} {call : Str}

private theorem asFromFile_iff (hargs : args.gwcall = some s) :
    AsFromFile p file args ↔ callInEffect p (some file) args =
      callInEffect p (some (withGwcall s file)) { args with gwcall := none } := by
  rw [AsFromFile, hargs]
  constructor
  · exact fun h => h s rfl
  · rintro h s' hs'
    obtain rfl := Option.some.inj hs'
    exact h

private theorem normalised_of_given (hargs : args.gwcall = some s)
    (hconf : configured file = some call)
    (hshort : call.length ≤ maxGwCall) (hlog : Logged file args) :
    Normalised (callInEffect p (some file) args) ∧ AsFromFile p file args ↔ Callsign s.bytes := by
  rw [asFromFile_iff hargs, callInEffect_given p hargs hconf hshort hlog]
  constructor
  · rintro ⟨hnorm, hfile⟩
    by_cases hn0 : s.bytes = lit "N0CALL"
    · rw [hn0]
      exact callsign_n0call
    · rw [if_neg hn0] at hnorm hfile
      obtain ⟨hne, hlen, hupper⟩ := hnorm _ rfl
      exact callsign_of_inEffect hne hlen hupper hfile.symm
  · intro hcall
    refine ⟨fun c hc => ?_, (callInEffect_callsign p hcall hlog).symm⟩
    split at hc
    · cases hc
    · obtain rfl := Except.ok.inj hc
      exact ⟨hcall.some, hcall.short, hcall.upper⟩

private theorem normalised_of_noLog (hargs : args.gwcall = some s)
    (hconf : configured file = some call)
    (hshort : call.length ≤ maxGwCall) (hlog : ¬ Logged file args) {call' : Str}
    (hconf' : configured (withGwcall s file) = some call') :
    Normalised (callInEffect p (some file) args) ∧ AsFromFile p file args ↔
      call'.length ≤ maxGwCall ∧ ¬ Logged (withGwcall s file) args := by
  rw [asFromFile_iff hargs, callInEffect_noLog p hconf hshort hlog, callInEffect_eq, hconf',
    and_iff_right (normalised_error _)]
  by_cases hlong : maxGwCall < call'.length
  · simp [hlong, Nat.not_le.mpr hlong]
  by_cases hlog' : Logged (withGwcall s file) args
  · have hlog'' : Logged (withGwcall s file) { args with gwcall := none } := hlog'
    simp only [hlong, hlog', hlog'', not_true, if_false, and_false, iff_false]
    split <;> simp
  · have hlog'' : ¬ Logged (withGwcall s file) { args with gwcall := none } := hlog'
    simp [hlong, hlog', hlog'', Nat.not_lt.mp hlong]

private theorem normalised_of_refused (hargs : args.gwcall = some s)
    (hconf : configured file = some call) (hlong : maxGwCall < call.length) {call' : Str}
    (hconf' : configured (withGwcall s file) = some call') :
    Normalised (callInEffect p (some file) args) ∧ AsFromFile p file args ↔
      maxGwCall < call'.length := by
  rw [asFromFile_iff hargs, callInEffect_long p args hconf hlong,
    and_iff_right (normalised_error _)]
  constructor
  · intro hsame
    by_contra hfits
    rw [callInEffect_eq, hconf'] at hsame
    simp only [hfits, if_false] at hsame
    split at hsame
    · cases hsame
    · split at hsame <;> cases hsame
  · exact fun hlong' => (callInEffect_long p _ hconf' hlong').symm

private theorem not_asFromFile (hargs : args.gwcall = some s) (hconf : configured file = none) :
    ¬ AsFromFile p file args := by
  obtain ⟨front, hwritten, -, -⟩ := configured_withGwcall s file
  rw [asFromFile_iff hargs, callInEffect_eq, hconf, callInEffect_eq, hwritten]
  intro hsame
  simp only at hsame
  split at hsame
  · cases hsame
  · split at hsame
    · cases hsame
    · split at hsame <;> cases hsame

end Given

/-- A program that starts has a normalised callsign, and a callsign has the same effect from the
command line as from the file, exactly when it is well given. -/
theorem callsign_normalised_iff (p : Program) (file : Str) (args : Args) :
    (Normalised (callInEffect p (some file) args) ∧ AsFromFile p file args) ↔
      WellGiven file args := by
  rw [WellGiven]
  cases hargs : args.gwcall with
  | none =>
      rw [normalised_of_file p file hargs]
      exact and_iff_left fun s hs => by rw [hargs] at hs; cases hs
  | some s =>
      obtain ⟨front, hconf', -, -⟩ := configured_withGwcall s file
      cases hconf : configured file with
      | none =>
          refine iff_of_false (fun h => not_asFromFile hargs hconf h.2) ?_
          rintro ⟨call, call', hcall, -⟩
          cases hcall
      | some call =>
          simp only [hconf', Option.some.injEq, exists_and_left, exists_eq_left']
          by_cases hlong : maxGwCall < call.length
          · rw [normalised_of_refused hargs hconf hlong hconf']
            simp [hlong, Nat.not_le.mpr hlong]
          by_cases hlog : Logged file args
          · rw [normalised_of_given hargs hconf (Nat.not_lt.mp hlong) hlog]
            simp [hlong, Nat.not_lt.mp hlong, hlog]
          · rw [normalised_of_noLog hargs hconf (Nat.not_lt.mp hlong) hlog hconf']
            simp [hlong, Nat.not_lt.mp hlong, hlog]

private def stationFile : Str := lit "GWCALL=N0GWY-10\nLOGFACILITY=local0\nLOGMASK=info\n"

private theorem lower_noNul : (0 : UInt8) ∉ lit "n0abc" := by decide

private def lowerCall : CString := ⟨lit "n0abc", lower_noNul⟩

private def lowerArgs : Args := ⟨some lowerCall, none, none⟩

/-- A callsign in lower case is put into effect as it is when it comes from the
command line, and in upper case when it comes from the file. -/
theorem command_line_call_unchecked :
    callInEffect .rmsgw (some stationFile) lowerArgs = .ok (lit "n0abc") ∧
      callInEffect .rmsgw (some (withGwcall lowerCall stationFile))
          { lowerArgs with gwcall := none } = .ok (lit "N0ABC") ∧
      ¬ (Normalised (callInEffect .rmsgw (some stationFile) lowerArgs) ∧
        AsFromFile .rmsgw stationFile lowerArgs) := by
  have hgiven : callInEffect .rmsgw (some stationFile) lowerArgs = .ok (lit "n0abc") := by
    decide +kernel
  have hfile : callInEffect .rmsgw (some (withGwcall lowerCall stationFile))
      { lowerArgs with gwcall := none } = .ok (lit "N0ABC") := by decide +kernel
  refine ⟨hgiven, hfile, fun h => ?_⟩
  have hsame := h.2 lowerCall rfl
  rw [hgiven, hfile] at hsame
  exact absurd hsame (by decide)

end Rmsgw.Conf.Startup
