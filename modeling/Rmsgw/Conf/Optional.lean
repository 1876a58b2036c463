/- The settings that gateway.conf may leave out, followed through the start of the
   two programs to the strings that the library takes. -/

import Rmsgw.Conf.Startup
import Rmsgw.Aci.Model
import Rmsgw.Session.Program

set_option autoImplicit false
set_option relaxedAutoImplicit false

namespace Rmsgw.Conf.Optional

open Rmsgw.Lib.CStrings Rmsgw.Hosts.Model Rmsgw.Rms Rmsgw.Conf.Model
open Rmsgw.Conf.Startup
open Rmsgw.Session.Program (fmtucall)

/-- The program ends, with a message, where it has to have a result. -/
def orHalt {α : Type} (h : Halt) : Option α → Except Halt α
  | none => .error h
  | some a => .ok a

/-- What loadVersion() finds. -/
structure Version where
  package : Str
  label : Str

/-- What the outside makes of a start: the version file, the status block, the files
there are, the caller with storage for the callsign or not, and the date compiled in. -/
structure Outside where
  version : Option Version
  attached : Bool
  stat : Str → Bool
  usercall : CString
  strdup : Bool
  date : Str

def fileExists (o : Outside) (filename : Option Str) : Except Halt Bool :=
  if filename = none then .ok false
  else do
    let name ← passTo .strlen filename
    if name = [] then .ok false
    else do
      let path ← passTo .stat filename
      .ok (o.stat path)

def startRmsgw : Str := lit "start-rmsgw"

def startRmsgwAci : Str := lit "start-rmsgw_aci"

/-- Whether there is a hook to be run. -/
def runhook (o : Outside) (hookdir : Option Str) (hook_name : Str) : Except Halt Bool :=
  if hook_name = [] then .ok false
  else if hookdir = none then .ok false
  else do
    let dir ← passTo .strlen hookdir
    if dir = [] then .ok false
    else do
      let found ← fileExists o hookdir
      if found then fileExists o (some (dir ++ lit "/" ++ hook_name)) else .ok false

/-- The file that loadenv() opens. -/
def environment (o : Outside) (rmsgwenv : Option Str) : Except Halt (Option Str) :=
  if rmsgwenv = none then .ok none
  else do
    let found ← fileExists o rmsgwenv
    if found then (passTo .fopen rmsgwenv).map some else .ok none

/-- `%s` as the GNU library prints it. -/
def shown (s : Option Str) : Str := s.getD (lit "(null)")

def maxGreeting : Nat := 80

def greet (o : Outside) (cfg : Config) (ver : Version) : Str :=
  (lit "\n" ++ cfg.gwcall ++ lit " - " ++ ver.package ++ lit " " ++ ver.label ++ lit " " ++
    o.date ++ lit " (" ++ shown cfg.gridsquare ++ lit ")\n\n").take (maxGreeting - 1)

/-- The file that banner() opens. -/
def banner (bfile : Option Str) : Except Halt Str := passTo .fopen bfile

/-- The prologue of wl2k_aci(): the update interval. -/
def channelUpdateInterval (channelupd : Option Str) : Except Halt Int :=
  if channelupd = none then .ok dfltChannelUpd
  else do
    let text ← passTo .atol channelupd
    .ok (if atol text ≤ 0 then dfltChannelUpd else atol text)

/-- The prologue of wl2k_aci(): the channel file, if one is set, and its age. -/
def setchanfile (channelfile : Option Str) : Except Halt (Option Str) :=
  if channelfile = none then .ok none else (passTo .stat channelfile).map some

def attach (o : Outside) : Except Halt Unit := if o.attached then .ok () else .error .notAttached

/-- What a program has when it comes to its host loop or channel loop. -/
inductive Ready
  | hosts (cfg : Config) (log : Log) (env : Option Str) (hook : Bool) (greeting bannerfile : Str)
      (usercall : CString)
  | channels (cfg : Config) (log : Log) (env : Option Str) (hook : Bool) (interval : Int)
      (chanfile : Option Str)

def rmsgw (strdup : Str → Bool) (configfile : Option Str) (args : Args) (o : Outside) :
    Except Halt Ready := do
  let cfg ← configuration .rmsgw strdup configfile args
  let version ← orHalt .noVersion o.version
  let log ← openlog cfg
  attach o
  let cfg ← (checkConfigured cfg).mapError Halt.refused
  let env ← environment o cfg.rmsgwenv
  let hook ← runhook o cfg.hookdir startRmsgw
  let file ← banner cfg.bannerfile
  let usercall ← orHalt .badUsercall (fmtucall o.strdup o.usercall)
  .ok (.hosts cfg log env hook (greet o cfg version) file usercall)

def rmsgwAci (strdup : Str → Bool) (configfile : Option Str) (args : Args) (o : Outside) :
    Except Halt Ready := do
  let _ ← orHalt .noVersion o.version
  let cfg ← configuration .rmsgwAci strdup configfile args
  let log ← openlog cfg
  let cfg ← (checkConfigured cfg).mapError Halt.refused
  attach o
  let env ← environment o cfg.rmsgwacienv
  let hook ← runhook o cfg.hookdir startRmsgwAci
  let interval ← channelUpdateInterval cfg.channelupd
  let chanfile ← setchanfile cfg.channelfile
  .ok (.channels cfg log env hook interval chanfile)

/-- The start of a program up to its loop. -/
def startup : Program → (Str → Bool) → Option Str → Args → Outside → Except Halt Ready
  | .rmsgw => rmsgw
  | .rmsgwAci => rmsgwAci

/-- No NULL is passed where a string is required. -/
def Safe {α : Type} (r : Except Halt α) : Prop := ∀ f, r ≠ .error (.nullPassed f)

/-- The settings that are used as strings without a look: they are in the file or on
the command line. The banner is sent by rmsgw only, and not under the callsign of an
unconfigured gateway. -/
structure Supplied (p : Program) (conf : Config) (args : Args) : Prop where
  logfacility : conf.logfacility ≠ none
  logmask : (args.logmask.map CString.bytes).or conf.logmask ≠ none
  bannerfile : p = .rmsgw → (args.gwcall.map CString.bytes).getD conf.gwcall ≠ lit "N0CALL" →
    (args.bannerfile.map CString.bytes).or conf.bannerfile ≠ none

section Safety

variable {α β : Type} {P Q : Prop}

private theorem safe_ok (a : α) : Safe (.ok a) := by
  intro f h
  cases h

private theorem safe_bind (x : Except Halt α) (f : α → Except Halt β) :
    Safe (x >>= f) ↔ Safe x ∧ ∀ a, x = .ok a → Safe (f a) := by
  cases x with
  | error h => simp [Safe, bind, Except.bind]
  | ok a => simp [Safe, bind, Except.bind]

private theorem bind_ok {x : Except Halt α} {a : α} (h : x = .ok a) (f : α → Except Halt β) :
    (x >>= f) = f a := by
  rw [h]
  rfl

private theorem bind_error {x : Except Halt α} {h : Halt} (hx : x = .error h)
    (f : α → Except Halt β) : (x >>= f) = .error h := by
  rw [hx]
  rfl

private theorem safe_check {x : Except Halt α} {f : α → Except Halt β} {h : Halt}
    (hok : Q → ∃ a, x = .ok a ∧ (Safe (f a) ↔ P)) (herr : ¬ Q → x = .error h)
    (hnull : ∀ g, h ≠ .nullPassed g) : Safe (x >>= f) ↔ (Q → P) := by
  by_cases hq : Q
  · obtain ⟨a, ha, hrest⟩ := hok hq
    rw [bind_ok ha, hrest]
    exact (imp_iff_right hq).symm
  · rw [herr hq]
    refine iff_of_true (fun g hg => ?_) fun hpass => absurd hpass hq
    exact hnull g (Except.error.inj hg)

private theorem safe_bind_returns {x : Except Halt α} {f : α → Except Halt β} (hx : ∃ a, x = .ok a)
    (hf : ∀ a, Safe (f a) ↔ P) : Safe (x >>= f) ↔ P := by
  obtain ⟨a, ha⟩ := hx
  rw [bind_ok ha]
  exact hf a

private theorem safe_bind_iff {x : Except Halt α} {f : α → Except Halt β} (hx : Safe x ↔ P)
    (hret : P → ∃ a, x = .ok a) (hf : ∀ a, Safe (f a) ↔ Q) : Safe (x >>= f) ↔ P ∧ Q := by
  rw [safe_bind, hx]
  refine and_congr_right fun hp => ?_
  obtain ⟨a, ha⟩ := hret hp
  constructor
  · intro h
    exact (hf a).mp (h a ha)
  · intro hq b _
    exact (hf b).mpr hq

private theorem safe_pass (f : StringFn) (s : Option Str) : Safe (passTo f s) ↔ s ≠ none := by
  cases s <;> simp [Safe, passTo]

private theorem safe_badUsercall (a : Option α) : Safe (orHalt .badUsercall a) := by
  cases a <;> simp [Safe, orHalt]

end Safety

section Uses

variable (o : Outside)

private theorem fileExists_some (name : Str) :
    fileExists o (some name) = .ok (decide (name ≠ []) && o.stat name) := by
  by_cases hname : name = []
  · simp [fileExists, passTo, hname, bind, Except.bind]
  · simp [fileExists, passTo, hname, bind, Except.bind]

private theorem environment_returns (rmsgwenv : Option Str) :
    ∃ env, environment o rmsgwenv = .ok env := by
  cases rmsgwenv with
  | none => exact ⟨none, rfl⟩
  | some name =>
      rw [environment, if_neg (Option.some_ne_none name), fileExists_some]
      change ∃ env, (if (decide (name ≠ []) && o.stat name) = true then .ok (some name)
        else .ok none) = Except.ok env
      split
      · exact ⟨some name, rfl⟩
      · exact ⟨none, rfl⟩

private theorem runhook_returns (hookdir : Option Str) (hook_name : Str) :
    ∃ run, runhook o hookdir hook_name = .ok run := by
  by_cases hname : hook_name = []
  · exact ⟨false, by rw [runhook, if_pos hname]⟩
  rw [runhook, if_neg hname]
  cases hookdir with
  | none => exact ⟨false, rfl⟩
  | some dir =>
      by_cases hdir : dir = []
      · exact ⟨false, by simp [passTo, hdir, bind, Except.bind]⟩
      · rw [if_neg (Option.some_ne_none dir), fileExists_some]
        simp only [passTo, bind, Except.bind, hdir, if_false]
        split
        · exact ⟨_, fileExists_some o _⟩
        · exact ⟨false, rfl⟩

private theorem channelUpdateInterval_eq (cfg : Aci.Model.Config) :
    channelUpdateInterval cfg.channelupd = .ok (Aci.Model.channelUpdateInterval cfg) := by
  rw [Aci.Model.channelUpdateInterval]
  cases cfg.channelupd with
  | none => rfl
  | some text => rfl

private theorem channelUpdateInterval_returns (cfg : Config) :
    ∃ interval, channelUpdateInterval cfg.channelupd = .ok interval :=
  ⟨_, channelUpdateInterval_eq ⟨cfg.gwcall, cfg.channelfile, cfg.channelupd, cfg.versionupd⟩⟩

private theorem setchanfile_returns (channelfile : Option Str) :
    ∃ chanfile, setchanfile channelfile = .ok chanfile := by
  cases channelfile with
  | none => exact ⟨none, rfl⟩
  | some file => exact ⟨some file, rfl⟩

private theorem mapName_safe_iff (sensible : Nat) (name : Option Str) {table : List (Str × Nat)}
    (h : table ≠ []) : Safe (mapName sensible (downcase name) table) ↔ name ≠ none := by
  cases name with
  | some s =>
      refine iff_of_true ?_ (Option.some_ne_none s)
      rw [downcase, Option.map_some, mapName_some]
      exact safe_ok _
  | none =>
      cases table with
      | nil => exact absurd rfl h
      | cons entry more => simp [downcase, mapName, passTo, bind, Except.bind, Safe]

private theorem openlog_safe_iff (cfg : Config) :
    Safe (openlog cfg) ↔ cfg.logfacility ≠ none ∧ cfg.logmask ≠ none := by
  refine safe_bind_iff (mapName_safe_iff _ _ (List.cons_ne_nil _ _))
    (fun h => mapName_returns _ h _) fun facility => ?_
  rw [safe_bind]
  exact (and_iff_left fun pri _ => safe_ok _).trans (mapName_safe_iff _ _ (List.cons_ne_nil _ _))

private theorem banner_safe_iff {α : Type} (bfile : Option Str) (usercall : Option CString)
    (ready : Str → CString → α) :
    Safe (do
      let file ← banner bfile
      let call ← orHalt .badUsercall usercall
      .ok (ready file call)) ↔ bfile ≠ none := by
  rw [safe_bind, banner, safe_pass]
  refine and_iff_left fun file _ => ?_
  rw [safe_bind]
  exact ⟨safe_badUsercall usercall, fun call _ => safe_ok _⟩

end Uses

section Programs

variable {strdup : Str → Bool} {configfile : Option Str} {args : Args} {cfg : Config}

private theorem safe_configured {α : Type} (f : Config → Except Halt α) {P : Prop}
    (hf : Safe (f cfg) ↔ P) :
    Safe ((checkConfigured cfg).mapError Halt.refused >>= f) ↔
      (cfg.gwcall ≠ lit "N0CALL" → P) := by
  refine safe_check (h := .refused .unconfigured) (fun hcall => ⟨cfg, ?_, hf⟩) (fun hcall => ?_)
    (fun _ h => by cases h)
  · rw [checkConfigured, if_neg hcall]
    rfl
  · rw [checkConfigured, if_pos (not_not.mp hcall)]
    rfl

private theorem safe_attached {α : Type} (o : Outside) (f : Unit → Except Halt α) {P : Prop}
    (hf : Safe (f ()) ↔ P) : Safe (attach o >>= f) ↔ (o.attached = true → P) := by
  refine safe_check (h := .notAttached) (fun hattached => ⟨(), if_pos hattached, hf⟩)
    (fun hattached => ?_) (fun _ h => by cases h)
  exact if_neg hattached

private theorem safe_version {α : Type} (o : Outside) (f : Version → Except Halt α) {P : Prop}
    (hf : ∀ version, Safe (f version) ↔ P) :
    Safe (orHalt .noVersion o.version >>= f) ↔ (o.version ≠ none → P) := by
  refine safe_check (h := .noVersion) (fun hversion => ?_) (fun hversion => ?_)
    (fun _ h => by cases h)
  · obtain ⟨version, hsome⟩ := Option.ne_none_iff_exists'.mp hversion
    exact ⟨version, by rw [hsome]; rfl, hf version⟩
  · rw [not_not.mp hversion]
    rfl

/-- The log comes ahead of everything that can stop rmsgw but a missing version, the
banner only in a gateway that is attached and configured. -/
private theorem rmsgw_safe_iff (hload : configuration .rmsgw strdup configfile args = .ok cfg)
    (o : Outside) :
    Safe (rmsgw strdup configfile args o) ↔
      (o.version ≠ none → (cfg.logfacility ≠ none ∧ cfg.logmask ≠ none) ∧
        (o.attached = true → cfg.gwcall ≠ lit "N0CALL" → cfg.bannerfile ≠ none)) := by
  rw [rmsgw, bind_ok hload]
  refine safe_version o _ fun version => ?_
  refine safe_bind_iff (openlog_safe_iff cfg) openlog_returns fun log => ?_
  refine safe_attached o _ ?_
  refine safe_configured _ ?_
  refine safe_bind_returns (environment_returns o _) fun env => ?_
  refine safe_bind_returns (runhook_returns o _ _) fun hook => ?_
  exact banner_safe_iff _ _ _

private theorem rmsgwAci_safe_iff (hload : configuration .rmsgwAci strdup configfile args = .ok cfg)
    (o : Outside) :
    Safe (rmsgwAci strdup configfile args o) ↔
      (o.version ≠ none → cfg.logfacility ≠ none ∧ cfg.logmask ≠ none) := by
  rw [rmsgwAci]
  refine safe_version o _ fun version => ?_
  rw [bind_ok hload, safe_bind, openlog_safe_iff]
  refine and_iff_left fun log _ => ?_
  refine (safe_configured (P := True) _ ?_).mpr fun _ => trivial
  refine iff_true_intro ((safe_attached o _ ?_).mpr fun _ => trivial)
  refine safe_bind_returns (environment_returns o _) fun env => ?_
  refine safe_bind_returns (runhook_returns o _ _) fun hook => ?_
  refine safe_bind_returns (channelUpdateInterval_returns _) fun interval => ?_
  refine safe_bind_returns (setchanfile_returns _) fun chanfile => ?_
  exact iff_true_intro (safe_ok _)

private theorem start_error {p : Program} {h : Halt} (hstart : start p configfile args = .error h) :
    configuration p (fun _ => true) configfile args = .error h ∨
      ∃ cfg, configuration p (fun _ => true) configfile args = .ok cfg ∧
        (openlog cfg = .error h ∨ ∃ log, openlog cfg = .ok log ∧
          (checkConfigured cfg).mapError Halt.refused = .error h) := by
  rw [start] at hstart
  cases hload : configuration p (fun _ => true) configfile args with
  | error e =>
      rw [hload] at hstart
      exact .inl hstart
  | ok cfg =>
      rw [bind_ok hload] at hstart
      refine .inr ⟨cfg, rfl, ?_⟩
      cases hopen : openlog cfg with
      | error e =>
          rw [bind_error hopen] at hstart
          exact .inl (congrArg Except.error (Except.error.inj hstart))
      | ok log =>
          rw [bind_ok hopen] at hstart
          exact .inr ⟨log, rfl, hstart⟩

/-- What ends the start up to the callsign ends the whole start, if neither the version nor the
status block ends it first. -/
theorem startup_error {p : Program} {o : Outside} {h : Halt} (hversion : o.version ≠ none)
    (hattached : o.attached = true) (hstart : start p configfile args = .error h) :
    startup p (fun _ => true) configfile args o = .error h := by
  obtain ⟨version, hsome⟩ := Option.ne_none_iff_exists'.mp hversion
  have hattach : attach o = .ok () := if_pos hattached
  have hpass : orHalt .noVersion o.version = .ok version := by
    rw [hsome]
    rfl
  cases p with
  | rmsgw =>
      rw [startup, rmsgw]
      rcases start_error hstart with hload | ⟨cfg, hload, hopen | ⟨log, hopen, hcheck⟩⟩
      · exact bind_error hload _
      · rw [bind_ok hload, bind_ok hpass]
        exact bind_error hopen _
      · rw [bind_ok hload, bind_ok hpass, bind_ok hopen, bind_ok hattach]
        exact bind_error hcheck _
  | rmsgwAci =>
      rw [startup, rmsgwAci, bind_ok hpass]
      rcases start_error hstart with hload | ⟨cfg, hload, hopen | ⟨log, hopen, hcheck⟩⟩
      · exact bind_error hload _
      · rw [bind_ok hload]
        exact bind_error hopen _
      · rw [bind_ok hload, bind_ok hopen]
        exact bind_error hcheck _

/-- An outside that lets a start come to its loop. -/
def favourable : Outside :=
  ⟨some ⟨lit "rmsgw", lit "2.5.1"⟩, true, fun _ => false, ⟨lit "W1AW", by decide⟩, true, []⟩

/-- For every configuration that is accepted, no NULL is passed whatever the outside
does exactly when the settings that are not looked at are supplied. -/
theorem optional_settings_iff (p : Program) {strdup : Str → Bool} {file : Str} {conf : Config}
    (hload : loadConfig strdup (some file) = .ok conf) (args : Args) :
    (∀ o, Safe (startup p strdup (some file) args o)) ↔ Supplied p conf args := by
  have hcfg : configuration p strdup (some file) args = .ok (override p args conf) := by
    rw [configuration, hload]
    rfl
  have hversion : favourable.version ≠ none := Option.some_ne_none _
  cases p with
  | rmsgw =>
      constructor
      · intro h
        obtain ⟨⟨hfacility, hmask⟩, hbanner⟩ := (rmsgw_safe_iff hcfg favourable).mp (h _) hversion
        exact ⟨hfacility, hmask, fun _ => hbanner rfl⟩
      · intro h o
        refine (rmsgw_safe_iff hcfg o).mpr fun _ => ⟨⟨h.logfacility, h.logmask⟩, fun _ => ?_⟩
        exact h.bannerfile rfl
  | rmsgwAci =>
      constructor
      · intro h
        obtain ⟨hfacility, hmask⟩ := (rmsgwAci_safe_iff hcfg favourable).mp (h _) hversion
        exact ⟨hfacility, hmask, fun hp => absurd hp (by decide)⟩
      · intro h o
        exact (rmsgwAci_safe_iff hcfg o).mpr fun _ => ⟨h.logfacility, h.logmask⟩

end Programs

private def stationFile : Str := lit "GWCALL=N0GWY-10\nLOGFACILITY=local0\nLOGMASK=info\n"

private def stationConf : Config :=
  ⟨lit "N0GWY-10", none, none, none, some (lit "local0"), some (lit "info"), none, none, none,
    none, none, some hookDir⟩

/-- A station with a log and no banner: rmsgw_aci starts. -/
theorem optional_settings_iff_station :
    loadConfig (fun _ => true) (some stationFile) = .ok stationConf ∧
      ∀ o, Safe (startup .rmsgwAci (fun _ => true) (some stationFile) ⟨none, none, none⟩ o) := by
  have hload : loadConfig (fun _ => true) (some stationFile) = .ok stationConf := by decide
  exact ⟨hload, (optional_settings_iff .rmsgwAci hload ⟨none, none, none⟩).mpr
    ⟨by decide, by decide, by decide⟩⟩

/-- With only GWCALL, which is accepted, strcmp() in mapfacility() takes NULL in both
programs; with a log, fopen() in banner() does. -/
theorem missing_settings_passed :
    loadConfig (fun _ => true) (some (lit "GWCALL=N0GWY-10\n")) =
        .ok { stationConf with logfacility := none, logmask := none } ∧
      rmsgw (fun _ => true) (some (lit "GWCALL=N0GWY-10\n")) ⟨none, none, none⟩ favourable =
        .error (.nullPassed .strcmp) ∧
      rmsgwAci (fun _ => true) (some (lit "GWCALL=N0GWY-10\n")) ⟨none, none, none⟩ favourable =
        .error (.nullPassed .strcmp) ∧
      rmsgw (fun _ => true) (some stationFile) ⟨none, none, none⟩ favourable =
        .error (.nullPassed .fopen) ∧
      ¬ ∀ p o, Safe (startup p (fun _ => true) (some (lit "GWCALL=N0GWY-10\n"))
        ⟨none, none, none⟩ o) := by
  have hstart : rmsgw (fun _ => true) (some (lit "GWCALL=N0GWY-10\n")) ⟨none, none, none⟩
      favourable = .error (.nullPassed .strcmp) := by rfl
  refine ⟨by decide, hstart, by rfl, by rfl, fun h => ?_⟩
  exact h .rmsgw favourable .strcmp hstart

end Rmsgw.Conf.Optional
