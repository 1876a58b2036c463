/- When the readers of gateway.conf obtain the same GWCALL. -/

import Rmsgw.Conf.Settings

set_option autoImplicit false
set_option relaxedAutoImplicit false

namespace Rmsgw.Conf.Agreement

open Rmsgw.Lib.CStrings Rmsgw.Lib.Utf8 Rmsgw.Rms Rmsgw.Conf.Model
open Rmsgw.Conf.Settings (textLines textLines_newline textLines_skip bare strtrim_eq setting
  rdropWhile_stop loadConfig_lines)

def gwcallEq : List Char := "GWCALL=".toList

/-- A line without its newline. -/
def chomp (l : List Char) : List Char := if l.getLast? = some '\n' then l.dropLast else l

/-- Without the blanks and tabs at its end. -/
def trimEnd (s : List Char) : List Char := s.rdropWhile (fun c => decide (c ∈ " \t".toList))

/-- What stands behind "GWCALL=" on the first line that starts with it, blanks and
tabs at the end left out. -/
def firstGwcall (t : List Char) : Option (List Char) :=
  (linesFrom [] t).findSome? (fun l =>
    if gwcallEq <+: l then some (trimEnd ((chomp l).drop 7)) else none)

/-- The scripts take the line for an assignment of the name. -/
def Assigns (name line : List Char) : Prop :=
  isComment line = false ∧ strip (partition line).1 = name

instance (name line : List Char) : Decidable (Assigns name line) :=
  inferInstanceAs (Decidable (_ ∧ _))

/-- What stands behind '=' on the last line that the scripts take for an assignment of the
name, white space around it left out. -/
def lastOf (name t : List Char) : Option (List Char) :=
  (((scriptLines t).filter (fun line => decide (Assigns name line))).getLast?).map
    (fun line => strip (partition line).2)

def lastGwcall (t : List Char) : Option (List Char) := lastOf "GWCALL".toList t

private theorem ascii_of_mem {s : String} (h : s.toList.all (fun c => decide (Ascii c)) = true) :
    ∀ c ∈ s.toList, Ascii c := by
  intro c hc
  exact of_decide_eq_true (List.all_eq_true.mp h c hc)

private theorem chomp_append {s : List Char} (hs : '\n' ∉ s) (rest : List Char) :
    chomp (s ++ rest) = s ++ chomp rest := by
  cases rest using List.reverseRecOn with
  | nil =>
      have hlast : s.getLast? ≠ some '\n' := fun h => hs (List.mem_of_getLast? h)
      simp [chomp, hlast]
  | append_singleton rest c =>
      rw [← List.append_assoc]
      by_cases hc : c = '\n' <;> simp [chomp, hc]

section Lines

variable {cur t : List Char}

private theorem linesFrom_newline (cur rest : List Char) :
    linesFrom cur ('\n' :: rest) = (cur ++ ['\n']) :: linesFrom [] rest := by
  simp [linesFrom]

private theorem linesFrom_other {c : Char} (hc : c ≠ '\n') (cur rest : List Char) :
    linesFrom cur (c :: rest) = linesFrom (cur ++ [c]) rest := by
  simp [linesFrom, hc]

private theorem chomp_self (hcur : '\n' ∉ cur) : chomp cur = cur := by
  have hchomp := chomp_append hcur []
  rwa [List.append_nil, show chomp [] = [] from rfl, List.append_nil] at hchomp

private theorem textLines_encode (hcur : '\n' ∉ cur) (t : List Char) :
    textLines (encode cur) (encode t) = (linesFrom cur t).map (fun l => encode (chomp l)) := by
  induction t generalizing cur with
  | nil =>
      by_cases hnil : cur = []
      · simp [textLines, linesFrom, hnil]
      · have hbytes : encode cur ≠ [] := by
          obtain ⟨c, rest, rfl⟩ := List.exists_cons_of_ne_nil hnil
          simp [String.utf8EncodeChar_ne_nil]
        simp [textLines, linesFrom, hnil, hbytes, chomp_self hcur]
  | cons c rest ih =>
      by_cases hc : c = '\n'
      · subst hc
        have hbyte : String.utf8EncodeChar '\n' = [10] := by decide
        have hline : chomp (cur ++ ['\n']) = cur := by simp [chomp]
        rw [encode_cons, hbyte, List.singleton_append, textLines_newline, linesFrom_newline,
          List.map_cons, hline]
        exact congrArg _ (ih List.not_mem_nil)
      · have hnext : '\n' ∉ cur ++ [c] := by simp [hcur, Ne.symm hc]
        have hbyte : (10 : UInt8) ∉ String.utf8EncodeChar c := fun hmem =>
          hc (byte_mem_utf8EncodeChar (c := '\n') (by decide) hmem).symm
        rw [encode_cons, textLines_skip hbyte, linesFrom_other hc, ← ih hnext]
        simp

end Lines

private theorem assigns_encode (l : List Char) :
    Settings.Assigns (lit "GWCALL") (encode (chomp l)) ↔ gwcallEq <+: l := by
  have hascii : ∀ c ∈ gwcallEq, Ascii c := ascii_of_mem (by decide)
  have hname : lit "GWCALL" ++ lit "=" = gwcallEq.map byte := by decide
  rw [Settings.Assigns, hname, ascii_prefix_encode hascii]
  constructor
  · intro h
    refine h.trans ?_
    rw [chomp]
    split
    · exact List.dropLast_prefix l
    · exact List.prefix_refl l
  · rintro ⟨rest, rfl⟩
    rw [chomp_append (by decide)]
    exact List.prefix_append _ _

private theorem value_encode {l : List Char} (h : gwcallEq <+: l) :
    bare ((encode (chomp l)).drop 7) = encode (trimEnd ((chomp l).drop 7)) := by
  obtain ⟨rest, rfl⟩ := h
  have hchomp : chomp (gwcallEq ++ rest) = gwcallEq ++ chomp rest := chomp_append (by decide) rest
  have hdrop : (gwcallEq ++ chomp rest).drop 7 = chomp rest := List.drop_left' (by decide)
  have hascii : ∀ c ∈ gwcallEq, Ascii c := ascii_of_mem (by decide)
  have hvalue : (encode (gwcallEq ++ chomp rest)).drop 7 = encode (chomp rest) :=
    drop_encode hascii _
  rw [hchomp, hdrop, hvalue, ← strtrim_eq]
  exact rdropWhile_encode (ascii_of_mem (by decide)) (chomp rest)

section Gateway

variable {t : List Char}

private theorem setting_gwcall (t : List Char) :
    setting (textLines [] (encode t)) (lit "GWCALL") = (firstGwcall t).map encode := by
  have hlines : textLines [] (encode t) = (linesFrom [] t).map (fun l => encode (chomp l)) :=
    textLines_encode List.not_mem_nil t
  rw [hlines, firstGwcall]
  induction linesFrom [] t with
  | nil => rfl
  | cons l ls ih =>
      simp only [setting] at ih ⊢
      rw [List.map_cons, List.find?_cons, List.findSome?_cons]
      by_cases h : gwcallEq <+: l
      · have hlen : (lit "GWCALL").length + 1 = 7 := by decide
        simp only [decide_eq_true ((assigns_encode l).mpr h), if_pos h, Option.map_some, hlen,
          value_encode h]
      · simp only [decide_eq_false (fun ha => h ((assigns_encode l).mp ha)), if_neg h]
        exact ih

private theorem configGwcall_eq (noNul : '\x00' ∉ t)
    (short : ∀ l ∈ linesFrom [] t, (encode (chomp l)).length < 2047) :
    configGwcall (loadConfig (fun _ => true) (some (encode t))) =
      (firstGwcall t).bind (fun a =>
        if maxGwCall < (encode a).length then none else some (upcase (encode a))) := by
  have hnul : (0 : UInt8) ∉ encode t := fun hmem =>
    noNul ((byte_mem_encode (c := '\x00') (by decide)).mp hmem)
  have hlines : textLines [] (encode t) = (linesFrom [] t).map (fun l => encode (chomp l)) :=
    textLines_encode List.not_mem_nil t
  have hshort : ∀ l ∈ textLines [] (encode t), l.length ≤ 2046 := by
    rw [hlines]
    intro bytes hbytes
    obtain ⟨l, hl, rfl⟩ := List.mem_map.mp hbytes
    exact Nat.le_of_lt_succ (short l hl)
  rw [loadConfig_lines hnul hshort, setting_gwcall]
  cases firstGwcall t with
  | none => rfl
  | some a =>
      by_cases hlong : maxGwCall < (encode a).length
      · simp [configGwcall, hlong]
      · simp [configGwcall, hlong, Settings.described]

end Gateway

section Script

variable {t : List Char}

private theorem gwConfig_eq (t name : List Char) : gwConfig t name = lastOf name t := by
  have key : ∀ lines : List (List Char),
      lines.foldl loadLine (fun _ => none) name =
        ((lines.filter (fun line => decide (Assigns name line))).getLast?).map
          (fun line => strip (partition line).2) := by
    intro lines
    induction lines using List.reverseRecOn with
    | nil => rfl
    | append_singleton lines line ih =>
        rw [List.foldl_append, List.foldl_cons, List.foldl_nil, List.filter_append, loadLine]
        by_cases hassigns : Assigns name line
        · have hfilter : [line].filter (fun line => decide (Assigns name line)) = [line] := by
            simp [hassigns]
          rw [hfilter, List.getLast?_concat, if_neg (by simp [hassigns.1]), if_pos hassigns.2.symm]
          rfl
        · have hfilter : [line].filter (fun line => decide (Assigns name line)) = [] := by
            simp [hassigns]
          rw [hfilter, List.append_nil, ← ih]
          by_cases hcomment : isComment line = true
          · rw [if_pos hcomment]
          · have hname : name ≠ strip (partition line).1 := fun hname =>
              hassigns ⟨by simpa using hcomment, hname.symm⟩
            rw [if_neg hcomment, if_neg hname]
  exact key (scriptLines t)

private theorem begins_before_newline {p cur more : List Char} (hp : '\n' ∉ p) :
    p <+: cur ++ '\n' :: more ↔ p <+: cur := by
  constructor
  · intro h
    rcases List.prefix_or_prefix_of_prefix h (List.prefix_append cur ('\n' :: more)) with hle | hge
    · exact hle
    · obtain ⟨q, rfl⟩ := hge
      cases q with
      | nil => simp
      | cons d q =>
          rw [List.prefix_append_right_inj, List.cons_prefix_cons] at h
          obtain ⟨rfl, -⟩ := h
          exact absurd (by simp) hp
  · exact fun h => h.trans (List.prefix_append _ _)

private theorem behind_newline_cons {Q : List Char → Prop} {c : Char} {rest : List Char} :
    (∃ x y, c :: rest = x ++ '\n' :: y ∧ Q y) ↔
      (c = '\n' ∧ Q rest) ∨ ∃ x y, rest = x ++ '\n' :: y ∧ Q y := by
  constructor
  · rintro ⟨x, y, hxy, h⟩
    cases x with
    | nil =>
        obtain ⟨rfl, rfl⟩ := List.cons.inj hxy
        exact .inl ⟨rfl, h⟩
    | cons d x =>
        obtain ⟨-, rfl⟩ := List.cons.inj hxy
        exact .inr ⟨x, y, rfl, h⟩
  · rintro (⟨rfl, h⟩ | ⟨x, y, rfl, h⟩)
    · exact ⟨[], rest, rfl, h⟩
    · exact ⟨c :: x, y, rfl, h⟩

private theorem begins_line {p : List Char} (hp : '\n' ∉ p) (hne : p ≠ []) (cur : List Char) :
    (∃ l ∈ linesFrom cur t, p <+: l) ↔
      p <+: cur ++ t ∨ ∃ x y, t = x ++ '\n' :: y ∧ p <+: y := by
  induction t generalizing cur with
  | nil =>
      by_cases hcur : cur = []
      · simp [linesFrom, hcur, hne]
      · simp [linesFrom, hcur]
  | cons c rest ih =>
      rw [behind_newline_cons]
      by_cases hc : c = '\n'
      · subst hc
        rw [linesFrom_newline]
        simp only [List.exists_mem_cons_iff, begins_before_newline hp, ih [], List.nil_append, true_and]
      · rw [linesFrom_other hc, ih (cur ++ [c]), List.append_assoc, List.singleton_append]
        simp only [hc, false_and, false_or]

private theorem universalNewlines_other {c : Char} (hc : c ≠ '\r') (rest : List Char) :
    universalNewlines (c :: rest) = c :: universalNewlines rest := by
  rw [universalNewlines]
  · exact fun rest' h => absurd h hc
  · exact fun h => absurd h hc

private theorem universalNewlines_return {rest : List Char} (h : ∀ more, rest ≠ '\n' :: more) :
    universalNewlines ('\r' :: rest) = '\n' :: universalNewlines rest := by
  rw [universalNewlines]
  exact fun more hrest => h more hrest

private theorem universalNewlines_front {p : List Char} (hp : '\r' ∉ p) (rest : List Char) :
    universalNewlines (p ++ rest) = p ++ universalNewlines rest := by
  induction p with
  | nil => rfl
  | cons c p ih =>
      have hc : c ≠ '\r' := fun h => hp (h ▸ List.mem_cons_self)
      rw [List.cons_append, universalNewlines_other hc,
        ih (fun h => hp (List.mem_cons_of_mem c h)), List.cons_append]

private theorem universalNewlines_behind (x y : List Char) :
    ∃ x', universalNewlines (x ++ '\n' :: y) = x' ++ '\n' :: universalNewlines y := by
  induction x using universalNewlines.induct with
  | case1 => exact ⟨[], universalNewlines_other (by decide) y⟩
  | case2 rest ih =>
      obtain ⟨x', hx'⟩ := ih
      exact ⟨'\n' :: x', by simp [universalNewlines, hx']⟩
  | case3 rest hrest ih =>
      obtain ⟨x', hx'⟩ := ih
      cases rest with
      | nil => exact ⟨[], by simp [universalNewlines]⟩
      | cons d rest =>
          have hd : d ≠ '\n' := fun h => hrest rest (by rw [h])
          refine ⟨'\n' :: x', ?_⟩
          rw [List.cons_append, universalNewlines_return (by simp [hd]), hx', List.cons_append]
  | case4 c rest _ hc ih =>
      obtain ⟨x', hx'⟩ := ih
      refine ⟨c :: x', ?_⟩
      rw [List.cons_append, universalNewlines_other (fun h => hc h), hx', List.cons_append]

private theorem assigns_of_prefix {line : List Char} (h : gwcallEq <+: line) :
    Assigns "GWCALL".toList line := by
  obtain ⟨rest, rfl⟩ := h
  have hline : gwcallEq ++ rest = "GWCALL".toList ++ '=' :: rest := rfl
  constructor
  · have hfirst : (gwcallEq ++ rest).dropWhile isSpace = gwcallEq ++ rest :=
      List.dropWhile_cons_of_neg (by decide)
    have hstrip : strip (gwcallEq ++ rest) =
        [] ++ ['G'] ++ ("WCALL=".toList ++ rest).rdropWhile isSpace := by
      rw [strip, hfirst]
      exact rdropWhile_stop (by decide) [] _
    simp [isComment, hstrip]
  · have htake : (partition (gwcallEq ++ rest)).1 = "GWCALL".toList := by
      rw [partition, hline]
      simp
    rw [htake]
    decide

private theorem lastGwcall_of_firstGwcall {a : List Char} (h : firstGwcall t = some a) :
    ∃ b, lastGwcall t = some b := by
  obtain ⟨l, hl, hvalue⟩ := List.exists_of_findSome?_eq_some h
  have hbegins : gwcallEq <+: l := by
    by_contra hnot
    rw [if_neg hnot] at hvalue
    cases hvalue
  have hp : '\n' ∉ gwcallEq := by decide
  have hne : gwcallEq ≠ [] := by decide
  have hreturn : '\r' ∉ gwcallEq := by decide
  have hline : ∃ line ∈ scriptLines t, gwcallEq <+: line := by
    refine (begins_line hp hne []).mpr ?_
    rcases (begins_line hp hne []).mp ⟨l, hl, hbegins⟩ with hstart | ⟨x, y, rfl, hstart⟩
    · obtain ⟨rest, hrest⟩ := hstart
      rw [List.nil_append] at hrest
      rw [← hrest, universalNewlines_front hreturn]
      exact .inl (List.prefix_append _ _)
    · obtain ⟨rest, rfl⟩ := hstart
      obtain ⟨x', hx'⟩ := universalNewlines_behind x (gwcallEq ++ rest)
      rw [hx', universalNewlines_front hreturn]
      exact .inr ⟨x', _, rfl, List.prefix_append _ _⟩
  obtain ⟨line, hmem, hassigned⟩ := hline
  have hassigns : Assigns "GWCALL".toList line := assigns_of_prefix hassigned
  have hne : (scriptLines t).filter (fun line => decide (Assigns "GWCALL".toList line)) ≠ [] :=
    List.ne_nil_of_mem (List.mem_filter.mpr ⟨hmem, decide_eq_true hassigns⟩)
  rw [lastGwcall, lastOf, List.getLast?_eq_some_getLast hne]
  exact ⟨_, rfl⟩

private theorem firstGwcall_eq_none (h : lastGwcall t = none) : firstGwcall t = none := by
  cases hfirst : firstGwcall t with
  | none => rfl
  | some a =>
      obtain ⟨b, hb⟩ := lastGwcall_of_firstGwcall hfirst
      rw [h] at hb
      cases hb

private theorem lastGwcall_eq_none :
    lastGwcall t = none ↔ ∀ line ∈ scriptLines t, ¬ Assigns "GWCALL".toList line := by
  simp [lastGwcall, lastOf]

end Script

/-- The gateway and both scripts obtain the same GWCALL, or none. -/
def Agree (upper : Char → List Char) (t : List Char) : Prop :=
  configGwcall (loadConfig (fun _ => true) (some (encode t))) =
      (obtained (updatechannelGwcall upper t)).map encode ∧
    configGwcall (loadConfig (fun _ => true) (some (encode t))) =
      (obtained (updateversionGwcall upper t)).map encode

/-- updatechannel.py gets behind its log: both names are assigned, neither to what is a
function of the module syslog. -/
def ChannelLog (upper : Char → List Char) (t : List Char) : Prop :=
  ∃ facility mask, lastOf "LOGFACILITY".toList t = some facility ∧
    lastOf "LOGMASK".toList t = some mask ∧
    isLogNumber upper facility = true ∧ isLogNumber upper mask = true

/-- updateversion.py gets behind its log: it has defaults for both names. -/
def VersionLog (upper : Char → List Char) (t : List Char) : Prop :=
  isLogNumber upper ((lastOf "LOGFACILITY".toList t).getD "USER".toList) = true ∧
    isLogNumber upper ((lastOf "LOGMASK".toList t).getD "INFO".toList) = true

/-- The first line that starts with "GWCALL=" and the last line that assigns it say the same, up
to letter case and within the length of a callsign. -/
def SaidAlike (upper : Char → List Char) (t : List Char) : Prop :=
  ∃ a b, firstGwcall t = some a ∧ lastGwcall t = some b ∧ (encode a).length ≤ maxGwCall ∧
    upcase (encode a) = encode (b.flatMap upper)

/-- There is no callsign for the gateway: no line starts with "GWCALL=", or what the first one
says is too long. -/
def NoCallsign (t : List Char) : Prop :=
  ∀ a, firstGwcall t = some a → maxGwCall < (encode a).length

/-- No line assigns GWCALL as the scripts read it; or both scripts get to it, and it is said
alike; or neither of them does, and the gateway has none. -/
def AllAlike (upper : Char → List Char) (t : List Char) : Prop :=
  (∀ line ∈ scriptLines t, ¬ Assigns "GWCALL".toList line) ∨
    (ChannelLog upper t ∧ SaidAlike upper t) ∨ (¬ VersionLog upper t ∧ NoCallsign t)

section Scripts

variable {upper : Char → List Char} {t : List Char}

private theorem ChannelLog.version (h : ChannelLog upper t) : VersionLog upper t := by
  obtain ⟨facility, mask, hfacility, hmask, hnumbers⟩ := h
  rw [VersionLog, hfacility, hmask]
  exact hnumbers

private theorem setupSyslog_ok {facility mask : List Char}
    (h : isLogNumber upper facility = true ∧ isLogNumber upper mask = true) :
    setupSyslog upper facility mask = .ok () := if_pos h

private theorem setupSyslog_error {facility mask : List Char}
    (h : ¬ (isLogNumber upper facility = true ∧ isLogNumber upper mask = true)) :
    setupSyslog upper facility mask = .error .typeError := if_neg h

private theorem obtained_updateversion (h : VersionLog upper t) :
    obtained (updateversionGwcall upper t) =
      (lastGwcall t).map (fun val => val.flatMap upper) := by
  rw [VersionLog, ← gwConfig_eq, ← gwConfig_eq] at h
  rw [updateversionGwcall, setupSyslog_ok h, lastGwcall, ← gwConfig_eq]
  rfl

private theorem not_obtained_updateversion (h : ¬ VersionLog upper t) :
    obtained (updateversionGwcall upper t) = none := by
  rw [VersionLog, ← gwConfig_eq, ← gwConfig_eq] at h
  rw [updateversionGwcall, setupSyslog_error h]
  rfl

private theorem obtained_updatechannel (h : ChannelLog upper t) :
    obtained (updatechannelGwcall upper t) =
      (lastGwcall t).map (fun val => val.flatMap upper) := by
  obtain ⟨facility, mask, hfacility, hmask, hnumbers⟩ := h
  rw [updatechannelGwcall, item, gwConfig_eq, hfacility, item, gwConfig_eq, hmask, lastGwcall,
    ← gwConfig_eq]
  simp only [bind, Except.bind, setupSyslog_ok hnumbers]
  rfl

private theorem not_obtained_updatechannel (h : ¬ ChannelLog upper t) :
    obtained (updatechannelGwcall upper t) = none := by
  rw [updatechannelGwcall, item, gwConfig_eq]
  cases hfacility : lastOf "LOGFACILITY".toList t with
  | none => rfl
  | some facility =>
      rw [item, gwConfig_eq]
      cases hmask : lastOf "LOGMASK".toList t with
      | none => rfl
      | some mask =>
          have hnumbers : ¬ (isLogNumber upper facility = true ∧ isLogNumber upper mask = true) :=
            fun hn => h ⟨facility, mask, hfacility, hmask, hn⟩
          simp only [bind, Except.bind, setupSyslog_error hnumbers]
          rfl

private theorem same_iff_saidAlike (noNul : '\x00' ∉ t)
    (short : ∀ l ∈ linesFrom [] t, (encode (chomp l)).length < 2047) :
    configGwcall (loadConfig (fun _ => true) (some (encode t))) =
        ((lastGwcall t).map (fun val => val.flatMap upper)).map encode ↔
      lastGwcall t = none ∨ SaidAlike upper t := by
  rw [configGwcall_eq noNul short, SaidAlike]
  cases hlast : lastGwcall t with
  | none => simp [firstGwcall_eq_none hlast]
  | some b =>
      cases hfirst : firstGwcall t with
      | none => simp
      | some a =>
          by_cases hlong : maxGwCall < (encode a).length
          · have hnot : ¬ (encode a).length ≤ maxGwCall := Nat.not_le.mpr hlong
            simp [hlong, hnot]
          · simp [hlong, Nat.not_lt.mp hlong]

private theorem configGwcall_eq_none (noNul : '\x00' ∉ t)
    (short : ∀ l ∈ linesFrom [] t, (encode (chomp l)).length < 2047) :
    configGwcall (loadConfig (fun _ => true) (some (encode t))) = none ↔ NoCallsign t := by
  rw [configGwcall_eq noNul short, NoCallsign]
  cases firstGwcall t with
  | none => simp
  | some a => simp

private theorem noCallsign_of_none (h : lastGwcall t = none) : NoCallsign t := by
  intro a ha
  rw [firstGwcall_eq_none h] at ha
  cases ha

private theorem SaidAlike.callsign (h : SaidAlike upper t) : ¬ NoCallsign t := by
  obtain ⟨a, b, ha, -, hshort, -⟩ := h
  intro hnone
  exact absurd hshort (Nat.not_le.mpr (hnone a ha))

end Scripts

/-- The gateway and both scripts obtain the same GWCALL, or none, exactly when no line assigns it
as the scripts read it, or both scripts come to it and the first assignment that the gateway sees
and the last one that the scripts see say the same, or neither script comes to it and the gateway
has none. -/
theorem readers_agree_iff (upper : Char → List Char) (t : List Char) (noNul : '\x00' ∉ t)
    (short : ∀ l ∈ linesFrom [] t, (encode (chomp l)).length < 2047) :
    Agree upper t ↔ AllAlike upper t := by
  have hsame := @same_iff_saidAlike upper t noNul short
  have hnone := configGwcall_eq_none noNul short
  rw [Agree, AllAlike, ← lastGwcall_eq_none]
  have habsent : lastGwcall t = none → NoCallsign t := noCallsign_of_none
  by_cases hversion : VersionLog upper t
  · rw [obtained_updateversion hversion, hsame]
    by_cases hchannel : ChannelLog upper t
    · rw [obtained_updatechannel hchannel, hsame]
      tauto
    · -- a gateway that agrees with both has no callsign, so nothing is said alike
      have hapart : SaidAlike upper t → ¬ NoCallsign t := SaidAlike.callsign
      rw [not_obtained_updatechannel hchannel, Option.map_none, hnone]
      tauto
  · have hchannel : ¬ ChannelLog upper t := fun h => hversion h.version
    rw [not_obtained_updateversion hversion, not_obtained_updatechannel hchannel, Option.map_none,
      hnone]
    tauto

/-- ASCII letters in upper case. -/
private def upperAscii (c : Char) : List Char := [c.toUpper]

private def plainConf : List Char :=
  "# gateway\nGWCALL=n0call-10 \t\nLOGFACILITY=LOCAL0\nLOGMASK=INFO\n".toList

theorem readers_agree_iff_plain : Agree upperAscii plainConf ↔ AllAlike upperAscii plainConf :=
  readers_agree_iff upperAscii plainConf (by decide) (by decide)

private def twiceConf : List Char :=
  "LOGFACILITY=local0\nLOGMASK=info\nGWCALL=N0AAA-10\nGWCALL=N0BBB-10\n".toList

/-- With two assignments the gateway takes the first and the scripts the last. -/
theorem assigned_twice :
    ('\x00' ∉ twiceConf ∧ ∀ l ∈ linesFrom [] twiceConf, (encode (chomp l)).length < 2047) ∧
      configGwcall (loadConfig (fun _ => true) (some (encode twiceConf))) = some (lit "N0AAA-10") ∧
      updatechannelGwcall upperAscii twiceConf = .ok (some "N0BBB-10".toList) ∧
      updateversionGwcall upperAscii twiceConf = .ok (some "N0BBB-10".toList) ∧
      ¬ Agree upperAscii twiceConf := by
  have hconfig : configGwcall (loadConfig (fun _ => true) (some (encode twiceConf))) =
      some (lit "N0AAA-10") := by decide +kernel
  have hchannel : updatechannelGwcall upperAscii twiceConf = .ok (some "N0BBB-10".toList) := by
    decide +kernel
  refine ⟨by decide +kernel, hconfig, hchannel, by decide +kernel, fun h => ?_⟩
  have hsame := h.1
  rw [hconfig, hchannel] at hsame
  exact absurd hsame (by decide)

end Rmsgw.Conf.Agreement
