/- What loadConfig() makes of a configuration file: the first line of each name,
   wherever the lines stand. -/

import Rmsgw.Conf.Model

set_option autoImplicit false
set_option relaxedAutoImplicit false

namespace Rmsgw.Conf.Settings

open Rmsgw.Lib.CStrings Rmsgw.Hosts.Model Rmsgw.Rms Rmsgw.Conf.Model

/-- The lines of a text, their newlines left out, with `cur` read so far. -/
def textLines (cur : Str) : Str → List Str
  | [] => if cur = [] then [] else [cur]
  | b :: rest => if b = 10 then cur :: textLines [] rest else textLines (cur ++ [b]) rest

/-- Without the blanks and tabs at its end. -/
def bare (s : Str) : Str := s.rdropWhile (fun c => c == 32 || c == 9)

/-- The line begins with the name and '='. -/
def Assigns (name line : Str) : Prop := name ++ lit "=" <+: line

instance (name line : Str) : Decidable (Assigns name line) := inferInstanceAs (Decidable (_ <+: _))

/-- What the first line that begins with the name and '=' has behind these. -/
def setting (lines : List Str) (name : Str) : Option Str :=
  (lines.find? (fun line => decide (Assigns name line))).map
    (fun line => bare (line.drop (name.length + 1)))

/-- The configuration with these values of the names, and `call` for the gateway callsign. -/
def described (value : Str → Option Str) (call : Str) : Config where
  gwcall := upcase call
  channelfile := value (lit "CHANNELFILE")
  gridsquare := value (lit "GRIDSQUARE")
  bannerfile := value (lit "BANNERFILE")
  logfacility := value (lit "LOGFACILITY")
  logmask := value (lit "LOGMASK")
  python := value (lit "PYTHON")
  versionupd := value (lit "VERSIONUPD")
  channelupd := value (lit "CHANNELUPD")
  rmsgwenv := value (lit "RMSGWENV")
  rmsgwacienv := value (lit "RMSGWACIENV")
  hookdir := some ((value (lit "HOOKDIR")).getD hookDir)

/-- The trimmed lines that fmapname() compares with a name. -/
def entries (file : Str) : List Str :=
  (fgetsAll ⟨[], nothing_read⟩ file).map (fun piece => strtrim (fgetline piece.bytes))

/-- The lines of a file in another order, lines of the same name in the order they had. -/
structure Reordered (file file' : Str) : Prop where
  perm : (textLines [] file').Perm (textLines [] file)
  same_name : ∀ name ∈ logicals,
    (textLines [] file').filter (fun line => decide (Assigns name line)) =
      (textLines [] file).filter (fun line => decide (Assigns name line))

theorem rdropWhile_stop {α : Type} {p : α → Bool} {c : α} (hc : p c = false) (s rest : List α) :
    (s ++ [c] ++ rest).rdropWhile p = s ++ [c] ++ rest.rdropWhile p := by
  induction rest using List.reverseRecOn with
  | nil =>
      rw [List.append_nil, List.rdropWhile_concat_neg _ _ _ (by simp [hc]), List.rdropWhile_nil,
        List.append_nil]
  | append_singleton rest d ih =>
      rw [← List.append_assoc]
      by_cases hd : p d = true
      · rw [List.rdropWhile_concat_pos _ _ _ hd, List.rdropWhile_concat_pos _ _ _ hd]
        exact ih
      · rw [List.rdropWhile_concat_neg _ _ _ hd, List.rdropWhile_concat_neg _ _ _ hd,
          List.append_assoc]

theorem strtrim_eq (entry : Str) : strtrim entry = bare entry := by
  rw [strtrim, bare]
  congr 1
  funext c
  have hblanks : lit " \t" = [32, 9] := by decide
  rw [hblanks, Bool.eq_iff_iff]
  simp

section Lines

variable {cur t : Str}

theorem textLines_newline (cur rest : Str) :
    textLines cur (10 :: rest) = cur :: textLines [] rest := by simp [textLines]

private theorem textLines_other {b : UInt8} (hb : b ≠ 10) (cur rest : Str) :
    textLines cur (b :: rest) = textLines (cur ++ [b]) rest := by simp [textLines, hb]

theorem textLines_skip {bs : Str} (hbs : (10 : UInt8) ∉ bs) (cur rest : Str) :
    textLines cur (bs ++ rest) = textLines (cur ++ bs) rest := by
  induction bs generalizing cur with
  | nil => simp
  | cons b bs ih =>
      have hb : b ≠ 10 := fun h => hbs (h ▸ List.mem_cons_self)
      rw [List.cons_append, textLines_other hb, ih (fun h => hbs (List.mem_cons_of_mem b h))]
      simp

private theorem textLines_extends (hne : cur ≠ []) (t : Str) :
    ∃ l ∈ textLines cur t, cur <+: l := by
  induction t generalizing cur with
  | nil => exact ⟨cur, by simp [textLines, hne], List.prefix_refl cur⟩
  | cons b rest ih =>
      by_cases hb : b = 10
      · subst hb
        exact ⟨cur, by simp [textLines], List.prefix_refl cur⟩
      · obtain ⟨l, hl, hextends⟩ := ih (by simp : cur ++ [b] ≠ [])
        rw [textLines_other hb]
        exact ⟨l, hl, (List.prefix_append cur [b]).trans hextends⟩

private theorem nul_mem_textLines :
    (0 : UInt8) ∈ cur ++ t ↔ ∃ l ∈ textLines cur t, (0 : UInt8) ∈ l := by
  induction t generalizing cur with
  | nil => by_cases hcur : cur = [] <;> simp [textLines, hcur]
  | cons b rest ih =>
      by_cases hb : b = 10
      · subst hb
        rw [textLines_newline, List.exists_mem_cons_iff, ← ih, List.nil_append]
        simp
      · rw [textLines_other hb, ← ih, List.append_assoc, List.singleton_append]

theorem fgetline_newline (hnul : (0 : UInt8) ∉ cur) : fgetline (cur ++ [10]) = cur := by
  have htext : text (cur ++ [10]) = cur ++ [10] := text_of_noNul (by simp [hnul])
  simp [fgetline, htext]

theorem fgetline_last (hnul : (0 : UInt8) ∉ cur) (hcur : (10 : UInt8) ∉ cur) :
    fgetline cur = cur := by
  have hlast : cur.getLast? ≠ some 10 := fun h => hcur (List.mem_of_getLast? h)
  simp [fgetline, text_of_noNul hnul, hlast]

/-- What successive calls of fgets() with a buffer of `size` bytes bring, with `cur` read so far. -/
def fgetsPieces (size : Nat) (cur : Str) : Str → List Str
  | [] => if cur = [] then [] else [cur]
  | b :: rest =>
      if b = 10 then (cur ++ [b]) :: fgetsPieces size [] rest
      else if (cur ++ [b]).length + 1 < size then fgetsPieces size (cur ++ [b]) rest
      else (cur ++ [b]) :: fgetsPieces size [] rest

private theorem fgetsAll_eq (hfits : cur.length + 1 < cbufSize) (t : Str) :
    (fgetsAll ⟨cur, hfits⟩ t).map Piece.bytes = fgetsPieces cbufSize cur t := by
  induction t generalizing cur with
  | nil => by_cases hnil : cur = [] <;> simp [fgetsAll, fgetsPieces, hnil]
  | cons b rest ih =>
      simp only [fgetsAll, fgetsPieces]
      split
      · rw [List.map_cons, ih]
      split
      · rw [ih]
      · rw [List.map_cons, ih]

private theorem fgetline_text {s : Str} (hs : (10 : UInt8) ∉ s) : fgetline s = text s := by
  have hlast : (text s).getLast? ≠ some 10 := fun h =>
    hs ((List.takeWhile_prefix _).subset (List.mem_of_getLast? h))
  rw [fgetline, if_neg hlast]

private theorem fgetline_text_newline {s : Str} (hs : (10 : UInt8) ∉ s) :
    fgetline (s ++ [10]) = text s := by
  by_cases hnul : (0 : UInt8) ∈ s
  · have htext : text (s ++ [10]) = text s := by
      obtain ⟨front, rest, rfl, hfront⟩ := List.eq_append_cons_of_mem hnul
      rw [List.append_assoc, List.cons_append, text_append_nul hfront, text_append_nul hfront]
    rw [← fgetline_text hs, fgetline, fgetline, htext]
  · rw [fgetline_newline hnul, text_of_noNul hnul]

theorem fgetline_fgetsPieces {size : Nat} (hcur : (10 : UInt8) ∉ cur)
    (short : ∀ l ∈ textLines cur t, l.length + 1 < size) :
    (fgetsPieces size cur t).map fgetline = (textLines cur t).map text := by
  induction t generalizing cur with
  | nil => by_cases hnil : cur = [] <;> simp [fgetsPieces, textLines, hnil, fgetline_text hcur]
  | cons b rest ih =>
      by_cases hb : b = 10
      · subst hb
        rw [textLines_newline] at short
        have hrest := ih List.not_mem_nil fun l hl => short l (List.mem_cons_of_mem _ hl)
        simp only [fgetsPieces, if_true, List.map_cons, fgetline_text_newline hcur,
          textLines_newline, hrest]
      · rw [textLines_other hb] at short ⊢
        obtain ⟨l, hl, hextends⟩ := textLines_extends (by simp : cur ++ [b] ≠ []) rest
        have hmore : (cur ++ [b]).length + 1 < size :=
          Nat.lt_of_le_of_lt (Nat.succ_le_succ hextends.length_le) (short l hl)
        have hcur' : (10 : UInt8) ∉ cur ++ [b] := by simp [hcur, Ne.symm hb]
        simp only [fgetsPieces, hb, if_false, if_pos hmore]
        exact ih hcur' short

private theorem fgetline_fgetsAll (hcur : (10 : UInt8) ∉ cur) (hfits : cur.length + 1 < cbufSize)
    (noNul : (0 : UInt8) ∉ cur ++ t) (short : ∀ l ∈ textLines cur t, l.length + 1 < cbufSize) :
    (fgetsAll ⟨cur, hfits⟩ t).map (fun piece => fgetline piece.bytes) = textLines cur t := by
  have hread := congrArg (List.map fgetline) (fgetsAll_eq hfits t)
  rw [List.map_map, fgetline_fgetsPieces hcur short] at hread
  have hlines : (textLines cur t).map text = (textLines cur t).map id :=
    List.map_congr_left fun l hl =>
      text_of_noNul fun hnul => noNul (nul_mem_textLines.mpr ⟨l, hl, hnul⟩)
  exact hread.trans (hlines.trans (List.map_id _))

end Lines

section Names

theorem bare_append (name rest : Str) :
    bare (name ++ lit "=" ++ rest) = name ++ lit "=" ++ bare rest :=
  rdropWhile_stop (by decide) name rest

private theorem assigns_bare (name line : Str) : Assigns name (bare line) ↔ Assigns name line := by
  constructor
  · exact fun h => h.trans (List.rdropWhile_prefix _ line)
  · rintro ⟨rest, rfl⟩
    rw [bare_append]
    exact List.prefix_append _ _

private theorem drop_bare {name line : Str} (h : Assigns name line) :
    (bare line).drop (name.length + 1) = bare (line.drop (name.length + 1)) := by
  obtain ⟨rest, rfl⟩ := h
  have hlen : (name ++ lit "=").length = name.length + 1 := List.length_append
  rw [bare_append, ← hlen, List.drop_left, List.drop_left]

private theorem mapEntry_eq {name : Str} (hname : name.length < 255) (lines : List Str) :
    mapEntry (lines.map strtrim) name = setting lines name := by
  have hbuf : (name ++ lit "=").take 255 = name ++ lit "=" :=
    List.take_of_length_le (by rw [List.length_append]; exact hname)
  have hlen : (name ++ lit "=").length = name.length + 1 := List.length_append
  simp only [mapEntry, hbuf, List.findSome?_map]
  induction lines with
  | nil => rfl
  | cons line lines ih =>
      have hfirst : strnequal (name ++ lit "=") (strtrim line) (name ++ lit "=").length = true ↔
          Assigns name line := by
        rw [strnequal_length, strtrim_eq]
        exact assigns_bare name line
      rw [List.findSome?_cons, Function.comp_apply]
      by_cases h : Assigns name line
      · rw [if_pos (hfirst.mpr h), hlen, strtrim_eq, drop_bare h]
        simp [setting, h]
      · rw [if_neg (fun hp => h (hfirst.mp hp)), ih]
        simp [setting, h]

private theorem mapLogicals_total (entries names : List Str) :
    mapLogicals false (fun _ => true) entries names = .ok (names.map (mapEntry entries)) := by
  induction names with
  | nil => rfl
  | cons name names ih =>
      cases h : mapEntry entries name <;> simp [mapLogicals, ih, h, Except.map]

private theorem fmapname_total (file : Str) (names : List Str) :
    fmapname false (fun _ => true) (some file) names = .ok (names.map (mapEntry (entries file))) :=
  mapLogicals_total (entries file) names

private theorem described_congr {value value' : Str → Option Str}
    (h : ∀ name ∈ logicals, value name = value' name) (call : Str) :
    described value call = described value' call := by
  simp only [logicals, List.forall_mem_cons] at h
  obtain ⟨-, h1, h2, h3, h4, h5, h6, h7, h8, h9, h10, h11, -⟩ := h
  simp only [described, h1, h2, h3, h4, h5, h6, h7, h8, h9, h10, h11]

private theorem logicals_short : ∀ name ∈ logicals, name.length < 255 := by decide

end Names

section Load

variable {file : Str}

theorem loadConfig_eq (file : Str) :
    loadConfig (fun _ => true) (some file) =
      match mapEntry (entries file) (lit "GWCALL") with
      | none => .error .missingCall
      | some call =>
          if maxGwCall < call.length then .error .invalidCall
          else .ok (described (mapEntry (entries file)) call) := by
  rw [loadConfig, fmapname_total]
  generalize mapEntry (entries file) = value
  simp only [logicals, List.map_cons, List.getElem?_cons_zero, List.getElem?_cons_succ,
    Option.join_some]
  cases value (lit "GWCALL") with
  | none => rfl
  | some call =>
      simp only [described]
      split
      · rfl
      · cases value (lit "HOOKDIR") <;> rfl

private theorem mapEntry_entries (noNul : (0 : UInt8) ∉ file)
    (short : ∀ l ∈ textLines [] file, l.length ≤ 2046) :
    ∀ name ∈ logicals, mapEntry (entries file) name = setting (textLines [] file) name := by
  intro name hname
  have hlines := fgetline_fgetsAll List.not_mem_nil nothing_read (by simpa using noNul)
    (fun l hl => Nat.lt_of_le_of_lt (Nat.succ_le_succ (short l hl)) (by decide))
  have hentries : entries file = (textLines [] file).map strtrim := by
    rw [← hlines, List.map_map]
    rfl
  rw [hentries, mapEntry_eq (logicals_short name hname)]

theorem loadConfig_lines (noNul : (0 : UInt8) ∉ file)
    (short : ∀ l ∈ textLines [] file, l.length ≤ 2046) :
    loadConfig (fun _ => true) (some file) =
      match setting (textLines [] file) (lit "GWCALL") with
      | none => .error .missingCall
      | some call =>
          if maxGwCall < call.length then .error .invalidCall
          else .ok (described (setting (textLines [] file)) call) := by
  have hentries := mapEntry_entries noNul short
  rw [loadConfig_eq, hentries _ (by decide)]
  simp only [described_congr hentries]

private theorem setting_congr {lines lines' : List Str} {name : Str}
    (h : lines'.filter (fun line => decide (Assigns name line)) =
      lines.filter (fun line => decide (Assigns name line))) :
    setting lines' name = setting lines name := by
  rw [setting, setting, ← List.head?_filter, ← List.head?_filter, h]

/-- The configuration holds, for each name, what the first line of the name says; it
is loaded exactly if there is a gateway callsign of at most MAXGWCALL characters,
and the order of lines of different names does not matter. -/
theorem loadConfig_settings (file : Str) (noNul : (0 : UInt8) ∉ file)
    (short : ∀ l ∈ textLines [] file, l.length ≤ 2046) :
    ((∃ conf, loadConfig (fun _ => true) (some file) = .ok conf) ↔
        ∃ call, setting (textLines [] file) (lit "GWCALL") = some call ∧ call.length ≤ maxGwCall) ∧
      (∀ conf, loadConfig (fun _ => true) (some file) = .ok conf →
        ∃ call, setting (textLines [] file) (lit "GWCALL") = some call ∧
          conf = described (setting (textLines [] file)) call) ∧
      ∀ file', Reordered file file' →
        loadConfig (fun _ => true) (some file') = loadConfig (fun _ => true) (some file) := by
  have hload := loadConfig_lines noNul short
  refine ⟨?_, ?_, ?_⟩
  · rw [hload]
    cases setting (textLines [] file) (lit "GWCALL") with
    | none => simp
    | some call =>
        by_cases hlong : maxGwCall < call.length
        · simp [hlong, Nat.not_le.mpr hlong]
        · simp [hlong, Nat.not_lt.mp hlong]
  · intro conf hconf
    rw [hload] at hconf
    cases hcall : setting (textLines [] file) (lit "GWCALL") with
    | none =>
        rw [hcall] at hconf
        cases hconf
    | some call =>
        simp only [hcall] at hconf
        split at hconf
        · cases hconf
        · exact ⟨call, rfl, (Except.ok.inj hconf).symm⟩
  · intro file' h
    have noNul' : (0 : UInt8) ∉ file' := by
      intro hmem
      obtain ⟨l, hl, hnul⟩ := nul_mem_textLines.mp (show (0 : UInt8) ∈ [] ++ file' from hmem)
      exact noNul (nul_mem_textLines.mpr ⟨l, h.perm.mem_iff.mp hl, hnul⟩)
    have short' : ∀ l ∈ textLines [] file', l.length ≤ 2046 := fun l hl =>
      short l (h.perm.mem_iff.mp hl)
    have hsame : ∀ name ∈ logicals,
        setting (textLines [] file') name = setting (textLines [] file) name :=
      fun name hname => setting_congr (h.same_name name hname)
    rw [hload, loadConfig_lines noNul' short', hsame _ (by decide)]
    simp only [described_congr hsame]

private def stationConf : Str :=
  lit "# gateway\nLOGMASK=INFO\nGWCALL=n0call-10 \t\nGWCALL=N0CALL-1\nHOOKDIR=/tmp"

theorem loadConfig_settings_station :
    ∃ conf, loadConfig (fun _ => true) (some stationConf) = .ok conf :=
  (loadConfig_settings stationConf (by decide) (by decide)).1.mpr
    ⟨lit "n0call-10", by decide, by decide⟩

end Load

end Rmsgw.Conf.Settings
