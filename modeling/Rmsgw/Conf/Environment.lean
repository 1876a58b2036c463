/- loadenv(): which lines of an environment file set variables, and where their
   tokens are put. -/

import Rmsgw.Conf.Settings
import Rmsgw.Lib.Tokens

set_option autoImplicit false
set_option relaxedAutoImplicit false

namespace Rmsgw.Conf.Environment

open Rmsgw.Lib.CStrings Rmsgw.Lib.Tokens Rmsgw.Rms Rmsgw.Conf.Model
open Rmsgw.Conf.Settings (textLines fgetsPieces fgetline_fgetsPieces)

/-- General IO/string buffer size. -/
def maxBuf : Nat := 512

/-- The elements of the token array. -/
def toksSize : Nat := 2

def succeed : Int := 0

def fail : Int := -1

abbrev Env := Str → Option Str

/-- `setenv(name, value, 1)`; `room` says for which variables there is memory. -/
def setenv (room : Str → Str → Bool) (env : Env) (name value : Str) : Option Env :=
  if name = [] ∨ (61 : UInt8) ∈ name ∨ room name value = false then none
  else some (Function.update env name (some value))

/-- Peel off token values and place them in the token array, with `left` turns of
the loop to go. -/
def peel : Nat → List Str → Str → Except Fault (List Str)
  | 0, toks, _ => .ok toks
  | left + 1, toks, buf =>
      match strtok (fun c => c == 61) buf with
      | none => .ok toks
      | some (tok, rest) =>
          if toks.length < toksSize ∧ tok.length < maxBuf then peel left (toks ++ [tok]) rest
          else .error .bufferOverflow

/-- Eat comments: the buffer ends where the first '#' stood. -/
def uncommented (buf : Str) : Str := buf.takeWhile (fun c => c != 35)

/-- The environment and the number of failures so far. -/
structure Loading where
  env : Env
  failCount : Nat

def setToks (room : Str → Str → Bool) (st : Loading) : List Str → Loading
  | [name, value] =>
      match setenv room st.env name value with
      | some env => { st with env := env }
      | none => { st with failCount := st.failCount + 1 }
  | _ => st

/-- One line of the environment file. -/
def loadLine (room : Str → Str → Bool) (st : Loading) (buf : Str) : Except Fault Loading :=
  (peel 3 [] (uncommented buf)).map (setToks room st)

def loadLines (room : Str → Str → Bool) : Loading → List Str → Except Fault Loading
  | st, [] => .ok st
  | st, buf :: more => (loadLine room st buf).bind (fun st => loadLines room st more)

/-- Read the environment variable file and add to the environment: the environment
and the return value. `none` is a file that cannot be opened. -/
def loadenv (room : Str → Str → Bool) (envfile : Option Str) (env : Env) :
    Except Fault (Env × Int) :=
  match envfile with
  | none => .ok (env, fail)
  | some file =>
      (loadLines room ⟨env, 0⟩ ((fgetsPieces maxBuf [] file).map fgetline)).map
        (fun st => (st.env, if 0 < st.failCount then fail else succeed))

/-- What a line splits into at its runs of '=', once its comment is removed. -/
def fields (line : Str) : List Str := tokens (fun c => c == 61) (uncommented line)

/-- The variable that a line sets: it has exactly two fields. -/
def assignment (line : Str) : Option (Str × Str) :=
  match fields line with
  | [name, value] => some (name, value)
  | _ => none

/-- The lines of a file as strings. -/
def fileLines (file : Str) : List Str := (textLines [] file).map text

/-- The variables that the lines of a file set, in file order. -/
def assignments (file : Str) : List (Str × Str) := (fileLines file).filterMap assignment

def updated (env : Env) (as : List (Str × Str)) : Env :=
  as.foldl (fun env a => Function.update env a.1 (some a.2)) env

private theorem peel_eq {left : Nat} {toks : List Str} {buf : Str}
    (turns : toks.length + left = toksSize + 1)
    (held : toks.length ≤ toksSize) (fits : buf.length < maxBuf) :
    peel left toks buf =
      if toks.length + (tokens (fun c => c == 61) buf).length ≤ toksSize then
        .ok (toks ++ tokens (fun c => c == 61) buf)
      else .error .bufferOverflow := by
  induction left generalizing toks buf with
  | zero => omega
  | succ left ih =>
      rw [peel]
      cases htok : strtok (fun c => c == 61) buf with
      | none => simp [held, tokens_of_none htok]
      | some found =>
          obtain ⟨tok, rest⟩ := found
          obtain ⟨htoklen, hrestlen⟩ := strtok_length htok
          rw [tokens_of_some htok]
          by_cases hroom : toks.length < toksSize
          · have hlen : (toks ++ [tok]).length = toks.length + 1 := List.length_append
            simp only
            rw [if_pos ⟨hroom, by omega⟩, ih (by omega) (by omega) (by omega), hlen,
              List.append_assoc, List.singleton_append, List.length_cons]
            simp only [Nat.add_assoc, Nat.add_comm 1]
          · have hfull : ¬ (toks.length < toksSize ∧ tok.length < maxBuf) := fun h => hroom h.1
            simp only
            rw [if_neg hfull, if_neg (by rw [List.length_cons]; omega)]

section Lines

variable {room : Str → Str → Bool}

private theorem loadLine_eq (st : Loading) {buf : Str} (fits : buf.length < maxBuf) :
    loadLine room st buf =
      if (fields buf).length ≤ toksSize then .ok (setToks room st (fields buf))
      else .error .bufferOverflow := by
  have hlen : (uncommented buf).length ≤ buf.length := (List.takeWhile_prefix _).length_le
  have hpeel : peel 3 [] (uncommented buf) = _ :=
    peel_eq rfl (Nat.zero_le _) (Nat.lt_of_le_of_lt hlen fits)
  rw [List.length_nil, Nat.zero_add, List.nil_append] at hpeel
  rw [loadLine, hpeel, fields]
  split <;> rfl

private theorem loadLines_eq_ok_iff {lines : List Str} (fits : ∀ l ∈ lines, l.length < maxBuf)
    {st st' : Loading} :
    loadLines room st lines = .ok st' ↔
      (∀ l ∈ lines, (fields l).length ≤ toksSize) ∧
        lines.foldl (fun st l => setToks room st (fields l)) st = st' := by
  induction lines generalizing st with
  | nil => simp [loadLines]
  | cons l lines ih =>
      rw [List.forall_mem_cons] at fits ⊢
      rw [loadLines, loadLine_eq st fits.1, List.foldl_cons]
      by_cases htwo : (fields l).length ≤ toksSize
      · rw [if_pos htwo, and_iff_right htwo, ← ih fits.2]
        rfl
      · rw [if_neg htwo]
        simp [htwo, Except.bind]

private theorem mem_fields {line t : Str} (h : t ∈ fields line) : t ≠ [] ∧ (61 : UInt8) ∉ t := by
  obtain ⟨hne, hno⟩ := mem_tokens h
  refine ⟨hne, fun hmem => ?_⟩
  have heq := hno 61 hmem
  simp at heq

private theorem setToks_fields (st : Loading) (line : Str) :
    setToks room st (fields line) =
      match assignment line with
      | none => st
      | some (name, value) =>
          if room name value then { st with env := Function.update st.env name (some value) }
          else { st with failCount := st.failCount + 1 } := by
  have hfields : ∀ t ∈ fields line, t ≠ [] ∧ (61 : UInt8) ∉ t := fun t ht => mem_fields ht
  rw [assignment]
  match hline : fields line with
  | [name, value] =>
      rw [hline] at hfields
      obtain ⟨hne, hno⟩ := hfields name List.mem_cons_self
      cases hroom : room name value <;> simp [setToks, setenv, hne, hno, hroom]
  | [] => rfl
  | [_] => rfl
  | _ :: _ :: _ :: _ => rfl

private theorem foldl_setToks (st : Loading) (lines : List Str) :
    lines.foldl (fun st l => setToks room st (fields l)) st =
      ⟨updated st.env ((lines.filterMap assignment).filter (fun a => room a.1 a.2)),
        st.failCount + (lines.filterMap assignment).countP (fun a => !room a.1 a.2)⟩ := by
  induction lines generalizing st with
  | nil => rfl
  | cons l lines ih =>
      rw [List.foldl_cons, ih, setToks_fields]
      cases hset : assignment l with
      | none => simp [hset]
      | some a =>
          cases hroom : room a.1 a.2 <;>
            simp [hset, hroom, updated, Nat.add_comm 1, Nat.add_assoc]

end Lines

/-- No token is stored outside the token array, and the environment is updated, in
file order, by exactly the lines of two fields, so far as there is memory. -/
def Selective (room : Str → Str → Bool) (file : Str) (env : Env) : Prop :=
  loadenv room (some file) env =
    .ok (updated env ((assignments file).filter (fun a => room a.1 a.2)),
      if (assignments file).all (fun a => room a.1 a.2) then succeed else fail)

/-- A file whose lines fit the buffer is loaded selectively exactly when no line
splits into more than two fields: the third is stored behind the token array. -/
theorem loadenv_selective_iff (room : Str → Str → Bool) (file : Str)
    (short : ∀ l ∈ textLines [] file, l.length < maxBuf - 1) (env : Env) :
    Selective room file env ↔ ∀ l ∈ fileLines file, (fields l).length ≤ toksSize := by
  have hread : (fgetsPieces maxBuf [] file).map fgetline = fileLines file :=
    fgetline_fgetsPieces List.not_mem_nil fun l hl => by
      have hlen := short l hl
      omega
  have fits : ∀ l ∈ fileLines file, l.length < maxBuf := by
    intro l hl
    obtain ⟨line, hline, rfl⟩ := List.mem_map.mp hl
    have hlen := short line hline
    have htext : (text line).length ≤ line.length := (List.takeWhile_prefix _).length_le
    omega
  have hcode : 0 < (assignments file).countP (fun a => !room a.1 a.2) ↔
      ¬ (assignments file).all (fun a => room a.1 a.2) = true := by
    rw [List.countP_pos_iff]
    simp
  rw [Selective, loadenv, hread]
  constructor
  · intro h
    cases hlines : loadLines room ⟨env, 0⟩ (fileLines file) with
    | error f =>
        simp only [hlines] at h
        cases h
    | ok st => exact ((loadLines_eq_ok_iff fits).mp hlines).1
  · intro htwo
    have hlines : loadLines room ⟨env, 0⟩ (fileLines file) = .ok _ :=
      (loadLines_eq_ok_iff fits).mpr ⟨htwo, rfl⟩
    rw [hlines, foldl_setToks]
    refine congrArg Except.ok (Prod.ext rfl ?_)
    rw [assignments] at hcode ⊢
    simp only [Nat.zero_add]
    rw [ite_congr (propext hcode) (fun _ => rfl) fun _ => rfl, ite_not]

private def stationEnv : Str := lit "PYTHONHOME=/usr/lib/python2.7 # ours\n==\nLANG=C\n"

theorem loadenv_selective_iff_station :
    Selective (fun _ _ => true) stationEnv (fun _ => none) ↔
      ∀ l ∈ fileLines stationEnv, (fields l).length ≤ toksSize :=
  loadenv_selective_iff (fun _ _ => true) stationEnv (by decide) (fun _ => none)

private def threeFields : Str := lit "PATH=a=b\n"

/-- A line with a second '=' sets nothing, but its third token goes behind the array. -/
theorem third_token_overflows :
    assignments threeFields = [] ∧
      loadenv (fun _ _ => true) (some threeFields) (fun _ => none) = .error .bufferOverflow ∧
      ¬ Selective (fun _ _ => true) threeFields (fun _ => none) := by
  have hload : loadenv (fun _ _ => true) (some threeFields) (fun _ => none) =
      .error .bufferOverflow := rfl
  refine ⟨by decide, hload, fun h => ?_⟩
  rw [Selective, hload] at h
  cases h

end Rmsgw.Conf.Environment
