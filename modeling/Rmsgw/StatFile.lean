/- Status files: what stat() says of them, how they are touched, how old they are. -/

import Rmsgw.Rms
import Mathlib.Logic.Function.Basic

set_option autoImplicit false
set_option relaxedAutoImplicit false

namespace Rmsgw.StatFile

open Rmsgw.Lib.CStrings

/-- What stat() says of a path: its access and modification times, ENOENT, or
some other error. -/
inductive FileStat
  | absent
  | unreadable
  | times (atime mtime : Int)
  deriving DecidableEq

abbrev Files := Str → FileStat

inductive TouchResult
  | openFailed | utimeFailed | done
  deriving DecidableEq

def pathMax : Nat := 4096

def cmsStatDir : Str := lit "/etc/rmsgw/stat"

/-- `snprintf(statfile, sizeof(statfile), "%s/%s", dir, name)`. -/
def statPath (dir name : Str) : Str := (dir ++ lit "/" ++ name).take (pathMax - 1)

/-- `open` with O_CREAT: a missing file comes into being now. -/
def createFile (fs : Files) (statfile : Str) (now : Int) : Files :=
  if fs statfile = .absent then Function.update fs statfile (.times now now) else fs

/-- Set the access and modification times of a file to now; 0 on success, -1 on error. -/
def setstatfile (fs : Files) (statfile : Str) (now : Int) : TouchResult → Files × Int
  | .openFailed => (fs, -1)
  | .utimeFailed => (createFile fs statfile now, -1)
  | .done => (Function.update (createFile fs statfile now) statfile (.times now now), 0)

/-- The modification time that fileage() works with. -/
def mtimeOf : FileStat → Int
  | .times _ mtime => mtime
  | _ => 0

/-- Age of a file in seconds. -/
def fileage (fs : Files) (theFile : Str) (now : Int) : Int := now - mtimeOf (fs theFile)

theorem setstatfile_done (fs : Files) (statfile : Str) (now : Int) :
    (setstatfile fs statfile now .done).1 = Function.update fs statfile (.times now now) := by
  simp only [setstatfile, createFile]
  split
  · exact Function.update_idem _ _ _
  · rfl

theorem setstatfile_other {fs : Files} {statfile path : Str} (h : path ≠ statfile) (now : Int)
    (r : TouchResult) : (setstatfile fs statfile now r).1 path = fs path := by
  cases r with
  | openFailed => rfl
  | utimeFailed =>
      simp only [setstatfile, createFile]
      split
      · exact Function.update_of_ne h _ _
      · rfl
  | done => rw [setstatfile_done, Function.update_of_ne h]

end Rmsgw.StatFile
