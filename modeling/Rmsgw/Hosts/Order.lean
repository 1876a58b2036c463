/- The list of CMS hosts is the stable sort of the usable entries by their status
   times. -/

import Rmsgw.Lib.StableOrder
import Rmsgw.Hosts.Model
import Mathlib.Data.Int.Order.Basic

set_option autoImplicit false
set_option relaxedAutoImplicit false

namespace Rmsgw.Hosts.Order

open Rmsgw.Lib.CStrings Rmsgw.Lib.LeastRecent Rmsgw.Lib.StableOrder Rmsgw.StatFile
open Rmsgw.Hosts.Model

/-- A host, a port that a CMS may listen on, a password, and no error of stat() but
that there is no status file. -/
def Usable (fs : Files) (c : Cms) : Prop :=
  c.host ≠ [] ∧ (1024 ≤ c.port ∧ c.port ≤ 65535) ∧ c.passwd ≠ [] ∧
    fs (cmsStatFile c.host) ≠ .unreadable

instance (fs : Files) (c : Cms) : Decidable (Usable fs c) :=
  inferInstanceAs (Decidable (_ ∧ _))

/-- The status time of a host, 0 without a status file. -/
def statusTime (fs : Files) (host : Str) : Int :=
  match fs (cmsStatFile host) with
  | .times atime _ => atime
  | _ => 0

def nodeFor (fs : Files) (c : Cms) : CmsNode := ⟨c.host, c.port, c.passwd, statusTime fs c.host⟩

/-- The usable entries with their status times, in file order. -/
def usableNodes (fs : Files) (cs : List Cms) : List CmsNode :=
  (cs.filter (fun c => decide (Usable fs c))).map (nodeFor fs)

theorem insert_eq (t : CmsNode) (l : List CmsNode) :
    addcmsnode.insert t l = insertByTime CmsNode.statTime t l := by
  induction l with
  | nil => rfl
  | cons p rest ih => rw [addcmsnode.insert, insertByTime, ih]

theorem accepted_iff (c : Cms) :
    accepted c = true ↔ c.host ≠ [] ∧ (1024 ≤ c.port ∧ c.port ≤ 65535) ∧ c.passwd ≠ [] := by
  simp only [accepted, Bool.and_eq_true, decide_eq_true_eq, Nat.one_le_iff_ne_zero, ne_eq,
    List.length_eq_zero_iff, and_assoc]

theorem addEntry_eq (fs : Files) (l : List CmsNode) (c : Cms) :
    addEntry fs (fun _ => true) l c =
      if Usable fs c then insertByTime CmsNode.statTime (nodeFor fs c) l else l := by
  rw [addEntry]
  by_cases hacc : accepted c = true
  · have husable : Usable fs c ↔ fs (cmsStatFile c.host) ≠ .unreadable := by
      obtain ⟨hhost, hport, hpasswd⟩ := (accepted_iff c).mp hacc
      simp [Usable, hhost, hport, hpasswd]
    rw [if_pos hacc, if_congr husable rfl rfl]
    cases hst : fs (cmsStatFile c.host) with
    | absent => simp [addcmsnode, insert_eq, nodeFor, statusTime, hst]
    | unreadable => simp
    | times a m => simp [addcmsnode, insert_eq, nodeFor, statusTime, hst]
  · have hnot : ¬ Usable fs c := fun h => hacc ((accepted_iff c).mpr ⟨h.1, h.2.1, h.2.2.1⟩)
    rw [if_neg hacc, if_neg hnot]

private theorem usableNodes_snoc (fs : Files) (cs : List Cms) (c : Cms) :
    usableNodes fs (cs ++ [c]) =
      usableNodes fs cs ++ if Usable fs c then [nodeFor fs c] else [] := by
  rw [usableNodes, List.filter_append, List.map_append, usableNodes]
  by_cases husable : Usable fs c <;> simp [husable]

theorem foldl_addEntry (fs : Files) (cs : List Cms) :
    cs.foldl (addEntry fs (fun _ => true)) [] =
      leastRecent CmsNode.statTime (usableNodes fs cs) := by
  induction cs using List.reverseRecOn with
  | nil => rfl
  | append_singleton cs c ih =>
      rw [List.foldl_append, List.foldl_cons, List.foldl_nil, ih, addEntry_eq, usableNodes_snoc]
      split
      · rw [leastRecent_snoc]
      · rw [List.append_nil]

/-- The list of hosts made of the entries of the host file is the stable sort by
status time of the usable entries: none is lost, doubled or changed. -/
theorem getcmslist_stable_sort (fs : Files) :
    (∀ cs out, out = cs.foldl (addEntry fs (fun _ => true)) [] ↔
        IsStableSort CmsNode.statTime (usableNodes fs cs) out) ∧
      ∀ cmsfile, getcmslist cmsfile fs (fun _ => true) =
        (hostEntries cmsfile).map (fun cs => cs.foldl (addEntry fs (fun _ => true)) []) := by
  refine ⟨fun cs out => ?_, fun _ => rfl⟩
  rw [foldl_addEntry, isStableSort_iff]

end Rmsgw.Hosts.Order
