/- The list of CMS hosts when storage runs out: addcmsnode() returns NULL for a node
   that it cannot make, and getcmslist() takes what it returns for the list. -/

import Rmsgw.Hosts.Order

set_option autoImplicit false
set_option relaxedAutoImplicit false

namespace Rmsgw.Hosts.Memory

open Rmsgw.Lib.CStrings Rmsgw.Lib.LeastRecent Rmsgw.Lib.StableOrder Rmsgw.Rms Rmsgw.StatFile
open Rmsgw.Hosts.Model
open Rmsgw.Hosts.Order (Usable nodeFor insert_eq accepted_iff)

/-- Which of the allocations for a node succeed: the node and the copies of the host
name and the password. -/
structure Allocs where
  node : Bool
  host : Bool
  passwd : Bool
  deriving DecidableEq

def Allocs.all (a : Allocs) : Bool := a.node && a.host && a.passwd

/-- An entry of the host file and what storage there is for it. -/
abbrev Turn := Cms × Allocs

def addcmsnode (a : Allocs) (clist : List CmsNode) (c : Cms) (stime : Int) : List CmsNode :=
  if a.node = false then []
  else if a.host = false then []
  else if a.passwd = false then []
  else Model.addcmsnode.insert ⟨c.host, c.port, c.passwd, stime⟩ clist

/-- One turn of the loop of getcmslist(). -/
def addEntry (fs : Files) (cmslist : List CmsNode) (t : Turn) : List CmsNode :=
  if accepted t.1 then
    match fs (cmsStatFile t.1.host) with
    | .absent => addcmsnode t.2 cmslist t.1 0
    | .unreadable => cmslist
    | .times atime _ => addcmsnode t.2 cmslist t.1 atime
  else cmslist

/-- The loop of getcmslist() over the entries that getcmsent() returns. -/
def hostList (fs : Files) (ts : List Turn) : List CmsNode := ts.foldl (addEntry fs) []

/-- `storage` says what there is for each entry of the file. -/
def getcmslist (cmsfile : Option Str) (fs : Files) (storage : Nat → Allocs) :
    Except Fault (List CmsNode) :=
  (hostEntries cmsfile).map (fun cs => hostList fs (cs.mapIdx (fun i c => (c, storage i))))

/-- A usable entry whose allocations succeed. -/
def Stored (fs : Files) (t : Turn) : Prop := Usable fs t.1 ∧ t.2.all = true

/-- A usable entry one of whose allocations fails. -/
def Failed (fs : Files) (t : Turn) : Prop := Usable fs t.1 ∧ t.2.all = false

instance (fs : Files) (t : Turn) : Decidable (Stored fs t) := inferInstanceAs (Decidable (_ ∧ _))

instance (fs : Files) (t : Turn) : Decidable (Failed fs t) := inferInstanceAs (Decidable (_ ∧ _))

/-- The nodes of the entries whose allocations succeed, in file order. -/
def storedNodes (fs : Files) (ts : List Turn) : List CmsNode :=
  (ts.filter (fun t => decide (Stored fs t))).map (fun t => nodeFor fs t.1)

/-- Every host that is stored is on the list, in the order of status times. -/
def KeepsStored (fs : Files) (ts : List Turn) : Prop :=
  IsStableSort CmsNode.statTime (storedNodes fs ts) (hostList fs ts)

/-- A failure for one host leaves the hosts on the list that are on it. -/
def KeepsListed (fs : Files) (ts : List Turn) : Prop :=
  ∀ before t after, ts = before ++ t :: after → Failed fs t →
    hostList fs before ⊆ hostList fs (before ++ [t])

/-- No failure comes behind a host that is stored. -/
def FailuresFirst (fs : Files) (ts : List Turn) : Prop :=
  ts.Pairwise (fun t t' => Stored fs t → ¬ Failed fs t')

instance (fs : Files) (ts : List Turn) : Decidable (FailuresFirst fs ts) :=
  inferInstanceAs (Decidable (ts.Pairwise _))

section Turns

variable (fs : Files)

private theorem addcmsnode_eq (a : Allocs) (clist : List CmsNode) (c : Cms) (stime : Int) :
    addcmsnode a clist c stime = Model.addcmsnode a.all clist c stime := by
  obtain ⟨node, host, passwd⟩ := a
  cases node
  · rfl
  cases host
  · rfl
  cases passwd
  · rfl
  · rfl

/-- The loop with one answer for each entry is the one followed here. -/
theorem getcmslist_eq (cmsfile : Option Str) (alloc : Cms → Bool) :
    Model.getcmslist cmsfile fs alloc =
      (hostEntries cmsfile).map (fun cs =>
        hostList fs (cs.map (fun c => (c, ⟨alloc c, true, true⟩)))) := by
  have hturn : ∀ l c, Model.addEntry fs alloc l c = addEntry fs l (c, ⟨alloc c, true, true⟩) := by
    intro l c
    rw [Model.addEntry, addEntry]
    cases fs (cmsStatFile c.host) <;> simp [addcmsnode_eq, Allocs.all]
  rw [Model.getcmslist]
  refine congrArg (fun f => (hostEntries cmsfile).map f) (funext fun cs => ?_)
  rw [hostList, List.foldl_map]
  exact congrArg (fun f => cs.foldl f []) (funext fun l => funext fun c => hturn l c)

private theorem addEntry_eq (l : List CmsNode) (t : Turn) :
    addEntry fs l t =
      if Stored fs t then insertByTime CmsNode.statTime (nodeFor fs t.1) l
      else if Failed fs t then [] else l := by
  obtain ⟨c, a⟩ := t
  by_cases husable : Usable fs c
  · have hacc : accepted c = true :=
      (accepted_iff c).mpr ⟨husable.1, husable.2.1, husable.2.2.1⟩
    have hadd : addEntry fs l (c, a) = Model.addcmsnode a.all l c (Order.statusTime fs c.host) := by
      rw [addEntry, if_pos hacc]
      cases hst : fs (cmsStatFile c.host) with
      | absent => simp [addcmsnode_eq, Order.statusTime, hst]
      | unreadable => exact absurd hst husable.2.2.2
      | times atime _ => simp [addcmsnode_eq, Order.statusTime, hst]
    rw [hadd, Model.addcmsnode, insert_eq]
    cases hall : a.all <;> simp [Stored, Failed, husable, hall, nodeFor]
  · have hpass : addEntry fs l (c, a) = l := by
      rw [addEntry]
      split
      case isFalse => rfl
      case isTrue hacc =>
        -- what is accepted and not usable has a status file that cannot be looked at
        obtain ⟨hhost, hport, hpasswd⟩ := (accepted_iff c).mp hacc
        have hstat : fs (cmsStatFile c.host) = .unreadable := by
          by_contra hstat
          exact husable ⟨hhost, hport, hpasswd, hstat⟩
        rw [hstat]
    rw [hpass, if_neg fun h => husable h.1, if_neg fun h => husable h.1]

private theorem hostList_snoc (ts : List Turn) (t : Turn) :
    hostList fs (ts ++ [t]) = addEntry fs (hostList fs ts) t := by
  rw [hostList, List.foldl_append, List.foldl_cons, List.foldl_nil, hostList]

private theorem storedNodes_snoc (ts : List Turn) (t : Turn) :
    storedNodes fs (ts ++ [t]) =
      storedNodes fs ts ++ if Stored fs t then [nodeFor fs t.1] else [] := by
  rw [storedNodes, List.filter_append, List.map_append, storedNodes]
  by_cases hstored : Stored fs t <;> simp [hstored]

private theorem storedNodes_eq_nil (ts : List Turn) :
    storedNodes fs ts = [] ↔ ∀ t ∈ ts, ¬ Stored fs t := by
  simp [storedNodes, List.filter_eq_nil_iff]

private theorem failuresFirst_snoc (ts : List Turn) (t : Turn) :
    FailuresFirst fs (ts ++ [t]) ↔
      FailuresFirst fs ts ∧ (Failed fs t → storedNodes fs ts = []) := by
  rw [FailuresFirst, List.pairwise_append, FailuresFirst, storedNodes_eq_nil]
  simp only [List.pairwise_singleton, true_and, List.mem_singleton, forall_eq]
  refine and_congr_right fun _ => ?_
  exact ⟨fun h hfail t' ht' hst => h t' ht' hst hfail, fun h t' ht' hst hfail => h hfail t' ht' hst⟩

private theorem not_stored_of_failed {t : Turn} (h : Failed fs t) : ¬ Stored fs t := fun hst => by
  have hall := hst.2
  rw [h.2] at hall
  cases hall

private theorem hostList_failed (ts : List Turn) {t : Turn} (h : Failed fs t) :
    hostList fs (ts ++ [t]) = [] := by
  rw [hostList_snoc, addEntry_eq, if_neg (not_stored_of_failed fs h), if_pos h]

end Turns

section Lists

variable {fs : Files} {ts : List Turn}

private theorem hostList_eq (h : FailuresFirst fs ts) :
    hostList fs ts = leastRecent CmsNode.statTime (storedNodes fs ts) := by
  induction ts using List.reverseRecOn with
  | nil => rfl
  | append_singleton ts t ih =>
      obtain ⟨hfirst, hnone⟩ := (failuresFirst_snoc fs ts t).mp h
      rw [storedNodes_snoc]
      by_cases hfail : Failed fs t
      · rw [hostList_failed fs ts hfail, hnone hfail, if_neg (not_stored_of_failed fs hfail)]
        rfl
      · rw [hostList_snoc, addEntry_eq, ih hfirst, if_neg hfail]
        split
        · rw [leastRecent_snoc]
        · rw [List.append_nil]

private theorem keepsListed_init {t : Turn} (h : KeepsListed fs (ts ++ [t])) :
    KeepsListed fs ts := by
  rintro before t' after rfl hfail
  exact h before t' (after ++ [t]) (by simp) hfail

private theorem hostList_ne_nil (h : KeepsListed fs ts) (hstored : storedNodes fs ts ≠ []) :
    hostList fs ts ≠ [] := by
  induction ts using List.reverseRecOn with
  | nil => exact absurd rfl hstored
  | append_singleton ts t ih =>
      have hinit := ih (keepsListed_init h)
      rw [hostList_snoc, addEntry_eq]
      split
      case isTrue =>
        intro hnil
        have hperm := insertByTime_perm CmsNode.statTime (nodeFor fs t.1) (hostList fs ts)
        rw [hnil] at hperm
        exact List.cons_ne_nil _ _ hperm.symm.eq_nil
      case isFalse hnot =>
        rw [storedNodes_snoc, if_neg hnot, List.append_nil] at hstored
        split
        case isFalse => exact hinit hstored
        case isTrue hfail =>
          have hkeep := h ts t [] rfl hfail
          rw [hostList_failed fs ts hfail] at hkeep
          exact absurd (List.subset_nil.mp hkeep) (hinit hstored)

private theorem failuresFirst_of_keepsListed (h : KeepsListed fs ts) : FailuresFirst fs ts := by
  induction ts using List.reverseRecOn with
  | nil => exact List.Pairwise.nil
  | append_singleton ts t ih =>
      have hinit := keepsListed_init h
      refine (failuresFirst_snoc fs ts t).mpr ⟨ih hinit, fun hfail => ?_⟩
      have hkeep := h ts t [] rfl hfail
      rw [hostList_failed fs ts hfail] at hkeep
      by_contra hstored
      exact hostList_ne_nil hinit hstored (List.subset_nil.mp hkeep)

private theorem keepsListed_of_failuresFirst (h : FailuresFirst fs ts) : KeepsListed fs ts := by
  rintro before t after rfl hfail
  rw [List.append_cons] at h
  obtain ⟨hfirst, hnone⟩ :=
    (failuresFirst_snoc fs before t).mp (List.Pairwise.sublist (List.sublist_append_left _ _) h)
  rw [hostList_eq hfirst, hnone hfail]
  exact List.nil_subset _

end Lists

/-- For every sequence of entries and every pattern of failures, the hosts that are
stored are listed in the order of status times, and no failure takes hosts off the
list, exactly when no failure comes behind a host that is stored. -/
theorem stored_hosts_kept_iff (fs : Files) :
    (∀ ts, KeepsStored fs ts ∧ KeepsListed fs ts ↔ FailuresFirst fs ts) ∧
      ∀ cmsfile storage, getcmslist cmsfile fs storage =
        (hostEntries cmsfile).map (fun cs => hostList fs (cs.mapIdx (fun i c => (c, storage i)))) := by
  refine ⟨fun ts => ⟨fun h => failuresFirst_of_keepsListed h.2, fun h => ⟨?_, ?_⟩⟩, fun _ _ => rfl⟩
  · exact (isStableSort_iff _ _).mpr (hostList_eq h)
  · exact keepsListed_of_failuresFirst h

private def brentwood : Cms := ⟨lit "brentwood.winlink.org", 8772, lit "CMSTelnet"⟩

private def perth : Cms := ⟨lit "perth.winlink.org", 8772, lit "CMSTelnet"⟩

/-- Storage for the second host's password is missing: the first host is lost with it. -/
theorem second_host_unstored :
    hostList (fun _ => .absent) [(brentwood, ⟨true, true, true⟩), (perth, ⟨true, true, false⟩)] = [] ∧
      storedNodes (fun _ => .absent)
          [(brentwood, ⟨true, true, true⟩), (perth, ⟨true, true, false⟩)] =
        [⟨lit "brentwood.winlink.org", 8772, lit "CMSTelnet", 0⟩] ∧
      ¬ (KeepsStored (fun _ => .absent)
          [(brentwood, ⟨true, true, true⟩), (perth, ⟨true, true, false⟩)] ∧
        KeepsListed (fun _ => .absent)
          [(brentwood, ⟨true, true, true⟩), (perth, ⟨true, true, false⟩)]) := by
  have hlist : hostList (fun _ => .absent)
      [(brentwood, ⟨true, true, true⟩), (perth, ⟨true, true, false⟩)] = [] := by decide
  have hstored : storedNodes (fun _ => .absent)
      [(brentwood, ⟨true, true, true⟩), (perth, ⟨true, true, false⟩)] =
        [⟨lit "brentwood.winlink.org", 8772, lit "CMSTelnet", 0⟩] := by decide
  refine ⟨hlist, hstored, fun h => ?_⟩
  have hperm := h.1.perm
  rw [hlist, hstored] at hperm
  exact List.cons_ne_nil _ _ hperm.symm.eq_nil

end Rmsgw.Hosts.Memory
