/- Least-recently-tried rotation of the CMS hosts over whole histories of
   sessions, from status files that keep the times of the last attempts. -/

import Rmsgw.Hosts.Fields
import Rmsgw.Hosts.Order
import Rmsgw.Session.OneCms

set_option autoImplicit false
set_option relaxedAutoImplicit false

namespace Rmsgw.Session.Rotation

open Rmsgw.Lib.CStrings Rmsgw.Lib.LeastRecent Rmsgw.Rms Rmsgw.StatFile
open Rmsgw.Lib.StableOrder (leastRecent_map)
open Rmsgw.Hosts.Fields (entry entry_host_length)
open Rmsgw.Hosts.Model Rmsgw.Hosts.Order Rmsgw.Session.Model
open Rmsgw.Channels.Model (Reader XmlDoc RootNode)
open Rmsgw.Lib.Process (run)
open Rmsgw.Session.OneCms (hostLoop_order)

variable {e : Gateway.Model.Env}

/-- A host file whose entries are all valid and have distinct host names. -/
structure HostTable where
  cmsfile : Str
  entries : List Cms
  reads : hostEntries (some cmsfile) = .ok entries
  valid : ∀ c ∈ entries, accepted c = true
  distinct : (entries.map Cms.host).Nodup

/-- One run of the gateway program: its configuration, and what the outside does
in each attempt on a host. -/
structure SessionInput (e : Gateway.Model.Env) where
  setup : Setup
  chanfile : Option XmlDoc
  attempt : Nat → Attempt e

/-- The host loop of one run, over the list made from the table and the status files. -/
def session (T : HostTable) (fs : Files) (i : SessionInput e) : HostRun :=
  match getcmslist (some T.cmsfile) fs (fun _ => true) with
  | .error _ => ⟨[], fs, .stopped⟩
  | .ok cmslist => hostLoop i.setup i.attempt 0 fs (Reader.start i.chanfile) cmslist

/-- A history of runs, each on the status files that the run before has left. -/
def sessions (T : HostTable) : Files → List (SessionInput e) → List HostRun
  | _, [] => []
  | fs, i :: is => session T fs i :: sessions T (session T fs i).files is

def attempts (runs : List HostRun) : List Tried := runs.flatMap HostRun.tried

/-- The time in a host's status file, if there is one. -/
def statTime (fs : Files) (host : Str) : Option Int :=
  match fs (cmsStatFile host) with
  | .times atime _ => some atime
  | _ => none

/-- The time of the last attempt on a host: the latest one in the history, else
the one in the status file from before. -/
def lastAttempt (fs : Files) (past : List Tried) (host : Str) : Option Int :=
  match (past.filter (fun t => t.node.host = host)).getLast? with
  | some t => some t.now
  | none => statTime fs host

/-- Never tried comes first, in file order; then the earlier last attempt. -/
def TriedBefore (last : Str → Option Int) (entries : List Cms) (a b : Cms) : Prop :=
  match last a.host, last b.host with
  | none, some _ => True
  | some _, none => False
  | some s, some t => s < t ∨ (s = t ∧ entries.idxOf a < entries.idxOf b)
  | none, none => entries.idxOf a < entries.idxOf b

/-- Status files are readable and their touches succeed, and the attempts of a
history happen at strictly increasing times, after the epoch and later than all
times that the status files have from before. -/
structure OnTime (T : HostTable) (fs : Files) (runs : List HostRun) : Prop where
  readable : ∀ c ∈ T.entries, fs (cmsStatFile c.host) ≠ .unreadable
  touched : ∀ t ∈ attempts runs, t.touch = .done
  increasing : (attempts runs).Pairwise (fun t u => t.now < u.now)
  epoch : ∀ t ∈ attempts runs, 0 < t.now
  later : ∀ t ∈ attempts runs, ∀ c ∈ T.entries, ∀ s, statTime fs c.host = some s → s < t.now
  positive : ∀ c ∈ T.entries, ∀ s, statTime fs c.host = some s → 0 < s

/-- The session was served by the first host it tried. -/
def ServedFirst (run : HostRun) : Prop := run.tried.length = 1 ∧ run.ending = .served

/-- The time that orders the list: zero without a status file. -/
def listTime (fs : Files) (c : Cms) : Int := (statTime fs c.host).getD 0

/-- The entries in the order of the list. -/
def order (T : HostTable) (fs : Files) : List Cms := leastRecent (listTime fs) T.entries

def nodeOf (fs : Files) (c : Cms) : CmsNode := ⟨c.host, c.port, c.passwd, listTime fs c⟩

def touchAll (fs : Files) (ts : List Tried) : Files :=
  ts.foldl (fun fs t => (setcmsstat fs t.node t.now t.touch).1) fs

section List

theorem nodeFor_eq (fs : Files) (c : Cms) : nodeFor fs c = nodeOf fs c := by
  cases hst : fs (cmsStatFile c.host) <;>
    simp [nodeFor, nodeOf, statusTime, listTime, statTime, hst]

/-- With readable status files the list is the least recent order of the table. -/
theorem getcmslist_eq {T : HostTable} {fs : Files}
    (readable : ∀ c ∈ T.entries, fs (cmsStatFile c.host) ≠ .unreadable) :
    getcmslist (some T.cmsfile) fs (fun _ => true) = .ok ((order T fs).map (nodeOf fs)) := by
  have husable : ∀ c ∈ T.entries, Usable fs c := by
    intro c hc
    obtain ⟨hhost, hport, hpasswd⟩ := (accepted_iff c).mp (T.valid c hc)
    exact ⟨hhost, hport, hpasswd, readable c hc⟩
  have hall : usableNodes fs T.entries = T.entries.map (nodeOf fs) := by
    rw [usableNodes, List.filter_eq_self.mpr fun c hc => decide_eq_true (husable c hc)]
    exact List.map_congr_left fun c _ => nodeFor_eq fs c
  rw [getcmslist, T.reads]
  refine congrArg Except.ok ((foldl_addEntry fs T.entries).trans ?_)
  rw [hall, leastRecent_map]
  rfl

private theorem session_tried {T : HostTable} {fs : Files}
    (readable : ∀ c ∈ T.entries, fs (cmsStatFile c.host) ≠ .unreadable) (i : SessionInput e) :
    (session T fs i).tried.map Tried.node =
      ((order T fs).take (session T fs i).tried.length).map (nodeOf fs) := by
  have hpre : (session T fs i).tried.map Tried.node <+: (order T fs).map (nodeOf fs) := by
    rw [session, getcmslist_eq readable]
    exact (hostLoop_order _ _ _ _ _ _).1
  have htake := List.prefix_iff_eq_take.mp hpre
  rwa [List.length_map, ← List.map_take] at htake

end List

section Times

private theorem host_length {buf : CArray cbufSize} {pieces : List Piece} {cs : List Cms}
    (h : getcmsents buf pieces = .ok cs) : ∀ c ∈ cs, c.host.length ≤ cbufSize := by
  induction pieces generalizing buf cs with
  | nil =>
      obtain rfl := Except.ok.inj h
      intro c hc
      cases hc
  | cons piece rest ih =>
      simp only [getcmsents] at h
      cases hline : parseLine (store buf piece) with
      | error f => rw [hline] at h; cases h
      | ok parsed =>
          rw [hline] at h
          cases parsed with
          | none => exact ih h
          | some p =>
              obtain ⟨c, buf'⟩ := p
              simp only [Except.bind] at h
              cases hrest : getcmsents buf' rest with
              | error f => rw [hrest] at h; cases h
              | ok cs' =>
                  rw [hrest] at h
                  obtain rfl := Except.ok.inj h
                  intro d hd
                  rcases List.mem_cons.mp hd with rfl | hd
                  · have hentry : entry (store buf piece) = .ok (some d) := by
                      rw [entry, hline]
                      rfl
                    exact Nat.le_of_lt (entry_host_length hentry)
                  · exact ih hrest d hd

private theorem cmsStatFile_inj {T : HostTable} {c d : Cms} (hc : c ∈ T.entries)
    (hd : d ∈ T.entries) (h : cmsStatFile c.host = cmsStatFile d.host) : c.host = d.host := by
  have whole : ∀ x ∈ T.entries, cmsStatFile x.host = cmsStatDir ++ lit "/" ++ x.host := by
    intro x hx
    have hlen := host_length T.reads x hx
    refine List.take_of_length_le ?_
    have hdir : (cmsStatDir ++ lit "/").length = 16 := by decide
    rw [List.length_append, hdir]
    simp only [cbufSize, pathMax] at *
    omega
  rw [whole c hc, whole d hd] at h
  exact List.append_cancel_left h

def OfTable (T : HostTable) (ts : List Tried) : Prop :=
  ∀ t ∈ ts, ∃ c ∈ T.entries, t.node.host = c.host

private theorem touchAll_append (fs : Files) (ts us : List Tried) :
    touchAll fs (ts ++ us) = touchAll (touchAll fs ts) us := by
  simp [touchAll, List.foldl_append]

private theorem lastAttempt_snoc (fs : Files) (past : List Tried) (t : Tried) (host : Str) :
    lastAttempt fs (past ++ [t]) host =
      if t.node.host = host then some t.now else lastAttempt fs past host := by
  by_cases h : t.node.host = host
  · simp [lastAttempt, List.filter_append, h]
  · simp [lastAttempt, List.filter_append, h]

theorem statTime_touch {T : HostTable} (fs : Files) {t : Tried} {c : Cms} (hdone : t.touch = .done)
    (ht : ∃ d ∈ T.entries, t.node.host = d.host) (hc : c ∈ T.entries) :
    statTime (setcmsstat fs t.node t.now t.touch).1 c.host =
        (if t.node.host = c.host then some t.now else statTime fs c.host) ∧
      (fs (cmsStatFile c.host) ≠ .unreadable →
        (setcmsstat fs t.node t.now t.touch).1 (cmsStatFile c.host) ≠ .unreadable) := by
  obtain ⟨d, hd, hhost⟩ := ht
  rw [setcmsstat, hdone, setstatfile_done, hhost]
  by_cases h : d.host = c.host
  · simp [statTime, h]
  · have hne : cmsStatFile c.host ≠ cmsStatFile d.host := fun heq =>
      h (cmsStatFile_inj hc hd heq).symm
    simp [statTime, h, Function.update_of_ne hne]

private theorem statTime_touchAll {T : HostTable} {fs : Files} {ts : List Tried}
    (hdone : ∀ t ∈ ts, t.touch = .done) (hts : OfTable T ts) {c : Cms} (hc : c ∈ T.entries) :
    statTime (touchAll fs ts) c.host = lastAttempt fs ts c.host ∧
      (fs (cmsStatFile c.host) ≠ .unreadable →
        touchAll fs ts (cmsStatFile c.host) ≠ .unreadable) := by
  induction ts using List.reverseRecOn with
  | nil => exact ⟨rfl, id⟩
  | append_singleton past t ih =>
      obtain ⟨htime, hread⟩ := ih (fun u hu => hdone u (List.mem_append_left _ hu))
        (fun u hu => hts u (List.mem_append_left _ hu))
      obtain ⟨hstep, hkeep⟩ := statTime_touch (touchAll fs past) (hdone t (by simp))
        (hts t (by simp)) hc
      rw [touchAll_append, lastAttempt_snoc, ← htime]
      exact ⟨hstep, fun h => hkeep (hread h)⟩

private theorem hostLoop_files (setup : Setup) (attempt : Nat → Attempt e) (hostTries : Nat)
    (fs : Files) (r : Reader) (cmslist : List CmsNode) :
    (hostLoop setup attempt hostTries fs r cmslist).files =
      touchAll fs (hostLoop setup attempt hostTries fs r cmslist).tried := by
  induction cmslist generalizing hostTries fs r with
  | nil => rfl
  | cons cmsp rest ih =>
      simp only [hostLoop]
      split
      · rfl
      split
      · split
        · rfl
        · rw [ih]
          rfl
      · rfl

theorem session_files (T : HostTable) (fs : Files) (i : SessionInput e) :
    (session T fs i).files = touchAll fs (session T fs i).tried := by
  simp only [session]
  split
  · rfl
  · exact hostLoop_files _ _ _ _ _ _

private theorem sessions_drop (T : HostTable) (fs : Files) (is : List (SessionInput e)) (k : Nat) :
    (sessions T fs is).drop k =
      sessions T (touchAll fs (attempts ((sessions T fs is).take k))) (is.drop k) := by
  induction k generalizing fs is with
  | zero => rfl
  | succ k ih =>
      cases is with
      | nil => rfl
      | cons i is =>
          simp only [sessions, List.drop_succ_cons, List.take_succ_cons, attempts,
            List.flatMap_cons, touchAll_append]
          rw [ih, session_files]
          rfl

end Times

section History

variable {T : HostTable} {fs : Files} {i : SessionInput e} {is : List (SessionInput e)}

theorem entries_nodup (T : HostTable) : T.entries.Nodup := T.distinct.of_map _

theorem entry_eq {c d : Cms} (hc : c ∈ T.entries) (hd : d ∈ T.entries) (h : c.host = d.host) :
    c = d := List.inj_on_of_nodup_map T.distinct hc hd h

theorem mem_order {c : Cms} : c ∈ order T fs ↔ c ∈ T.entries :=
  (leastRecent_perm _ _).mem_iff

private theorem session_tried_mem
    (readable : ∀ c ∈ T.entries, fs (cmsStatFile c.host) ≠ .unreadable)
    {t : Tried} (ht : t ∈ (session T fs i).tried) :
    ∃ c ∈ (order T fs).take (session T fs i).tried.length, t.node = nodeOf fs c := by
  have hmem := List.mem_map_of_mem (f := Tried.node) ht
  rw [session_tried readable] at hmem
  obtain ⟨c, hc, heq⟩ := List.mem_map.mp hmem
  exact ⟨c, hc, heq.symm⟩

private theorem session_ofTable
    (readable : ∀ c ∈ T.entries, fs (cmsStatFile c.host) ≠ .unreadable) :
    OfTable T (session T fs i).tried := by
  intro t ht
  obtain ⟨c, hc, hnode⟩ := session_tried_mem readable ht
  exact ⟨c, mem_order.mp (List.mem_of_mem_take hc), by rw [hnode]; rfl⟩

private theorem session_hosts (readable : ∀ c ∈ T.entries, fs (cmsStatFile c.host) ≠ .unreadable) :
    (session T fs i).tried.map (fun t => t.node.host) =
      ((order T fs).take (session T fs i).tried.length).map Cms.host := by
  have h := congrArg (List.map CmsNode.host) (session_tried (i := i) readable)
  rw [List.map_map, List.map_map] at h
  exact h

private theorem lastAttempt_cases {past : List Tried} {host : Str} {s : Int}
    (h : lastAttempt fs past host = some s) :
    (∃ t ∈ past, t.now = s) ∨ statTime fs host = some s := by
  simp only [lastAttempt] at h
  split at h
  · rename_i t ht
    have hmem := List.mem_of_getLast? ht
    exact .inl ⟨t, (List.mem_filter.mp hmem).1, Option.some.inj h⟩
  · exact .inr h

private theorem lastAttempt_mem {past : List Tried}
    (hnodup : (past.map (fun t => t.node.host)).Nodup)
    {t : Tried} (ht : t ∈ past) : lastAttempt fs past t.node.host = some t.now := by
  obtain ⟨front, back, rfl⟩ := List.append_of_mem ht
  rw [List.map_append, List.map_cons] at hnodup
  have hback : back.filter (fun u => u.node.host = t.node.host) = [] := by
    rw [List.filter_eq_nil_iff]
    intro u hu heq
    have hcons := (List.nodup_append.mp hnodup).2.1
    exact (List.nodup_cons.mp hcons).1
      (List.mem_map.mpr ⟨u, hu, of_decide_eq_true heq⟩)
  simp [lastAttempt, List.filter_append, hback]

private theorem lastAttempt_unused {past : List Tried} {host : Str}
    (h : ∀ t ∈ past, t.node.host ≠ host) : lastAttempt fs past host = statTime fs host := by
  have hnil : past.filter (fun t => t.node.host = host) = [] := by
    rw [List.filter_eq_nil_iff]
    intro t ht heq
    exact h t ht (of_decide_eq_true heq)
  simp [lastAttempt, hnil]

private theorem OnTime.tail {rest : List HostRun} (h : OnTime T fs (session T fs i :: rest)) :
    OnTime T (session T fs i).files rest := by
  have hall : attempts (session T fs i :: rest) = (session T fs i).tried ++ attempts rest := rfl
  have hdone : ∀ t ∈ (session T fs i).tried, t.touch = .done := fun t ht =>
    h.touched t (hall ▸ List.mem_append_left _ ht)
  have hrest : ∀ t ∈ attempts rest, t ∈ attempts (session T fs i :: rest) := fun t ht =>
    hall ▸ List.mem_append_right _ ht
  have hfirst : ∀ t ∈ (session T fs i).tried, t ∈ attempts (session T fs i :: rest) :=
    fun t ht => hall ▸ List.mem_append_left _ ht
  have hinc := h.increasing
  rw [hall] at hinc
  obtain ⟨-, hinc', hcross⟩ := List.pairwise_append.mp hinc
  rw [session_files]
  constructor
  · intro c hc
    exact (statTime_touchAll hdone (session_ofTable h.readable) hc).2 (h.readable c hc)
  · exact fun t ht => h.touched t (hrest t ht)
  · exact hinc'
  · exact fun t ht => h.epoch t (hrest t ht)
  · intro t ht c hc s hs
    rw [(statTime_touchAll hdone (session_ofTable h.readable) hc).1] at hs
    rcases lastAttempt_cases hs with ⟨u, hu, rfl⟩ | hs
    · exact hcross u hu t ht
    · exact h.later t (hrest t ht) c hc s hs
  · intro c hc s hs
    rw [(statTime_touchAll hdone (session_ofTable h.readable) hc).1] at hs
    rcases lastAttempt_cases hs with ⟨u, hu, rfl⟩ | hs
    · exact h.epoch u (hfirst u hu)
    · exact h.positive c hc s hs

/-- A run on time moves the hosts it tried behind the others. -/
private theorem order_session {rest : List HostRun} (h : OnTime T fs (session T fs i :: rest)) :
    order T (session T fs i).files =
      (order T fs).drop (session T fs i).tried.length ++
        (order T fs).take (session T fs i).tried.length := by
  set ts := (session T fs i).tried with hts
  have hfirst : ∀ t ∈ ts, t ∈ attempts (session T fs i :: rest) := fun t ht =>
    List.mem_append_left _ ht
  have hdone : ∀ t ∈ ts, t.touch = .done := fun t ht => h.touched t (hfirst t ht)
  have htime : ∀ c ∈ T.entries, listTime (session T fs i).files c =
      (lastAttempt fs ts c.host).getD 0 := by
    intro c hc
    rw [listTime, session_files, (statTime_touchAll hdone (session_ofTable h.readable) hc).1]
  have hhosts : ts.map (fun t => t.node.host) = ((order T fs).take ts.length).map Cms.host :=
    session_hosts h.readable
  have hnodup : (ts.map (fun t => t.node.host)).Nodup := by
    rw [hhosts]
    have hall : ((order T fs).map Cms.host).Nodup :=
      ((leastRecent_perm _ _).map _).nodup_iff.mpr T.distinct
    exact ((List.take_sublist ts.length (order T fs)).map Cms.host).nodup hall
  have hmem : ∀ c ∈ (order T fs).take ts.length, c ∈ T.entries := fun c hc =>
    mem_order.mp (List.mem_of_mem_take hc)
  have hused : ∀ c ∈ (order T fs).take ts.length, ∃ t ∈ ts,
      listTime (session T fs i).files c = t.now := by
    intro c hc
    have hhost : c.host ∈ ts.map (fun t => t.node.host) := hhosts ▸ List.mem_map_of_mem hc
    obtain ⟨t, ht, heq⟩ := List.mem_map.mp hhost
    refine ⟨t, ht, ?_⟩
    rw [htime c (hmem c hc), ← heq, lastAttempt_mem hnodup ht]
    rfl
  refine leastRecent_touched (entries_nodup T) ⟨?_, ?_, ?_⟩
  · intro c hc hnot
    rw [htime c hc, lastAttempt_unused, listTime]
    intro t ht heq
    obtain ⟨d, hd, hnode⟩ := session_tried_mem h.readable ht
    have hdc : d = c := entry_eq (hmem d hd) hc (by rw [← heq, hnode]; rfl)
    exact hnot (hdc ▸ hd)
  · have hmap : ((order T fs).take ts.length).map (listTime (session T fs i).files) =
        ts.map Tried.now := by
      calc ((order T fs).take ts.length).map (listTime (session T fs i).files)
          = ((order T fs).take ts.length).map (fun c => (lastAttempt fs ts c.host).getD 0) :=
            List.map_congr_left fun c hc => htime c (hmem c hc)
        _ = (((order T fs).take ts.length).map Cms.host).map
              (fun host => (lastAttempt fs ts host).getD 0) := by rw [List.map_map]; rfl
        _ = ts.map (fun t => (lastAttempt fs ts t.node.host).getD 0) := by
            rw [← hhosts, List.map_map]; rfl
        _ = ts.map Tried.now := List.map_congr_left fun t ht => by
            rw [lastAttempt_mem hnodup ht]; rfl
    have hinc : ts.Pairwise (fun t u => t.now < u.now) :=
      (List.pairwise_append.mp h.increasing).1
    have hnow : (ts.map Tried.now).Pairwise (· < ·) := List.pairwise_map.mpr hinc
    rw [← hmap] at hnow
    exact List.pairwise_map.mp hnow
  · intro a ha b hb
    obtain ⟨t, ht, heq⟩ := hused a ha
    rw [heq, listTime]
    cases hs : statTime fs b.host with
    | none => exact h.epoch t (hfirst t ht)
    | some s => exact h.later t (hfirst t ht) b hb s hs

private theorem OnTime.drop (h : OnTime T fs (sessions T fs is)) (k : Nat) :
    OnTime T (touchAll fs (attempts ((sessions T fs is).take k))) ((sessions T fs is).drop k) ∧
      OfTable T (attempts ((sessions T fs is).take k)) := by
  induction k generalizing fs is with
  | zero => exact ⟨h, fun t ht => by cases ht⟩
  | succ k ih =>
      cases is with
      | nil => exact ⟨h, fun t ht => by cases ht⟩
      | cons i is =>
          obtain ⟨hdrop, htable⟩ := ih h.tail
          simp only [sessions, List.drop_succ_cons, List.take_succ_cons, attempts,
            List.flatMap_cons, touchAll_append]
          rw [← session_files]
          refine ⟨hdrop, ?_⟩
          intro t ht
          rcases List.mem_append.mp ht with ht | ht
          · exact session_ofTable h.readable t ht
          · exact htable t ht

private theorem OnTime.front {runs more : List HostRun} (h : OnTime T fs (runs ++ more)) :
    OnTime T fs runs := by
  have hall : attempts (runs ++ more) = attempts runs ++ attempts more := List.flatMap_append ..
  have hmem : ∀ t ∈ attempts runs, t ∈ attempts (runs ++ more) := fun t ht =>
    hall ▸ List.mem_append_left _ ht
  have hinc := h.increasing
  rw [hall] at hinc
  exact ⟨h.readable, fun t ht => h.touched t (hmem t ht), (List.pairwise_append.mp hinc).1,
    fun t ht => h.epoch t (hmem t ht), fun t ht => h.later t (hmem t ht), h.positive⟩

private theorem sessions_take (T : HostTable) (fs : Files) (is : List (SessionInput e)) (n : Nat) :
    (sessions T fs is).take n = sessions T fs (is.take n) := by
  induction n generalizing fs is with
  | zero => rfl
  | succ n ih =>
      cases is with
      | nil => rfl
      | cons i is => simp only [sessions, List.take_succ_cons, ih]

private theorem sessions_length (T : HostTable) (fs : Files) (is : List (SessionInput e)) :
    (sessions T fs is).length = is.length := by
  induction is generalizing fs with
  | nil => rfl
  | cons i is ih => simp only [sessions, List.length_cons, ih]

private theorem hosts_of_served (h : OnTime T fs (sessions T fs is))
    (served : ∀ run ∈ sessions T fs is, ServedFirst run) :
    (attempts (sessions T fs is)).map (fun t => t.node.host) =
      (heads (order T fs) is.length).map Cms.host := by
  induction is generalizing fs with
  | nil => rfl
  | cons i is ih =>
      have hone : (session T fs i).tried.length = 1 := (served _ List.mem_cons_self).1
      have hrest := ih h.tail fun run hrun => served run (List.mem_cons_of_mem _ hrun)
      rw [order_session h, hone] at hrest
      simp only [sessions, attempts, List.flatMap_cons, List.map_append, List.length_cons, heads]
      rw [session_hosts h.readable, hone]
      exact congrArg _ hrest

private theorem order_triedBefore
    (positive : ∀ c ∈ T.entries, ∀ s, statTime fs c.host = some s → 0 < s)
    {last : Str → Option Int} (hlast : ∀ c ∈ T.entries, statTime fs c.host = last c.host) :
    (order T fs).Pairwise (TriedBefore last T.entries) := by
  refine (leastRecent_pairwise (listTime fs) (entries_nodup T)).imp_of_mem fun {a b} ha hb hab => ?_
  have ha' := (leastRecent_perm _ _).mem_iff.mp ha
  have hb' := (leastRecent_perm _ _).mem_iff.mp hb
  simp only [Before, listTime, hlast a ha', hlast b hb'] at hab
  have hpa := positive a ha'
  have hpb := positive b hb'
  rw [hlast a ha'] at hpa
  rw [hlast b hb'] at hpb
  simp only [TriedBefore]
  cases hla : last a.host with
  | none =>
      cases hlb : last b.host with
      | none => simpa [hla, hlb] using hab
      | some t => trivial
  | some s =>
      have hs := hpa s hla
      cases hlb : last b.host with
      | none =>
          simp only [hla, hlb, Option.getD_some, Option.getD_none] at hab
          omega
      | some t => simpa [hla, hlb] using hab

/-- Over any history that is on time, each session tries hosts in the order of
their last attempts, hosts never tried first; and when every session is served
by the first host it tries, any run of as many consecutive sessions as there are
hosts uses each host exactly once. -/
theorem hosts_rotate (T : HostTable) (fs : Files) (is : List (SessionInput e))
    (h : OnTime T fs (sessions T fs is)) :
    (∀ k run, (sessions T fs is)[k]? = some run →
      ∃ order : List Cms, order.Perm T.entries ∧
        order.Pairwise
          (TriedBefore (lastAttempt fs (attempts ((sessions T fs is).take k))) T.entries) ∧
        run.tried.map (fun t => t.node.host) <+: order.map Cms.host) ∧
    ((∀ run ∈ sessions T fs is, ServedFirst run) →
      ∀ start, start + T.entries.length ≤ is.length →
        ((attempts (((sessions T fs is).drop start).take T.entries.length)).map
          (fun t => t.node.host)).Perm (T.entries.map Cms.host)) := by
  constructor
  · intro k run hk
    obtain ⟨hdrop, htable⟩ := h.drop k
    have hdone : ∀ t ∈ attempts ((sessions T fs is).take k), t.touch = .done := by
      intro t ht
      refine h.touched t ?_
      rw [attempts, ← List.take_append_drop k (sessions T fs is), List.flatMap_append]
      exact List.mem_append_left _ ht
    refine ⟨order T (touchAll fs (attempts ((sessions T fs is).take k))), leastRecent_perm _ _,
      order_triedBefore hdrop.positive
        (fun c hc => (statTime_touchAll hdone htable hc).1), ?_⟩
    have hhead : ((sessions T fs is).drop k).head? = some run := by
      rw [List.head?_drop, hk]
    rw [sessions_drop] at hhead
    cases hrest : is.drop k with
    | nil => rw [hrest] at hhead; cases hhead
    | cons i rest =>
        rw [hrest] at hhead
        obtain rfl := Option.some.inj hhead
        rw [session_hosts hdrop.readable]
        exact (List.take_prefix _ _).map Cms.host
  · intro served start hwindow
    have hdrop := (h.drop start).1
    have hserved : ∀ run ∈ (sessions T fs is).drop start, ServedFirst run := fun run hrun =>
      served run (List.mem_of_mem_drop hrun)
    rw [sessions_drop] at hdrop hserved ⊢
    generalize touchAll fs (attempts ((sessions T fs is).take start)) = fs' at *
    have hwhole := List.take_append_drop T.entries.length (sessions T fs' (is.drop start))
    rw [← hwhole] at hdrop
    have hfront := hdrop.front
    have hserved' : ∀ run ∈ (sessions T fs' (is.drop start)).take T.entries.length,
        ServedFirst run := fun run hrun => hserved run (List.mem_of_mem_take hrun)
    rw [sessions_take] at hfront hserved' ⊢
    have hlen : ((is.drop start).take T.entries.length).length = T.entries.length := by
      rw [List.length_take, List.length_drop]
      omega
    have horder : (order T fs').length = T.entries.length := (leastRecent_perm _ _).length_eq
    rw [hosts_of_served hfront hserved', hlen, ← horder, heads_length]
    exact (leastRecent_perm _ _).map Cms.host

private def station : Gateway.Model.Env := ⟨256, by decide, 0, 0⟩

private def shortAnswers : List Gateway.Model.Answer :=
  [.login true, .fcntl true, .fcntl true, .select true false, .peekClosed]

private def shortTalk : Conversation station where
  answers := shortAnswers
  final := (run (Gateway.Model.step station) Gateway.Model.initial shortAnswers).get (by decide)
  runs := (Option.some_get _).symm

private def twoHosts : HostTable where
  cmsfile := lit "cms1:8772:pw\ncms2:8772:pw\n"
  entries := [⟨lit "cms1", 8772, lit "pw"⟩, ⟨lit "cms2", 8772, lit "pw"⟩]
  reads := by decide +kernel
  valid := by decide
  distinct := by decide

private def vhfChannel : RootNode where
  isElement := true
  name := lit "channel"
  props := [(lit "name", lit "vhf")]
  children := [⟨true, lit "callsign", lit "N0CALL-10"⟩, ⟨true, lit "password", lit "secret"⟩,
    ⟨true, lit "statuschecker", lit "true"⟩]

private def runAt (now : Int) : SessionInput station where
  setup := ⟨some (lit "vhf"), lit "N0CALL-10", none⟩
  chanfile := some ⟨lit "rmschannels", [vhfChannel]⟩
  attempt := fun _ => ⟨now, .done, .connected, shortTalk⟩

private def noFiles : Files := fun _ => .absent

/-- Two runs of the program, a quarter of an hour apart. -/
private def twoRuns : List HostRun := sessions twoHosts noFiles [runAt 1000, runAt 1900]

private theorem twoRuns_tried :
    twoRuns.map (fun run => (run.tried.map (fun t => (t.touch, t.now)), run.ending)) =
      [([(.done, 1000)], .served), ([(.done, 1900)], .served)] := by decide +kernel

private theorem twoRuns_onTime : OnTime twoHosts noFiles twoRuns := by
  have hnone : ∀ c : Cms, statTime noFiles c.host = none := fun c => rfl
  have hall : (attempts twoRuns).map (fun t => (t.touch, t.now)) = [(.done, 1000), (.done, 1900)] := by
    have h := congrArg (List.flatMap Prod.fst) twoRuns_tried
    rw [List.flatMap_map] at h
    rw [attempts, List.map_flatMap]
    exact h
  have htried : ∀ t ∈ attempts twoRuns, t.touch = .done ∧ 0 < t.now := by
    intro t ht
    have hmem := List.mem_map_of_mem (f := fun t : Tried => (t.touch, t.now)) ht
    rw [hall] at hmem
    simp only [List.mem_cons, List.not_mem_nil, Prod.mk.injEq, or_false] at hmem
    rcases hmem with ⟨hd, hn⟩ | ⟨hd, hn⟩
    all_goals exact ⟨hd, by omega⟩
  have hnow : ((attempts twoRuns).map Tried.now).Pairwise (· < ·) := by
    have h := congrArg (List.map Prod.snd) hall
    rw [List.map_map] at h
    rw [show (attempts twoRuns).map Tried.now = [1000, 1900] from h]
    decide
  refine ⟨fun c _ => by simp [noFiles], fun t ht => (htried t ht).1, List.pairwise_map.mp hnow,
    fun t ht => (htried t ht).2, fun t _ c _ s hs => ?_, fun c _ s hs => ?_⟩
  all_goals
    rw [hnone] at hs
    cases hs

theorem hosts_rotate_two_hosts :
    (∃ run, twoRuns[1]? = some run ∧ ∃ order : List Cms, order.Perm twoHosts.entries ∧
      order.Pairwise
        (TriedBefore (lastAttempt noFiles (attempts (twoRuns.take 1))) twoHosts.entries) ∧
      run.tried.map (fun t => t.node.host) <+: order.map Cms.host) ∧
    ((attempts ((twoRuns.drop 0).take 2)).map (fun t => t.node.host)).Perm
      (twoHosts.entries.map Cms.host) := by
  obtain ⟨horder, hwindow⟩ :=
    hosts_rotate twoHosts noFiles [runAt 1000, runAt 1900] twoRuns_onTime
  have hserved : ∀ run ∈ twoRuns, ServedFirst run := by
    intro run hrun
    have hmem := List.mem_map_of_mem
      (f := fun run : HostRun => (run.tried.map (fun t => (t.touch, t.now)), run.ending)) hrun
    rw [twoRuns_tried] at hmem
    simp only [List.mem_cons, List.not_mem_nil, Prod.mk.injEq, or_false] at hmem
    rcases hmem with ⟨htried, hend⟩ | ⟨htried, hend⟩
    all_goals exact ⟨by simpa using congrArg List.length htried, hend⟩
  have hlen : 1 < twoRuns.length := by
    rw [twoRuns, sessions_length]
    decide
  exact ⟨⟨twoRuns[1], List.getElem?_eq_getElem hlen, horder 1 _ (List.getElem?_eq_getElem hlen)⟩,
    hwindow hserved 0 (by decide)⟩

end History

end Rmsgw.Session.Rotation
