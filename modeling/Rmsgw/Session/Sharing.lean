/- Several gateway processes over one host table and its status files: in whatever order
   they read and touch them, how long a CMS can go without being tried. -/

import Rmsgw.Lib.SharedOrder
import Rmsgw.Session.Rotation

set_option autoImplicit false
set_option relaxedAutoImplicit false

namespace Rmsgw.Session.Sharing

open Rmsgw.Lib.CStrings Rmsgw.Lib.LeastRecent Rmsgw.Lib.Process Rmsgw.StatFile Rmsgw.Hosts.Model
open Rmsgw.Hosts.Order (addEntry_eq accepted_iff nodeFor Usable)
open Rmsgw.Lib.StableOrder (insertByTime_map)
open Rmsgw.Session.Model Rmsgw.Session.Rotation
open Rmsgw.Channels.Model (Reader)
open Rmsgw.Lib.SharedOrder (System User)

/-- No process on this port, one that makes its list of hosts, or one that tries them. -/
inductive Gateway
  | absent
  | listing (cmslist : List CmsNode) (rest : List Cms)
  | trying (cmsp : List CmsNode)

/-- main() comes to getcmslist(), which takes up an entry, or has no more; the host loop
takes up a host; the process ends. -/
inductive Move
  | start
  | entry
  | attempt (now : Int) (touch : TouchResult)
  | exit

/-- The status files, the processes, and the hosts tried so far. -/
structure State (p : Nat) where
  files : Files
  gateways : Fin p → Gateway
  tried : List Str

abbrev Act (p : Nat) := Fin p × Move

variable {p : Nat}

def Gateway.next (T : HostTable) (fs : Files) : Gateway → Move → Option Gateway
  | .absent, .start => some (.listing [] T.entries)
  | .listing cmslist (c :: rest), .entry =>
      some (.listing (addEntry fs (fun _ => true) cmslist c) rest)
  | .listing cmslist [], .entry => some (.trying cmslist)
  | .listing _ _, .exit => some .absent
  | .trying (_ :: cmsp), .attempt _ _ => some (.trying cmsp)
  | .trying _, .exit => some .absent
  | _, _ => none

/-- The host that a process takes up, and what comes of touching its status file. -/
def Gateway.tries : Gateway → Move → Option (CmsNode × Int × TouchResult)
  | .trying (cmsp :: _), .attempt now touch => some (cmsp, now, touch)
  | _, _ => none

def touched (fs : Files) : Option (CmsNode × Int × TouchResult) → Files
  | some (cmsp, now, touch) => (setcmsstat fs cmsp now touch).1
  | none => fs

def step (T : HostTable) : Step (State p) (Act p) := fun s a =>
  ((s.gateways a.1).next T s.files a.2).map fun gw =>
    { files := touched s.files ((s.gateways a.1).tries a.2)
      gateways := Function.update s.gateways a.1 gw
      tried := s.tried ++ (((s.gateways a.1).tries a.2).map (fun q => q.1.host)).toList }

def start (fs : Files) : State p := ⟨fs, fun _ => .absent, []⟩

def Gateway.running : Gateway → Bool
  | .absent => false
  | _ => true

def running (s : State p) : Nat := ∑ k, if (s.gateways k).running then 1 else 0

/-- How many hosts a process has taken up. -/
def Gateway.triesMade (T : HostTable) : Gateway → Nat
  | .trying cmsp => T.entries.length - cmsp.length
  | _ => 0

/-- No process starts while `c` are running or takes up more than `m` hosts, and every
attempt touches its status file at a time later than all status times. -/
def Orderly (T : HostTable) (c m : Nat) (s : State p) (a : Act p) : Prop :=
  match a.2 with
  | .start => running s < c
  | .attempt now touch =>
      (s.gateways a.1).triesMade T < m ∧ touch = .done ∧ ∀ e ∈ T.entries, listTime s.files e < now
  | _ => True

instance (T : HostTable) (c m : Nat) (s : State p) : (a : Act p) → Decidable (Orderly T c m s a)
  | (_, .start) => inferInstanceAs (Decidable (_ < _))
  | (_, .entry) => isTrue trivial
  | (_, .attempt _ _) => inferInstanceAs (Decidable (_ ∧ _))
  | (_, .exit) => isTrue trivial

/-- The node of an entry with the time that its status file has shown. -/
def listed (x : Cms × Int) : CmsNode := ⟨x.1.host, x.1.port, x.1.passwd, x.2⟩

/-- A process as a user of the table. -/
inductive Stands (T : HostTable) : Gateway → User Cms Int → Prop
  | absent : Stands T .absent .away
  | listing (seen : List (Cms × Int)) (rest : List Cms) (ofTable : ∀ c ∈ rest, c ∈ T.entries)
      (known : ∀ x ∈ seen, x.1 ∈ T.entries) :
      Stands T (.listing (seen.map listed) rest) (.looking seen rest)
  | trying (todo : List (Cms × Int)) (known : ∀ x ∈ todo, x.1 ∈ T.entries) :
      Stands T (.trying (todo.map listed)) (.taking todo)

/-- The processes with their status files as users of the table. -/
structure Shows (T : HostTable) (s : State p) (u : System Cms Int p) : Prop where
  time : ∀ c ∈ T.entries, u.time c = listTime s.files c
  gateways : ∀ k, Stands T (s.gateways k) (u.users k)
  tried : s.tried = u.taken.map Cms.host
  readable : ∀ c ∈ T.entries, s.files (cmsStatFile c.host) ≠ .unreadable

def move : Move → Lib.SharedOrder.Move Int
  | .start => .come
  | .entry => .look
  | .attempt now _ => .take now
  | .exit => .leave

section Simulation

variable {T : HostTable} {c m : Nat} {s t : State p} {u : System Cms Int p} {a : Act p}

private theorem usable_of_readable
    (readable : ∀ c ∈ T.entries, s.files (cmsStatFile c.host) ≠ .unreadable)
    {c : Cms} (hc : c ∈ T.entries) : Usable s.files c := by
  obtain ⟨hhost, hport, hpasswd⟩ := (accepted_iff c).mp (T.valid c hc)
  exact ⟨hhost, hport, hpasswd, readable c hc⟩

private theorem addEntry_listed (hs : Shows T s u) {c : Cms} (hc : c ∈ T.entries)
    (seen : List (Cms × Int)) :
    addEntry s.files (fun _ => true) (seen.map listed) c =
      (insertByTime Prod.snd (c, u.time c) seen).map listed := by
  have hnode : nodeFor s.files c = listed (c, u.time c) := by
    rw [nodeFor_eq, hs.time c hc]
    rfl
  rw [addEntry_eq, if_pos (usable_of_readable hs.readable hc), hnode, insertByTime_map]
  rfl

private theorem running_eq (hs : Shows T s u) : running s = Lib.SharedOrder.present u := by
  refine Finset.sum_congr rfl fun k _ => ?_
  have hk := hs.gateways k
  generalize s.gateways k = gw at hk
  generalize u.users k = user at hk
  cases hk <;> rfl

private theorem triesMade_eq {gw : Gateway} {user : User Cms Int} (h : Stands T gw user) :
    gw.triesMade T = user.count T.entries := by
  cases h with
  | absent => rfl
  | listing seen rest _ _ => rfl
  | trying todo _ => rw [Gateway.triesMade, User.count, List.length_map]

private theorem Shows.orderly (hs : Shows T s u) (ho : Orderly T c m s a) :
    Lib.SharedOrder.Orderly T.entries c m u (a.1, move a.2) := by
  obtain ⟨k, mv⟩ := a
  cases mv with
  | start =>
      exact ⟨fun _ => running_eq hs ▸ ho, fun _ h => (by cases h), fun _ h => (by cases h)⟩
  | entry => exact ⟨fun h => (by cases h), fun _ h => (by cases h), fun _ h => (by cases h)⟩
  | exit => exact ⟨fun h => (by cases h), fun _ h => (by cases h), fun _ h => (by cases h)⟩
  | attempt now touch =>
      obtain ⟨hfew, -, hlater⟩ := ho
      refine ⟨fun h => by (cases h), fun _ _ => triesMade_eq (hs.gateways k) ▸ hfew, ?_⟩
      rintro now' heq e he
      obtain rfl := Lib.SharedOrder.Move.take.inj heq
      rw [hs.time e he]
      exact hlater e he

/-- Where a process and its user stand after a move, and what both take by it. -/
private theorem Stands.next (hs : Shows T s u) {gw gw' : Gateway} {user : User Cms Int}
    (h : Stands T gw user) {mv : Move} (hnext : gw.next T s.files mv = some gw') :
    (∃ user', user.next T.entries u.time (move mv) = some user' ∧ Stands T gw' user') ∧
      ((gw.tries mv = none ∧ user.takes (move mv) = none) ∨
        ∃ x now touch, mv = .attempt now touch ∧ x.1 ∈ T.entries ∧
          gw.tries mv = some (listed x, now, touch) ∧ user.takes (move mv) = some (x.1, now)) := by
  cases h with
  | absent =>
      cases mv with
      | start =>
          obtain rfl := Option.some.inj hnext
          exact ⟨⟨_, rfl, .listing [] T.entries (fun _ hc => hc) (by simp)⟩, .inl ⟨rfl, rfl⟩⟩
      | _ => cases hnext
  | listing seen rest ofTable known =>
      cases mv with
      | entry =>
          cases rest with
          | nil =>
              obtain rfl := Option.some.inj hnext
              exact ⟨⟨_, rfl, .trying seen known⟩, .inl ⟨rfl, rfl⟩⟩
          | cons c rest =>
              obtain rfl := Option.some.inj hnext
              have hc := ofTable c List.mem_cons_self
              refine ⟨⟨_, rfl, ?_⟩, .inl ⟨rfl, rfl⟩⟩
              rw [addEntry_listed hs hc]
              refine .listing _ rest (fun d hd => ofTable d (List.mem_cons_of_mem c hd)) ?_
              intro x hx
              rcases List.mem_cons.mp ((insertByTime_perm _ _ _).mem_iff.mp hx) with rfl | hx
              · exact hc
              · exact known x hx
      | exit =>
          cases rest <;> obtain rfl := Option.some.inj hnext <;>
            exact ⟨⟨_, rfl, .absent⟩, .inl ⟨rfl, rfl⟩⟩
      | _ => cases rest <;> cases hnext
  | trying todo known =>
      cases mv with
      | attempt now touch =>
          cases todo with
          | nil => cases hnext
          | cons x todo =>
              obtain rfl := Option.some.inj hnext
              refine ⟨⟨_, rfl, .trying todo fun y hy => known y (List.mem_cons_of_mem x hy)⟩, ?_⟩
              exact .inr ⟨x, now, touch, rfl, known x List.mem_cons_self, rfl, rfl⟩
      | exit =>
          cases todo <;> obtain rfl := Option.some.inj hnext <;>
            exact ⟨⟨_, rfl, .absent⟩, .inl ⟨rfl, rfl⟩⟩
      | _ => cases todo <;> cases hnext

private theorem listTime_touch (fs : Files) {x : Cms × Int} (hx : x.1 ∈ T.entries) (now : Int)
    {c : Cms} (hc : c ∈ T.entries) :
    listTime (setcmsstat fs (listed x) now .done).1 c =
        Function.update (listTime fs) x.1 now c ∧
      (fs (cmsStatFile c.host) ≠ .unreadable →
        (setcmsstat fs (listed x) now .done).1 (cmsStatFile c.host) ≠ .unreadable) := by
  obtain ⟨htime, hread⟩ := statTime_touch (T := T) fs (t := ⟨listed x, now, .done, .exited⟩)
    (c := c) rfl ⟨x.1, hx, rfl⟩ hc
  change statTime (setcmsstat fs (listed x) now .done).1 c.host =
    if x.1.host = c.host then some now else statTime fs c.host at htime
  refine ⟨?_, hread⟩
  rw [listTime, htime]
  by_cases heq : x.1.host = c.host
  · rw [if_pos heq, entry_eq hx hc heq, Function.update_self]
    rfl
  · have hne : c ≠ x.1 := fun h => heq (h ▸ rfl)
    rw [Function.update_of_ne hne, if_neg heq]
    rfl

private theorem Shows.step (hs : Shows T s u) (ho : Orderly T c m s a)
    (hstep : step T s a = some t) :
    ∃ v, Lib.SharedOrder.step T.entries u (a.1, move a.2) = some v ∧ Shows T t v := by
  obtain ⟨gw, hgw, rfl⟩ := Option.map_eq_some_iff.mp hstep
  obtain ⟨⟨user, huser, hstands⟩, htries⟩ := (hs.gateways a.1).next hs hgw
  have hgateways : ∀ k, Stands T (Function.update s.gateways a.1 gw k)
      (Function.update u.users a.1 user k) := by
    intro k
    by_cases hk : k = a.1
    · subst hk
      simpa only [Function.update_self] using hstands
    · simpa only [Function.update_of_ne hk] using hs.gateways k
  refine ⟨_, by rw [Lib.SharedOrder.step, huser, Option.map_some], ?_⟩
  rcases htries with ⟨hnone, htakes⟩ | ⟨x, now, touch, hmove, hx, hsome, htakes⟩
  · simp only [hnone, htakes]
    exact ⟨hs.time, hgateways, by simpa using hs.tried, hs.readable⟩
  · have hdone : touch = .done := by
      rw [Orderly, hmove] at ho
      exact ho.2.1
    subst hdone
    simp only [hsome, htakes]
    refine ⟨fun e he => ?_, hgateways, by simp [hs.tried, listed], fun e he => ?_⟩
    · change Function.update u.time x.1 now e = listTime (setcmsstat s.files (listed x) now .done).1 e
      rw [(listTime_touch s.files hx now he).1]
      by_cases heq : e = x.1
      · rw [heq, Function.update_self, Function.update_self]
      · rw [Function.update_of_ne heq, Function.update_of_ne heq, hs.time e he]
    · exact (listTime_touch s.files hx now he).2 (hs.readable e he)

private theorem shows_start {fs : Files}
    (readable : ∀ c ∈ T.entries, fs (cmsStatFile c.host) ≠ .unreadable) :
    Shows T (start fs : State p) (Lib.SharedOrder.start (listTime fs)) :=
  ⟨fun _ _ => rfl, fun _ => .absent, rfl, readable⟩

end Simulation

/-- At most `c` processes run at a time and each takes up at most `m` hosts: in whatever
order they start, read the status files, touch them and end, every host is among any
`n * (c * m)` attempts in a row, where `n` is the number of hosts. -/
theorem every_host_tried (T : HostTable) (fs : Files)
    (readable : ∀ e ∈ T.entries, fs (cmsStatFile e.host) ≠ .unreadable) (c m : Nat) (hc : 0 < c)
    (hm : 0 < m) (acts : List (Act p)) (orderly : Meets (step T) (Orderly T c m) (start fs) acts)
    (t : State p) (h : run (step T) (start fs) acts = some t) (w : List Str)
    (inRow : w <:+: t.tried) (long : T.entries.length * (c * m) ≤ w.length) :
    ∀ e ∈ T.entries, e.host ∈ w := by
  intro e he
  have hsim := Meets.simulates (D := Lib.SharedOrder.Orderly T.entries c m)
    (f := fun a : Act p => (a.1, move a.2))
    (fun s u a t hs ho hstep => ⟨hs.orderly ho, hs.step ho hstep⟩) orderly h
    (shows_start readable)
  obtain ⟨horderly, u, hrun, hshows⟩ := hsim
  rw [hshows.tried] at inRow
  obtain ⟨taken, htaken, rfl⟩ := List.infix_map_iff.mp inRow
  rw [List.length_map] at long
  exact List.mem_map_of_mem
    (Lib.SharedOrder.all_in_window (entries_nodup T) hc hm horderly hrun htaken long he)

private def pair : HostTable where
  cmsfile := lit "cms-a:8772:pw\ncms-b:8772:pw\n"
  entries := [⟨lit "cms-a", 8772, lit "pw"⟩, ⟨lit "cms-b", 8772, lit "pw"⟩]
  reads := by decide +kernel
  valid := by decide
  distinct := by decide

/-- Two ports are connected to at a time: both processes make their lists before one of
them has touched a status file. -/
private def together (now : Int) : List (Act 2) :=
  [(0, .start), (1, .start), (0, .entry), (1, .entry), (0, .entry), (1, .entry), (0, .entry),
    (1, .entry), (0, .attempt now .done), (1, .attempt (now + 5) .done), (0, .exit), (1, .exit)]

private theorem twice_runs :
    (run (step pair) (start (fun _ => .absent)) (together 1000 ++ together 1900)).isSome := by
  decide +kernel

private def twice : State 2 :=
  (run (step pair) (start (fun _ => .absent)) (together 1000 ++ together 1900)).get twice_runs

/-- Both take the first host, and a quarter of an hour later the second one. -/
theorem every_host_tried_together : lit "cms-a" ∈ twice.tried ∧ lit "cms-b" ∈ twice.tried := by
  have htried := every_host_tried pair (fun _ => .absent) (by simp) 2 1 (by decide) (by decide)
    (together 1000 ++ together 1900) (by decide +kernel) twice (Option.some_get twice_runs).symm
    twice.tried (List.infix_refl _) (by decide +kernel)
  exact ⟨htried ⟨lit "cms-a", 8772, lit "pw"⟩ (by decide),
    htried ⟨lit "cms-b", 8772, lit "pw"⟩ (by decide)⟩

section Alone

variable {e : Gateway.Model.Env} (T : HostTable) (k : Fin p)

/-- The state with a process somewhere else. -/
def State.at (s : State p) (gw : Gateway) : State p :=
  { s with gateways := Function.update s.gateways k gw }

private theorem step_at (s : State p) (gw : Gateway) (mv : Move) :
    step T (s.at k gw) (k, mv) = (gw.next T s.files mv).map fun gw' =>
      { files := touched s.files (gw.tries mv)
        gateways := Function.update s.gateways k gw'
        tried := s.tried ++ ((gw.tries mv).map (fun q => q.1.host)).toList } := by
  simp only [step, State.at, Function.update_self, Function.update_idem]

private theorem run_entries (s : State p) (cmslist : List CmsNode) (rest : List Cms) :
    run (step T) (s.at k (.listing cmslist rest)) (List.replicate (rest.length + 1) (k, .entry)) =
      some (s.at k (.trying (rest.foldl (addEntry s.files (fun _ => true)) cmslist))) := by
  induction rest generalizing cmslist with
  | nil =>
      rw [List.length_nil, List.replicate_succ, run, step_at]
      simp only [Gateway.next, Gateway.tries, touched, Option.map_some, Option.map_none,
        Option.toList_none, List.append_nil]
      rfl
  | cons c rest ih =>
      rw [List.length_cons, List.replicate_succ, run, step_at, List.foldl_cons, ← ih]
      simp only [Gateway.next, Gateway.tries, touched, Option.map_some, Option.map_none,
        Option.toList_none, List.append_nil]
      rfl

private theorem run_attempts (s : State p) (ts : List Tried) (rest : List CmsNode) :
    run (step T) (s.at k (.trying (ts.map Tried.node ++ rest)))
        (ts.map fun t => (k, .attempt t.now t.touch)) =
      some { files := touchAll s.files ts
             gateways := Function.update s.gateways k (.trying rest)
             tried := s.tried ++ ts.map (fun t => t.node.host) } := by
  induction ts generalizing s with
  | nil =>
      simp only [List.map_nil, List.append_nil]
      rfl
  | cons t ts ih =>
      have hnext := ih ⟨(setcmsstat s.files t.node t.now t.touch).1, s.gateways,
        s.tried ++ [t.node.host]⟩
      rw [List.map_cons, List.map_cons, List.cons_append, run, step_at, List.map_cons]
      rw [List.append_assoc, List.singleton_append] at hnext
      exact hnext

/-- A process that the others leave alone does what one run of the gateway program does. -/
theorem session_runs (i : SessionInput e) (s : State p) (away : s.gateways k = .absent) :
    ∃ acts, (∀ a ∈ acts, a.1 = k) ∧ run (step T) s acts =
      some { files := (session T s.files i).files
             gateways := s.gateways
             tried := s.tried ++ (session T s.files i).tried.map (fun t => t.node.host) } := by
  have hat : s = s.at k .absent := by rw [State.at, ← away, Function.update_eq_self]
  set cmslist := T.entries.foldl (addEntry s.files (fun _ => true)) [] with hlist
  have hsession : session T s.files i =
      hostLoop i.setup i.attempt 0 s.files (Reader.start i.chanfile) cmslist := by
    rw [session, getcmslist, T.reads]
    rfl
  obtain ⟨rest, hrest⟩ : (session T s.files i).tried.map Tried.node <+: cmslist := by
    rw [hsession]
    exact (Session.OneCms.hostLoop_order _ _ _ _ _ _).1
  refine ⟨(k, .start) :: (List.replicate (T.entries.length + 1) (k, .entry) ++
    ((session T s.files i).tried.map (fun t => (k, .attempt t.now t.touch)) ++ [(k, .exit)])),
    ?_, ?_⟩
  · intro a ha
    simp only [List.mem_cons, List.mem_append, List.mem_replicate, List.mem_map,
      List.not_mem_nil, or_false] at ha
    rcases ha with rfl | ⟨-, rfl⟩ | ⟨t, -, rfl⟩ | rfl <;> rfl
  · have hstart : step T s (k, .start) = some (s.at k (.listing [] T.entries)) := by
      rw [hat, step_at]
      simp only [Gateway.next, Gateway.tries, touched, Option.map_some, Option.map_none,
        Option.toList_none, List.append_nil, ← hat]
      rfl
    have hexit : step T (State.at k ⟨touchAll s.files (session T s.files i).tried, s.gateways,
        s.tried ++ (session T s.files i).tried.map (fun t => t.node.host)⟩ (.trying rest))
        (k, .exit) = some ⟨touchAll s.files (session T s.files i).tried, s.gateways,
          s.tried ++ (session T s.files i).tried.map (fun t => t.node.host)⟩ := by
      rw [step_at, show Gateway.next T _ (.trying rest) .exit = some .absent by cases rest <;> rfl,
        show Gateway.tries (.trying rest) .exit = none by cases rest <;> rfl, Option.map_some,
        ← away, Function.update_eq_self]
      simp only [touched, Option.map_none, Option.toList_none, List.append_nil]
    rw [run, hstart, Option.bind_some, run_append, run_entries, Option.bind_some, ← hlist,
      ← hrest, run_append, run_attempts, Option.bind_some, run, session_files]
    exact congrArg (fun q => q.bind fun t => run (step T) t []) hexit

end Alone

section PileUp

variable {T : HostTable} {fs : Files} {c₀ : Cms} {rest : List CmsNode} {now : Int}

/-- The first `j` processes have made their lists, and no status file has been touched. -/
def madeLists (fs : Files) (cmslist : List CmsNode) (j : Nat) : State p where
  files := fs
  gateways := fun k => if k.val < j then .trying cmslist else .absent
  tried := []

/-- Behind `j` attempts on the same host. -/
def touchedAgain (fs : Files) (cmsp : CmsNode) (now : Int) : Nat → Files
  | 0 => fs
  | j + 1 => (setcmsstat (touchedAgain fs cmsp now j) cmsp (now + j) .done).1

/-- The first `j` processes have tried the host in front of all lists. -/
def triedFirst (fs : Files) (cmsp : CmsNode) (rest : List CmsNode) (now : Int) (j : Nat) :
    State p where
  files := touchedAgain fs cmsp now j
  gateways := fun k => .trying (if k.val < j then rest else cmsp :: rest)
  tried := List.replicate j cmsp.host

private theorem exists_later (fs : Files) (cs : List Cms) :
    ∃ now : Int, ∀ c ∈ cs, listTime fs c < now := by
  induction cs with
  | nil => exact ⟨0, by simp⟩
  | cons c cs ih =>
      obtain ⟨now, hnow⟩ := ih
      refine ⟨max now (listTime fs c + 1), fun d hd => ?_⟩
      rcases List.mem_cons.mp hd with rfl | hd
      · exact Int.lt_of_lt_of_le (Int.lt_succ _) (Int.le_max_right _ _)
      · exact Int.lt_of_lt_of_le (hnow d hd) (Int.le_max_left _ _)

private theorem running_lt {s : State p} {k : Fin p} (away : s.gateways k = .absent) :
    running s < p := by
  have hlt : running s < ∑ _k : Fin p, 1 := by
    refine Finset.sum_lt_sum (fun j _ => ?_) ⟨k, Finset.mem_univ k, ?_⟩
    · split <;> decide
    · rw [away]
      exact Nat.one_pos
  simpa using hlt

private theorem meets_entries (s : State p) (k : Fin p) (n : Nat) :
    Meets (step T) (Orderly T p 1) s (List.replicate n (k, .entry)) := by
  induction n generalizing s with
  | zero => trivial
  | succ n ih => exact ⟨trivial, fun t _ => ih t⟩

private theorem lists_made (T : HostTable) (fs : Files) (j : Nat) (hj : j ≤ p) :
    ∃ acts, Meets (step T) (Orderly T p 1) (start fs : State p) acts ∧
      run (step T) (start fs) acts =
        some (madeLists fs (T.entries.foldl (addEntry fs (fun _ => true)) []) j) := by
  induction j with
  | zero => exact ⟨[], trivial, by simp [run, start, madeLists]⟩
  | succ j ih =>
      obtain ⟨acts, hmeets, hrun⟩ := ih (Nat.le_of_succ_le hj)
      set cmslist := T.entries.foldl (addEntry fs (fun _ => true)) [] with hlist
      let k : Fin p := ⟨j, hj⟩
      have haway : (madeLists fs cmslist j : State p).gateways k = .absent :=
        if_neg (Nat.lt_irrefl j)
      have hat : (madeLists fs cmslist j : State p) =
          (madeLists fs cmslist j : State p).at k .absent := by
        rw [State.at, ← haway, Function.update_eq_self]
      have hstart : step T (madeLists fs cmslist j) (k, .start) =
          some ((madeLists fs cmslist j : State p).at k (.listing [] T.entries)) := by
        rw [hat, step_at]
        simp only [Gateway.next, Gateway.tries, touched, Option.map_some, Option.map_none,
          Option.toList_none, List.append_nil, ← hat]
        rfl
      have hnext : (madeLists fs cmslist j : State p).at k (.trying cmslist) =
          madeLists fs cmslist (j + 1) := by
        simp only [State.at, madeLists, State.mk.injEq, true_and, and_true]
        funext i
        by_cases hi : i = k
        · subst hi
          rw [Function.update_self, if_pos (Nat.lt_succ_self j)]
        · have hne : i.val ≠ j := fun h => hi (Fin.ext h)
          rw [Function.update_of_ne hi]
          exact if_congr (by omega) rfl rfl
      refine ⟨acts ++ (k, .start) :: List.replicate (T.entries.length + 1) (k, .entry),
        hmeets.append fun t ht => ?_, ?_⟩
      · obtain rfl := Option.some.inj (hrun.symm.trans ht)
        exact ⟨running_lt haway, fun t _ => meets_entries t k _⟩
      · rw [run_append, hrun, Option.bind_some, run, hstart, Option.bind_some, run_entries, ← hnext]
        rfl

private theorem listTime_again (hc₀ : c₀ ∈ T.entries) (later : ∀ c ∈ T.entries, listTime fs c < now)
    (j : Nat) : ∀ c ∈ T.entries,
      listTime (touchedAgain fs (listed (c₀, listTime fs c₀)) now j) c < now + j := by
  induction j with
  | zero =>
      intro c hc
      have hlt := later c hc
      simp only [touchedAgain]
      omega
  | succ j ih =>
      intro c hc
      have hlt := ih c hc
      rw [touchedAgain, (listTime_touch _ hc₀ _ hc).1]
      by_cases heq : c = c₀
      · rw [heq, Function.update_self]
        omega
      · rw [Function.update_of_ne heq]
        omega

private theorem front_tried (hc₀ : c₀ ∈ T.entries) (later : ∀ c ∈ T.entries, listTime fs c < now)
    (hrest : rest.length + 1 = T.entries.length) (j : Nat) (hj : j ≤ p) :
    ∃ acts,
      Meets (step T) (Orderly T p 1)
        (triedFirst fs (listed (c₀, listTime fs c₀)) rest now 0 : State p) acts ∧
      run (step T) (triedFirst fs (listed (c₀, listTime fs c₀)) rest now 0) acts =
        some (triedFirst fs (listed (c₀, listTime fs c₀)) rest now j) := by
  set cmsp := listed (c₀, listTime fs c₀) with hcmsp
  induction j with
  | zero => exact ⟨[], trivial, rfl⟩
  | succ j ih =>
      obtain ⟨acts, hmeets, hrun⟩ := ih (Nat.le_of_succ_le hj)
      let k : Fin p := ⟨j, hj⟩
      have hgateway : (triedFirst fs cmsp rest now j : State p).gateways k =
          .trying (cmsp :: rest) := congrArg Gateway.trying (if_neg (Nat.lt_irrefl j))
      have hnext : Function.update (triedFirst fs cmsp rest now j : State p).gateways k
          (.trying rest) = (triedFirst fs cmsp rest now (j + 1) : State p).gateways := by
        funext i
        by_cases hi : i = k
        · subst hi
          rw [Function.update_self]
          exact congrArg Gateway.trying (if_pos (Nat.lt_succ_self j)).symm
        · have hne : i.val ≠ j := fun h => hi (Fin.ext h)
          rw [Function.update_of_ne hi]
          exact congrArg Gateway.trying (if_congr (by omega) rfl rfl)
      have hstep : step T (triedFirst fs cmsp rest now j) (k, .attempt (now + j) .done) =
          some (triedFirst fs cmsp rest now (j + 1) : State p) := by
        rw [step, hgateway]
        refine congrArg some ?_
        rw [State.mk.injEq]
        exact ⟨rfl, hnext, List.replicate_succ'.symm⟩
      refine ⟨acts ++ [(k, .attempt (now + j) .done)], hmeets.append fun t ht => ?_,
        run_snoc_eq_some.mpr ⟨_, hrun, hstep⟩⟩
      obtain rfl := Option.some.inj (hrun.symm.trans ht)
      refine ⟨⟨?_, rfl, listTime_again hc₀ later j⟩, fun t _ => trivial⟩
      rw [hgateway, Gateway.triesMade, List.length_cons, hrest]
      omega

/-- The number of processes cannot be left out of the bound: all of them at a time can try
the same host, one behind the other, though each tries one host only. -/
theorem attempts_pile_up (T : HostTable) (some_host : T.entries ≠ []) (fs : Files)
    (readable : ∀ e ∈ T.entries, fs (cmsStatFile e.host) ≠ .unreadable) (p : Nat) :
    ∃ (acts : List (Act p)) (t : State p) (e : Cms), e ∈ T.entries ∧
      Meets (step T) (Orderly T p 1) (start fs) acts ∧ run (step T) (start fs) acts = some t ∧
      t.tried = List.replicate p e.host := by
  obtain ⟨acts, hmeets, hrun⟩ := lists_made T fs p (Nat.le_refl p)
  have hlist : T.entries.foldl (addEntry fs (fun _ => true)) [] = (order T fs).map (nodeOf fs) := by
    have h := getcmslist_eq readable
    rw [getcmslist, T.reads] at h
    exact Except.ok.inj h
  have hlength := (Lib.LeastRecent.leastRecent_perm (listTime fs) T.entries).length_eq
  obtain ⟨now, hnow⟩ := exists_later fs T.entries
  cases horder : order T fs with
  | nil =>
      rw [order] at horder
      rw [horder] at hlength
      exact absurd (List.length_eq_zero_iff.mp hlength.symm) some_host
  | cons c₀ cs =>
      have hc₀ : c₀ ∈ T.entries := mem_order.mp (horder ▸ List.mem_cons_self)
      rw [order] at horder
      rw [horder, List.length_cons] at hlength
      have hrest : (cs.map (nodeOf fs)).length + 1 = T.entries.length := by
        rw [List.length_map]
        exact hlength
      obtain ⟨acts', hmeets', hrun'⟩ := front_tried (p := p) hc₀ hnow hrest p (Nat.le_refl p)
      have hsame : (madeLists fs (T.entries.foldl (addEntry fs (fun _ => true)) []) p : State p) =
          triedFirst fs (listed (c₀, listTime fs c₀)) (cs.map (nodeOf fs)) now 0 := by
        rw [hlist, order, horder]
        simp only [madeLists, triedFirst, touchedAgain, Fin.is_lt, if_true, Nat.not_lt_zero,
          if_false, List.replicate_zero]
        rfl
      rw [← hsame] at hmeets' hrun'
      refine ⟨acts ++ acts', triedFirst fs (listed (c₀, listTime fs c₀)) (cs.map (nodeOf fs)) now p,
        c₀, hc₀, hmeets.append fun t ht => ?_, ?_, rfl⟩
      · obtain rfl := Option.some.inj (hrun.symm.trans ht)
        exact hmeets'
      · rw [run_append, hrun]
        exact hrun'

theorem attempts_pile_up_pair :
    ∃ (acts : List (Act 3)) (t : State 3) (e : Cms), e ∈ pair.entries ∧
      Meets (step pair) (Orderly pair 3 1) (start fun _ => .absent) acts ∧
      run (step pair) (start fun _ => .absent) acts = some t ∧ t.tried = List.replicate 3 e.host :=
  attempts_pile_up pair (by decide) (fun _ => .absent) (by simp) 3

end PileUp

end Rmsgw.Session.Sharing
