/- Which channel records one run of the check-in program posts: the channels that
   the loop selects against what the updater script makes of the file. -/

import Rmsgw.Aci.Steps
import Rmsgw.Lib.Batches

set_option autoImplicit false
set_option relaxedAutoImplicit false

namespace Rmsgw.Aci.Posting

open Rmsgw.Lib.CStrings Rmsgw.Lib.Process Rmsgw.Lib.Batches Rmsgw.Rms Rmsgw.StatFile
open Rmsgw.Channels.Model Rmsgw.Aci.Model Rmsgw.Aci.Steps

def sending : Event → Option (DueTest × UpdaterRun)
  | .channelUpdate d run _ => some (d, run)
  | _ => none

def sendings (log : List Event) : List (DueTest × UpdaterRun) := log.filterMap sending

/-- The records that the script posts in an update attempt, as positions in the file. -/
def posts (p : DueTest × UpdaterRun) : List Nat := (updatechannel p.1.job.channels p.2).1

def posted (log : List Event) : List Nat := (sendings log).flatMap posts

/-- The active and available channels that the loop has come to. -/
def tests (log : List Event) : List DueTest := (log.filterMap decision).map Prod.fst

/-- The channels that are active, available and due. -/
def selected (log : List Event) : List Nat := ((tests log).filter DueTest.due).map DueTest.channel

/-- From position `i` on the script posts exactly the next `n` records: these are
complete and reach the service, all but the last are accepted, and behind them
the script stops, for a refusal, the end of the file, an incomplete record or a
service out of reach. -/
structure PostsNext (replies : Nat → Reply) (i : Nat) (channels : List RootNode) (n : Nat) :
    Prop where
  complete : ∀ j < n, ∃ c, channels[j]? = some c ∧ completeRecord c = true
  reached : ∀ j < n, (replies (i + j)).reached = true
  accepted : ∀ j, j + 1 < n → replies (i + j) = .accepted
  stops : (∃ j, n = j + 1 ∧ replies (i + j) ≠ .accepted) ∨
    ∀ c, channels[n]? = some c → completeRecord c = true → (replies (i + n)).reached = false

def PostsFirst (channels : List RootNode) (n : Nat) : UpdaterRun → Prop
  | .notReady _ => n = 0
  | .ran replies => PostsNext replies 0 channels n

/-- Exactly one of the script's runs posts anything, namely the first `n` records. -/
def OneUpdaterPosts (ps : List (DueTest × UpdaterRun)) (n : Nat) : Prop :=
  ∃ before p after, ps = before ++ p :: after ∧ PostsFirst p.1.job.channels n p.2 ∧
    ∀ q ∈ before ++ after, PostsFirst q.1.job.channels 0 q.2

section Script

variable {replies : Nat → Reply} {channels : List RootNode}

private theorem PostsNext.zero {i : Nat} {channel : RootNode} {rest : List RootNode}
    (h : completeRecord channel = true → (replies i).reached = false) :
    PostsNext replies i (channel :: rest) 0 := by
  refine ⟨by simp, by simp, by simp, .inr ?_⟩
  intro c hc hcomplete
  obtain rfl : channel = c := by simpa using hc
  exact h hcomplete

private theorem PostsNext.one {i : Nat} {channel : RootNode} {rest : List RootNode}
    (hcomplete : completeRecord channel = true) (hreached : (replies i).reached = true)
    (hreply : replies i ≠ .accepted) : PostsNext replies i (channel :: rest) 1 := by
  refine ⟨fun j hj => ?_, fun j hj => ?_, fun j hj => by omega, .inl ⟨0, rfl, hreply⟩⟩
  · obtain rfl : j = 0 := by omega
    exact ⟨channel, rfl, hcomplete⟩
  · obtain rfl : j = 0 := by omega
    exact hreached

private theorem PostsNext.succ {i n : Nat} {channel : RootNode} {rest : List RootNode}
    (hcomplete : completeRecord channel = true) (hreply : replies i = .accepted)
    (hn : PostsNext replies (i + 1) rest n) : PostsNext replies i (channel :: rest) (n + 1) := by
  have hshift : ∀ j, i + (j + 1) = i + 1 + j := fun j => by omega
  constructor
  case complete =>
    rintro (_ | j) hj
    · exact ⟨channel, rfl, hcomplete⟩
    · exact hn.complete j (by omega)
  case reached =>
    rintro (_ | j) hj
    · simp [hreply, Reply.reached]
    · rw [hshift]
      exact hn.reached j (by omega)
  case accepted =>
    rintro (_ | j) hj
    · simpa using hreply
    · rw [hshift]
      exact hn.accepted j (by omega)
  case stops =>
    rcases hn.stops with ⟨j, rfl, hj⟩ | hend
    · exact .inl ⟨j + 1, rfl, by rwa [hshift]⟩
    · refine .inr ?_
      intro c hc hcomplete
      rw [hshift]
      exact hend c (by simpa using hc) hcomplete

theorem postChannels_posted (replies : Nat → Reply) (i : Nat) (channels : List RootNode) :
    ∃ n, PostsNext replies i channels n ∧
      (postChannels replies i channels).1 = List.range' i n := by
  induction channels generalizing i with
  | nil => exact ⟨0, ⟨by simp, by simp, by simp, .inr (by simp)⟩, rfl⟩
  | cons channel rest ih =>
      cases hcomplete : completeRecord channel with
      | false =>
          exact ⟨0, .zero (by simp [hcomplete]), by simp [postChannels, hcomplete]⟩
      | true =>
          cases hreply : replies i with
          | accepted =>
              obtain ⟨n, hn, hposted⟩ := ih (i + 1)
              exact ⟨n + 1, .succ hcomplete hreply hn,
                by simp [postChannels, hcomplete, hreply, hposted, List.range'_succ]⟩
          | refused =>
              exact ⟨1, .one hcomplete (by simp [hreply, Reply.reached]) (by simp [hreply]),
                by simp [postChannels, hcomplete, hreply]⟩
          | unreachable =>
              exact ⟨0, .zero (by simp [hreply, Reply.reached]),
                by simp [postChannels, hcomplete, hreply]⟩
          | died out rc =>
              cases out with
              | true =>
                  exact ⟨1, .one hcomplete (by simp [hreply, Reply.reached]) (by simp [hreply]),
                    by simp [postChannels, hcomplete, hreply]⟩
              | false =>
                  exact ⟨0, .zero (by simp [hreply, Reply.reached]),
                    by simp [postChannels, hcomplete, hreply]⟩

private theorem PostsNext.not_lt {i n m : Nat} (hn : PostsNext replies i channels n)
    (hm : PostsNext replies i channels m) : ¬ n < m := by
  intro hlt
  rcases hn.stops with ⟨j, rfl, hreply⟩ | hend
  · exact hreply (hm.accepted j hlt)
  · obtain ⟨c, hc, hcomplete⟩ := hm.complete n hlt
    have hreached := hm.reached n hlt
    rw [hend c hc hcomplete] at hreached
    cases hreached

private theorem postsNext_iff {i n : Nat} :
    PostsNext replies i channels n ↔ (postChannels replies i channels).1 = List.range' i n := by
  obtain ⟨m, hm, hposted⟩ := postChannels_posted replies i channels
  rw [hposted]
  constructor
  · intro hn
    have h1 := hn.not_lt hm
    have h2 := hm.not_lt hn
    rw [show n = m by omega]
  · intro hrange
    have hlen := congrArg List.length hrange
    rw [List.length_range', List.length_range'] at hlen
    rwa [← hlen]

def size (p : DueTest × UpdaterRun) : Nat := (posts p).length

private theorem posts_eq (p : DueTest × UpdaterRun) : posts p = List.range (size p) := by
  obtain ⟨d, run⟩ := p
  cases run with
  | notReady rc => rfl
  | ran replies =>
      obtain ⟨n, -, hposted⟩ := postChannels_posted replies 0 d.job.channels
      have hposts : posts (d, .ran replies) = List.range' 0 n := hposted
      rw [size, hposts, List.length_range', List.range_eq_range']

private theorem size_eq_iff {p : DueTest × UpdaterRun} {n : Nat} :
    size p = n ↔ PostsFirst p.1.job.channels n p.2 := by
  have hrange : size p = n ↔ posts p = List.range n := by
    rw [posts_eq]
    exact ⟨fun h => by rw [h], fun h => by simpa using congrArg List.length h⟩
  rw [hrange]
  obtain ⟨d, run⟩ := p
  cases run with
  | notReady rc => cases n <;> simp [posts, updatechannel, PostsFirst, List.range_succ]
  | ran replies =>
      rw [List.range_eq_range']
      exact postsNext_iff.symm

private theorem posted_eq (log : List Event) :
    posted log = delivered ((sendings log).map size) := by
  rw [posted, delivered, List.flatMap_map]
  exact List.flatMap_congr fun p _ => posts_eq p

private theorem oneBatch_iff {ps : List (DueTest × UpdaterRun)} {n : Nat} :
    OneBatch (ps.map size) n ↔ OneUpdaterPosts ps n := by
  constructor
  · rintro ⟨before, after, heq, hzero⟩
    obtain ⟨xs, ys, rfl, rfl, hys⟩ := List.map_eq_append_iff.mp heq
    obtain ⟨p, zs, rfl, hp, rfl⟩ := List.map_eq_cons_iff.mp hys
    refine ⟨xs, p, zs, rfl, size_eq_iff.mp hp, fun q hq => size_eq_iff.mp (hzero _ ?_)⟩
    rw [← List.map_append]
    exact List.mem_map_of_mem hq
  · rintro ⟨xs, p, zs, rfl, hp, hzero⟩
    refine ⟨xs.map size, zs.map size, ?_, fun m hm => ?_⟩
    · rw [List.map_append, List.map_cons, size_eq_iff.mpr hp]
    · rw [← List.map_append] at hm
      obtain ⟨q, hq, rfl⟩ := List.mem_map.mp hm
      exact size_eq_iff.mpr (hzero q hq)

end Script

section Runs

/-- The tests of a run go through the file in order, and the loop has not yet
come to the channels behind them. -/
structure InOrder (s : State) : Prop where
  increasing : (tests s.log).Pairwise (fun d d' => d.channel < d'.channel)
  behind : ∀ job r, s.pc = .channels job r →
    ∃ k, Cursor r k ∧ ∀ d ∈ tests s.log, d.channel < k

private theorem InOrder.next {s t : State} {job : Job} {r r' : Reader} {e : ChannelEnv}
    {v : Verdict} {i : Nat} (hs : InOrder s) (ds : List DueTest) (at_ : s.pc = .channels job r)
    (saw : examine job s.files r e = (v, r')) (hi : place v = some i)
    (hds : ds = [] ∨ ∃ d, ds = [d] ∧ d.channel = i) (hlog : tests t.log = tests s.log ++ ds)
    (hpc : t.pc = .channels job r') : InOrder t := by
  obtain ⟨k, hcursor, hbehind⟩ := hs.behind job r at_
  obtain ⟨rfl, hcursor'⟩ := examine_place hcursor saw hi
  have hnew : ∀ d ∈ ds, d.channel = i := by
    intro d hd
    rcases hds with rfl | ⟨d', rfl, hd'⟩
    · cases hd
    · rw [List.mem_singleton.mp hd, hd']
  constructor
  · rw [hlog, List.pairwise_append]
    refine ⟨hs.increasing, ?_, fun d hd d' hd' => ?_⟩
    · rcases hds with rfl | ⟨d', rfl, -⟩
      · exact .nil
      · exact List.pairwise_singleton _ _
    · rw [hnew d' hd']
      exact hbehind d hd
  · intro job₁ r₁ h₁
    obtain ⟨rfl, rfl⟩ := Pc.channels.inj (hpc.symm.trans h₁)
    refine ⟨i + 1, hcursor', ?_⟩
    intro d hd
    rw [hlog] at hd
    rcases List.mem_append.mp hd with hd | hd
    · exact Nat.lt_succ_of_lt (hbehind d hd)
    · rw [hnew d hd]
      exact Nat.lt_succ_self i

private theorem InOrder.stopped {s t : State} (hs : InOrder s) (hlog : tests t.log = tests s.log)
    (hpc : ∀ job r, t.pc ≠ .channels job r) : InOrder t :=
  ⟨by rw [hlog]; exact hs.increasing, fun job r h => absurd h (hpc job r)⟩

private theorem inOrder_step {s t : State} {a : Answer} (h : Trans s a t) (hs : InOrder s) :
    InOrder t := by
  cases h with
  | outside at_ path st => exact ⟨hs.increasing, hs.behind⟩
  | start at_ cfg doc now =>
      simp only [startUp]
      split
      · exact ⟨.nil, fun job r h => ⟨0, by rw [at_] at h; cases h⟩⟩
      · refine ⟨.nil, fun job r h => ⟨0, ?_, fun d hd => by cases hd⟩⟩
        obtain ⟨-, rfl⟩ := Pc.channels.inj h
        exact cursor_start doc
  | killed at_ saw =>
      exact hs.stopped (by simp [State.goto, State.count, tests, decision]) (by simp [State.goto])
  | atEnd at_ saw =>
      exact hs.stopped (by simp [State.goto, State.count, tests, decision]) (by simp [State.goto])
  | skipped at_ saw skip =>
      rcases skip with ⟨i, rfl⟩ | ⟨i, rfl⟩ | ⟨d, rfl⟩
      · exact hs.next [] at_ saw rfl (.inl rfl)
          (by simp [State.goto, State.count, tests, decision]) rfl
      · exact hs.next [] at_ saw rfl (.inl rfl)
          (by simp [State.goto, State.count, tests, decision]) rfl
      · exact hs.next [d] at_ saw rfl (.inr ⟨d, rfl, rfl⟩)
          (by simp [State.goto, State.count, tests, decision]) rfl
  | @sent job r r' e d at_ saw =>
      exact hs.next [d] at_ saw rfl (.inr ⟨d, rfl, rfl⟩)
        (by simp [State.goto, State.count, tests, List.filterMap_cons, decision]) rfl
  | versionKilled at_ name =>
      exact hs.stopped (by simp [State.goto, tests, decision]) (by simp [State.goto])
  | reported at_ name due =>
      exact hs.stopped (by simp [State.goto, tests, decision]) (by simp [State.goto])
  | notReported at_ name notDue =>
      exact hs.stopped (by simp [State.goto, tests, decision]) (by simp [State.goto])

variable {fs : Files} {answers : List Answer} {s : State}

private theorem inOrder (h : run step (initial fs) answers = some s) : InOrder s :=
  run_preserves (fun _ _ _ hstep => inOrder_step (step_trans hstep)) h
    ⟨.nil, fun job r h => by cases h⟩

private theorem selected_eq (h : run step (initial fs) answers = some s) :
    selected s.log = (sendings s.log).map (fun p => p.1.channel) := by
  have key : ∀ log : List Event, (∀ p ∈ log.filterMap decision, p.2 = p.1.due) →
      selected log = (sendings log).map (fun p => p.1.channel) := by
    intro log
    induction log with
    | nil => intro _; rfl
    | cons ev log ih =>
        intro hdue
        have htail : selected log = (sendings log).map (fun p => p.1.channel) := by
          refine ih fun p hp => hdue p ?_
          rw [List.filterMap_cons]
          split
          · exact hp
          · exact List.mem_cons_of_mem _ hp
        have hhead : ∀ p, decision ev = some p → p.2 = p.1.due := fun p hp =>
          hdue p (List.mem_filterMap.mpr ⟨ev, List.mem_cons_self, hp⟩)
        simp only [selected, tests, sendings] at htail ⊢
        cases ev with
        | channelUpdate d run u =>
            have hd : true = d.due := hhead (d, true) rfl
            simp [decision, sending, ← hd, htail]
        | passed v =>
            cases v with
            | notDue d =>
                have hd : false = d.due := hhead (d, false) rfl
                simp [List.filterMap_cons, decision, sending, ← hd, htail]
            | _ => simpa [List.filterMap_cons, decision, sending] using htail
        | _ => simpa [List.filterMap_cons, decision, sending] using htail
  refine key s.log fun p hp => decisions_due h p ?_
  rw [State.history, List.filterMap_append]
  exact List.mem_append_right _ hp

/-- In any run of the program, up to any point and also to its end, the records
posted are those of the channels that are active, available and due, once each,
exactly when these are the first channels of the file and there are none, or one
single run of the script posts anything, namely these first records. -/
theorem posts_exact_iff (fs : Files) (answers : List Answer) (s : State)
    (h : run step (initial fs) answers = some s) :
    (posted s.log).Perm (selected s.log) ↔
      selected s.log = List.range (selected s.log).length ∧
        (selected s.log = [] ∨ OneUpdaterPosts (sendings s.log) (selected s.log).length) := by
  have hlen : ((sendings s.log).map size).length = (selected s.log).length := by
    rw [selected_eq h, List.length_map, List.length_map]
  have hinc : (selected s.log).Pairwise (· < ·) :=
    List.pairwise_map.mpr ((inOrder h).increasing.filter _)
  rw [posted_eq, delivered_perm_iff hlen hinc, oneBatch_iff]

private def channelElement (name active : String) : RootNode where
  isElement := true
  name := lit "channel"
  props := [(lit "name", lit name), (lit "active", lit active)]
  children := ⟨true, lit "statuschecker", lit "true"⟩ ::
    recordFields.map (fun f => ⟨true, f.tag, lit "x"⟩)

private def station : Config := ⟨lit "W1AW-10", none, none, none⟩

private def noFiles : Files := fun _ => .absent

private def allWell : Answer := .channel ⟨0, 1000000, .ran (fun _ => .accepted), 1000000, .done⟩

private def runOver (channels : List RootNode) : List Answer :=
  .start station (some ⟨lit "rmschannels", channels⟩) 1000000 ::
    List.replicate (channels.length + 1) allWell

private def incompleteChannel : RootNode where
  isElement := true
  name := lit "channel"
  props := [(lit "name", lit "uhf"), (lit "active", lit "no")]
  children := [⟨true, lit "statuschecker", lit "true"⟩]

/-- The record of the inactive channel cannot be built, and only the active one is posted. -/
theorem posts_exact_iff_incomplete :
    ∃ s, run step (initial noFiles)
        (runOver [channelElement "vhf" "yes", incompleteChannel]) = some s ∧
      selected s.log = [0] ∧ posted s.log = [0] ∧
      ((posted s.log).Perm (selected s.log) ↔
        selected s.log = List.range (selected s.log).length ∧
          (selected s.log = [] ∨ OneUpdaterPosts (sendings s.log) (selected s.log).length)) := by
  have hend : (run step (initial noFiles)
      (runOver [channelElement "vhf" "yes", incompleteChannel])).map
        (fun s => (selected s.log, posted s.log)) = some ([0], [0]) := by decide
  obtain ⟨s, hs, heq⟩ := Option.map_eq_some_iff.mp hend
  obtain ⟨hselected, hposted⟩ := Prod.mk.inj heq
  exact ⟨s, hs, hselected, hposted, posts_exact_iff noFiles _ s hs⟩

/-- The record of an inactive channel is posted together with that of the active one. -/
theorem inactive_channel_posted :
    ∃ s, run step (initial noFiles)
        (runOver [channelElement "vhf" "yes", channelElement "uhf" "no"]) = some s ∧
      selected s.log = [0] ∧ posted s.log = [0, 1] ∧
      ¬ (posted s.log).Perm (selected s.log) := by
  have hend : (run step (initial noFiles)
      (runOver [channelElement "vhf" "yes", channelElement "uhf" "no"])).map
        (fun s => (selected s.log, posted s.log)) = some ([0], [0, 1]) := by decide
  obtain ⟨s, hs, heq⟩ := Option.map_eq_some_iff.mp hend
  obtain ⟨hselected, hposted⟩ := Prod.mk.inj heq
  refine ⟨s, hs, hselected, hposted, ?_⟩
  intro hperm
  rw [hselected, hposted] at hperm
  exact absurd hperm.length_eq (by decide)

end Runs

end Rmsgw.Aci.Posting
