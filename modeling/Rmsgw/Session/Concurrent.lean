/- Gateway programs that run at the same time on one status block, one call on the
   block at a time: what their records show in every order of the calls. -/

import Rmsgw.Lib.Shuffle
import Rmsgw.Session.Accounting
import Rmsgw.Statblock.Race

set_option autoImplicit false
set_option relaxedAutoImplicit false

namespace Rmsgw.Session.Concurrent

open Rmsgw.Lib.CStrings Rmsgw.Lib.SlotTable Rmsgw.Lib.SlotStability Rmsgw.Lib.Shuffle Rmsgw.Rms
open Rmsgw.Statblock.Model Rmsgw.Statblock.Refinement Rmsgw.Statblock.Shown
open Rmsgw.Statblock.Race Rmsgw.Session.Program Rmsgw.Session.Accounting
open Rmsgw.Session.Idle (On statusCalls_main_on main_effects)
open Rmsgw.Channels.Model (Reader XmlDoc)

universe u

/-- The calls on the status block that a run of the program makes. -/
def callsOf (m : Launch) : List SbOp := statusCalls m.start.main.1

def gwcallsOf (ms : List Launch) : List CString := ms.map (fun m => m.start.gwcall)

/-- A call on the record of a callsign. -/
def onGwcall (k : CString) (o : SbOp) : Bool :=
  match gwOp o with
  | none => false
  | some q => q.key = k

/-- The sessions of all runs under one callsign. -/
def sessionsOf (ms : List Launch) (k : CString) : List Talk :=
  (ms.filter (fun m => m.start.gwcall = k)).flatMap Launch.sessions

section Records

variable {β : Type u}

private theorem filter_filterMap_gwOp (k : CString) (ops : List SbOp) :
    (ops.filterMap gwOp).filter (fun q => q.key = k) =
      (ops.filter (onGwcall k)).filterMap gwOp := by
  induction ops with
  | nil => rfl
  | cons o ops ih =>
      cases ho : gwOp o with
      | none =>
          have hon : onGwcall k o = false := by rw [onGwcall, ho]
          rw [List.filterMap_cons_none ho, List.filter_cons_of_neg (by rw [hon]; simp), ih]
      | some q =>
          rw [List.filterMap_cons_some ho]
          by_cases hk : q.key = k
          · have hon : onGwcall k o = true := by rw [onGwcall, ho]; exact decide_eq_true hk
            rw [List.filter_cons_of_pos (by simpa using hk), List.filter_cons_of_pos hon,
              List.filterMap_cons_some ho, ih]
          · have hon : onGwcall k o = false := by rw [onGwcall, ho]; exact decide_eq_false hk
            rw [List.filter_cons_of_neg (by simpa using hk),
              List.filter_cons_of_neg (by rw [hon]; simp), ih]

private theorem own_congr {k : CString} {ops ops' : List SbOp}
    (h : ops.filter (onGwcall k) = ops'.filter (onGwcall k)) :
    own gwLayout emptyGw k (ops.filterMap gwOp) = own gwLayout emptyGw k (ops'.filterMap gwOp) := by
  rw [own, own, filter_filterMap_gwOp, filter_filterMap_gwOp, h]

private theorem shown_eq_own (field : RmsgwStat → β) {ops : List SbOp}
    (good : ∀ k ∈ gwcalls ops, GoodGwcall k) (clear : NoPrefix (gwcalls ops))
    (few : (gwcalls ops).dedup.length ≤ rmsGwTableSize) {k : CString} (hk : k ∈ gwcalls ops) :
    shown field (ops.foldl SbOp.apply freshBlock) k =
      some (field (own gwLayout emptyGw k (ops.filterMap gwOp))) := by
  obtain ⟨es, hes⟩ := gwTable_entries good clear few
  obtain ⟨i, -, hget, hrecord⟩ := getGwSlot_known hes hk
  obtain ⟨q, hq, heq⟩ := Option.map_eq_some_iff.mp hget
  rw [shown, lookup, hq, Option.map_some, Option.bind_some, (Prod.mk.inj heq).1, hrecord]
  rfl

end Records

section Runs

variable {ms : List Launch} {trace : List SbOp}

private theorem onGwcall_of_on {k : CString} {o : SbOp} (h : On k o) (k' : CString) :
    onGwcall k' o = decide (k = k') := by
  obtain ⟨q, hq, rfl⟩ := h
  rw [onGwcall, hq]

private theorem filter_calls (m : Launch) (k : CString) :
    (callsOf m).filter (onGwcall k) = if m.start.gwcall = k then callsOf m else [] := by
  have hon := statusCalls_main_on m.start
  split
  · rename_i hk
    refine List.filter_eq_self.mpr fun o ho => ?_
    rw [onGwcall_of_on (hon o ho)]
    exact decide_eq_true hk
  · rename_i hk
    refine List.filter_eq_nil_iff.mpr fun o ho hpos => hk ?_
    rw [onGwcall_of_on (hon o ho)] at hpos
    exact of_decide_eq_true hpos

private theorem gwcall_mem_calls (m : Launch) : m.start.gwcall ∈ gwcalls (callsOf m) := by
  obtain ⟨busy, -, hmain⟩ := main_effects m.start
  obtain ⟨es, hes⟩ : ∃ es, m.start.main.1 = m.start.announce ++ es := by
    rcases hmain with ⟨-, hmain⟩ | ⟨-, hmain⟩
    · exact ⟨busy ++ [m.start.idle], by rw [hmain, List.append_assoc]⟩
    · exact ⟨busy, hmain⟩
  rw [callsOf, hes]
  exact List.mem_cons_self

private theorem gwcalls_trace (h : Shuffled (ms.map callsOf) trace) (k : CString) :
    k ∈ gwcalls trace ↔ k ∈ gwcallsOf ms := by
  have hmem : ∀ o, o ∈ trace ↔ ∃ m ∈ ms, o ∈ callsOf m := by
    intro o
    rw [h.perm.mem_iff, List.mem_flatten]
    constructor
    · rintro ⟨r, hr, ho⟩
      obtain ⟨m, hm, rfl⟩ := List.mem_map.mp hr
      exact ⟨m, hm, ho⟩
    · rintro ⟨m, hm, ho⟩
      exact ⟨callsOf m, List.mem_map_of_mem hm, ho⟩
  constructor
  · intro hk
    obtain ⟨q, hq, rfl⟩ := List.mem_map.mp hk
    obtain ⟨o, ho, hoq⟩ := List.mem_filterMap.mp hq
    obtain ⟨m, hm, hom⟩ := (hmem o).mp ho
    obtain ⟨q', hq', hkey⟩ := statusCalls_main_on m.start o hom
    obtain rfl := Option.some.inj (hoq.symm.trans hq')
    rw [hkey]
    exact List.mem_map_of_mem hm
  · intro hk
    obtain ⟨m, hm, rfl⟩ := List.mem_map.mp hk
    obtain ⟨q, hq, hkey⟩ := List.mem_map.mp (gwcall_mem_calls m)
    obtain ⟨o, ho, hoq⟩ := List.mem_filterMap.mp hq
    rw [← hkey]
    exact List.mem_map_of_mem (List.mem_filterMap.mpr ⟨o, (hmem o).mpr ⟨m, hm, ho⟩, hoq⟩)

/-- The callsigns of the runs can be told apart, and the table has room for them. -/
structure Separable (ms : List Launch) : Prop where
  good : ∀ k ∈ gwcallsOf ms, GoodGwcall k
  clear : NoPrefix (gwcallsOf ms)
  few : (gwcallsOf ms).dedup.length ≤ rmsGwTableSize

private theorem Separable.shown_eq {β : Type u} (sep : Separable ms) (field : RmsgwStat → β)
    {ops : List SbOp} (some_of : ∀ k ∈ gwcalls ops, k ∈ gwcallsOf ms) {k : CString}
    (hk : k ∈ gwcalls ops) :
    shown field (ops.foldl SbOp.apply freshBlock) k =
      some (field (own gwLayout emptyGw k (ops.filterMap gwOp))) := by
  refine shown_eq_own field (fun k hk => sep.good k (some_of k hk))
    (fun k hk k' hk' => sep.clear k (some_of k hk) k' (some_of k' hk')) ?_ hk
  refine Nat.le_trans ?_ sep.few
  refine (List.subperm_of_subset (List.nodup_dedup _) ?_).length_le
  intro k hk
  rw [List.mem_dedup] at hk ⊢
  exact some_of k hk

/-- Whatever other gateways do in between, the record of a gateway whose callsign only
one run has is the record that this run leaves by itself. -/
theorem concurrent_record (ms : List Launch) (sep : Separable ms) (trace : List SbOp)
    (h : Shuffled (ms.map callsOf) trace) (i : Nat) (m : Launch) (hi : ms[i]? = some m)
    (lone : ∀ (j : Nat) (m' : Launch), ms[j]? = some m' → m'.start.gwcall = m.start.gwcall →
      j = i) :
    shown id (trace.foldl SbOp.apply freshBlock) m.start.gwcall =
      shown id (m.start.leaves freshBlock) m.start.gwcall := by
  have hm := List.mem_of_getElem? hi
  have hown : trace.filter (onGwcall m.start.gwcall) = callsOf m := by
    refine (h.filter (onGwcall m.start.gwcall)).eq_lone (i := i) ?_ ?_
    · rw [List.getElem?_map, List.getElem?_map, hi, Option.map_some, Option.map_some,
        filter_calls, if_pos rfl]
    · intro j r hj hr
      rw [List.getElem?_map, List.getElem?_map, Option.map_map, Option.map_eq_some_iff] at hr
      obtain ⟨m', hm', rfl⟩ := hr
      show (callsOf m').filter (onGwcall m.start.gwcall) = []
      rw [filter_calls, if_neg fun hk => hj (lone j m' hm' hk)]
  have halone : (callsOf m).filter (onGwcall m.start.gwcall) = callsOf m := by
    rw [filter_calls, if_pos rfl]
  have hsub : ∀ k ∈ gwcalls (callsOf m), k ∈ gwcallsOf ms := by
    intro k hk
    obtain ⟨q, hq, rfl⟩ := List.mem_map.mp hk
    obtain ⟨o, ho, hoq⟩ := List.mem_filterMap.mp hq
    obtain ⟨q', hq', hkey⟩ := statusCalls_main_on m.start o ho
    obtain rfl := Option.some.inj (hoq.symm.trans hq')
    rw [hkey]
    exact List.mem_map_of_mem hm
  have htrace := sep.shown_eq id (fun k hk => (gwcalls_trace h k).mp hk)
    ((gwcalls_trace h m.start.gwcall).mpr (List.mem_map_of_mem hm))
  have hleaves := sep.shown_eq id hsub (gwcall_mem_calls m)
  rw [htrace, own_congr (hown.trans halone.symm)]
  exact hleaves.symm

private theorem vhfPort_paclen : 0 < 128 := by decide

private def vhfPort : Gateway.Model.Env := ⟨128, vhfPort_paclen, 0, 0⟩

private theorem prompt_nonempty : 0 < (lit "CMS>\r").length := by decide

private theorem prompt_fits : (lit "CMS>\r").length ≤ Gateway.Model.bufLen := by decide

private def promptAnswers : List Gateway.Model.Answer :=
  [.login true, .fcntl true, .fcntl true, .select true false, .peekByte 67,
    .chunk ⟨lit "CMS>\r", prompt_nonempty, prompt_fits⟩, .write (.wrote 5), .drained,
    .select true false, .peekClosed]

private theorem prompt_runs :
    (Lib.Process.run (Gateway.Model.step vhfPort) Gateway.Model.initial promptAnswers).isSome := by
  decide

private def vhfChannel (callsign : Str) : Channels.Model.RootNode where
  isElement := true
  name := lit "channel"
  props := [(lit "name", lit "vhf")]
  children := [⟨true, lit "callsign", callsign⟩, ⟨true, lit "password", lit "secret"⟩,
    ⟨true, lit "statuschecker", lit "true"⟩]

/-- A run in which the CMS sends a prompt and closes the connection. -/
private def hilltopStation (gwcall usercall : CString) (pid : Int) : Launch where
  env := vhfPort
  start :=
    { gwcall := gwcall
      pid := pid
      usercall := usercall
      strdup := true
      ax25port := some (lit "vhf")
      channelfile := none
      reader := Reader.start (some ⟨lit "rmschannels", [vhfChannel gwcall.bytes]⟩)
      cmsfile := some (lit "cms1:8772:pw\n")
      files := fun _ => .absent
      alloc := fun _ => true
      attempt := fun _ =>
        ⟨1000, .done, .connected, ⟨promptAnswers, _, (Option.some_get prompt_runs).symm⟩⟩ }

private theorem hilltop_noNul : (0 : UInt8) ∉ lit "W1AW-10" := by decide

private theorem harbour_noNul : (0 : UInt8) ∉ lit "N7NIX-10" := by decide

private theorem boat_noNul : (0 : UInt8) ∉ lit "KF7VOL" := by decide

private def hilltop : CString := ⟨lit "W1AW-10", hilltop_noNul⟩

private def harbour : CString := ⟨lit "N7NIX-10", harbour_noNul⟩

private def boat : CString := ⟨lit "KF7VOL", boat_noNul⟩

/-- Two channels of one gateway and one of another. -/
private def three : List Launch := [hilltopStation hilltop boat 501, hilltopStation harbour boat 502,
  hilltopStation hilltop boat 503]

private theorem three_separable : Separable three where
  good := by simp [gwcallsOf, three, hilltopStation, GoodGwcall, hilltop, harbour]; decide
  clear := by simp only [NoPrefix]; decide
  few := by decide

/-- The second run makes its first call ahead of the others. -/
private def mixed : List SbOp :=
  .gwPid harbour 502 :: ((three.map callsOf).set 1 (callsOf (hilltopStation harbour boat 502)).tail).flatten

private theorem mixed_shuffled : Shuffled (three.map callsOf) mixed :=
  .take 1 rfl (shuffled_flatten _)

theorem concurrent_record_harbour :
    shown id (mixed.foldl SbOp.apply freshBlock) harbour =
      shown id ((hilltopStation harbour boat 502).start.leaves freshBlock) harbour := by
  refine concurrent_record three three_separable mixed mixed_shuffled 1 (hilltopStation harbour boat 502)
    rfl ?_
  intro j m hj hm
  match j with
  | 0 => obtain rfl := Option.some.inj hj; exact absurd hm (by decide)
  | 1 => rfl
  | 2 => obtain rfl := Option.some.inj hj; exact absurd hm (by decide)
  | j + 3 => cases hj

private theorem credit_comm (x : UInt64 × UInt64) (o o' : SbOp) :
    credit (credit x o) o' = credit (credit x o') o := by
  cases o <;> cases o' <;> simp only [credit] <;>
    rw [UInt64.add_assoc, UInt64.add_assoc, UInt64.add_comm (UInt64.ofInt _)]

private theorem counters_own (k : CString) (ops : List SbOp) :
    counters (own gwLayout emptyGw k (ops.filterMap gwOp)) =
      (ops.filter (onGwcall k)).foldl credit (0, 0) := by
  rw [own, filter_filterMap_gwOp]
  have hfold : ∀ (os : List SbOp) (r : RmsgwStat),
      counters ((os.filterMap gwOp).foldl (fun r o => o.update r) r) =
        (os.filter (fun o => (gwOp o).isSome)).foldl credit (counters r) := by
    intro os
    induction os with
    | nil => intro r; rfl
    | cons o os ih =>
        intro r
        cases ho : gwOp o with
        | none => rw [List.filterMap_cons_none ho, List.filter_cons_of_neg (by simp [ho]), ih]
        | some q =>
            rw [List.filterMap_cons_some ho, List.filter_cons_of_pos (by simp [ho]),
              List.foldl_cons, List.foldl_cons, ih, counters_update ho]
  have hkeep : (ops.filter (onGwcall k)).filter (fun o => (gwOp o).isSome) =
      ops.filter (onGwcall k) := by
    refine List.filter_eq_self.mpr fun o ho => ?_
    have hon := (List.mem_filter.mp ho).2
    rw [onGwcall] at hon
    cases hgw : gwOp o with
    | none => rw [hgw] at hon; cases hon
    | some q => rfl
  rw [hfold, hkeep]
  rfl

private theorem credit_runs (k : CString) (ms : List Launch) (x : UInt64 × UInt64) :
    ((ms.map callsOf).map (List.filter (onGwcall k))).flatten.foldl credit x =
      (sessionsOf ms k).foldl book x := by
  induction ms generalizing x with
  | nil => rfl
  | cons m ms ih =>
      rw [List.map_cons, List.map_cons, List.flatten_cons, List.foldl_append, filter_calls, ih,
        sessionsOf, sessionsOf]
      by_cases hk : m.start.gwcall = k
      · rw [if_pos hk, List.filter_cons_of_pos (by simpa using hk), List.flatMap_cons,
          List.foldl_append, ← booked_main]
        rfl
      · rw [if_neg hk, List.filter_cons_of_neg (by simpa using hk)]
        rfl

/-- The counters of a callsign show what all sessions under it have counted, however many
runs it has and in whatever order the calls of all runs come. -/
theorem concurrent_counters (ms : List Launch) (sep : Separable ms) (trace : List SbOp)
    (h : Shuffled (ms.map callsOf) trace) (k : CString) (hk : k ∈ gwcallsOf ms) :
    shown counters (trace.foldl SbOp.apply freshBlock) k =
      some (UInt64.ofNat (total Talk.toAx (sessionsOf ms k) + total Talk.discarded (sessionsOf ms k)),
        UInt64.ofNat (total Talk.toCms (sessionsOf ms k))) := by
  have hcomm : RightCommutative credit := ⟨credit_comm⟩
  have hsum : (trace.filter (onGwcall k)).foldl credit (0, 0) =
      (sessionsOf ms k).foldl book (0, 0) := by
    rw [((h.filter (onGwcall k)).perm).foldl_eq, credit_runs]
  have hbook := book_total (sessionsOf ms k) 0 0
  rw [Nat.zero_add, Nat.zero_add] at hbook
  rw [sep.shown_eq counters (fun k hk => (gwcalls_trace h k).mp hk) ((gwcalls_trace h k).mpr hk),
    counters_own, hsum]
  exact congrArg some hbook

theorem concurrent_counters_hilltop :
    shown counters (mixed.foldl SbOp.apply freshBlock) hilltop =
      some (UInt64.ofNat (total Talk.toAx (sessionsOf three hilltop) +
          total Talk.discarded (sessionsOf three hilltop)),
        UInt64.ofNat (total Talk.toCms (sessionsOf three hilltop))) :=
  concurrent_counters three three_separable mixed mixed_shuffled hilltop (by decide)

end Runs

end Rmsgw.Session.Concurrent
