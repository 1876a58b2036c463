/- The slot tables of the status block over any sequence of calls with any strings:
   no holes, no renamed slots, and one answer for each key. -/

import Rmsgw.Lib.SlotStability
import Rmsgw.Statblock.Refinement

set_option autoImplicit false
set_option relaxedAutoImplicit false

namespace Rmsgw.Statblock.Invariant

open Rmsgw.Lib.CStrings Rmsgw.Lib.SlotTable Rmsgw.Lib.SlotStability Rmsgw.Rms
open Rmsgw.Statblock.Model Rmsgw.Statblock.Refinement

universe v

/-- get_gw_slot() as its loop runs: the block it leaves and what it returns. -/
def gwSlotLoop (p : RmsStatus) (gwcall : CString) : RmsStatus × Int :=
  let q := searchFrom gwLayout gwcall p.rmsgw 0 rmsGwTableSize
  ({ p with rmsgw := q.1 }, q.2)

/-- get_cms_slot() as its loop runs. -/
def cmsSlotLoop (p : RmsStatus) (cmsHost : CString) : RmsStatus × Int :=
  let q := searchFrom aciLayout cmsHost p.aciHost 0 rmsCmsTableSize
  if q.2 < 0 then ({ p with aciHost := q.1 }, -1)
  else ({ p with aciHost := q.1, aciHostidx := q.2 }, q.2)

/-- The calls on a status block: the updates, and the lookups by themselves. -/
inductive Call
  | update (o : SbOp)
  | gwSlot (gwcall : CString)
  | cmsSlot (cmsHost : CString)

def Call.apply (p : RmsStatus) : Call → RmsStatus
  | .update o => o.apply p
  | .gwSlot gwcall => (gwSlotLoop p gwcall).1
  | .cmsSlot cmsHost => (cmsSlotLoop p cmsHost).1

def blockAfter (calls : List Call) : RmsStatus := calls.foldl Call.apply freshBlock

/-- The lookup in the gateway table that a call makes, and what it does with the record. -/
def gwCall : Call → Option (Op CString RmsgwStat)
  | .update o => gwOp o
  | .gwSlot gwcall => some ⟨gwcall, id⟩
  | .cmsSlot _ => none

/-- The lookup in the ACI host table that a call makes, and what it does with the record. -/
def hostCall : Call → Option (Op CString AciHostStat)
  | .update o => aciOp o
  | .gwSlot _ => none
  | .cmsSlot cmsHost => some ⟨cmsHost, id⟩

/-- The keys looked up in one table, with what the lookups return, call by call. -/
def returnsOf {ρ : Type v} (slotLoop : RmsStatus → CString → RmsStatus × Int)
    (view : Call → Option (Op CString ρ)) : RmsStatus → List Call → List (CString × Int)
  | _, [] => []
  | p, c :: cs =>
      ((view c).toList.map (fun q => (q.key, (slotLoop p q.key).2))) ++
        returnsOf slotLoop view (c.apply p) cs

def gwReturns (calls : List Call) : List (CString × Int) :=
  returnsOf gwSlotLoop gwCall freshBlock calls

def hostReturns (calls : List Call) : List (CString × Int) :=
  returnsOf cmsSlotLoop hostCall freshBlock calls

/-- The index that the latest successful lookup returned, -1 before the first. -/
def latest (returns : List (CString × Int)) : Int :=
  ((returns.map Prod.snd).filter (fun i => 0 ≤ i)).getLast?.getD (-1)

/-- An array that a key was copied into is found by that key, and it stays vacant
only if the key is found everywhere. -/
private theorem stops_at_copy {size : Nat} (a : CArray size) (k : CString) (limit : Nat)
    (fits : limit ≤ size) : (∀ stored, (if (a.strncpy k limit fits).vacant then none
        else some (a.strncpy k limit fits).cstring) = some stored →
      strnequal k.bytes stored.bytes (min limit k.bytes.length) = true) ∧
    ((if (a.strncpy k limit fits).vacant then none
        else some (a.strncpy k limit fits).cstring) = none →
      ∀ stored : CString, strnequal k.bytes stored.bytes (min limit k.bytes.length) = true) := by
  have htake := CArray.take_text_strncpy a k limit fits
  constructor
  · intro stored hname
    split at hname
    · cases hname
    · obtain rfl := Option.some.inj hname
      exact beq_iff_eq.mpr htake.symm
  · intro hnone stored
    split at hnone
    · rename_i hvacant
      have hempty : text (a.strncpy k limit fits).bytes = [] := List.isEmpty_iff.mp hvacant
      have hlen := congrArg List.length htake
      rw [hempty, List.take_nil, List.length_nil, List.length_take] at hlen
      have hzero : min limit k.bytes.length = 0 := by omega
      simp [strnequal, hzero]
    · cases hnone

theorem gwLayout_steady : Steady gwLayout where
  named := fun k r stored _ => (stops_at_copy r.gwGwcall k maxGwCall (by decide)).1 stored
  unnamed := fun k r _ => (stops_at_copy r.gwGwcall k maxGwCall (by decide)).2

private theorem aciLayout_steady : Steady aciLayout where
  named := fun k r stored _ => (stops_at_copy r.aciHost k rmsMaxHostName (Nat.le_refl _)).1 stored
  unnamed := fun k r _ => (stops_at_copy r.aciHost k rmsMaxHostName (Nat.le_refl _)).2

private theorem gwSlotLoop_eq {p : RmsStatus} (hsize : p.rmsgw.length = rmsGwTableSize)
    (gwcall : CString) : gwSlotLoop p gwcall =
      ((getGwSlot p gwcall).elim p Prod.snd, returned ((getGwSlot p gwcall).map Prod.fst)) := by
  have hloop := searchFrom_eq (L := gwLayout) gwcall [] p.rmsgw
  simp only [List.nil_append, List.length_nil, Nat.zero_add, hsize] at hloop
  simp only [gwSlotLoop, getGwSlot, hloop]
  cases getSlot gwLayout gwcall p.rmsgw <;> rfl

private theorem cmsSlotLoop_eq {p : RmsStatus} (hsize : p.aciHost.length = rmsCmsTableSize)
    (cmsHost : CString) :
    cmsSlotLoop p cmsHost =
      ((getCmsSlot p cmsHost).elim p Prod.snd, returned ((getCmsSlot p cmsHost).map Prod.fst)) := by
  have hloop := searchFrom_eq (L := aciLayout) cmsHost [] p.aciHost
  simp only [List.nil_append, List.length_nil, Nat.zero_add, hsize] at hloop
  simp only [cmsSlotLoop, getCmsSlot, hloop]
  cases getSlot aciLayout cmsHost p.aciHost with
  | none => rfl
  | some q =>
      have hpos : ¬ ((q.1 : Nat) : Int) < 0 := by omega
      simp [hpos, returned]

/-- How a call acts on one of the two tables. -/
def ActsOn {ρ : Type v} (L : Layout CString ρ) (table : RmsStatus → List ρ)
    (slotLoop : RmsStatus → CString → RmsStatus × Int) (view : Call → Option (Op CString ρ))
    (size : Nat) : Prop :=
  ∀ p c, (table p).length = size →
    match view c with
    | none => table (c.apply p) = table p
    | some q => ∃ r, (slotLoop p q.key).2 = returned r ∧ ∀ slots,
        perform L ⟨table p, slots⟩ q = ⟨table (c.apply p), slots ++ [(q.key, r)]⟩

theorem acts_on_gw : ActsOn gwLayout RmsStatus.rmsgw gwSlotLoop gwCall rmsGwTableSize := by
  intro p c hsize
  cases c with
  | cmsSlot cmsHost =>
      simp only [gwCall, Call.apply, cmsSlotLoop]
      split <;> rfl
  | gwSlot gwcall =>
      refine ⟨(getGwSlot p gwcall).map Prod.fst, ?_, fun slots => ?_⟩
      · rw [gwSlotLoop_eq hsize]
      · rw [onGwSlot_rmsgw]
        simp only [Call.apply, gwSlotLoop_eq hsize, onGwSlot]
        cases getGwSlot p gwcall with
        | none => rfl
        | some q => simp
  | update o =>
      rcases apply_rmsgw p o with ⟨q, hq, happly⟩ | ⟨hq, happly⟩
      · simp only [gwCall, hq]
        refine ⟨(getGwSlot p q.key).map Prod.fst, ?_, fun slots => ?_⟩
        · rw [gwSlotLoop_eq hsize]
        · rw [onGwSlot_rmsgw, ← happly]
          rfl
      · simp only [gwCall, hq]
        exact happly

theorem acts_on_host : ActsOn aciLayout RmsStatus.aciHost cmsSlotLoop hostCall rmsCmsTableSize := by
  intro p c hsize
  cases c with
  | gwSlot gwcall => rfl
  | cmsSlot cmsHost =>
      refine ⟨(getCmsSlot p cmsHost).map Prod.fst, ?_, fun slots => ?_⟩
      · rw [cmsSlotLoop_eq hsize]
      · rw [onCmsSlot_aciHost]
        simp only [Call.apply, cmsSlotLoop_eq hsize, onCmsSlot]
        cases getCmsSlot p cmsHost with
        | none => rfl
        | some q => simp
  | update o =>
      rcases apply_aciHost p o with ⟨q, hq, happly⟩ | ⟨hq, happly⟩
      · simp only [hostCall, hq]
        refine ⟨(getCmsSlot p q.key).map Prod.fst, ?_, fun slots => ?_⟩
        · rw [cmsSlotLoop_eq hsize]
        · rw [onCmsSlot_aciHost, ← happly]
          rfl
      · simp only [hostCall, hq]
        exact happly

section Table

variable {ρ : Type v} {L : Layout CString ρ} {table : RmsStatus → List ρ}
  {slotLoop : RmsStatus → CString → RmsStatus × Int} {view : Call → Option (Op CString ρ)}
  {size : Nat}

theorem ActsOn.unseen (h : ActsOn L table slotLoop view size) {p : RmsStatus} {c : Call}
    (hsize : (table p).length = size) (hview : view c = none) : table (c.apply p) = table p := by
  have hact := h p c hsize
  simp only [hview] at hact
  exact hact

private theorem ActsOn.seen (h : ActsOn L table slotLoop view size) {p : RmsStatus} {c : Call}
    {q : Op CString ρ} (hsize : (table p).length = size) (hview : view c = some q) :
    ∃ r, (slotLoop p q.key).2 = returned r ∧ ∀ slots,
      perform L ⟨table p, slots⟩ q = ⟨table (c.apply p), slots ++ [(q.key, r)]⟩ := by
  have hact := h p c hsize
  simp only [hview] at hact
  exact hact

theorem ActsOn.forall_apply_iff (h : ActsOn L table slotLoop view size) {p : RmsStatus} {c : Call}
    {q : Op CString ρ} (hsize : (table p).length = size) (hview : view c = some q) {Q : ρ → Prop}
    (hp : ∀ r ∈ table p, Q r) :
    (∀ r ∈ table (c.apply p), Q r) ↔
      ∀ i ∈ lookup L q.key (table p), ∀ r, (table p)[i]? = some r → Q (q.update (seized L q.key r)) := by
  obtain ⟨_, -, hperform⟩ := h.seen hsize hview
  have htable := forall_perform_iff (L := L) (s := ⟨table p, []⟩) hp q
  rwa [hperform []] at htable

private theorem ActsOn.run (h : ActsOn L table slotLoop view size) {p : RmsStatus}
    (hsize : (table p).length = size) (calls : List Call) (slots : List (CString × Option Nat)) :
    ∃ more, returnsOf slotLoop view p calls = more.map (fun q => (q.1, returned q.2)) ∧
      (calls.filterMap view).foldl (perform L) ⟨table p, slots⟩ =
        ⟨table (calls.foldl Call.apply p), slots ++ more⟩ := by
  induction calls generalizing p slots with
  | nil => exact ⟨[], rfl, by simp⟩
  | cons c cs ih =>
      cases hview : view c with
      | none =>
          have hact := h.unseen hsize hview
          obtain ⟨more, hreturns, hrun⟩ := ih (p := c.apply p) (hact ▸ hsize) slots
          refine ⟨more, by simpa [returnsOf, hview] using hreturns, ?_⟩
          rw [List.filterMap_cons_none hview, List.foldl_cons, ← hrun, hact]
      | some q =>
          obtain ⟨r, hr, hperform⟩ := h.seen hsize hview
          have hnext : (table (c.apply p)).length = size := by
            have hlen := perform_length (L := L) ⟨table p, slots⟩ q
            rw [hperform] at hlen
            exact hlen.trans hsize
          obtain ⟨more, hreturns, hrun⟩ := ih hnext (slots ++ [(q.key, r)])
          refine ⟨(q.key, r) :: more, by simp [returnsOf, hview, hreturns, hr], ?_⟩
          rw [List.filterMap_cons_some hview, List.foldl_cons, hperform, hrun, List.foldl_cons]
          simp

private theorem ActsOn.grows (h : ActsOn L table slotLoop view size) {p : RmsStatus}
    (hsize : (table p).length = size) {calls : List Call}
    (keeps : ∀ q ∈ calls.filterMap view, ∀ r, L.key (q.update r) = L.key r) :
    Grows L (table p) (table (calls.foldl Call.apply p)) := by
  obtain ⟨more, -, hrun⟩ := h.run hsize calls []
  have hgrows := grows_run keeps (⟨table p, []⟩ : Run CString ρ)
  rwa [hrun] at hgrows

end Table

private theorem gwCall_key {calls : List Call} :
    ∀ q ∈ calls.filterMap gwCall, ∀ r, gwLayout.key (q.update r) = gwLayout.key r := by
  intro q hq r
  obtain ⟨c, -, hc⟩ := List.mem_filterMap.mp hq
  cases c with
  | update o => exact gwOp_key hc r
  | gwSlot gwcall => cases hc; rfl
  | cmsSlot cmsHost => cases hc

private theorem hostCall_key {calls : List Call} :
    ∀ q ∈ calls.filterMap hostCall, ∀ r, aciLayout.key (q.update r) = aciLayout.key r := by
  intro q hq r
  obtain ⟨c, -, hc⟩ := List.mem_filterMap.mp hq
  cases c with
  | update o => exact aciOp_key hc r
  | gwSlot gwcall => cases hc
  | cmsSlot cmsHost => cases hc; rfl

private theorem freshBlock_rmsgw_length :
    freshBlock.rmsgw.length = rmsGwTableSize := List.length_replicate

private theorem freshBlock_aciHost_length : freshBlock.aciHost.length = rmsCmsTableSize :=
  List.length_replicate

theorem blockAfter_rmsgw_length (calls : List Call) :
    (blockAfter calls).rmsgw.length = rmsGwTableSize :=
  (acts_on_gw.grows freshBlock_rmsgw_length gwCall_key).length_eq.symm.trans freshBlock_rmsgw_length

theorem blockAfter_aciHost_length (calls : List Call) :
    (blockAfter calls).aciHost.length = rmsCmsTableSize :=
  (acts_on_host.grows freshBlock_aciHost_length hostCall_key).length_eq.symm.trans
    freshBlock_aciHost_length

theorem blockAfter_append (calls later : List Call) :
    blockAfter (calls ++ later) = later.foldl Call.apply (blockAfter calls) :=
  List.foldl_append

section Table

variable {ρ : Type v} {L : Layout CString ρ} {table : RmsStatus → List ρ}
  {slotLoop : RmsStatus → CString → RmsStatus × Int} {view : Call → Option (Op CString ρ)}
  {size : Nat} {empty : ρ}

private theorem ActsOn.invariant (h : ActsOn L table slotLoop view size) (steady : Steady L)
    (vacant : L.key empty = none) (fresh : table freshBlock = List.replicate size empty)
    (calls : List Call) (keeps : ∀ q ∈ calls.filterMap view, ∀ r, L.key (q.update r) = L.key r) :
    Packed L (table (blockAfter calls)) ∧
      ∀ p ∈ returnsOf slotLoop view freshBlock calls,
        ∀ q ∈ returnsOf slotLoop view freshBlock calls, p.1 = q.1 → p.2 = q.2 := by
  have hsize : (table freshBlock).length = size := by rw [fresh, List.length_replicate]
  obtain ⟨more, hreturns, hrun⟩ := h.run hsize calls []
  have hexecute : execute L empty size (calls.filterMap view) = ⟨table (blockAfter calls), more⟩ := by
    rw [execute, ← fresh, hrun]
    rfl
  have hinv := invariant_execute steady vacant size keeps
  rw [hexecute] at hinv
  refine ⟨hinv.packed, ?_⟩
  rw [hreturns]
  intro p hp q hq hkey
  obtain ⟨p', hp', rfl⟩ := List.mem_map.mp hp
  obtain ⟨q', hq', rfl⟩ := List.mem_map.mp hq
  exact congrArg returned (hinv.consistent p' hp' q' hq' hkey)

private theorem returnsOf_snoc (p : RmsStatus) (calls : List Call) (c : Call) :
    returnsOf slotLoop view p (calls ++ [c]) = returnsOf slotLoop view p calls ++
      (view c).toList.map (fun q => (q.key, (slotLoop (calls.foldl Call.apply p) q.key).2)) := by
  induction calls generalizing p with
  | nil => simp [returnsOf]
  | cons d cs ih => simp [returnsOf, ih]

end Table

private theorem latest_snoc (returns : List (CString × Int)) (q : CString × Int) :
    latest (returns ++ [q]) = if 0 ≤ q.2 then q.2 else latest returns := by
  by_cases hq : 0 ≤ q.2 <;> simp [latest, hq]

private theorem onGwSlot_aciHostidx (p : RmsStatus) (gwcall : CString) (f : RmsgwStat → RmsgwStat) :
    (onGwSlot p gwcall f).aciHostidx = p.aciHostidx := by
  simp only [onGwSlot, getGwSlot]
  cases getSlot gwLayout gwcall p.rmsgw <;> rfl

private theorem onCmsSlot_aciHostidx {p : RmsStatus} (hsize : p.aciHost.length = rmsCmsTableSize)
    (cmsHost : CString) (f : AciHostStat → AciHostStat) :
    (onCmsSlot p cmsHost f).aciHostidx = (cmsSlotLoop p cmsHost).1.aciHostidx := by
  rw [cmsSlotLoop_eq hsize, onCmsSlot]
  cases getCmsSlot p cmsHost <;> rfl

private theorem cmsSlotLoop_aciHostidx (p : RmsStatus) (cmsHost : CString) :
    (cmsSlotLoop p cmsHost).1.aciHostidx =
      if 0 ≤ (cmsSlotLoop p cmsHost).2 then (cmsSlotLoop p cmsHost).2 else p.aciHostidx := by
  simp only [cmsSlotLoop]
  split
  · simp
  · rename_i hneg
    rw [if_pos (by omega)]

private theorem apply_aciHostidx {p : RmsStatus} (hsize : p.aciHost.length = rmsCmsTableSize)
    (c : Call) : (c.apply p).aciHostidx =
      match hostCall c with
      | none => p.aciHostidx
      | some q => if 0 ≤ (cmsSlotLoop p q.key).2 then (cmsSlotLoop p q.key).2 else p.aciHostidx := by
  cases c with
  | gwSlot gwcall => rfl
  | cmsSlot cmsHost => exact cmsSlotLoop_aciHostidx p cmsHost
  | update o =>
      rcases apply_aciHost p o with ⟨q, hq, happly⟩ | ⟨hq, -⟩
      · simp only [Call.apply, hostCall, hq, happly]
        rw [onCmsSlot_aciHostidx hsize, cmsSlotLoop_aciHostidx]
      · simp only [hostCall, hq]
        cases o
        case aciError | aciCheckin | channelStats => cases hq
        case aciState | aciPid => rfl
        all_goals exact onGwSlot_aciHostidx ..

private theorem aciHostidx_latest (calls : List Call) :
    (blockAfter calls).aciHostidx = latest (hostReturns calls) := by
  induction calls using List.reverseRecOn with
  | nil => rfl
  | append_singleton past c ih =>
      have hstep := apply_aciHostidx (blockAfter_aciHost_length past) c
      rw [blockAfter_append, List.foldl_cons, List.foldl_nil, hstep, hostReturns, returnsOf_snoc]
      cases hview : hostCall c with
      | none => simpa [hostReturns] using ih
      | some q =>
          simp only [Option.toList_some, List.map_cons, List.map_nil]
          rw [latest_snoc, ← hostReturns, ← ih]
          rfl

/-- What holds of the slot tables after any calls on a fresh block, and after any
calls behind these. -/
structure TablesHold (calls later : List Call) : Prop where
  gwPacked : Packed gwLayout (blockAfter calls).rmsgw
  hostPacked : Packed aciLayout (blockAfter calls).aciHost
  gwNames : Grows gwLayout (blockAfter calls).rmsgw (blockAfter (calls ++ later)).rmsgw
  hostNames : Grows aciLayout (blockAfter calls).aciHost (blockAfter (calls ++ later)).aciHost
  hostidx : (blockAfter calls).aciHostidx = latest (hostReturns calls)
  gwFull : ∀ c q, gwCall c = some q → (gwSlotLoop (blockAfter calls) q.key).2 = -1 →
    c.apply (blockAfter calls) = blockAfter calls
  hostFull : ∀ c q, hostCall c = some q → (cmsSlotLoop (blockAfter calls) q.key).2 = -1 →
    c.apply (blockAfter calls) = blockAfter calls
  gwSame : ∀ p ∈ gwReturns calls, ∀ q ∈ gwReturns calls, p.1 = q.1 → p.2 = q.2
  hostSame : ∀ p ∈ hostReturns calls, ∀ q ∈ hostReturns calls, p.1 = q.1 → p.2 = q.2

private theorem returned_eq_neg_one {r : Option Nat} (h : returned r = -1) : r = none := by
  cases r with
  | none => rfl
  | some i => simp only [returned] at h; omega

private theorem gw_full_unchanged {p : RmsStatus} (hsize : p.rmsgw.length = rmsGwTableSize)
    {c : Call}
    {q : Op CString RmsgwStat} (hview : gwCall c = some q) (hfull : (gwSlotLoop p q.key).2 = -1) :
    c.apply p = p := by
  rw [gwSlotLoop_eq hsize] at hfull
  have hnone : getGwSlot p q.key = none := Option.map_eq_none_iff.mp (returned_eq_neg_one hfull)
  cases c with
  | cmsSlot cmsHost => cases hview
  | gwSlot gwcall =>
      cases hview
      simp [Call.apply, gwSlotLoop_eq hsize, hnone]
  | update o =>
      rcases apply_rmsgw p o with ⟨q', hq', happly⟩ | ⟨hq', -⟩
      · obtain rfl : q = q' := Option.some.inj (hview.symm.trans hq')
        simp [Call.apply, happly, onGwSlot, hnone]
      · exact absurd (hview.symm.trans hq') (by simp)

private theorem host_full_unchanged {p : RmsStatus} (hsize : p.aciHost.length = rmsCmsTableSize)
    {c : Call} {q : Op CString AciHostStat} (hview : hostCall c = some q)
    (hfull : (cmsSlotLoop p q.key).2 = -1) : c.apply p = p := by
  rw [cmsSlotLoop_eq hsize] at hfull
  have hnone : getCmsSlot p q.key = none := Option.map_eq_none_iff.mp (returned_eq_neg_one hfull)
  cases c with
  | gwSlot gwcall => cases hview
  | cmsSlot cmsHost =>
      cases hview
      simp [Call.apply, cmsSlotLoop_eq hsize, hnone]
  | update o =>
      rcases apply_aciHost p o with ⟨q', hq', happly⟩ | ⟨hq', -⟩
      · obtain rfl : q = q' := Option.some.inj (hview.symm.trans hq')
        simp [Call.apply, happly, onCmsSlot, hnone]
      · exact absurd (hview.symm.trans hq') (by simp)

/-- Over any calls with any strings on a fresh block, the tables have no holes, no
slot is renamed, the published index is the latest one, a lookup in a full table
changes nothing, and lookups of one key agree. -/
theorem slot_tables_hold (calls later : List Call) : TablesHold calls later := by
  have hgw := acts_on_gw.invariant gwLayout_steady gwLayout_lawful.empty_vacant rfl calls
    gwCall_key
  have hhost := acts_on_host.invariant aciLayout_steady
    aciLayout_lawful.empty_vacant rfl calls hostCall_key
  constructor
  case gwPacked => exact hgw.1
  case hostPacked => exact hhost.1
  case gwNames =>
    rw [blockAfter_append]
    exact acts_on_gw.grows (blockAfter_rmsgw_length calls) gwCall_key
  case hostNames =>
    rw [blockAfter_append]
    exact acts_on_host.grows (blockAfter_aciHost_length calls) hostCall_key
  case hostidx => exact aciHostidx_latest calls
  case gwFull => exact fun c q hview => gw_full_unchanged (blockAfter_rmsgw_length calls) hview
  case hostFull => exact fun c q hview => host_full_unchanged (blockAfter_aciHost_length calls) hview
  case gwSame => exact hgw.2
  case hostSame => exact hhost.2

/-- The monitor, which stops at the first vacant slot, shows every host in the table. -/
theorem monitor_shows_all_hosts (calls : List Call) :
    (blockAfter calls).aciHost.takeWhile (fun r => (aciLayout.key r).isSome) =
      (blockAfter calls).aciHost.filter (fun r => (aciLayout.key r).isSome) :=
  (acts_on_host.invariant aciLayout_steady aciLayout_lawful.empty_vacant rfl calls
    hostCall_key).1.takeWhile_eq_filter

end Rmsgw.Statblock.Invariant
