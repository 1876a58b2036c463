/- The names in the status block: which calls keep them terminated. -/

import Rmsgw.Lib.Footprint
import Rmsgw.Statblock.Invariant

set_option autoImplicit false
set_option relaxedAutoImplicit false

namespace Rmsgw.Statblock.Names

open Rmsgw.Lib.CStrings Rmsgw.Lib.Footprint Rmsgw.Lib.SlotTable Rmsgw.Lib.SlotStability
open Rmsgw.Lib.Transcript Rmsgw.Rms
open Rmsgw.Statblock.Model Rmsgw.Statblock.Refinement Rmsgw.Statblock.Invariant

/-- An array with a NUL in it: strlen() of it, and strncmp() of a string with it,
stay inside whatever stands behind it. -/
structure TerminatedName {size : Nat} (a : CArray size) : Prop where
  nul : (0 : UInt8) ∈ a.bytes
  strlen : ∀ behind, (text (a.bytes ++ behind)).length < size
  strncmp : ∀ (behind : List UInt8) (s : CString) (n : Nat),
    ∀ i ∈ compareReads (a.bytes ++ behind) (s.bytes.take n), i < size

/-- All names in the two tables are terminated. -/
structure NamesTerminated (p : RmsStatus) : Prop where
  hosts : ∀ r ∈ p.aciHost, TerminatedName r.aciHost
  gwcalls : ∀ r ∈ p.rmsgw, TerminatedName r.gwGwcall
  clients : ∀ r ∈ p.rmsgw, TerminatedName r.gwClient
  cms : ∀ r ∈ p.rmsgw, TerminatedName r.gwCms

/-- The host that a call puts into a new slot of the ACI host table, if it does. -/
def newHost (p : RmsStatus) (c : Call) : Option CString :=
  (hostCall c).bind (fun q => if newSlot aciLayout q.key p.aciHost then some q.key else none)

/-- The CMS that a call sets in a gateway's record, if it does. -/
def newCms (p : RmsStatus) : Call → Option CString
  | .update (.gwCms gwcall cmsHost) =>
      if (lookup gwLayout gwcall p.rmsgw).isSome then cmsHost else none
  | _ => none

/-- The host names that a call stores leave room for a terminator. -/
structure HostsFit (p : RmsStatus) (c : Call) : Prop where
  host : ∀ h ∈ newHost p c, h.bytes.length < rmsMaxHostName
  cms : ∀ h ∈ newCms p c, h.bytes.length < rmsMaxHostName

private theorem terminatedName_iff {size : Nat} (a : CArray size) :
    TerminatedName a ↔ (0 : UInt8) ∈ a.bytes := by
  constructor
  · exact TerminatedName.nul
  · intro hnul
    obtain ⟨front, rest, hbytes, hfront⟩ := List.eq_append_cons_of_mem hnul
    have hlt : front.length < size := by
      rw [← a.length_bytes, hbytes, List.length_append, List.length_cons]
      omega
    have happ : ∀ behind, a.bytes ++ behind = front ++ 0 :: (rest ++ behind) := by
      intro behind
      rw [hbytes, List.append_assoc, List.cons_append]
    refine ⟨hnul, fun behind => ?_, fun behind s n i hi => ?_⟩
    · rw [happ, text_append_nul hfront]
      exact hlt
    · rw [happ] at hi
      have hle := compareReads_nul (fun h => s.noNul (List.mem_of_mem_take h)) hi
      omega

private theorem strncpy_full_iff {size : Nat} (a : CArray size) (src : CString) :
    TerminatedName (a.strncpy src size (Nat.le_refl size)) ↔ src.bytes.length < size := by
  have hbytes : (a.strncpy src size (Nat.le_refl size)).bytes =
      src.bytes.take size ++ List.replicate (size - src.bytes.length) 0 := by
    rw [CArray.strncpy, CArray.overwrite_bytes, List.drop_eq_nil_of_le, List.append_nil]
    rw [a.length_bytes, List.length_append, List.length_take, List.length_replicate]
    omega
  rw [terminatedName_iff, hbytes, List.mem_append, List.mem_replicate]
  constructor
  · rintro (hmem | ⟨hpos, -⟩)
    · exact absurd (List.mem_of_mem_take hmem) src.noNul
    · omega
  · exact fun hlt => .inr ⟨by omega, rfl⟩

/-- The last byte of an array is a terminator. -/
def LastNul {size : Nat} (a : CArray (size + 1)) : Prop := a.bytes[size]? = some 0

private theorem LastNul.terminated {size : Nat} {a : CArray (size + 1)} (h : LastNul a) :
    TerminatedName a := (terminatedName_iff a).mpr (List.mem_of_getElem? h)

private theorem LastNul.strncpy {size : Nat} {a : CArray (size + 1)} (h : LastNul a)
    (src : CString) : LastNul (a.strncpy src size (Nat.le_succ size)) := by
  have hlen : (src.bytes.take size ++ List.replicate (size - src.bytes.length) (0 : UInt8)).length =
      size := by
    rw [List.length_append, List.length_take, List.length_replicate]
    omega
  rw [LastNul, CArray.strncpy, CArray.overwrite_bytes, List.getElem?_append_right (by omega), hlen,
    Nat.sub_self, List.getElem?_drop]
  exact h

private theorem hostCall_name {c : Call} {q : Op CString AciHostStat} (h : hostCall c = some q)
    (r : AciHostStat) : (q.update r).aciHost = r.aciHost := by
  cases c with
  | update o => cases o <;> cases h <;> rfl
  | gwSlot gwcall => cases h
  | cmsSlot cmsHost => cases h; rfl

private theorem seized_host_iff {r : AciHostStat} (hr : TerminatedName r.aciHost) (k : CString) :
    TerminatedName (seized aciLayout k r).aciHost ↔
      (aciLayout.key r = none → k.bytes.length < rmsMaxHostName) := by
  rw [seized]
  split
  · rename_i hkey
    rw [forall_prop_of_true (Option.isNone_iff_eq_none.mp hkey)]
    exact strncpy_full_iff r.aciHost k
  · rename_i hkey
    exact iff_of_true hr fun hnone => absurd (Option.isNone_iff_eq_none.mpr hnone) hkey

private theorem hosts_apply_iff {p : RmsStatus} (hsize : p.aciHost.length = rmsCmsTableSize)
    (hp : ∀ r ∈ p.aciHost, TerminatedName r.aciHost) (c : Call) :
    (∀ r ∈ (c.apply p).aciHost, TerminatedName r.aciHost) ↔
      ∀ h ∈ newHost p c, h.bytes.length < rmsMaxHostName := by
  cases hview : hostCall c with
  | none =>
      rw [acts_on_host.unseen hsize hview, newHost, hview]
      exact iff_of_true hp fun h hh => by cases hh
  | some q =>
      refine (acts_on_host.forall_apply_iff hsize hview hp).trans ?_
      constructor
      · intro h host hhost
        obtain ⟨hnew, rfl⟩ : newSlot aciLayout q.key p.aciHost = true ∧ q.key = host := by
          simpa [newHost, hview] using hhost
        obtain ⟨i, r, hi, hr, hkey⟩ := newSlot_iff.mp hnew
        have hname := h i hi r hr
        rw [hostCall_name hview, seized_host_iff (hp r (List.mem_of_getElem? hr))] at hname
        exact hname hkey
      · intro h i hi r hr
        rw [hostCall_name hview, seized_host_iff (hp r (List.mem_of_getElem? hr))]
        intro hkey
        have hnew := newSlot_iff.mpr ⟨i, r, hi, hr, hkey⟩
        exact h q.key (by simp [newHost, hview, hnew])

/-- What the short names of a gateway's record need to stay terminated. -/
structure LastNuls (r : RmsgwStat) : Prop where
  gwcall : LastNul r.gwGwcall
  client : LastNul r.gwClient

private theorem LastNuls.update {o : SbOp} {q : Op CString RmsgwStat} (hq : gwOp o = some q)
    {r : RmsgwStat} (h : LastNuls r) : LastNuls (q.update r) := by
  cases o <;> cases hq
  case gwUsercall usercall =>
    cases usercall with
    | none => exact h
    | some usercall => exact ⟨h.gwcall, h.client.strncpy usercall⟩
  case gwCms cmsHost => cases cmsHost <;> exact ⟨h.gwcall, h.client⟩
  all_goals exact ⟨h.gwcall, h.client⟩

private theorem LastNuls.seized {r : RmsgwStat} (h : LastNuls r) (k : CString) :
    LastNuls (seized gwLayout k r) := by
  simp only [Lib.SlotStability.seized]
  split
  · exact ⟨h.gwcall.strncpy k, h.client⟩
  · exact h

private theorem lastNuls_apply {p : RmsStatus} (hsize : p.rmsgw.length = rmsGwTableSize)
    (hp : ∀ r ∈ p.rmsgw, LastNuls r) (c : Call) : ∀ r ∈ (c.apply p).rmsgw, LastNuls r := by
  cases hview : gwCall c with
  | none =>
      rw [acts_on_gw.unseen hsize hview]
      exact hp
  | some q =>
      refine (acts_on_gw.forall_apply_iff hsize hview hp).mpr fun i _ r hr => ?_
      have hseized := (hp r (List.mem_of_getElem? hr)).seized q.key
      cases c with
      | update o => exact hseized.update hview
      | gwSlot gwcall => cases hview; exact hseized
      | cmsSlot cmsHost => cases hview

private theorem lastNuls_blockAfter (calls : List Call) :
    ∀ r ∈ (blockAfter calls).rmsgw, LastNuls r := by
  induction calls using List.reverseRecOn with
  | nil =>
      intro r hr
      obtain rfl := List.eq_of_mem_replicate hr
      exact ⟨rfl, rfl⟩
  | append_singleton calls c ih =>
      rw [blockAfter_append]
      exact lastNuls_apply (blockAfter_rmsgw_length calls) ih c

private theorem seized_cms (k : CString) (r : RmsgwStat) :
    (seized gwLayout k r).gwCms = r.gwCms := by
  rw [seized]
  split <;> rfl

private theorem gwCall_cms {c : Call} {q : Op CString RmsgwStat} (hq : gwCall c = some q)
    (p : RmsStatus) : (∃ gwcall cmsHost, c = .update (.gwCms gwcall (some cmsHost)) ∧
        q = ⟨gwcall, setCms (some cmsHost)⟩) ∨
      (newCms p c = none ∧ ∀ r, (q.update r).gwCms = r.gwCms) := by
  cases c with
  | cmsSlot cmsHost => cases hq
  | gwSlot gwcall => cases hq; exact .inr ⟨rfl, fun _ => rfl⟩
  | update o =>
      cases o with
      | gwCms gwcall cmsHost =>
          cases hq
          cases cmsHost with
          | none => exact .inr ⟨by simp [newCms], fun _ => rfl⟩
          | some cmsHost => exact .inl ⟨gwcall, cmsHost, rfl, rfl⟩
      | gwUsercall gwcall usercall =>
          cases hq
          refine .inr ⟨rfl, fun r => ?_⟩
          cases usercall <;> rfl
      | _ => cases hq <;> exact .inr ⟨rfl, fun _ => rfl⟩

private theorem mem_newCms {p : RmsStatus} {gwcall host h : CString} :
    h ∈ newCms p (.update (.gwCms gwcall (some host))) ↔
      (lookup gwLayout gwcall p.rmsgw).isSome = true ∧ host = h := by
  simp [newCms]

private theorem cms_apply_iff {p : RmsStatus} (hsize : p.rmsgw.length = rmsGwTableSize)
    (hp : ∀ r ∈ p.rmsgw, TerminatedName r.gwCms) (c : Call) :
    (∀ r ∈ (c.apply p).rmsgw, TerminatedName r.gwCms) ↔
      ∀ h ∈ newCms p c, h.bytes.length < rmsMaxHostName := by
  cases hview : gwCall c with
  | none =>
      have hnone : newCms p c = none := by
        cases c with
        | update o => cases o <;> first | rfl | cases hview
        | gwSlot gwcall => rfl
        | cmsSlot cmsHost => rfl
      rw [acts_on_gw.unseen hsize hview, hnone]
      exact iff_of_true hp fun h hh => by cases hh
  | some q =>
      refine (acts_on_gw.forall_apply_iff hsize hview hp).trans ?_
      rcases gwCall_cms hview p with ⟨gwcall, cmsHost, rfl, rfl⟩ | ⟨hnone, hkeeps⟩
      · simp only [setCms, strncpy_full_iff, mem_newCms]
        constructor
        · rintro h host ⟨hsome, rfl⟩
          obtain ⟨i, hi⟩ := Option.isSome_iff_exists.mp hsome
          obtain ⟨⟨j, t⟩, hget, rfl⟩ := Option.map_eq_some_iff.mp hi
          obtain ⟨r, hr, -⟩ := getSlot_set hget
          exact h j hi r hr
        · intro h i hi r _
          exact h cmsHost ⟨by rw [Option.mem_def.mp hi]; rfl, rfl⟩
      · rw [hnone]
        refine iff_of_true (fun i _ r hr => ?_) fun h hh => by cases hh
        rw [hkeeps, seized_cms]
        exact hp r (List.mem_of_getElem? hr)

private theorem namesTerminated_blockAfter {calls : List Call}
    (h : NamesTerminated (blockAfter calls)) (c : Call) :
    NamesTerminated (blockAfter (calls ++ [c])) ↔ HostsFit (blockAfter calls) c := by
  have hhosts := hosts_apply_iff (blockAfter_aciHost_length calls) h.hosts c
  have hcms := cms_apply_iff (blockAfter_rmsgw_length calls) h.cms c
  have hlast := lastNuls_blockAfter (calls ++ [c])
  rw [blockAfter_append] at hlast ⊢
  constructor
  · exact fun hnext => ⟨hhosts.mp hnext.hosts, hcms.mp hnext.cms⟩
  · exact fun hfit => ⟨hhosts.mpr hfit.host, fun r hr => (hlast r hr).gwcall.terminated,
      fun r hr => (hlast r hr).client.terminated, hcms.mpr hfit.cms⟩

/-- The names in the block stay terminated over a sequence of calls exactly when every
host name that a call stores is shorter than the array. -/
theorem names_terminated_iff (calls : List Call) :
    (∀ stage, stage <+: calls → NamesTerminated (blockAfter stage)) ↔
      Ordered (fun before c => HostsFit (blockAfter before) c) (fun _ _ => True) calls := by
  refine forall_stage_iff ?_ (fun before c h => namesTerminated_blockAfter h c) calls
  have hzero : ∀ size, TerminatedName (CArray.zero (size + 1)) := fun size =>
    (terminatedName_iff _).mpr (by simp [CArray.zero])
  refine ⟨fun r hr => ?_, fun r hr => ?_, fun r hr => ?_, fun r hr => ?_⟩
  all_goals
    obtain rfl := List.eq_of_mem_replicate hr
    exact hzero _

private def longHost : CString := ⟨List.replicate 64 97, by decide⟩

private def checkin : List Call := [.update (.aciCheckin longHost 0)]

/-- A host name of 64 characters fills its array to the end, and no NUL is left in it. -/
theorem long_host_unterminated :
    ¬ ∀ stage, stage <+: checkin → NamesTerminated (blockAfter stage) := by
  intro h
  have hfull : ¬ ∀ r ∈ (blockAfter checkin).aciHost, (0 : UInt8) ∈ r.aciHost.bytes := by decide
  exact hfull fun r hr => ((h checkin (List.prefix_refl _)).hosts r hr).nul

end Rmsgw.Statblock.Names
