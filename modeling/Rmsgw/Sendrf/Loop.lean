/- The send loop of sendrf(), over any outcomes of its writes: cursor, remaining count
   and the offsets taken are those of the moves that the outcomes make. -/

import Rmsgw.Sendrf.Model

set_option autoImplicit false
set_option relaxedAutoImplicit false

namespace Rmsgw.Sendrf.Loop

open Rmsgw.Lib.Cursor Rmsgw.Lib.Process Rmsgw.Rms Rmsgw.Sendrf.Model

/-- Retries that follow one another at most. -/
def maxRetries : Nat := 15

/-- What an outcome does to the cursor. -/
def move : WriteResult → Move
  | .wrote m => .take m
  | .eagain => .back
  | .failed => .stay

def moves (rs : List WriteResult) : List Move := rs.map move

/-- The bytes that a write has taken. -/
def size : WriteResult → Nat
  | .wrote m => m
  | .eagain => 0
  | .failed => 0

def bytesTaken : List WriteResult → Nat
  | [] => 0
  | r :: rs => size r + bytesTaken rs

/-- As many EAGAIN in a row as make the loop give up. -/
def GivesUp (rs : List WriteResult) : Prop :=
  List.replicate (maxRetries + 1) WriteResult.eagain <:+: rs

instance (rs : List WriteResult) : Decidable (GivesUp rs) := inferInstanceAs (Decidable (_ <:+: _))

/-- Where the loop stands: it goes on, it has sent everything, or a write has failed. -/
inductive Phase (c : Call) (rs : List WriteResult) (s : State) : Prop
  | sending (hpc : s.pc = .write) (hleft : 0 < s.nleft) (hok : WriteResult.failed ∉ rs)
      (hrow : List.replicate s.retryCount WriteResult.eagain <:+ rs)
  | sent (hpc : s.pc = .returned c.slen) (hleft : s.nleft = 0) (hok : WriteResult.failed ∉ rs)
  | broken (hpc : s.pc = .returned (-1)) (hleft : 0 < s.nleft) (hone : rs.count .failed = 1)

structure Follows (c : Call) (rs : List WriteResult) (s : State) : Prop where
  taken : s.taken = positions 0 (moves rs)
  cursor : s.cursor = cursor 0 (moves rs)
  nleft : s.nleft = c.slen - s.cursor
  phase : Phase c rs s

theorem moves_snoc (rs : List WriteResult) (r : WriteResult) :
    moves (rs ++ [r]) = moves rs ++ [move r] := List.map_append

theorem count_move (r : WriteResult) : (move r).count = size r := by
  cases r with
  | wrote m => rfl
  | eagain => rfl
  | failed => rfl

theorem total_moves (rs : List WriteResult) : total (moves rs) = bytesTaken rs := by
  induction rs with
  | nil => rfl
  | cons r rs ih =>
      have hcons : moves (r :: rs) = move r :: moves rs := rfl
      rw [hcons, total_cons, ih, count_move, bytesTaken]

theorem bytesTaken_append (rs qs : List WriteResult) :
    bytesTaken (rs ++ qs) = bytesTaken rs + bytesTaken qs := by
  rw [← total_moves, ← total_moves, ← total_moves, moves, List.map_append, total_append]
  rfl

theorem back_mem_moves {rs : List WriteResult} : Move.back ∈ moves rs ↔ WriteResult.eagain ∈ rs := by
  simp only [moves, List.mem_map]
  constructor
  · rintro ⟨r, hr, hback⟩
    cases r with
    | wrote m => cases hback
    | failed => cases hback
    | eagain => exact hr
  · intro hr
    exact ⟨.eagain, hr, rfl⟩

theorem GivesUp.snoc {rs : List WriteResult} (h : GivesUp rs) (r : WriteResult) :
    GivesUp (rs ++ [r]) := h.trans (List.prefix_append rs [r]).isInfix

private theorem givesUp_of_suffix {n : Nat} {rs : List WriteResult} (hn : maxRetries < n)
    (h : List.replicate n WriteResult.eagain <:+ rs) : GivesUp rs := by
  have hsplit : List.replicate (n - (maxRetries + 1)) WriteResult.eagain ++
      List.replicate (maxRetries + 1) WriteResult.eagain = List.replicate n .eagain := by
    rw [List.replicate_append_replicate, Nat.sub_add_cancel hn]
  have hlast : List.replicate (maxRetries + 1) WriteResult.eagain <:+
      List.replicate n .eagain := ⟨_, hsplit⟩
  exact (hlast.trans h).isInfix

theorem failed_notMem_snoc {rs : List WriteResult} {r : WriteResult}
    (h : WriteResult.failed ∉ rs) (hr : r ≠ .failed) : WriteResult.failed ∉ rs ++ [r] := by
  intro hmem
  rcases List.mem_append.mp hmem with hold | hnew
  · exact h hold
  · exact hr (List.mem_singleton.mp hnew).symm

theorem sendrf_snoc {c : Call} {rs : List WriteResult} {r : WriteResult} {s : State} :
    sendrf c (rs ++ [r]) = some s ↔
      ∃ t, sendrf c rs = some t ∧ step c t (.write r) = some s := by
  have hcons : Answer.malloc true :: (rs ++ [r]).map Answer.write =
      (Answer.malloc true :: rs.map Answer.write) ++ [Answer.write r] := by
    rw [List.map_append, List.cons_append, List.map_cons, List.map_nil]
  rw [sendrf, hcons, run_snoc_eq_some, sendrf]

theorem step_write {c : Call} {t s : State} {r : WriteResult}
    (h : step c t (.write r) = some s) : t.pc = .write ∧ onWrite c t r = some s := by
  cases hpc : t.pc with
  | malloc => simp [step, hpc] at h
  | returned r => simp [step, hpc] at h
  | write => exact ⟨rfl, by simpa only [step, hpc] using h⟩

private theorem loopTest_follows {c : Call} {rs : List WriteResult} {s : State}
    (htaken : s.taken = positions 0 (moves rs)) (hcursor : s.cursor = cursor 0 (moves rs))
    (hnleft : s.nleft = c.slen - s.cursor) (hnonneg : 0 ≤ s.nleft)
    (hok : WriteResult.failed ∉ rs)
    (hrow : List.replicate s.retryCount WriteResult.eagain <:+ rs) :
    Follows c rs (loopTest c s) := by
  unfold loopTest
  split
  · rename_i hpos
    exact ⟨htaken, hcursor, hnleft, .sending rfl hpos hok hrow⟩
  · rename_i hpos
    have hzero : s.nleft = 0 := by omega
    refine ⟨htaken, hcursor, hnleft, .sent ?_ hzero hok⟩
    rw [hzero, Int.sub_zero]

private theorem follows_wrote {c : Call} {rs : List WriteResult} {t s : State} {m : Nat}
    (ht : Follows c rs t) (hok : WriteResult.failed ∉ rs)
    (h : onWrite c t (.wrote m) = some s) : Follows c (rs ++ [.wrote m]) s := by
  simp only [onWrite] at h
  split at h
  · rename_i hfits
    obtain rfl := Option.some.inj h
    have hnleft := ht.nleft
    apply loopTest_follows
    · change t.taken ++ span t.cursor m = positions 0 (moves (rs ++ [.wrote m]))
      rw [moves_snoc, positions_snoc, ← ht.taken, ← ht.cursor]
      rfl
    · change t.cursor + m = cursor 0 (moves (rs ++ [.wrote m]))
      rw [moves_snoc, cursor_snoc, ← ht.cursor]
      rfl
    · change t.nleft - m = c.slen - (t.cursor + m)
      omega
    · change 0 ≤ t.nleft - m
      omega
    · exact failed_notMem_snoc hok (by simp)
    · exact List.nil_suffix
  · cases h

private theorem follows_eagain {c : Call} {rs : List WriteResult} {t s : State}
    (ht : Follows c rs t) (hleft : 0 < t.nleft) (hok : WriteResult.failed ∉ rs)
    (hrow : List.replicate t.retryCount WriteResult.eagain <:+ rs)
    (hup : ¬ GivesUp (rs ++ [.eagain])) (h : onWrite c t .eagain = some s) :
    Follows c (rs ++ [.eagain]) s := by
  have hrow' : List.replicate (t.retryCount + 1) WriteResult.eagain <:+ rs ++ [.eagain] := by
    rw [List.replicate_succ']
    obtain ⟨os, hos⟩ := hrow
    exact ⟨os, by rw [← List.append_assoc, hos]⟩
  have hfew : ¬ 15 < t.retryCount + 1 := fun hmany => hup (givesUp_of_suffix hmany hrow')
  simp only [onWrite, hfew, if_false, Option.some.injEq] at h
  subst h
  have hnleft := ht.nleft
  apply loopTest_follows
  · change t.taken = positions 0 (moves (rs ++ [.eagain]))
    rw [moves_snoc, positions_snoc, ← ht.taken]
    exact (List.append_nil _).symm
  · change t.cursor + -1 = cursor 0 (moves (rs ++ [.eagain]))
    rw [moves_snoc, cursor_snoc, ← ht.cursor]
    rfl
  · change t.nleft - -1 = c.slen - (t.cursor + -1)
    omega
  · change 0 ≤ t.nleft - -1
    omega
  · exact failed_notMem_snoc hok (by simp)
  · exact hrow'

private theorem follows_failed {c : Call} {rs : List WriteResult} {t s : State}
    (ht : Follows c rs t) (hleft : 0 < t.nleft) (hok : WriteResult.failed ∉ rs)
    (h : onWrite c t .failed = some s) : Follows c (rs ++ [.failed]) s := by
  obtain rfl := Option.some.inj h
  refine ⟨?_, ?_, ht.nleft, .broken rfl hleft ?_⟩
  · rw [moves_snoc, positions_snoc, ← ht.taken]
    exact (List.append_nil _).symm
  · rw [moves_snoc, cursor_snoc, ← ht.cursor]
    rfl
  · rw [List.count_append, List.count_eq_zero_of_not_mem hok]
    rfl

theorem Follows.writing {c : Call} {rs : List WriteResult} {s : State} (hs : Follows c rs s)
    (hpc : s.pc = .write) :
    0 < s.nleft ∧ WriteResult.failed ∉ rs ∧
      List.replicate s.retryCount WriteResult.eagain <:+ rs := by
  cases hs.phase with
  | sending _ hleft hok hrow => exact ⟨hleft, hok, hrow⟩
  | sent hret _ _ => exact absurd (hpc.symm.trans hret) (by simp)
  | broken hret _ _ => exact absurd (hpc.symm.trans hret) (by simp)

theorem follows_step {c : Call} {rs : List WriteResult} {r : WriteResult} {t s : State}
    (ht : Follows c rs t) (hup : ¬ GivesUp (rs ++ [r])) (h : step c t (.write r) = some s) :
    Follows c (rs ++ [r]) s := by
  obtain ⟨hpc, hwrite⟩ := step_write h
  obtain ⟨hleft, hok, hrow⟩ := ht.writing hpc
  cases r with
  | wrote m => exact follows_wrote ht hok hwrite
  | eagain => exact follows_eagain ht hleft hok hrow hup hwrite
  | failed => exact follows_failed ht hleft hok hwrite

/-- Every call whose writes do not make it give up is at the moves of their outcomes. -/
theorem sendrf_follows {c : Call} {rs : List WriteResult} {s : State} (hup : ¬ GivesUp rs)
    (h : sendrf c rs = some s) : Follows c rs s := by
  induction rs using List.reverseRecOn generalizing s with
  | nil =>
      obtain rfl := Option.some.inj h
      apply loopTest_follows
      · rfl
      · rfl
      · change (c.slen : Int) = c.slen - 0
        omega
      · exact Int.natCast_nonneg _
      · exact List.not_mem_nil
      · exact List.nil_suffix
  | append_singleton rs r ih =>
      obtain ⟨t, ht, hstep⟩ := sendrf_snoc.mp h
      exact follows_step (ih (fun hrs => hup (hrs.snoc r)) ht) hup hstep

end Rmsgw.Sendrf.Loop
