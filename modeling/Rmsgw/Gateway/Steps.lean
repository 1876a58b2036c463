/- What one step of gateway() can do, said once: every later invariant is a case
   analysis over these transitions. -/

import Rmsgw.Gateway.Model

set_option autoImplicit false
set_option relaxedAutoImplicit false

namespace Rmsgw.Gateway.Steps

open Rmsgw.Lib.CStrings Rmsgw.Lib.Process Rmsgw.Rms Rmsgw.Gateway.Model

/-- The transitions of gateway(), one constructor for each way out of a call. -/
inductive Trans (e : Env) (s : State) : Answer → State → Prop
  | loginOk (at_ : s.pc = .login) :
      Trans e s (.login true) (s.goto .fcntlSock [.gwState .gwLoggedIn])
  | loginFailed (at_ : s.pc = .login) : Trans e s (.login false) (s.finish errGwLogin [])
  | sockOk (at_ : s.pc = .fcntlSock) : Trans e s (.fcntl true) (s.goto .fcntlStdin [])
  | sockFailed (at_ : s.pc = .fcntlSock) :
      Trans e s (.fcntl false) (s.finish errGwSock [.closeSock])
  | stdinOk (at_ : s.pc = .fcntlStdin) : Trans e s (.fcntl true) (startRound s)
  | stdinFailed (at_ : s.pc = .fcntlStdin) :
      Trans e s (.fcntl false) (s.finish errGwAx25 [.closeSock])
  | selectCms (at_ : s.pc = .select) (ax : Bool) :
      Trans e s (.select true ax) ({ s with axReady := ax }.goto .peek [])
  | selectAx (at_ : s.pc = .select) (ax : Bool) :
      Trans e s (.select false ax) (axHalf { s with axReady := ax })
  | peekClosed (at_ : s.pc = .peek) :
      Trans e s .peekClosed
        (s.finish 0 [.axNotice (closedNotice s.sense), .closeSock, .gwState .gwConnected])
  | peekByte (at_ : s.pc = .peek) (b : UInt8) :
      Trans e s (.peekByte b)
        ({ s with buf := s.buf.overwrite [b] (byte_fits b) }.goto .recvCms
          [.gwState .gwSending])
  | peekFailed (at_ : s.pc = .peek) :
      Trans e s .peekFailed (s.goto .recvCms [.gwState .gwSending])
  | cmsChunk (at_ : s.pc = .recvCms) (c : Chunk) : Trans e s (.chunk c) (onCmsChunk e s c)
  | cmsDrained (at_ : s.pc = .recvCms) : Trans e s .drained (axHalf s)
  | axWrote (at_ : s.pc = .writeAx) (m : Nat) (hm : m ≤ (offerAx e s).length) :
      Trans e s (.write (.wrote m))
        ({ s with retryCount := 0, cp := s.cp + m, n := s.n - m }.goto
          (if s.n - m = 0 then .recvCms else .writeAx) [.axWrite (offerAx e s) (.wrote m)])
  | axRetry (at_ : s.pc = .writeAx) (again : s.retryCount + 1 ≤ 15) :
      Trans e s (.write .eagain)
        ({ s with retryCount := s.retryCount + 1 }.goto .writeAx [.axWrite (offerAx e s) .eagain])
  | axGiveUp (at_ : s.pc = .writeAx) (enough : 15 < s.retryCount + 1) :
      Trans e s (.write .eagain)
        ({ s with retryCount := s.retryCount + 1 }.finish errGwAx25Io
          [.axWrite (offerAx e s) .eagain, .closeSock])
  | axFailed (at_ : s.pc = .writeAx) :
      Trans e s (.write .failed)
        (s.finish errGwAx25Io [.axWrite (offerAx e s) .failed, .closeSock])
  | axChunk (at_ : s.pc = .readAx) (c : Chunk) : Trans e s (.chunk c) (onAxChunk e s c)
  | axDrained (at_ : s.pc = .readAx) : Trans e s .drained (endOfRound s)
  | cmsWrote (at_ : s.pc = .writeCms) (m : Nat) (hm : m ≤ (offerCms s).length) :
      Trans e s (.write (.wrote m))
        ({ s with cp := s.cp + m, n := s.n - m }.goto
          (if s.n - m = 0 then .readAx else .writeCms) [.cmsWrite (offerCms s) (.wrote m)])
  | cmsRetry (at_ : s.pc = .writeCms) :
      Trans e s (.write .eagain) (s.goto .writeCms [.cmsWrite (offerCms s) .eagain])
  | cmsFailed (at_ : s.pc = .writeCms) :
      Trans e s (.write .failed)
        (s.finish errGwSockIo [.cmsWrite (offerCms s) .failed, .closeSock])

private theorem axWrite_trans {e : Env} {s t : State} {r : WriteResult} (at_ : s.pc = .writeAx)
    (h : onAxWrite e s r = some t) : Trans e s (.write r) t := by
  cases r with
  | wrote m =>
      simp only [onAxWrite] at h
      split at h
      · rename_i hm
        obtain rfl := Option.some.inj h
        exact .axWrote at_ m hm
      · cases h
  | eagain =>
      simp only [onAxWrite] at h
      split at h
      · rename_i enough
        obtain rfl := Option.some.inj h
        exact .axGiveUp at_ enough
      · rename_i again
        obtain rfl := Option.some.inj h
        exact .axRetry at_ (Nat.not_lt.mp again)
  | failed =>
      obtain rfl := Option.some.inj h
      exact .axFailed at_

private theorem cmsWrite_trans {e : Env} {s t : State} {r : WriteResult} (at_ : s.pc = .writeCms)
    (h : onCmsWrite s r = some t) : Trans e s (.write r) t := by
  cases r with
  | wrote m =>
      simp only [onCmsWrite] at h
      split at h
      · rename_i hm
        obtain rfl := Option.some.inj h
        exact .cmsWrote at_ m hm
      · cases h
  | eagain =>
      obtain rfl := Option.some.inj h
      exact .cmsRetry at_
  | failed =>
      obtain rfl := Option.some.inj h
      exact .cmsFailed at_

theorem step_trans {e : Env} {s t : State} {a : Answer} (h : step e s a = some t) :
    Trans e s a t := by
  unfold step at h
  cases hpc : s.pc with
  | login =>
      rw [hpc] at h
      cases a with
      | login ok =>
          cases ok with
          | true => exact Option.some.inj h ▸ .loginOk hpc
          | false => exact Option.some.inj h ▸ .loginFailed hpc
      | _ => cases h
  | fcntlSock =>
      rw [hpc] at h
      cases a with
      | fcntl ok =>
          cases ok with
          | true => exact Option.some.inj h ▸ .sockOk hpc
          | false => exact Option.some.inj h ▸ .sockFailed hpc
      | _ => cases h
  | fcntlStdin =>
      rw [hpc] at h
      cases a with
      | fcntl ok =>
          cases ok with
          | true => exact Option.some.inj h ▸ .stdinOk hpc
          | false => exact Option.some.inj h ▸ .stdinFailed hpc
      | _ => cases h
  | select =>
      rw [hpc] at h
      cases a with
      | select cms ax =>
          cases cms with
          | true =>
              obtain rfl : ({ s with axReady := ax } : State).goto .peek [] = t := Option.some.inj h
              exact .selectCms hpc ax
          | false =>
              obtain rfl : axHalf { s with axReady := ax } = t := hpc ▸ Option.some.inj h
              exact .selectAx hpc ax
      | _ => cases h
  | peek =>
      rw [hpc] at h
      cases a with
      | peekClosed => exact Option.some.inj h ▸ .peekClosed hpc
      | peekByte b =>
          obtain rfl : ({ s with buf := s.buf.overwrite [b] (byte_fits b) } : State).goto
              .recvCms [.gwState .gwSending] = t := Option.some.inj h
          exact .peekByte hpc b
      | peekFailed => exact Option.some.inj h ▸ .peekFailed hpc
      | _ => cases h
  | recvCms =>
      rw [hpc] at h
      cases a with
      | chunk c => exact Option.some.inj h ▸ .cmsChunk hpc c
      | drained => exact Option.some.inj h ▸ .cmsDrained hpc
      | _ => cases h
  | writeAx =>
      rw [hpc] at h
      cases a with
      | write r => exact axWrite_trans hpc h
      | _ => cases h
  | readAx =>
      rw [hpc] at h
      cases a with
      | chunk c => exact Option.some.inj h ▸ .axChunk hpc c
      | drained => exact Option.some.inj h ▸ .axDrained hpc
      | _ => cases h
  | writeCms =>
      rw [hpc] at h
      cases a with
      | write r => exact cmsWrite_trans hpc h
      | _ => cases h
  | done =>
      rw [hpc] at h
      cases a <;> cases h

theorem endOfRound_cases (s : State) :
    (s.loop + 1 ≤ convTimeout ∧ endOfRound s =
      { s with loop := s.loop + 1 }.goto .select [.gwState .gwCommWait, .gwState .gwCommWait]) ∨
    (convTimeout < s.loop + 1 ∧ endOfRound s =
      { s with loop := s.loop + 1 }.finish (if s.rc.errcode = 10 then 0 else 1)
        [.gwState .gwCommWait, .closeSock, .gwState .gwConnected]) := by
  by_cases h : convTimeout < s.loop + 1
  · exact .inr ⟨h, by simp [endOfRound, State.finish, h]⟩
  · exact .inl ⟨by omega, by simp [endOfRound, startRound, State.goto, h]⟩

theorem axHalf_cases (s : State) :
    axHalf s = s.goto .readAx [.gwState .gwReceiving] ∨ axHalf s = endOfRound s := by
  unfold axHalf
  split
  · exact .inl rfl
  · exact .inr rfl

theorem onCmsChunk_eaten {e : Env} {s : State} {c : Chunk}
    (h : isKeepAlive (s.buf.overwrite c.bytes c.fits).bytes = true) :
    (onCmsChunk e s c).pc = .recvCms ∧
      (onCmsChunk e s c).log = s.log ++ [.cmsRecv c.bytes true] := by
  simp [onCmsChunk, h, State.goto]

theorem onCmsChunk_passed {e : Env} {s : State} {c : Chunk}
    (h : isKeepAlive (s.buf.overwrite c.bytes c.fits).bytes ≠ true) :
    (onCmsChunk e s c).pc = .writeAx ∧
      (onCmsChunk e s c).log = s.log ++ [.cmsRecv c.bytes false] ∧
      ((onCmsChunk e s c).buf.bytes.drop (onCmsChunk e s c).cp).take (onCmsChunk e s c).n =
        c.bytes := by
  rw [onCmsChunk, if_neg h]
  refine ⟨rfl, rfl, ?_⟩
  simp [State.goto, CArray.overwrite_bytes]

/-- The chunk that an event tells of, from the CMS or from AX.25. -/
def readOf : Event → Option (List UInt8)
  | .cmsRecv bytes _ => some bytes
  | .axRead bytes => some bytes
  | _ => none

/-- The chunk that an answer brings. -/
def chunkOf : Answer → Option (List UInt8)
  | .chunk c => some c.bytes
  | _ => none

private theorem reads_endOfRound (s : State) :
    (endOfRound s).log.filterMap readOf = s.log.filterMap readOf := by
  rcases endOfRound_cases s with ⟨-, h⟩ | ⟨-, h⟩ <;> rw [h] <;>
    simp [State.goto, State.finish, readOf]

private theorem reads_axHalf (s : State) :
    (axHalf s).log.filterMap readOf = s.log.filterMap readOf := by
  rcases axHalf_cases s with h | h <;> rw [h]
  · simp [State.goto, readOf]
  · exact reads_endOfRound s

private theorem trans_reads {e : Env} {s t : State} {a : Answer} (h : Trans e s a t) :
    t.log.filterMap readOf = s.log.filterMap readOf ++ (chunkOf a).toList := by
  cases h with
  | cmsChunk at_ c =>
      by_cases hkeep : isKeepAlive (s.buf.overwrite c.bytes c.fits).bytes = true
      · simp [(onCmsChunk_eaten hkeep).2, readOf, chunkOf]
      · simp [(onCmsChunk_passed hkeep).2.1, readOf, chunkOf]
  | axChunk at_ c => simp [onAxChunk, State.goto, readOf, chunkOf]
  | selectAx at_ ax => simpa [chunkOf] using reads_axHalf { s with axReady := ax }
  | cmsDrained at_ => simpa [chunkOf] using reads_axHalf s
  | axDrained at_ => simpa [chunkOf] using reads_endOfRound s
  | _ at_ => simp [State.goto, State.finish, startRound, readOf, chunkOf]

/-- The reads that a conversation has logged are the chunks among its answers. -/
theorem reads_run {e : Env} {as : List Answer} {s : State}
    (h : run (step e) initial as = some s) :
    s.log.filterMap readOf = as.filterMap chunkOf := by
  refine run_induction (P := fun as s => s.log.filterMap readOf = as.filterMap chunkOf) rfl
    (fun as u a t hst ih => ?_) h
  rw [trans_reads (step_trans hst), ih, List.filterMap_append]
  cases ha : chunkOf a with
  | none => rw [List.filterMap_cons_none ha, Option.toList_none, List.filterMap_nil]
  | some c => rw [List.filterMap_cons_some ha, Option.toList_some, List.filterMap_nil]

end Rmsgw.Gateway.Steps
