/- The challenge response with the MD5 of the library itself: the calls that
   ChallengedPassword() makes on its work buffer. -/

import Rmsgw.Login.Response
import Rmsgw.Login.Steps
import Rmsgw.Md5.Digest

set_option autoImplicit false
set_option relaxedAutoImplicit false

namespace Rmsgw.Login.Library

open Rmsgw.Lib.CStrings Rmsgw.Lib.ByteOrder Rmsgw.Lib.Process Rmsgw.Rms
open Rmsgw.Login.Model Rmsgw.Login.Response Rmsgw.Login.Steps
open Rmsgw.Md5.Model Rmsgw.Md5.Append Rmsgw.Md5.Digest

/-- ChallengedPassword() with its MD5 calls, on a `state` that the stack held. -/
def challengedPasswordCode (host : Host) (state : Md5State) (stack : Nat → UInt8)
    (challengePhrase password slt : Str) : Option Nat :=
  let tmpCP := tmpCP stack challengePhrase password slt
  (md5Append host (md5Init state) tmpCP (toInt32 ((text tmpCP).length : Int))).bind fun state =>
    (md5Finish host state).map (challengeCode host)

/-- sgl_challenge_response() with the MD5 calls. -/
def sglChallengeResponseCode (host : Host) (state : Md5State) (stack : Nat → UInt8)
    (old : CArray respSize) (challenge pass : Str) : Option Str :=
  (challengedPasswordCode host state stack challenge pass salt).map
    (fun retVal => text ((respStr old retVal).drop 2))

/-- The digest as the login machine takes it. -/
def md5Digest (msg : Str) (i : Fin 16) : UInt8 := (md5 msg).getD i.val 0

private theorem length_md5 (msg : Str) : (md5 msg).length = 16 := by
  simp only [md5, registerBytes, List.length_append, length_lowBytes]

private theorem ofFn_md5Digest (msg : Str) : List.ofFn (md5Digest msg) = md5 msg := by
  refine List.ext_getElem ?_ ?_
  · rw [List.length_ofFn, length_md5]
  · intro i hi hi'
    rw [List.getElem_ofFn, md5Digest, List.getD_eq_getElem?_getD, List.getElem?_eq_getElem hi',
      Option.getD_some]

private theorem take_text (a : List UInt8) : a.take (text a).length = text a := by
  rw [text, ← List.prefix_iff_eq_take.mp (List.takeWhile_prefix _)]

private theorem challengedPasswordCode_eq (host : Host) (state : Md5State) (stack : Nat → UInt8)
    {challenge pass : Str} (hc : (0 : UInt8) ∉ challenge) (hp : (0 : UInt8) ∉ pass)
    (int : challenge.length + pass.length + 64 ≤ 2147483647) :
    challengedPasswordCode host state stack challenge pass salt =
      some (challengedPasswordOn host md5Digest stack challenge pass salt) := by
  have hhashed := text_tmpCP stack hc hp
  have hlen : (text (tmpCP stack challenge pass salt)).length =
      challenge.length + pass.length + 64 := by
    rw [hhashed, List.length_append, List.length_append, salt_length]
  have hint : toInt32 ((text (tmpCP stack challenge pass salt)).length : Int) =
      ((text (tmpCP stack challenge pass salt)).length : Int) := by
    rw [hlen]
    exact Rmsgw.Lib.Decimal.toInt32_of_inInt32 ⟨by omega, by omega⟩
  have hzero : SumFits (md5Init state) (text (tmpCP stack challenge pass salt)).length := by
    refine .inl ?_
    rw [offset_eq, bits_md5Init]
  have hwithin : (text (tmpCP stack challenge pass salt)).length ≤
      (tmpCP stack challenge pass salt).length := (List.takeWhile_prefix _).length_le
  obtain ⟨t, ht, hstream, hbits⟩ := md5Append_eq host (md5Init state)
    (tmpCP stack challenge pass salt) (by omega) hwithin (by omega) hzero
  rw [stream_md5Init, take_text] at hstream
  rw [bits_md5Init, Nat.zero_add] at hbits
  rw [challengedPasswordCode, hint, ht, Option.bind_some,
    md5Finish_eq host t _ hstream hbits, Option.map_some, challengedPasswordOn, ofFn_md5Digest]

private theorem sglChallengeResponseCode_eq (state : Md5State) (stack : Nat → UInt8)
    (old : CArray respSize) {challenge pass : Str} (hc : (0 : UInt8) ∉ challenge)
    (hp : (0 : UInt8) ∉ pass) (int : challenge.length + pass.length + 64 ≤ 2147483647) :
    sglChallengeResponseCode .littleEndian state stack old challenge pass =
      some (sglChallengeResponse md5Digest challenge pass) := by
  rw [sglChallengeResponseCode, challengedPasswordCode_eq .littleEndian state stack hc hp int,
    Option.map_some, ← sglChallengeResponseOn_little md5Digest stack old hc hp]
  rfl

private theorem scanChallenge_mem {rbuf : Str} {c : UInt8} (h : c ∈ scanChallenge rbuf) :
    c ∈ rbuf := by
  rw [scanChallenge] at h
  split at h
  · have hrun := (List.takeWhile_prefix _).subset (List.mem_of_mem_take h)
    exact List.mem_of_mem_drop ((List.dropWhile_suffix _).subset hrun)
  · cases h

private theorem scanChallenge_length (rbuf : Str) : (scanChallenge rbuf).length ≤ 8 := by
  rw [scanChallenge]
  split
  · exact List.length_take_le _ _
  · exact Nat.zero_le _

/-- The line that answers a challenge. -/
def responseLine (g : Credentials) (challenge : Str) : Str :=
  lit ";SR: " ++ sglChallengeResponse g.md5 challenge g.passwd ++ lit " 25000001 20\r"

/-- Every response that was sent, or is about to be, answers a line that was read. -/
structure Answers (g : Credentials) (s : State) : Prop where
  sent : ∀ line r, Event.send .response line r ∈ s.log →
    ∃ rbuf, Event.read (.line rbuf) ∈ s.log ∧ line = responseLine g (scanChallenge (text rbuf))
  pending : s.pending = some .response →
    ∃ rbuf, Event.read (.line rbuf) ∈ s.log ∧ s.challenge = scanChallenge (text rbuf)

private theorem onRead_pending {s : State} {r : ReadResult} (idle : s.pending = none)
    (h : (onRead s r).pending = some .response) :
    ∃ rbuf, r = .line rbuf ∧ (onRead s r).challenge = scanChallenge (text rbuf) := by
  simp only [onRead] at h ⊢
  split at h
  · cases r
    case line rbuf =>
      simp only [onCallsign] at h
      split at h
      · rw [idle] at h
        cases h
      split at h
      · cases h
      split at h <;> cases h
    all_goals cases h
  · cases r
    case line rbuf =>
      simp only [onChallenge] at h ⊢
      split at h
      · rw [idle] at h
        cases h
      rename_i hcr
      split at h
      · rename_i hsq
        rw [if_neg hcr, if_pos hsq]
        exact ⟨rbuf, rfl, rfl⟩
      · cases h
    all_goals cases h
  · cases h

private theorem onSend_pending (g : Credentials) (s : State) (line : Line) (r : WriteResult) :
    (onSend g s line r).pending = none := by
  cases line <;> simp only [onSend] <;> split <;> rfl

private theorem answers_step {g : Credentials} {s t : State} {a : Answer} (h : step g s a = some t)
    (hs : Answers g s) : Answers g t := by
  cases step_trans h with
  | read run idle r =>
      constructor
      · intro line r' hmem
        rw [log_onRead] at hmem ⊢
        rcases List.mem_append.mp hmem with hold | hnew
        · obtain ⟨rbuf, hread, hline⟩ := hs.sent line r' hold
          exact ⟨rbuf, List.mem_append_left _ hread, hline⟩
        · cases List.mem_singleton.mp hnew
      · intro hpending
        obtain ⟨rbuf, rfl, hchallenge⟩ := onRead_pending idle hpending
        rw [log_onRead]
        exact ⟨rbuf, List.mem_append_right _ (List.mem_singleton.mpr rfl), hchallenge⟩
  | send run line busy r fits =>
      constructor
      · intro text' r' hmem
        rw [log_onSend] at hmem ⊢
        rcases List.mem_append.mp hmem with hold | hnew
        · obtain ⟨rbuf, hread, hline⟩ := hs.sent text' r' hold
          exact ⟨rbuf, List.mem_append_left _ hread, hline⟩
        · cases List.mem_singleton.mp hnew
          obtain ⟨rbuf, hread, hchallenge⟩ := hs.pending busy
          refine ⟨rbuf, List.mem_append_left _ hread, ?_⟩
          rw [lineText, hchallenge, responseLine]
      · intro hpending
        rw [onSend_pending] at hpending
        cases hpending

/-- In any run of the login every response that was offered to write() answers a line
that was read, and is what the library computes with its own MD5, whatever its
variables and the stack held. -/
theorem responses_computed (g : Credentials) (library : g.md5 = md5Digest)
    (hp : (0 : UInt8) ∉ g.passwd) (int : g.passwd.length ≤ 2147483575) (as : List Answer)
    (s : State) (h : run (step g) initial as = some s) (line : Str) (r : WriteResult)
    (sent : Event.send .response line r ∈ s.log) :
    ∃ rbuf, Event.read (.line rbuf) ∈ s.log ∧ ∀ state stack old, ∃ response,
      sglChallengeResponseCode .littleEndian state stack old (scanChallenge (text rbuf)) g.passwd =
          some response ∧
        line = lit ";SR: " ++ response ++ lit " 25000001 20\r" := by
  have hstart : Answers g initial := by
    constructor
    · intro line r hmem
      cases hmem
    · intro hpending
      cases hpending
  obtain ⟨rbuf, hread, hline⟩ :=
    (run_preserves (fun _ _ _ hstep => answers_step hstep) h hstart).sent line r sent
  refine ⟨rbuf, hread, fun state stack old => ⟨_, ?_, hline⟩⟩
  have hnul : (0 : UInt8) ∉ scanChallenge (text rbuf) := fun hmem =>
    nul_notMem_text rbuf (scanChallenge_mem hmem)
  have hlen := scanChallenge_length (text rbuf)
  rw [library]
  exact sglChallengeResponseCode_eq state stack old hnul hp (by omega)

private def foobarStation : Credentials := ⟨lit "FOOBAR", lit "N0USR", lit "N0GWY-10", md5Digest⟩

private def conversation : List Answer :=
  [.readln (.line (lit "Callsign :\r")), .write (.wrote 15),
    .readln (.line (lit ";SQ: 23753528\r")), .write (.wrote 26)]

private def answered : State := (run (step foobarStation) initial conversation).getD initial

theorem responses_computed_known :
    Event.send .response (lit ";SR: 72768415 25000001 20\r") (.wrote 26) ∈ answered.log ∧
      ∃ rbuf, Event.read (.line rbuf) ∈ answered.log ∧ ∀ state stack old, ∃ response,
        sglChallengeResponseCode .littleEndian state stack old (scanChallenge (text rbuf))
            foobarStation.passwd = some response ∧
          lit ";SR: 72768415 25000001 20\r" = lit ";SR: " ++ response ++ lit " 25000001 20\r" := by
  have hrun : run (step foobarStation) initial conversation = some answered := by decide +kernel
  have hsent : Event.send .response (lit ";SR: 72768415 25000001 20\r") (.wrote 26) ∈
      answered.log := by decide +kernel
  exact ⟨hsent, responses_computed foobarStation rfl (by decide) (by decide) conversation answered hrun _ _
    hsent⟩

end Rmsgw.Login.Library
