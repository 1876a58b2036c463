/- The response to the login challenge, byte by byte: the string that is hashed,
   the integer made of the digest on either kind of host, and its digits. -/

import Rmsgw.Lib.ByteOrder
import Rmsgw.Lib.Decimal
import Rmsgw.Login.Model

set_option autoImplicit false
set_option relaxedAutoImplicit false

namespace Rmsgw.Login.Response

open Rmsgw.Lib.CStrings Rmsgw.Lib.ByteOrder Rmsgw.Lib.Decimal Rmsgw.Login.Model

/-- Size of the static buffer for the response string. -/
def respSize : Nat := 11

/-- `m + 64 + 1` with `int m = strlen(challengePhrase) + strlen(password)`. -/
def workSize (challengePhrase password : Str) : Int :=
  toInt32 (toInt32 (challengePhrase.length + password.length : Nat) + 64 + 1)

/-- The work buffer with the string to be hashed, over what the stack held there. -/
def tmpCP (stack : Nat → UInt8) (challengePhrase password slt : Str) : List UInt8 :=
  let fresh := (List.range (workSize challengePhrase password).toNat).map stack
  strncat (strcat (strcpy fresh challengePhrase) password) slt 64

/-- The union of the integer and its bytes, filled from `digest[16]`. The endian.h of
glibc defines `__BIG_ENDIAN` on every host, so the first branch of the `#ifdef` is
compiled. -/
def challengeCode (host : Host) (digest : List UInt8) : Nat :=
  readWord host [digest.getD 0 0, digest.getD 1 0, digest.getD 2 0, digest.getD 3 0 &&& 0x3f]

/-- ChallengedPassword() on a host. -/
def challengedPasswordOn (host : Host) (md5 : Str → Fin 16 → UInt8) (stack : Nat → UInt8)
    (challengePhrase password slt : Str) : Nat :=
  challengeCode host (List.ofFn (md5 (text (tmpCP stack challengePhrase password slt))))

/-- `respStr` after `sprintf(respStr, "%010d", retVal)`. -/
def respStr (old : CArray respSize) (retVal : Nat) : List UInt8 :=
  strcpy old.bytes (printPadded 10 (toInt32 retVal))

/-- sgl_challenge_response() on a host: the string from the third character on. -/
def sglChallengeResponseOn (host : Host) (md5 : Str → Fin 16 → UInt8) (stack : Nat → UInt8)
    (old : CArray respSize) (challenge pass : Str) : Str :=
  text ((respStr old (challengedPasswordOn host md5 stack challenge pass salt)).drop 2)

theorem salt_length : salt.length = 64 := rfl

private theorem salt_noNul : (0 : UInt8) ∉ salt := by decide

private theorem salt_all : text (salt.take 64) = salt := by
  rw [← salt_length, List.take_length, text_of_noNul salt_noNul]

theorem text_tmpCP (stack : Nat → UInt8) {challengePhrase password : Str}
    (hc : (0 : UInt8) ∉ challengePhrase) (hp : (0 : UInt8) ∉ password) :
    text (tmpCP stack challengePhrase password salt) = challengePhrase ++ password ++ salt := by
  rw [tmpCP, strncat, salt_all, text_strcat salt_noNul, text_strcat hp, text_strcpy _ hc]

private theorem length_tmpCP (stack : Nat → UInt8) {challengePhrase password : Str}
    (hc : (0 : UInt8) ∉ challengePhrase) (hp : (0 : UInt8) ∉ password) :
    (tmpCP stack challengePhrase password salt).length =
      max (workSize challengePhrase password).toNat
        (challengePhrase.length + password.length + 65) := by
  rw [tmpCP, strncat, salt_all, length_strcat, text_strcat hp, length_strcat, text_strcpy _ hc,
    length_strcpy, salt_length, List.length_map, List.length_range, List.length_append]
  omega

private theorem workSize_eq {challengePhrase password : Str}
    (h : challengePhrase.length + password.length + 65 ≤ 2147483647) :
    workSize challengePhrase password = (challengePhrase.length + password.length + 65 : Nat) := by
  rw [workSize, toInt32_of_inInt32 (v := ((_ : Nat) : Int)), toInt32_of_inInt32]
  · push_cast
    omega
  · constructor <;> omega
  · constructor <;> omega

private theorem and_63_toNat (b : UInt8) : (b &&& 0x3f).toNat = b.toNat % 64 := by
  rw [UInt8.toNat_and]
  exact Nat.and_two_pow_sub_one_eq_mod b.toNat 6

private theorem challengeCode_ofFn (host : Host) (digest : Fin 16 → UInt8) :
    challengeCode host (List.ofFn digest) =
      readWord host [digest 0, digest 1, digest 2, digest 3 &&& 0x3f] := by
  simp [challengeCode]

private theorem challengeCode_little (digest : Fin 16 → UInt8) :
    challengeCode .littleEndian (List.ofFn digest) =
      (digest 0).toNat + 256 * (digest 1).toNat + 65536 * (digest 2).toNat +
        16777216 * ((digest 3).toNat % 64) := by
  simp only [challengeCode_ofFn, readWord, List.map_cons, List.map_nil, Nat.ofDigits_cons,
    Nat.ofDigits_nil, and_63_toNat]
  omega

private theorem challengeCode_little_lt (digest : Fin 16 → UInt8) :
    challengeCode .littleEndian (List.ofFn digest) < 1073741824 := by
  have h0 := (digest 0).toNat_lt
  have h1 := (digest 1).toNat_lt
  have h2 := (digest 2).toNat_lt
  rw [challengeCode_little]
  omega

private theorem respStr_of_lt (old : CArray respSize) {v : Nat} (h : v < 1073741824) :
    (respStr old v).length = respSize ∧
      text ((respStr old v).drop 2) = (printPadded 10 v).drop 2 := by
  have hint : toInt32 (v : Int) = v := toInt32_of_inInt32 ⟨by omega, by omega⟩
  obtain ⟨hlen, hdigits, -⟩ := @printPadded_ofNat v 10 (by decide) (by omega)
  have hnul : (0 : UInt8) ∉ (printPadded 10 v).drop 2 := fun hmem =>
    absurd (hdigits 0 (List.mem_of_mem_drop hmem)) (by decide)
  rw [respStr, hint]
  constructor
  · rw [length_strcpy, hlen, old.length_bytes]
    rfl
  · rw [strcpy, List.drop_append_of_le_length (by omega), text_append_nul hnul]

private theorem isdigit_tenDigits {v : Nat} {c : UInt8} (h : c ∈ tenDigits v) :
    isdigit c = true := by
  obtain ⟨d, -, rfl⟩ := List.mem_map.mp h
  have hval : (UInt8.ofNat (48 + d % 10)).toNat = 48 + d % 10 := by
    rw [UInt8.toNat_ofNat']
    omega
  simp only [isdigit, Bool.and_eq_true, decide_eq_true_eq, UInt8.le_iff_toNat_le, hval,
    UInt8.reduceToNat]
  omega

private theorem decimal_tenDigits {v : Nat} (h : v < 1073741824) : decimal (tenDigits v) = v := by
  have hval : ∀ d : Nat, (UInt8.ofNat (48 + d % 10)).toNat - 48 = d % 10 := by
    intro d
    rw [UInt8.toNat_ofNat']
    omega
  -- one more digit is taken in with each step of the fold
  have htake : ∀ m, 10 * (v / (m * 10)) + v / m % 10 = v / m := by
    intro m
    rw [← Nat.div_div_eq_div_mul]
    exact Nat.div_add_mod (v / m) 10
  have htop : v / 1000000000 % 10 = v / 1000000000 := by omega
  have h8 : 10 * (v / 1000000000) + v / 100000000 % 10 = v / 100000000 := htake 100000000
  have h7 : 10 * (v / 100000000) + v / 10000000 % 10 = v / 10000000 := htake 10000000
  have h6 : 10 * (v / 10000000) + v / 1000000 % 10 = v / 1000000 := htake 1000000
  have h5 : 10 * (v / 1000000) + v / 100000 % 10 = v / 100000 := htake 100000
  have h4 : 10 * (v / 100000) + v / 10000 % 10 = v / 10000 := htake 10000
  have h3 : 10 * (v / 10000) + v / 1000 % 10 = v / 1000 := htake 1000
  have h2 : 10 * (v / 1000) + v / 100 % 10 = v / 100 := htake 100
  have h1 : 10 * (v / 100) + v / 10 % 10 = v / 10 := htake 10
  simp only [tenDigits, decimal, List.map_cons, List.map_nil, List.foldl_cons, List.foldl_nil, hval,
    Nat.mul_zero, Nat.zero_add]
  rw [htop, h8, h7, h6, h5, h4, h3, h2, h1]
  exact Nat.div_add_mod v 10

private theorem tenDigits_eq_printPadded {v : Nat} (h : v < 1073741824) :
    tenDigits v = printPadded 10 v := by
  obtain ⟨hlen, hdigits, hvalue⟩ := @printPadded_ofNat v 10 (by decide) (by omega)
  refine decimal_inj (fun _ => isdigit_tenDigits) hdigits ?_ ?_
  · rw [hlen]
    rfl
  · rw [decimal_tenDigits h, hvalue]

private theorem challengedPasswordOn_little (md5 : Str → Fin 16 → UInt8) (stack : Nat → UInt8)
    {challenge pass : Str} (hc : (0 : UInt8) ∉ challenge) (hp : (0 : UInt8) ∉ pass) :
    challengedPasswordOn .littleEndian md5 stack challenge pass salt =
      challengedPassword md5 challenge pass := by
  rw [challengedPasswordOn, text_tmpCP stack hc hp, challengeCode_little, challengedPassword,
    ← and_63_toNat]

theorem sglChallengeResponseOn_little (md5 : Str → Fin 16 → UInt8) (stack : Nat → UInt8)
    (old : CArray respSize) {challenge pass : Str} (hc : (0 : UInt8) ∉ challenge)
    (hp : (0 : UInt8) ∉ pass) :
    sglChallengeResponseOn .littleEndian md5 stack old challenge pass =
      sglChallengeResponse md5 challenge pass := by
  have hlt : challengedPasswordOn .littleEndian md5 stack challenge pass salt < 1073741824 :=
    challengeCode_little_lt _
  rw [sglChallengeResponseOn, (respStr_of_lt old hlt).2, sglChallengeResponse,
    ← challengedPasswordOn_little md5 stack hc hp, tenDigits_eq_printPadded hlt]

/-- The response computed on a little-endian host. The length of the work buffer
is an `int`, the only bound on the strings. -/
structure Computed (md5 : Str → Fin 16 → UInt8) (stack : Nat → UInt8) (old : CArray respSize)
    (challenge pass : Str) (v : Nat) (response : Str) : Prop where
  hashed : text (tmpCP stack challenge pass salt) = challenge ++ pass ++ salt.take 64
  fits : challenge.length + pass.length + 65 ≤ 2147483647 →
    ((tmpCP stack challenge pass salt).length : Int) = workSize challenge pass
  value : ∀ digest, digest = md5 (challenge ++ pass ++ salt) →
    v = (digest 0).toNat + 256 * (digest 1).toNat + 65536 * (digest 2).toNat +
      16777216 * ((digest 3).toNat % 64)
  below : v < 2 ^ 30
  eight : response.length = 8
  digits : ∀ c ∈ response, isdigit c = true
  shown : decimal response = v % 10 ^ 8
  written : (respStr old v).length = respSize

/-- The challenge response on a little-endian host: what is hashed, the integer
made of the digest, and its last eight digits. -/
theorem challenge_response_computed (md5 : Str → Fin 16 → UInt8) (stack : Nat → UInt8)
    (old : CArray respSize) (challenge pass : Str) (hc : (0 : UInt8) ∉ challenge)
    (hp : (0 : UInt8) ∉ pass) :
    Computed md5 stack old challenge pass
      (challengedPasswordOn .littleEndian md5 stack challenge pass salt)
      (sglChallengeResponseOn .littleEndian md5 stack old challenge pass) := by
  have hlt : challengedPasswordOn .littleEndian md5 stack challenge pass salt < 1073741824 :=
    challengeCode_little_lt _
  obtain ⟨hwritten, htext⟩ := respStr_of_lt old hlt
  obtain ⟨hlen, hdigits, hvalue⟩ :=
    @printPadded_ofNat (challengedPasswordOn .littleEndian md5 stack challenge pass salt) 10
      (by decide) (by omega)
  constructor
  case hashed => exact text_tmpCP stack hc hp
  case fits =>
    intro hint
    rw [length_tmpCP stack hc hp, workSize_eq hint, Int.toNat_natCast, Nat.max_self]
  case value =>
    rintro digest rfl
    rw [challengedPasswordOn, text_tmpCP stack hc hp, challengeCode_little]
  case below => exact hlt
  case eight => rw [sglChallengeResponseOn, htext, List.length_drop, hlen]
  case digits =>
    rw [sglChallengeResponseOn, htext]
    exact fun c hc => hdigits c (List.mem_of_mem_drop hc)
  case shown => rw [sglChallengeResponseOn, htext, decimal_drop hdigits, hvalue, hlen]
  case written => exact hwritten

/-- A digest whose first byte has its top bit set. -/
private def highFirst : Str → Fin 16 → UInt8 := fun _ i => if i.val = 0 then 128 else 0

theorem challenge_response_computed_plain :
    (0 : UInt8) ∉ lit "23753528" ∧ (0 : UInt8) ∉ lit "FOOBAR" ∧
      ∃ v response, Computed highFirst (fun _ => 7) (CArray.zero respSize) (lit "23753528")
        (lit "FOOBAR") v response :=
  have hc : (0 : UInt8) ∉ lit "23753528" := by decide
  have hp : (0 : UInt8) ∉ lit "FOOBAR" := by decide
  ⟨hc, hp, _, _, challenge_response_computed highFirst (fun _ => 7) (CArray.zero respSize)
    (lit "23753528") (lit "FOOBAR") hc hp⟩

/-- The response does not depend on the host, and stays within its bounds on a
big-endian one. -/
def MachineIndependent (md5 : Str → Fin 16 → UInt8) (stack : Nat → UInt8) (old : CArray respSize)
    (challenge pass : Str) : Prop :=
  challengedPasswordOn .bigEndian md5 stack challenge pass salt =
      challengedPasswordOn .littleEndian md5 stack challenge pass salt ∧
    challengedPasswordOn .bigEndian md5 stack challenge pass salt < 2 ^ 30 ∧
    sglChallengeResponseOn .bigEndian md5 stack old challenge pass =
      sglChallengeResponseOn .littleEndian md5 stack old challenge pass ∧
    (respStr old (challengedPasswordOn .bigEndian md5 stack challenge pass salt)).length = respSize

private theorem challengeCode_eq_iff (digest : Fin 16 → UInt8) :
    challengeCode .bigEndian (List.ofFn digest) = challengeCode .littleEndian (List.ofFn digest) ↔
      digest 0 = digest 3 &&& 0x3f ∧ digest 1 = digest 2 := by
  rw [challengeCode_ofFn, challengeCode_ofFn, readWord_eq_iff]
  simp only [List.reverse_cons, List.reverse_nil, List.nil_append, List.cons_append,
    List.cons.injEq, and_true]
  constructor
  · rintro ⟨-, -, h1, h0⟩
    exact ⟨h0, h1⟩
  · rintro ⟨h0, h1⟩
    exact ⟨h0.symm, h1.symm, h1, h0⟩

/-- The two hosts agree exactly on digests whose first four bytes, the fourth one
masked, read the same from both ends. -/
theorem response_machine_independent_iff (md5 : Str → Fin 16 → UInt8) (stack : Nat → UInt8)
    (old : CArray respSize) (challenge pass : Str) :
    MachineIndependent md5 stack old challenge pass ↔
      ∀ digest, digest = md5 (text (tmpCP stack challenge pass salt)) →
        digest 0 = digest 3 &&& 0x3f ∧ digest 1 = digest 2 := by
  simp only [forall_eq, MachineIndependent, sglChallengeResponseOn, challengedPasswordOn]
  rw [← challengeCode_eq_iff]
  constructor
  · rintro ⟨hvalue, -⟩
    exact hvalue
  · intro hvalue
    have hlt := challengeCode_little_lt (md5 (text (tmpCP stack challenge pass salt)))
    rw [hvalue]
    exact ⟨rfl, hlt, rfl, (respStr_of_lt old hlt).1⟩

/-- On a big-endian host the top bit makes the integer negative: eleven characters
and the terminator, one more than the buffer holds. -/
theorem big_endian_response_overflows :
    ¬ MachineIndependent highFirst (fun _ => 7) (CArray.zero respSize) (lit "23753528")
        (lit "FOOBAR") ∧
      challengedPasswordOn .bigEndian highFirst (fun _ => 7) (lit "23753528") (lit "FOOBAR") salt =
        2147483648 ∧
      (respStr (CArray.zero respSize) 2147483648).length = 12 := by
  have hbig : challengedPasswordOn .bigEndian highFirst (fun _ => 7) (lit "23753528")
      (lit "FOOBAR") salt = 2147483648 := by decide
  have hlittle : challengedPasswordOn .littleEndian highFirst (fun _ => 7) (lit "23753528")
      (lit "FOOBAR") salt = 128 := by decide
  refine ⟨fun h => ?_, hbig, by decide⟩
  have hsame := h.1
  rw [hbig, hlittle] at hsame
  exact absurd hsame (by decide)

end Rmsgw.Login.Response
