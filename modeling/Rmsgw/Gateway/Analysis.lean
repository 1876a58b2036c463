/- What gateway() looks at when it analyses a chunk, and when that is the chunk
   alone: the buffer still holds what earlier reads of either direction left. -/

import Rmsgw.Lib.Footprint
import Rmsgw.Gateway.Steps
import Mathlib.Data.List.GetD

set_option autoImplicit false
set_option relaxedAutoImplicit false

namespace Rmsgw.Gateway.Analysis

open Rmsgw.Lib.CStrings Rmsgw.Lib.Footprint Rmsgw.Lib.Process Rmsgw.Rms
open Rmsgw.Gateway.Model Rmsgw.Gateway.Steps

/-- The side that sent a chunk. -/
inductive Side
  | cms | ax25
  deriving DecidableEq

/-- The buffer with a chunk read over its previous contents. -/
def received (old : CArray bufLen) (c : Chunk) : List UInt8 := (old.overwrite c.bytes c.fits).bytes

/-- What the analysis of a chunk decides: the sense flags and the loop counter
with the error code, and whether the chunk is eaten. -/
structure Finding where
  verdict : Verdict
  eaten : Bool
  deriving DecidableEq

def analyse (side : Side) (e : Env) (old : CArray bufLen) (c : Chunk) (sense : Sense)
    (errcode : Int) : Finding :=
  match side with
  | .cms =>
      ⟨uplinkSense e (received old c) c.bytes.length sense errcode, isKeepAlive (received old c)⟩
  | .ax25 => ⟨downlinkSense e (received old c) c.bytes.length sense errcode, false⟩

/-- The offsets that `(*(cp+n-3) == 'F') && (*(cp+n-2) == 'F')` looks at. -/
def ffReads (e : Env) (buf : List UInt8) (n : Nat) : List Int :=
  if byteAt e buf ((n : Int) - 3) == 70 then [(n : Int) - 3, (n : Int) - 2] else [(n : Int) - 3]

/-- The offsets that `(*cp == 'F') && (*(cp+1) == 'Q')` looks at. -/
def fqReads (e : Env) (buf : List UInt8) : List Int := if byteAt e buf 0 == 70 then [0, 1] else [0]

/-- The test for FF, and where it fails the test for FQ on three bytes, made while
the flag of the other side is set. -/
def senseReads (e : Env) (buf : List UInt8) (n : Nat) (other : Bool) : List Int :=
  ffReads e buf n ++
    if sentFF e buf n then [] else if n = 3 ∧ other = true then fqReads e buf else []

/-- The offsets from `buf` that the analysis of a chunk looks at. -/
def reads (side : Side) (e : Env) (old : CArray bufLen) (c : Chunk) (sense : Sense) : List Int :=
  match side with
  | .cms =>
      senseReads e (received old c) c.bytes.length sense.ffdn ++
        (compareReads (received old c) keepAlive).map Int.ofNat
  | .ax25 => senseReads e (received old c) c.bytes.length sense.ffup

/-- The analysis is the same whatever the buffer held before, and looks at
nothing but the bytes just received. -/
def ChunkOnly (side : Side) (c : Chunk) : Prop :=
  ∀ e sense errcode,
    (∀ old₁ old₂, analyse side e old₁ c sense errcode = analyse side e old₂ c sense errcode) ∧
      ∀ old, ∀ i ∈ reads side e old c sense, 0 ≤ i ∧ i < c.bytes.length

/-- The relay loop decides on a chunk from the CMS as the analysis says. -/
theorem onCmsChunk_analyse (e : Env) (s : State) (c : Chunk) :
    (onCmsChunk e s c).sense = (analyse .cms e s.buf c s.sense s.rc.errcode).verdict.sense ∧
      (onCmsChunk e s c).loop = (analyse .cms e s.buf c s.sense s.rc.errcode).verdict.loop ∧
      (onCmsChunk e s c).rc.errcode =
        (analyse .cms e s.buf c s.sense s.rc.errcode).verdict.errcode ∧
      (onCmsChunk e s c).log =
        s.log ++ [.cmsRecv c.bytes (analyse .cms e s.buf c s.sense s.rc.errcode).eaten] := by
  cases h : isKeepAlive (s.buf.overwrite c.bytes c.fits).bytes <;>
    simp [onCmsChunk, analyse, received, State.goto, h]

theorem onAxChunk_analyse (e : Env) (s : State) (c : Chunk) :
    (onAxChunk e s c).sense = (analyse .ax25 e s.buf c s.sense s.rc.errcode).verdict.sense ∧
      (onAxChunk e s c).loop = (analyse .ax25 e s.buf c s.sense s.rc.errcode).verdict.loop ∧
      (onAxChunk e s c).rc.errcode =
        (analyse .ax25 e s.buf c s.sense s.rc.errcode).verdict.errcode :=
  ⟨rfl, rfl, rfl⟩

private theorem byteAt_natCast (e : Env) (buf : List UInt8) (i : Nat) :
    byteAt e buf i = buf.getD i 0 := by
  rw [byteAt, if_neg (by omega), if_neg (by omega), Int.toNat_natCast]

private theorem isKeepAlive_eq (buf : List UInt8) : isKeepAlive buf = keepAlive.isPrefixOf buf := by
  rw [Bool.eq_iff_iff, List.isPrefixOf_iff_prefix]
  simp only [isKeepAlive, strnequal, beq_iff_eq, List.prefix_iff_eq_take]
  exact eq_comm

private theorem sentFQ_eq (e : Env) (buf : List UInt8) :
    sentFQ buf = (byteAt e buf 0 == 70 && byteAt e buf 1 == 81) := by
  have h0 : byteAt e buf 0 = buf.getD 0 0 := byteAt_natCast e buf 0
  have h1 : byteAt e buf 1 = buf.getD 1 0 := byteAt_natCast e buf 1
  rw [sentFQ, h0, h1]

private theorem sentFF_congr {e : Env} {a b : List UInt8} {n : Nat}
    (h : ∀ i ∈ ffReads e a n, byteAt e a i = byteAt e b i) : sentFF e a n = sentFF e b n := by
  have hfirst : byteAt e a ((n : Int) - 3) = byteAt e b ((n : Int) - 3) := by
    refine h _ ?_
    rw [ffReads]
    split <;> exact List.mem_cons_self
  by_cases hF : byteAt e a ((n : Int) - 3) == 70
  · have hsecond : byteAt e a ((n : Int) - 2) = byteAt e b ((n : Int) - 2) := by
      refine h _ ?_
      rw [ffReads, if_pos hF]
      exact List.mem_cons_of_mem _ List.mem_cons_self
    rw [sentFF, sentFF, hfirst, hsecond]
  · rw [sentFF, sentFF, ← hfirst, Bool.eq_false_iff.mpr hF, Bool.false_and, Bool.false_and]

private theorem sentFQ_congr {e : Env} {a b : List UInt8}
    (h : ∀ i ∈ fqReads e a, byteAt e a i = byteAt e b i) : sentFQ a = sentFQ b := by
  have hfirst : byteAt e a 0 = byteAt e b 0 := by
    refine h _ ?_
    rw [fqReads]
    split <;> exact List.mem_cons_self
  rw [sentFQ_eq e, sentFQ_eq e]
  by_cases hF : byteAt e a 0 == 70
  · have hsecond : byteAt e a 1 = byteAt e b 1 := by
      refine h _ ?_
      rw [fqReads, if_pos hF]
      exact List.mem_cons_of_mem _ List.mem_cons_self
    rw [hfirst, hsecond]
  · rw [← hfirst, Bool.eq_false_iff.mpr hF, Bool.false_and, Bool.false_and]

private theorem tests_congr {e : Env} {a b : List UInt8} {n : Nat} {other : Bool}
    (h : ∀ i ∈ senseReads e a n other, byteAt e a i = byteAt e b i) :
    sentFF e a n = sentFF e b n ∧
      (sentFF e a n = false → n = 3 ∧ other = true → sentFQ a = sentFQ b) := by
  refine ⟨sentFF_congr fun i hi => h i (List.mem_append_left _ hi), ?_⟩
  intro hff hask
  refine sentFQ_congr (e := e) fun i hi => h i (List.mem_append_right _ ?_)
  rw [hff, if_neg Bool.false_ne_true, if_pos hask]
  exact hi

private theorem uplinkSense_congr {e : Env} {a b : List UInt8} {n : Nat} {sense : Sense}
    {errcode : Int} (h : ∀ i ∈ senseReads e a n sense.ffdn, byteAt e a i = byteAt e b i) :
    uplinkSense e a n sense errcode = uplinkSense e b n sense errcode := by
  obtain ⟨hff, hfq⟩ := tests_congr h
  rw [uplinkSense, uplinkSense, ← hff]
  split
  · rfl
  · rename_i hno
    split
    · rename_i hask
      rw [hfq (Bool.eq_false_iff.mpr hno) hask]
    · rfl

private theorem downlinkSense_congr {e : Env} {a b : List UInt8} {n : Nat} {sense : Sense}
    {errcode : Int} (h : ∀ i ∈ senseReads e a n sense.ffup, byteAt e a i = byteAt e b i) :
    downlinkSense e a n sense errcode = downlinkSense e b n sense errcode := by
  obtain ⟨hff, hfq⟩ := tests_congr h
  rw [downlinkSense, downlinkSense, ← hff]
  split
  · rfl
  · rename_i hno
    split
    · rename_i hask
      rw [hfq (Bool.eq_false_iff.mpr hno) hask]
    · rfl

private theorem length_received (old : CArray bufLen) (c : Chunk) :
    (received old c).length = bufLen :=
  (old.overwrite c.bytes c.fits).length_bytes

private theorem isKeepAlive_congr {e : Env} {a b : List UInt8} (ha : a.length = bufLen)
    (hb : b.length = bufLen)
    (h : ∀ i ∈ (compareReads a keepAlive).map Int.ofNat, byteAt e a i = byteAt e b i) :
    isKeepAlive a = isKeepAlive b := by
  rw [isKeepAlive_eq, isKeepAlive_eq]
  refine isPrefixOf_congr (ha.trans hb.symm) fun i hi => ?_
  have hlt : i < bufLen := Nat.lt_trans (compareReads_lt hi) (by decide)
  have hbyte := h (Int.ofNat i) (List.mem_map_of_mem hi)
  rw [Int.ofNat_eq_natCast, byteAt_natCast, byteAt_natCast] at hbyte
  rw [List.getD_eq_getElem _ _ (ha.symm ▸ hlt), List.getD_eq_getElem _ _ (hb.symm ▸ hlt)] at hbyte
  rw [List.getElem?_eq_getElem (ha.symm ▸ hlt), List.getElem?_eq_getElem (hb.symm ▸ hlt), hbyte]

private theorem analyse_congr {side : Side} {e : Env} {old₁ old₂ : CArray bufLen} {c : Chunk}
    {sense : Sense} (errcode : Int)
    (h : ∀ i ∈ reads side e old₁ c sense,
      byteAt e (received old₁ c) i = byteAt e (received old₂ c) i) :
    analyse side e old₁ c sense errcode = analyse side e old₂ c sense errcode := by
  cases side with
  | cms =>
      have hsense : uplinkSense e (received old₁ c) c.bytes.length sense errcode =
          uplinkSense e (received old₂ c) c.bytes.length sense errcode :=
        uplinkSense_congr fun i hi => h i (List.mem_append_left _ hi)
      have heaten := isKeepAlive_congr (e := e) (length_received old₁ c) (length_received old₂ c)
        fun i hi => h i (List.mem_append_right _ hi)
      rw [analyse, analyse, hsense, heaten]
  | ax25 => rw [analyse, analyse, downlinkSense_congr h]

theorem byteAt_received (e : Env) (old : CArray bufLen) (c : Chunk) {i : Int} (hpos : 0 ≤ i)
    (hlt : i < c.bytes.length) : byteAt e (received old c) i = c.bytes.getD i.toNat 0 := by
  obtain ⟨k, rfl⟩ := Int.eq_ofNat_of_zero_le hpos
  rw [byteAt_natCast, received, CArray.overwrite_bytes, Int.toNat_natCast,
    List.getD_append _ _ _ _ (by omega)]

private theorem senseReads_within {e : Env} {buf : List UInt8} {n : Nat} {other : Bool} (hn : 3 ≤ n)
    {i : Int} (h : i ∈ senseReads e buf n other) : 0 ≤ i ∧ i < n := by
  rcases List.mem_append.mp h with hff | hfq
  · rw [ffReads] at hff
    split at hff <;> simp only [List.mem_cons, List.not_mem_nil, or_false] at hff <;> omega
  · split at hfq
    · cases hfq
    · split at hfq
      · rename_i hask
        rw [fqReads] at hfq
        split at hfq <;> simp only [List.mem_cons, List.not_mem_nil, or_false] at hfq <;> omega
      · cases hfq

private theorem keepAliveReads_within {old : CArray bufLen} {c : Chunk}
    (h : c.bytes <+: keepAlive → c.bytes = keepAlive) {i : Int}
    (hi : i ∈ (compareReads (received old c) keepAlive).map Int.ofNat) :
    0 ≤ i ∧ i < c.bytes.length := by
  obtain ⟨k, hk, rfl⟩ := List.mem_map.mp hi
  rw [received, CArray.overwrite_bytes] at hk
  have hlt := compareReads_front h hk
  exact ⟨Int.natCast_nonneg k, Int.ofNat_lt.mpr hlt⟩

private theorem chunkOnly_bounds {side : Side} {c : Chunk} (h : ChunkOnly side c) :
    3 ≤ c.bytes.length ∧ (side = .cms → c.bytes <+: keepAlive → c.bytes = keepAlive) := by
  have hreads := (h ⟨1, Nat.one_pos, (0, 0)⟩ ⟨false, false, false, false⟩ 0).2
    (CArray.zero bufLen)
  constructor
  · have hfirst : ∀ other, ((c.bytes.length : Int) - 3) ∈
        senseReads ⟨1, Nat.one_pos, (0, 0)⟩ (received (CArray.zero bufLen) c) c.bytes.length other := by
      intro other
      refine List.mem_append_left _ ?_
      rw [ffReads]
      split <;> exact List.mem_cons_self
    have hin : 0 ≤ (c.bytes.length : Int) - 3 := by
      cases side with
      | cms => exact (hreads _ (List.mem_append_left _ (hfirst _))).1
      | ax25 => exact (hreads _ (hfirst _)).1
    omega
  · rintro rfl hpre
    by_contra hne
    have hmore : (CArray.zero bufLen).bytes.drop c.bytes.length ≠ [] := by
      have hle := hpre.length_le
      have height : keepAlive.length = 8 := by decide
      have hbuf : bufLen = 8192 := rfl
      rw [Ne, List.drop_eq_nil_iff, (CArray.zero bufLen).length_bytes]
      omega
    have hread := length_mem_compareReads hpre hne hmore
    have hin := hreads (Int.ofNat c.bytes.length)
      (List.mem_append_right _ (List.mem_map_of_mem hread))
    exact absurd hin.2 (Int.lt_irrefl _)

/-- The analysis of a chunk depends on that chunk only exactly when the chunk has
three bytes and, from the CMS, is no incomplete keep alive packet. -/
theorem analysis_chunk_only_iff (side : Side) (c : Chunk) :
    ChunkOnly side c ↔
      3 ≤ c.bytes.length ∧ (side = .cms → c.bytes <+: keepAlive → c.bytes = keepAlive) := by
  constructor
  · exact chunkOnly_bounds
  · rintro ⟨hn, hkeep⟩ e sense errcode
    have hwithin : ∀ old, ∀ i ∈ reads side e old c sense, 0 ≤ i ∧ i < c.bytes.length := by
      intro old i hi
      cases side with
      | cms =>
          rcases List.mem_append.mp hi with hsense | hcompare
          · exact senseReads_within hn hsense
          · exact keepAliveReads_within (hkeep rfl) hcompare
      | ax25 => exact senseReads_within hn hi
    refine ⟨fun old₁ old₂ => analyse_congr errcode fun i hi => ?_, hwithin⟩
    obtain ⟨hpos, hlt⟩ := hwithin old₁ i hi
    rw [byteAt_received e old₁ c hpos hlt, byteAt_received e old₂ c hpos hlt]

private def relay : Env := ⟨236, by decide, (0, 0)⟩

private def halfPacket : Chunk := ⟨lit ";;;;", by decide, by decide⟩

private def packet : Chunk := ⟨keepAlive, by decide, by decide⟩

private def bulletin : Chunk := ⟨lit "HELLO CMS\r", by decide, by decide⟩

private def opening : List Answer :=
  [.login true, .fcntl true, .fcntl true, .select true false, .peekByte 59]

/-- Four bytes are eaten behind a keep alive packet, and relayed behind a line of
text: the comparison is completed by what the buffer still holds. -/
theorem stale_bytes_complete_packet :
    ¬ ChunkOnly .cms halfPacket ∧
      (run (step relay) initial (opening ++ [.chunk packet, .chunk halfPacket])).map
          (fun s => s.log.getLast?) = some (some (.cmsRecv halfPacket.bytes true)) ∧
      (run (step relay) initial
          (opening ++ [.chunk bulletin, .write (.wrote 10), .chunk halfPacket])).map
          (fun s => s.log.getLast?) = some (some (.cmsRecv halfPacket.bytes false)) := by
  refine ⟨fun h => ?_, by decide, by decide⟩
  have hwhole := (chunkOnly_bounds h).2 rfl ⟨lit ";;\r\n", by decide⟩
  exact absurd hwhole (by decide)

end Rmsgw.Gateway.Analysis
