/- The MD5 of the library: md5_init(), md5_append() and md5_finish() with the buffer
   and the bit counter that they keep between calls, and md5_process(). -/

import Rmsgw.Lib.ByteOrder
import Rmsgw.Lib.CStrings

set_option autoImplicit false
set_option relaxedAutoImplicit false

namespace Rmsgw.Md5.Model

open Rmsgw.Lib.ByteOrder Rmsgw.Lib.CStrings

/-- The four registers of the digest. -/
structure Abcd where
  a : UInt32
  b : UInt32
  c : UInt32
  d : UInt32
  deriving DecidableEq

/-- The state of the MD5 algorithm: message length in bits, lsw first, digest buffer
and the block that accumulates. -/
structure Md5State where
  count0 : UInt32
  count1 : UInt32
  abcd : Abcd
  buf : List UInt8
  length_buf : buf.length = 64
  deriving DecidableEq

def tMask : UInt32 := 0xffffffff

def tTable : List UInt32 :=
  [ tMask ^^^ 0x28955b87, tMask ^^^ 0x173848a9, 0x242070db, tMask ^^^ 0x3e423111,
    tMask ^^^ 0x0a83f050, 0x4787c62a, tMask ^^^ 0x57cfb9ec, tMask ^^^ 0x02b96afe,
    0x698098d8, tMask ^^^ 0x74bb0850, tMask ^^^ 0x0000a44e, tMask ^^^ 0x76a32841,
    0x6b901122, tMask ^^^ 0x02678e6c, tMask ^^^ 0x5986bc71, 0x49b40821,
    tMask ^^^ 0x09e1da9d, tMask ^^^ 0x3fbf4cbf, 0x265e5a51, tMask ^^^ 0x16493855,
    tMask ^^^ 0x29d0efa2, 0x02441453, tMask ^^^ 0x275e197e, tMask ^^^ 0x182c0437,
    0x21e1cde6, tMask ^^^ 0x3cc8f829, tMask ^^^ 0x0b2af278, 0x455a14ed,
    tMask ^^^ 0x561c16fa, tMask ^^^ 0x03105c07, 0x676f02d9, tMask ^^^ 0x72d5b375,
    tMask ^^^ 0x0005c6bd, tMask ^^^ 0x788e097e, 0x6d9d6122, tMask ^^^ 0x021ac7f3,
    tMask ^^^ 0x5b4115bb, 0x4bdecfa9, tMask ^^^ 0x0944b49f, tMask ^^^ 0x4140438f,
    0x289b7ec6, tMask ^^^ 0x155ed805, tMask ^^^ 0x2b10cf7a, 0x04881d05,
    tMask ^^^ 0x262b2fc6, tMask ^^^ 0x1924661a, 0x1fa27cf8, tMask ^^^ 0x3b53a99a,
    tMask ^^^ 0x0bd6ddbb, 0x432aff97, tMask ^^^ 0x546bdc58, tMask ^^^ 0x036c5fc6,
    0x655b59c3, tMask ^^^ 0x70f3336d, tMask ^^^ 0x00100b82, tMask ^^^ 0x7a7ba22e,
    0x6fa87e4f, tMask ^^^ 0x01d3191f, tMask ^^^ 0x5cfebceb, 0x4e0811a1,
    tMask ^^^ 0x08ac817d, tMask ^^^ 0x42c50dca, 0x2ad7d2bb, tMask ^^^ 0x14792c6e]

/-- T1..T64. -/
def T (i : Nat) : UInt32 := tTable.getD (i - 1) 0

/-- The variables that SET is applied to. -/
inductive Reg
  | a | b | c | d
  deriving DecidableEq

def Abcd.get (r : Abcd) : Reg → UInt32
  | .a => r.a
  | .b => r.b
  | .c => r.c
  | .d => r.d

def Abcd.put (r : Abcd) (v : UInt32) : Reg → Abcd
  | .a => { r with a := v }
  | .b => { r with b := v }
  | .c => { r with c := v }
  | .d => { r with d := v }

def Abcd.add (r s : Abcd) : Abcd := ⟨r.a + s.a, r.b + s.b, r.c + s.c, r.d + s.d⟩

/-- `SET(a, b, c, d, k, s, Ti)`. -/
structure SetOp where
  a : Reg
  b : Reg
  c : Reg
  d : Reg
  k : Nat
  s : UInt32
  Ti : UInt32

/-- `ROTATE_LEFT(x, n)`. -/
def rotateLeft (x n : UInt32) : UInt32 := (x <<< n) ||| (x >>> (32 - n))

def F (x y z : UInt32) : UInt32 := (x &&& y) ||| (~~~x &&& z)

def G (x y z : UInt32) : UInt32 := (x &&& z) ||| (y &&& ~~~z)

def H (x y z : UInt32) : UInt32 := x ^^^ y ^^^ z

def I (x y z : UInt32) : UInt32 := y ^^^ (x ||| ~~~z)

/-- `t = a + f(b,c,d) + X[k] + Ti; a = ROTATE_LEFT(t, s) + b`. -/
def set (f : UInt32 → UInt32 → UInt32 → UInt32) (X : Nat → UInt32) (r : Abcd) (o : SetOp) : Abcd :=
  let t := r.get o.a + f (r.get o.b) (r.get o.c) (r.get o.d) + X o.k + o.Ti
  r.put (rotateLeft t o.s + r.get o.b) o.a

def round1 : List SetOp :=
  [ ⟨.a, .b, .c, .d, 0, 7, T 1⟩, ⟨.d, .a, .b, .c, 1, 12, T 2⟩,
    ⟨.c, .d, .a, .b, 2, 17, T 3⟩, ⟨.b, .c, .d, .a, 3, 22, T 4⟩,
    ⟨.a, .b, .c, .d, 4, 7, T 5⟩, ⟨.d, .a, .b, .c, 5, 12, T 6⟩,
    ⟨.c, .d, .a, .b, 6, 17, T 7⟩, ⟨.b, .c, .d, .a, 7, 22, T 8⟩,
    ⟨.a, .b, .c, .d, 8, 7, T 9⟩, ⟨.d, .a, .b, .c, 9, 12, T 10⟩,
    ⟨.c, .d, .a, .b, 10, 17, T 11⟩, ⟨.b, .c, .d, .a, 11, 22, T 12⟩,
    ⟨.a, .b, .c, .d, 12, 7, T 13⟩, ⟨.d, .a, .b, .c, 13, 12, T 14⟩,
    ⟨.c, .d, .a, .b, 14, 17, T 15⟩, ⟨.b, .c, .d, .a, 15, 22, T 16⟩]

def round2 : List SetOp :=
  [ ⟨.a, .b, .c, .d, 1, 5, T 17⟩, ⟨.d, .a, .b, .c, 6, 9, T 18⟩,
    ⟨.c, .d, .a, .b, 11, 14, T 19⟩, ⟨.b, .c, .d, .a, 0, 20, T 20⟩,
    ⟨.a, .b, .c, .d, 5, 5, T 21⟩, ⟨.d, .a, .b, .c, 10, 9, T 22⟩,
    ⟨.c, .d, .a, .b, 15, 14, T 23⟩, ⟨.b, .c, .d, .a, 4, 20, T 24⟩,
    ⟨.a, .b, .c, .d, 9, 5, T 25⟩, ⟨.d, .a, .b, .c, 14, 9, T 26⟩,
    ⟨.c, .d, .a, .b, 3, 14, T 27⟩, ⟨.b, .c, .d, .a, 8, 20, T 28⟩,
    ⟨.a, .b, .c, .d, 13, 5, T 29⟩, ⟨.d, .a, .b, .c, 2, 9, T 30⟩,
    ⟨.c, .d, .a, .b, 7, 14, T 31⟩, ⟨.b, .c, .d, .a, 12, 20, T 32⟩]

def round3 : List SetOp :=
  [ ⟨.a, .b, .c, .d, 5, 4, T 33⟩, ⟨.d, .a, .b, .c, 8, 11, T 34⟩,
    ⟨.c, .d, .a, .b, 11, 16, T 35⟩, ⟨.b, .c, .d, .a, 14, 23, T 36⟩,
    ⟨.a, .b, .c, .d, 1, 4, T 37⟩, ⟨.d, .a, .b, .c, 4, 11, T 38⟩,
    ⟨.c, .d, .a, .b, 7, 16, T 39⟩, ⟨.b, .c, .d, .a, 10, 23, T 40⟩,
    ⟨.a, .b, .c, .d, 13, 4, T 41⟩, ⟨.d, .a, .b, .c, 0, 11, T 42⟩,
    ⟨.c, .d, .a, .b, 3, 16, T 43⟩, ⟨.b, .c, .d, .a, 6, 23, T 44⟩,
    ⟨.a, .b, .c, .d, 9, 4, T 45⟩, ⟨.d, .a, .b, .c, 12, 11, T 46⟩,
    ⟨.c, .d, .a, .b, 15, 16, T 47⟩, ⟨.b, .c, .d, .a, 2, 23, T 48⟩]

def round4 : List SetOp :=
  [ ⟨.a, .b, .c, .d, 0, 6, T 49⟩, ⟨.d, .a, .b, .c, 7, 10, T 50⟩,
    ⟨.c, .d, .a, .b, 14, 15, T 51⟩, ⟨.b, .c, .d, .a, 5, 21, T 52⟩,
    ⟨.a, .b, .c, .d, 12, 6, T 53⟩, ⟨.d, .a, .b, .c, 3, 10, T 54⟩,
    ⟨.c, .d, .a, .b, 10, 15, T 55⟩, ⟨.b, .c, .d, .a, 1, 21, T 56⟩,
    ⟨.a, .b, .c, .d, 8, 6, T 57⟩, ⟨.d, .a, .b, .c, 15, 10, T 58⟩,
    ⟨.c, .d, .a, .b, 6, 15, T 59⟩, ⟨.b, .c, .d, .a, 13, 21, T 60⟩,
    ⟨.a, .b, .c, .d, 4, 6, T 61⟩, ⟨.d, .a, .b, .c, 11, 10, T 62⟩,
    ⟨.c, .d, .a, .b, 2, 15, T 63⟩, ⟨.b, .c, .d, .a, 9, 21, T 64⟩]

/-- `X[i]` on a host. A little-endian one lays its words over the bytes, or over an
aligned copy of them; a big-endian one arranges the bytes. -/
def word (host : Host) (data : List UInt8) (i : Nat) : UInt32 :=
  let xp := fun j => data.getD (4 * i + j) 0
  match host with
  | .littleEndian => UInt32.ofNat (readWord .littleEndian [xp 0, xp 1, xp 2, xp 3])
  | .bigEndian =>
      (xp 0).toUInt32 + ((xp 1).toUInt32 <<< 8) + ((xp 2).toUInt32 <<< 16) +
        ((xp 3).toUInt32 <<< 24)

/-- md5_process() on the registers: the four rounds over a block of 64 bytes, and
the registers as they were before added to what they leave. -/
def compress (host : Host) (abcd : Abcd) (data : List UInt8) : Abcd :=
  let X := word host data
  let r := round1.foldl (set F X) abcd
  let r := round2.foldl (set G X) r
  let r := round3.foldl (set H X) r
  let r := round4.foldl (set I X) r
  abcd.add r

def md5Process (host : Host) (pms : Md5State) (data : List UInt8) : Md5State :=
  { pms with abcd := compress host pms.abcd data }

/-- `buf` holds what it held. -/
def md5Init (pms : Md5State) : Md5State :=
  { pms with
    count0 := 0
    count1 := 0
    abcd := ⟨0x67452301, tMask ^^^ 0x10325476, tMask ^^^ 0x67452301, 0x10325476⟩ }

/-- The first `n` bytes at a pointer, unless they go past the end of the array. -/
def readBytes (p : List UInt8) (n : Nat) : Option (List UInt8) :=
  if n ≤ p.length then some (p.take n) else none

/-- `memcpy(pms->buf + offset, src, ..)`, unless it goes past the end of `buf`. -/
def Md5State.memcpy (pms : Md5State) (offset : Nat) (src : List UInt8) : Option Md5State :=
  if fits : offset + src.length ≤ 64 then
    some
      { pms with
        buf := pms.buf.take offset ++ src ++ pms.buf.drop (offset + src.length)
        length_buf := by
          have := pms.length_buf
          simp only [List.length_append, List.length_take, List.length_drop]
          omega }
  else none

/-- Update the message length. `nbytes << 3` keeps the low 32 bits. -/
def Md5State.lengthen (pms : Md5State) (nbytes : Int) : Md5State :=
  let nbits := UInt32.ofInt (nbytes * 8)
  let count1 := pms.count1 + UInt32.ofInt (nbytes / 536870912)
  let count0 := pms.count0 + nbits
  { pms with
    count0 := count0
    count1 := if count0 < nbits then count1 + 1 else count1 }

/-- `for (; left >= 64; p += 64, left -= 64) md5_process(pms, p)` with its rounds counted. -/
def fullBlocks (host : Host) : Nat → Md5State → List UInt8 → Option (Md5State × List UInt8)
  | 0, pms, p => some (pms, p)
  | n + 1, pms, p =>
      (readBytes p 64).bind fun data => fullBlocks host n (md5Process host pms data) (p.drop 64)

/-- Process full blocks, and keep a final partial block. -/
def processRest (host : Host) (pms : Md5State) (p : List UInt8) (left : Nat) : Option Md5State :=
  (fullBlocks host (left / 64) pms p).bind fun q =>
    if left % 64 = 0 then some q.1
    else (readBytes q.2 (left % 64)).bind (q.1.memcpy 0)

/-- `(pms->count[0] >> 3) & 63`. -/
def Md5State.offset (pms : Md5State) : Nat := ((pms.count0 >>> 3) &&& 63).toNat

/-- md5_append(); `none` is an access outside of `data` or of `buf`. -/
def md5Append (host : Host) (pms : Md5State) (data : List UInt8) (nbytes : Int) :
    Option Md5State :=
  if nbytes ≤ 0 then some pms
  else if pms.offset = 0 then processRest host (pms.lengthen nbytes) data nbytes.toNat
  else
    let copy := if 64 < toInt32 (pms.offset + nbytes) then 64 - (pms.offset : Int) else nbytes
    (readBytes data copy.toNat).bind fun src =>
      ((pms.lengthen nbytes).memcpy pms.offset src).bind fun filled =>
        if (pms.offset : Int) + copy < 64 then some filled
        else
          processRest host (md5Process host filled filled.buf) (data.drop copy.toNat)
            (nbytes - copy).toNat

/-- `(md5_byte_t)(words[i >> 2] >> ((i & 3) << 3))` for one `i` after the other. -/
def wordBytes (words : List UInt32) : List UInt8 :=
  (List.range (4 * words.length)).map
    (fun i => (words.getD (i / 4) 0 >>> UInt32.ofNat (i % 4 * 8)).toUInt8)

def pad : List UInt8 := 0x80 :: List.replicate 63 0

/-- `((55 - (pms->count[0] >> 3)) & 63) + 1`. -/
def Md5State.padCount (pms : Md5State) : Nat :=
  (((55 : UInt32) - (pms.count0 >>> 3)) &&& 63).toNat + 1

/-- Pad to 56 bytes mod 64, append the length as it was before padding, and bring
out the digest. -/
def md5Finish (host : Host) (pms : Md5State) : Option (List UInt8) :=
  let data := wordBytes [pms.count0, pms.count1]
  (md5Append host pms pad (pms.padCount : Int)).bind fun padded =>
    (md5Append host padded data 8).map fun finished =>
      wordBytes [finished.abcd.a, finished.abcd.b, finished.abcd.c, finished.abcd.d]

/-- Pieces of a message appended one after the other, each with its own length. -/
def appendAll (host : Host) : Md5State → List (List UInt8) → Option Md5State
  | pms, [] => some pms
  | pms, piece :: pieces =>
      (md5Append host pms piece (piece.length : Int)).bind (appendAll host · pieces)

/-- A state that was never initialized. -/
def rawState : Md5State := ⟨0, 0, ⟨0, 0, 0, 0⟩, List.replicate 64 0, List.length_replicate⟩

end Rmsgw.Md5.Model
