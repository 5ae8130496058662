import Mathlib.Logic.Function.Iterate
import Waitless.Chunks

/-! # GHASH with an eight-block batch

The model of `ghash_batch.rs`. A GHASH state is kept in POLYVAL form: the accumulator read as a
little-endian 128-bit integer. The carry-less multiply instruction is polynomial multiplication
over GF(2) (`clmul`). -/

namespace Waitless.Ghash

open Chunks

abbrev Block := Vector UInt8 16

def blockLen : ℕ := 16

def loadu (b : Block) : BitVec 128 :=
  b.toList.foldr (fun x acc => acc <<< 8 ||| x.toBitVec.setWidth 128) 0

def storeu (v : BitVec 128) : Block :=
  Vector.ofFn fun i => UInt8.ofBitVec (v.extractLsb' (8 * i.val) 8)

def lo64 (v : BitVec 128) : BitVec 64 := v.extractLsb' 0 64
def hi64 (v : BitVec 128) : BitVec 64 := v.extractLsb' 64 64

def clmul (a b : BitVec 64) : BitVec 128 :=
  (List.range 64).foldl
    (fun acc i => if b.getLsbD i then acc ^^^ (a.setWidth 128 <<< i) else acc) 0

/-- A carry-less product before reduction. -/
structure Acc where
  lo : BitVec 128
  hi : BitVec 128
  mid : BitVec 128

def accZero : Acc := ⟨0, 0, 0⟩

def karatsubaAccumulate (acc : Acc) (y h : BitVec 128) : Acc where
  lo := acc.lo ^^^ clmul (lo64 y) (lo64 h)
  hi := acc.hi ^^^ clmul (hi64 y) (hi64 h)
  mid := acc.mid ^^^ clmul (lo64 y ^^^ hi64 y) (lo64 h ^^^ hi64 h)

/-- Modulo `x^128 + x^127 + x^126 + x^121 + 1`, on four 64-bit limbs. -/
def reduce (v0 v1 v2 v3 : BitVec 64) : BitVec 128 :=
  let v2 := v2 ^^^ v0 ^^^ (v0 >>> 1 ^^^ (v0 >>> 2 ^^^ v0 >>> 7))
  let v1 := v1 ^^^ (v0 <<< 63 ^^^ (v0 <<< 62 ^^^ v0 <<< 57))
  let v3 := v3 ^^^ v1 ^^^ (v1 >>> 1 ^^^ (v1 >>> 2 ^^^ v1 >>> 7))
  let v2 := v2 ^^^ (v1 <<< 63 ^^^ (v1 <<< 62 ^^^ v1 <<< 57))
  v3 ++ v2

def accReduce (acc : Acc) : BitVec 128 :=
  let mid := acc.mid ^^^ (acc.lo ^^^ acc.hi)
  reduce (lo64 acc.lo) (hi64 acc.lo ^^^ lo64 mid) (lo64 acc.hi ^^^ hi64 mid) (hi64 acc.hi)

def polyvalMul (a b : BitVec 128) : BitVec 128 :=
  accReduce (karatsubaAccumulate accZero a b)

def foldBit (z : BitVec 128 × BitVec 128) (p : ℕ) : BitVec 128 × BitVec 128 :=
  if 128 ≤ p then (z.1 ^^^ 1#128 <<< (p - 128), z.2) else (z.1, z.2 ^^^ 1#128 <<< p)

def mulWide (a b : BitVec 128) : BitVec 128 × BitVec 128 :=
  (List.range 128).foldl (fun (zh, zl) i =>
    if a.getLsbD i then (if i ≠ 0 then zh ^^^ b >>> (128 - i) else zh, zl ^^^ b <<< i)
    else (zh, zl)) (0, 0)

def foldTop (i : ℕ) (z : BitVec 128 × BitVec 128) : BitVec 128 × BitVec 128 :=
  if z.1.getLsbD i then
    [127, 126, 121, 0].foldl (fun z bit => foldBit z (bit + i)) (z.1 ^^^ 1#128 <<< i, z.2)
  else z

def polyvalMulSoft (a b : BitVec 128) : BitVec 128 :=
  ((List.range 128).foldr foldTop (mulWide a b)).2

def mulx (v : BitVec 128) : BitVec 128 :=
  let vHi := v >>> 127
  v <<< 1 ^^^ (vHi ^^^ vHi <<< 127 ^^^ vHi <<< 126 ^^^ vHi <<< 121)

/-- `H, H², …, H⁸` in POLYVAL form. -/
structure GhashKey where
  hPowers : Vector (BitVec 128) 8
deriving DecidableEq

def GhashKey.new (hGhash : Block) : GhashKey :=
  let h1 := mulx (loadu hGhash.reverse)
  ⟨Vector.ofFn fun i => (polyvalMul · h1)^[i.val] h1⟩

structure GhashState where
  key : GhashKey
  y : BitVec 128

def GhashKey.start (key : GhashKey) : GhashState := ⟨key, 0⟩

namespace GhashState

def absorbOne (g : GhashState) (blk : Block) : GhashState :=
  { g with y := polyvalMul (g.y ^^^ loadu blk.reverse) (g.key.hPowers.get 0) }

def padBlock (bytes : List UInt8) : Block := Vector.ofFn fun i => bytes.getD i.val 0

def absorb8 (g : GhashState) (chunk : List UInt8) : GhashState :=
  let x (i : Fin 8) := loadu (padBlock (chunk.drop (blockLen * i.val))).reverse
  let yi (i : Fin 8) := if i = 0 then g.y ^^^ x i else x i
  { g with y := accReduce ((List.finRange 8).foldl
      (fun acc i => karatsubaAccumulate acc (yi i) (g.key.hPowers.get i.rev)) accZero) }

/-- Absorb fewer than sixteen octets, zero-padded. -/
def absorbPartial (g : GhashState) (bytes : List UInt8) : GhashState :=
  g.absorbOne (padBlock bytes)

def absorbPaddedSlice (g : GhashState) (bytes : List UInt8) : GhashState :=
  let g := (chunksExact blockLen bytes).foldl (fun g blk => g.absorbOne (padBlock blk)) g
  let tail := remainder blockLen bytes
  if tail.isEmpty then g else g.absorbPartial tail

def finalize (g : GhashState) : Block := (storeu g.y).reverse

end GhashState

end Waitless.Ghash
