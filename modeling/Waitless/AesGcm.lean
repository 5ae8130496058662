import Waitless.Ghash
import Waitless.StreamCipher

/-! # AES-128-GCM in place

The model of `Aes128GcmFast`, with an arbitrary keyed block function `E` for AES.

The buffer a pass leaves is the XOR with the keystream, whatever the tag comparison says
(`sealInPlace_buffer`, `openInPlace_buffer`), and the tag depends on the ciphertext alone
(`sealInPlace_tag`, `openInPlace_ok`). Hence `openInPlace_sealInPlace`. -/

namespace Waitless.AesGcm

open Chunks StreamCipher Waitless.Ghash

abbrev Key := Vector UInt8 16
abbrev Nonce := Vector UInt8 12
abbrev Tag := Vector UInt8 16
abbrev Bytes := List UInt8

/-- The octets of a text. -/
def ascii (s : String) : Bytes := s.toList.map fun c => UInt8.ofNat c.toNat

def chunkBlocks : ℕ := 8
def chunkLen : ℕ := blockLen * chunkBlocks

/-- The AES key and its GHASH table. -/
structure Aes128GcmFast where
  aes : Key
  ghashKey : GhashKey
deriving DecidableEq

def incrementBe32 (counter : Block) : Block :=
  let c : UInt32 := (counter.get 12).toUInt32 <<< 24 ||| (counter.get 13).toUInt32 <<< 16 |||
    (counter.get 14).toUInt32 <<< 8 ||| (counter.get 15).toUInt32
  let be := c + 1
  (((counter.set 12 (be >>> 24).toUInt8).set 13 (be >>> 16).toUInt8).set 14
    (be >>> 8).toUInt8).set 15 be.toUInt8

def j0 (nonce : Nonce) : Block :=
  Vector.ofFn fun i => if h : i.val < 12 then nonce.get ⟨i.val, h⟩ else if i.val = 15 then 1 else 0

def beBytes64 (v : UInt64) : Bytes :=
  ([56, 48, 40, 32, 24, 16, 8, 0] : List UInt64).map fun s => (v >>> s).toUInt8

def lenBlock (aadLen bufLen : ℕ) : Block :=
  GhashState.padBlock
    (beBytes64 (UInt64.ofNat aadLen * 8) ++ beBytes64 (UInt64.ofNat bufLen * 8))

def xorBlock (a b : Block) : Block := Vector.zipWith (· ^^^ ·) a b

/-- Whether the hash absorbs the text after or before the pass. -/
inductive Mode where
  | encipher
  | decipher

def Mode.absorbed {α : Type} : Mode → α → α → α
  | .encipher, _, after => after
  | .decipher, before, _ => before

/-- One turn of the fused loop: block `i` is loaded, XORed with its keystream, stored, and accumulated
from the register it is in. -/
def stitchedBlock (g : GhashState) (chunk ks : Bytes) (done : Bytes × Acc) (i : Fin 8) : Bytes × Acc :=
  let pt := GhashState.padBlock (chunk.drop (blockLen * i.val))
  let ct := xorBlock pt (GhashState.padBlock (ks.drop (blockLen * i.val)))
  let ctRev := loadu ct.reverse
  let yi := if i.val = 0 then g.y ^^^ ctRev else ctRev
  (done.1 ++ ct.toList, karatsubaAccumulate done.2 yi (g.key.hPowers.get i.rev))

/-- `stitched_chunk_x86`: no second pass over the buffer for GHASH. -/
def stitchedXorAndAbsorb (g : GhashState) (chunk ks : Bytes) : Bytes × GhashState :=
  let (out, acc) := (List.finRange 8).foldl (stitchedBlock g chunk ks) ([], accZero)
  (out, { g with y := accReduce acc })

/-- What a pass carries from block to block. -/
structure Pass where
  g : GhashState
  counter : Block

section pass

variable (E : Block → Block)

def ksBuf : ℕ → Block → Bytes × Block
  | 0, counter => ([], counter)
  | n + 1, counter =>
    let (ks, next) := ksBuf n (incrementBe32 counter)
    ((E counter).toList ++ ks, next)

/-- Eight blocks of a buffer are written, or their ciphertext absorbed before they are. -/
def chunkPass (mode : Mode) (p : Pass) (chunk : Bytes) : Bytes × Pass :=
  let (ks, counter) := ksBuf E chunkBlocks p.counter
  match mode with
  | .encipher =>
    let (out, g) := stitchedXorAndAbsorb p.g chunk ks
    (out, ⟨g, counter⟩)
  | .decipher =>
    let g := p.g.absorb8 chunk
    (List.zipWith (· ^^^ ·) chunk ks, ⟨g, counter⟩)

def blockPass (mode : Mode) (p : Pass) (block : Bytes) : Bytes × Pass :=
  let out := List.zipWith (· ^^^ ·) block (E p.counter).toList
  (out, ⟨p.g.absorbOne (GhashState.padBlock (mode.absorbed block out)), incrementBe32 p.counter⟩)

/-- The last, incomplete block. -/
def restPass (mode : Mode) (p : Pass) (rest : Bytes) : Bytes × Pass :=
  if rest.isEmpty then (rest, p)
  else
    let out := List.zipWith (· ^^^ ·) rest (E p.counter).toList
    (out, { p with g := p.g.absorbPartial (mode.absorbed rest out) })

def mapPass (f : Pass → Bytes → Bytes × Pass) : List Bytes → Pass → List Bytes × Pass
  | [], p => ([], p)
  | c :: cs, p =>
    let (out, p₁) := f p c
    let (outs, p₂) := mapPass f cs p₁
    (out :: outs, p₂)

def bufferPass (mode : Mode) (p : Pass) (buffer : Bytes) : Bytes × Pass :=
  let (outs, p₁) := mapPass (chunkPass E mode) (chunksExact chunkLen buffer) p
  let tail := remainder chunkLen buffer
  let (touts, p₂) := mapPass (blockPass E mode) (chunksExact blockLen tail) p₁
  let (rest, p₃) := restPass E mode p₂ (remainder blockLen tail)
  (outs.flatten ++ (touts.flatten ++ rest), p₃)

end pass

variable (E : Key → Block → Block)

def Aes128GcmFast.new (key : Key) : Aes128GcmFast :=
  ⟨key, GhashKey.new (E key (Vector.replicate 16 0))⟩

namespace Aes128GcmFast

variable (c : Aes128GcmFast) (nonce : Nonce) (aad buffer : Bytes)

def run (mode : Mode) : Bytes × Tag :=
  let j0 := j0 nonce
  let mask := E c.aes j0
  let g := c.ghashKey.start.absorbPaddedSlice aad
  let (out, p) := bufferPass (E c.aes) mode ⟨g, incrementBe32 j0⟩ buffer
  let g := p.g.absorbOne (lenBlock aad.length buffer.length)
  (out, xorBlock g.finalize mask)

def sealInPlace : Bytes × Tag := run E c nonce aad buffer .encipher

/-- Deciphers in place, then compares the tags. -/
def openInPlace (tag : Tag) : Bytes × Bool :=
  let (out, computed) := run E c nonce aad buffer .decipher
  (out, computed == tag)

/-- Out of range, the answer is `none`. -/
def copyPart : Bytes × ℕ → Bytes → Option (Bytes × ℕ)
  | (dst, cursor), src =>
    let n := src.length
    if n = 0 then some (dst, cursor)
    else if cursor + n ≤ dst.length then
      some (dst.take cursor ++ src ++ dst.drop (cursor + n), cursor + n)
    else none

def sealChain (parts : List Bytes) (dst : Bytes) : Option (Bytes × Tag) := do
  let (dst, cursor) ← parts.foldlM copyPart (dst, 0)
  let (out, tag) := sealInPlace E c nonce aad (dst.take cursor)
  some (out ++ dst.drop cursor, tag)

end Aes128GcmFast

section spec

variable (F : Block → Block) (mode : Mode)

def keystream (counter : Block) : ℕ → UInt8 :=
  blockStream blockLen (fun b i => (F b).toList.getD i 0) incrementBe32 counter

def absorbText (g : GhashState) (text : Bytes) : GhashState :=
  let g := (chunksExact chunkLen text).foldl GhashState.absorb8 g
  let tail := remainder chunkLen text
  let g := (chunksExact blockLen tail).foldl (fun g b => g.absorbOne (GhashState.padBlock b)) g
  let rest := remainder blockLen tail
  if rest.isEmpty then g else g.absorbPartial rest

theorem keystream_add (counter : Block) (k i : ℕ) :
    keystream F counter (blockLen * k + i) = keystream F (incrementBe32^[k] counter) i :=
  blockStream_add (by decide) _ _ _ _ _

theorem ksBuf_counter (n : ℕ) (counter : Block) :
    (ksBuf F n counter).2 = incrementBe32^[n] counter := by
  induction n generalizing counter with
  | zero => rfl
  | succ n ih => simp [ksBuf, ih]

theorem length_ksBuf (n : ℕ) (counter : Block) : (ksBuf F n counter).1.length = blockLen * n := by
  induction n generalizing counter with
  | zero => rfl
  | succ n ih => simp [ksBuf, ih, blockLen]; omega

theorem getElem_ksBuf (n : ℕ) (counter : Block) (i : ℕ) (hi : i < (ksBuf F n counter).1.length) :
    (ksBuf F n counter).1.get ⟨i, hi⟩ = keystream F counter i := by
  induction n generalizing counter i with
  | zero => simp [ksBuf] at hi
  | succ n ih =>
    have hlen : (F counter).toList.length = blockLen := by simp [blockLen]
    simp only [List.get_eq_getElem] at ih ⊢
    by_cases h : i < blockLen
    · simp only [ksBuf]
      rw [List.getElem_append_left (by omega), keystream, blockStream_of_lt h,
        List.getD_eq_getElem _ _ (by omega)]
    · obtain ⟨j, rfl⟩ : ∃ j, i = blockLen + j := ⟨i - blockLen, by omega⟩
      have hj : j < (ksBuf F n (incrementBe32 counter)).1.length := by
        rw [length_ksBuf] at hi ⊢
        rw [Nat.mul_succ] at hi
        omega
      have hks := keystream_add F counter 1 j
      simp only [Nat.mul_one, Function.iterate_one] at hks
      simp only [ksBuf]
      rw [List.getElem_append_right (by omega), hks, ← ih (incrementBe32 counter) j hj]
      congr 1
      omega

theorem getElem_block (counter : Block) (i : ℕ) (hi : i < (F counter).toList.length) :
    (F counter).toList.get ⟨i, hi⟩ = keystream F counter i := by
  have hlen : (F counter).toList.length = blockLen := by simp [blockLen]
  rw [keystream, blockStream_of_lt (by omega), List.getD_eq_getElem _ _ hi, List.get_eq_getElem]

theorem toList_padBlock {bytes : Bytes} (h : blockLen ≤ bytes.length) :
    (GhashState.padBlock bytes).toList = bytes.take blockLen := by
  have hlen : (GhashState.padBlock bytes).toList.length = (bytes.take blockLen).length := by
    rw [Vector.length_toList, List.length_take, Nat.min_eq_left h]
    rfl
  refine List.ext_getElem hlen fun i hi hi' => ?_
  rw [List.length_take] at hi'
  simp only [GhashState.padBlock, Vector.getElem_toList, Vector.getElem_ofFn, List.getElem_take]
  exact List.getD_eq_getElem _ _ (by omega)

theorem xorBlock_padBlock {a b : Bytes} (h : a.length = b.length) :
    xorBlock (GhashState.padBlock a) (GhashState.padBlock b) =
      GhashState.padBlock (List.zipWith (· ^^^ ·) a b) := by
  ext i hi
  simp only [xorBlock, GhashState.padBlock, Vector.getElem_zipWith, Vector.getElem_ofFn,
    List.getD_eq_getElem?_getD, List.getElem?_zipWith]
  by_cases hia : i < a.length
  · simp [List.getElem?_eq_getElem hia, List.getElem?_eq_getElem (h ▸ hia : i < b.length)]
  · have hib : b.length ≤ i := h ▸ Nat.not_lt.mp hia
    simp [List.getElem?_eq_none (Nat.not_lt.mp hia), List.getElem?_eq_none hib]

/-- The blocks of a text, one behind the other. -/
theorem flatMap_padBlock (n : ℕ) {text : Bytes} (h : text.length = blockLen * n) :
    (List.range n).flatMap (fun i => (GhashState.padBlock (text.drop (blockLen * i))).toList) = text := by
  induction n generalizing text with
  | zero => exact (List.length_eq_zero_iff.mp h).symm
  | succ n ih =>
    have hlen : (text.drop blockLen).length = blockLen * n := by
      rw [List.length_drop, h, Nat.mul_succ, Nat.add_sub_cancel]
    have hdrop : ∀ i, text.drop (blockLen * (i + 1)) = (text.drop blockLen).drop (blockLen * i) := by
      intro i
      rw [List.drop_drop, Nat.mul_succ, Nat.add_comm]
    rw [List.range_succ_eq_map, List.flatMap_cons, List.flatMap_map, Nat.mul_zero, List.drop_zero,
      toList_padBlock (by rw [h, Nat.mul_succ]; omega)]
    simp only [Nat.succ_eq_add_one, hdrop]
    rw [ih hlen, List.take_append_drop]

/-- The fused loop is the XOR of the whole chunk, followed by the batched absorb. -/
theorem stitchedXorAndAbsorb_eq (g : GhashState) {chunk ks : Bytes} (h : chunk.length = chunkLen)
    (hks : ks.length = chunkLen) :
    stitchedXorAndAbsorb g chunk ks =
      (List.zipWith (· ^^^ ·) chunk ks, g.absorb8 (List.zipWith (· ^^^ ·) chunk ks)) := by
  set ct := List.zipWith (· ^^^ ·) chunk ks with hct
  have hlen : ct.length = blockLen * 8 := by
    rw [hct, List.length_zipWith, h, hks, Nat.min_self]
    rfl
  have hblock : ∀ done i, stitchedBlock g chunk ks done i =
      (done.1 ++ (GhashState.padBlock (ct.drop (blockLen * i.val))).toList,
        karatsubaAccumulate done.2
          (if i = 0 then g.y ^^^ loadu (GhashState.padBlock (ct.drop (blockLen * i.val))).reverse
            else loadu (GhashState.padBlock (ct.drop (blockLen * i.val))).reverse)
          (g.key.hPowers.get i.rev)) := by
    intro done i
    rw [stitchedBlock, xorBlock_padBlock (by rw [List.length_drop, List.length_drop, h, hks]),
      ← List.drop_zipWith, ← hct]
    simp only [Fin.val_eq_zero_iff]
  have hfold : ∀ (is : List (Fin 8)) (done : Bytes × Acc), is.foldl (stitchedBlock g chunk ks) done =
      (done.1 ++ is.flatMap fun i => (GhashState.padBlock (ct.drop (blockLen * i.val))).toList,
        is.foldl (fun acc i => karatsubaAccumulate acc
          (if i = 0 then g.y ^^^ loadu (GhashState.padBlock (ct.drop (blockLen * i.val))).reverse
            else loadu (GhashState.padBlock (ct.drop (blockLen * i.val))).reverse)
          (g.key.hPowers.get i.rev)) done.2) := by
    intro is
    induction is with
    | nil => intro done; simp
    | cons i is ih => intro done; simp [ih, hblock]
  have hout := flatMap_padBlock 8 hlen
  rw [show List.range 8 = (List.finRange 8).map Fin.val from rfl, List.flatMap_map] at hout
  rw [stitchedXorAndAbsorb, hfold, GhashState.absorb8]
  dsimp only
  rw [List.nil_append, hout]

theorem chunkPass_eq (p : Pass) {chunk : Bytes} (h : chunk.length = chunkLen) :
    chunkPass F mode p chunk = (xorStream (keystream F p.counter) chunk,
      ⟨p.g.absorb8 (mode.absorbed chunk (xorStream (keystream F p.counter) chunk)),
        incrementBe32^[chunkBlocks] p.counter⟩) := by
  have hx := zipWith_eq_xorStream (keystream F p.counter) (d := chunk)
    (k := (ksBuf F chunkBlocks p.counter).1) (by simp [length_ksBuf, h, chunkLen])
    fun i hi _ => getElem_ksBuf F chunkBlocks p.counter i hi
  cases mode with
  | encipher =>
    rw [chunkPass]
    simp only [stitchedXorAndAbsorb_eq p.g h (length_ksBuf F chunkBlocks p.counter), hx, ksBuf_counter]
    rfl
  | decipher =>
    simp only [chunkPass, hx, ksBuf_counter]
    rfl

theorem blockPass_eq (p : Pass) {block : Bytes} (h : block.length = blockLen) :
    blockPass F mode p block = (xorStream (keystream F p.counter) block,
      ⟨p.g.absorbOne (GhashState.padBlock
        (mode.absorbed block (xorStream (keystream F p.counter) block))),
        incrementBe32^[1] p.counter⟩) := by
  have hx := zipWith_eq_xorStream (keystream F p.counter) (d := block)
    (k := (F p.counter).toList) (by simp [h, blockLen])
    fun i hi _ => getElem_block F p.counter i hi
  simp only [blockPass, hx, Function.iterate_one]

theorem restPass_eq (p : Pass) {rest : Bytes} (h : rest.length < blockLen) :
    (restPass F mode p rest).1 = xorStream (keystream F p.counter) rest ∧
      (restPass F mode p rest).2.g =
        if rest.isEmpty then p.g
        else p.g.absorbPartial (mode.absorbed rest (xorStream (keystream F p.counter) rest)) := by
  have hx := zipWith_eq_xorStream (keystream F p.counter) (d := rest)
    (k := (F p.counter).toList) (by simp; simp [blockLen] at h; omega)
    fun i hi _ => getElem_block F p.counter i hi
  unfold restPass
  cases rest with
  | nil => simp
  | cons b rest => simp only [List.isEmpty_cons, Bool.false_eq_true, if_false, hx, and_self]

theorem mapPass_spec {k : ℕ} {f : Pass → Bytes → Bytes × Pass}
    (absorb : GhashState → Bytes → GhashState)
    (hf : ∀ p c, c.length = blockLen * k → f p c = (xorStream (keystream F p.counter) c,
      ⟨absorb p.g (mode.absorbed c (xorStream (keystream F p.counter) c)),
        incrementBe32^[k] p.counter⟩)) :
    ∀ (cs : List Bytes) (p : Pass), (∀ c ∈ cs, c.length = blockLen * k) →
      (mapPass f cs p).1.flatten = xorStream (keystream F p.counter) cs.flatten ∧
      (∀ c ∈ (mapPass f cs p).1, c.length = blockLen * k) ∧
      (mapPass f cs p).2.g = (mode.absorbed cs (mapPass f cs p).1).foldl absorb p.g ∧
      keystream F (mapPass f cs p).2.counter =
        fun i => keystream F p.counter (cs.flatten.length + i)
  | [], p, _ => by cases mode <;> simp [mapPass, Mode.absorbed]
  | c :: cs, p, h => by
      have hc : c.length = blockLen * k := h c (by simp)
      obtain ⟨ih₁, ih₂, ih₃, ih₄⟩ := mapPass_spec absorb hf cs (f p c).2 fun d hd => h d (by simp [hd])
      rw [hf p c hc] at ih₁ ih₂ ih₃ ih₄
      have hks : keystream F (incrementBe32^[k] p.counter) =
          fun i => keystream F p.counter (c.length + i) := by
        funext i
        rw [hc, keystream_add]
      simp only [hks] at ih₁ ih₄
      simp only [mapPass, hf p c hc]
      refine ⟨?_, ?_, ?_, ?_⟩
      · rw [List.flatten_cons, ih₁, List.flatten_cons, xorStream_append]
      · intro d hd
        rcases List.mem_cons.1 hd with rfl | hd
        · rw [length_xorStream, hc]
        · exact ih₂ d hd
      · rw [ih₃]
        cases mode <;> rfl
      · rw [ih₄]
        funext i
        rw [List.flatten_cons, List.length_append, Nat.add_assoc]

theorem bufferPass_spec (p : Pass) (buffer : Bytes) :
    (bufferPass F mode p buffer).1 = xorStream (keystream F p.counter) buffer ∧
      (bufferPass F mode p buffer).2.g =
        absorbText p.g (mode.absorbed buffer (xorStream (keystream F p.counter) buffer)) := by
  set tail := remainder chunkLen buffer with htail
  obtain ⟨hout1, hlen1, hg1, hks1⟩ := mapPass_spec F mode GhashState.absorb8
    (fun p c => chunkPass_eq F mode p) (chunksExact chunkLen buffer) p
    fun c hc => length_of_mem_chunksExact hc
  set r1 := mapPass (chunkPass F mode) (chunksExact chunkLen buffer) p
  obtain ⟨hout2, hlen2, hg2, hks2⟩ := mapPass_spec F mode
    (fun g b => g.absorbOne (GhashState.padBlock b)) (k := 1)
    (fun p c => blockPass_eq F mode p) (chunksExact blockLen tail) r1.2
    fun c hc => length_of_mem_chunksExact hc
  set r2 := mapPass (blockPass F mode) (chunksExact blockLen tail) r1.2
  have hrest : (remainder blockLen tail).length < blockLen := length_remainder_lt (by decide) _
  obtain ⟨hout3, hg3⟩ := restPass_eq F mode r2.2 hrest
  set r3 := restPass F mode r2.2 (remainder blockLen tail)
  have htl : r2.1.flatten ++ r3.1 = xorStream (keystream F r1.2.counter) tail := by
    conv_rhs => rw [← flatten_chunksExact_append_remainder blockLen tail]
    rw [xorStream_append, hout2, hout3, hks2]
  have hout : (bufferPass F mode p buffer).1 = xorStream (keystream F p.counter) buffer := by
    conv_rhs => rw [← flatten_chunksExact_append_remainder chunkLen buffer]
    rw [xorStream_append, ← hout1, ← hks1, ← htail, ← htl]
    rfl
  refine ⟨hout, ?_⟩
  have hpass : (bufferPass F mode p buffer).2.g = r3.2.g := rfl
  have hbuf : (bufferPass F mode p buffer).1 = r1.1.flatten ++ (r2.1.flatten ++ r3.1) := rfl
  rw [hpass, hg3, hg2, hg1, ← hout]
  cases mode with
  | decipher => simp only [Mode.absorbed, absorbText, ← htail]
  | encipher =>
    have hrest' : r3.1.length < blockLen := by rw [hout3, length_xorStream]; exact hrest
    have htail' : (r2.1.flatten ++ r3.1).length < chunkLen := by
      rw [htl, length_xorStream]
      exact length_remainder_lt (by decide) _
    obtain ⟨hc1, hr1⟩ := chunksExact_flatten_append hlen1 htail'
    obtain ⟨hc2, hr2⟩ := chunksExact_flatten_append hlen2 hrest'
    have hempty : r3.1.isEmpty = (remainder blockLen tail).isEmpty := by
      rw [Bool.eq_iff_iff, List.isEmpty_iff_length_eq_zero, List.isEmpty_iff_length_eq_zero,
        hout3, length_xorStream]
    simp only [Mode.absorbed, absorbText, hbuf]
    rw [show chunkLen = blockLen * chunkBlocks from rfl, hc1, hr1]
    rw [Nat.mul_one] at hc2 hr2
    rw [hc2, hr2, hempty, ← hout3]

end spec

section contract

variable (c : Aes128GcmFast) (nonce : Nonce) (aad buffer : Bytes)

def nonceStream : ℕ → UInt8 := keystream (E c.aes) (incrementBe32 (j0 nonce))

def tagOf (ct : Bytes) : Tag :=
  xorBlock ((absorbText (c.ghashKey.start.absorbPaddedSlice aad) ct).absorbOne
    (lenBlock aad.length ct.length)).finalize (E c.aes (j0 nonce))

theorem sealInPlace_buffer :
    (c.sealInPlace E nonce aad buffer).1 = xorStream (nonceStream E c nonce) buffer :=
  (bufferPass_spec (E c.aes) .encipher _ buffer).1

theorem sealInPlace_tag :
    (c.sealInPlace E nonce aad buffer).2 =
      tagOf E c nonce aad (xorStream (nonceStream E c nonce) buffer) := by
  have h := (bufferPass_spec (E c.aes) .encipher
    ⟨c.ghashKey.start.absorbPaddedSlice aad, incrementBe32 (j0 nonce)⟩ buffer).2
  simp only [Aes128GcmFast.sealInPlace, Aes128GcmFast.run, h, tagOf, length_xorStream]
  rfl

theorem openInPlace_buffer (tag : Tag) :
    (c.openInPlace E nonce aad buffer tag).1 = xorStream (nonceStream E c nonce) buffer :=
  (bufferPass_spec (E c.aes) .decipher _ buffer).1

theorem openInPlace_ok (tag : Tag) :
    (c.openInPlace E nonce aad buffer tag).2 = true ↔ tagOf E c nonce aad buffer = tag := by
  have h := (bufferPass_spec (E c.aes) .decipher
    ⟨c.ghashKey.start.absorbPaddedSlice aad, incrementBe32 (j0 nonce)⟩ buffer).2
  simp only [Aes128GcmFast.openInPlace, Aes128GcmFast.run, h, tagOf, beq_iff_eq]
  rfl

theorem openInPlace_sealInPlace :
    c.openInPlace E nonce aad (c.sealInPlace E nonce aad buffer).1
      (c.sealInPlace E nonce aad buffer).2 = (buffer, true) := by
  refine Prod.ext ?_ ?_
  · rw [openInPlace_buffer, sealInPlace_buffer, xorStream_xorStream]
  · rw [openInPlace_ok, sealInPlace_tag, sealInPlace_buffer]

end contract

end Waitless.AesGcm
