import Waitless.QuicKeys

/-! # Short-header packets

The wire form of a 1-RTT packet: first octet, destination connection ID, truncated packet number,
ciphertext, tag. `unprotectHeader` undoes `protectPacket` when the header-protection keys agree and
the truncated number decodes to the packet's own. -/

namespace Waitless.Quic

open StreamCipher Waitless.Ghash Waitless.AesGcm

def fixedBit : UInt8 := 0x40
def headerFormLong : UInt8 := 0x80

/-- The length of the connection IDs this endpoint issues. -/
def serverCidLen : ℕ := 8

/-- Why a datagram is dropped or the connection fails. -/
inductive ConnError where
  | wire
  | decrypt
  | tls
  | outputTooSmall
  | badState
  | unsupportedVersion
deriving DecidableEq

/-- The nearest number with these low octets. -/
def decodePacketNumber (largestPn truncatedPn : UInt64) (truncatedPnLen : ℕ) : UInt64 :=
  let pnNbits : UInt64 := UInt64.ofNat truncatedPnLen * 8
  let expectedPn := largestPn + 1
  let pnWin : UInt64 := 1 <<< pnNbits
  let pnHwin := pnWin / 2
  let pnMask := pnWin - 1
  let candidate := (expectedPn &&& ~~~pnMask) ||| truncatedPn
  if candidate + pnHwin ≤ expectedPn ∧ candidate < ((1 : UInt64) <<< 62) - pnWin then candidate + pnWin
  else if candidate > expectedPn + pnHwin ∧ candidate ≥ pnWin then candidate - pnWin
  else candidate

def readPn (bytes : Bytes) : UInt64 := bytes.foldl (fun t b => t <<< 8 ||| b.toUInt64) 0

def pnBytes (pn : UInt64) (len : ℕ) : Bytes := (beBytes64 pn).drop (8 - len)

@[simp] theorem length_beBytes64 (v : UInt64) : (beBytes64 v).length = 8 := rfl

@[simp] theorem length_pnBytes (pn : UInt64) (len : ℕ) : (pnBytes pn len).length = 8 - (8 - len) := by
  simp [pnBytes]

variable (P : Primitives)

/-- Four bits for a long header, five for a short one. -/
def firstMask (isLong : Bool) : UInt8 := if isLong then 0x0f else 0x1f

def hpSample (pnOffset : ℕ) (buf : Bytes) : Block := GhashState.padBlock (buf.drop (pnOffset + 4))

def applyHpMask (pnOffset pnLength : ℕ) (mask : Bytes) (isLong : Bool) (buf : Bytes) : Bytes :=
  xorAt pnOffset ((mask.drop 1).take pnLength) (xorAt 0 [mask.getD 0 0 &&& firstMask isLong] buf)

def pnLength (first : UInt8) : ℕ := (first &&& 0x03).toNat + 1

/-- The header is `first ‖ cid ‖ pnb`. -/
def protectPacket (k : DirKeys) (first : UInt8) (cid pnb : Bytes) (pn : UInt64) (payload : Bytes) :
    Bytes :=
  let header := first :: (cid ++ pnb)
  let (ct, tag) := k.aeadSeal P (packetNonce k.iv pn) header payload
  let buf := header ++ (ct ++ tag.toList)
  let pnOffset := 1 + cid.length
  applyHpMask pnOffset pnb.length (k.hpMask P (hpSample pnOffset buf)) false buf

/-- The buffer and the decoded packet number. -/
def unprotectHeader (largest : UInt8 → Option UInt64) (buf : Bytes) (pnOffset : ℕ) (k : DirKeys) :
    Except ConnError (Bytes × UInt64) :=
  if pnOffset + 4 + hpSampleLen > buf.length then .error .wire
  else
    let mask := k.hpMask P (hpSample pnOffset buf)
    let isLong := buf.getD 0 0 &&& headerFormLong != 0
    let buf := xorAt 0 [mask.getD 0 0 &&& firstMask isLong] buf
    let pnLen := pnLength (buf.getD 0 0)
    if pnLen > 4 ∨ pnOffset + pnLen + tagLen > buf.length then .error .wire
    else
      let buf := xorAt pnOffset ((mask.drop 1).take pnLen) buf
      let truncated := readPn ((buf.drop pnOffset).take pnLen)
      .ok (buf, decodePacketNumber ((largest (buf.getD 0 0)).getD (0 - 1)) truncated pnLen)

def sealedPacket (k : DirKeys) (first : UInt8) (cid pnb : Bytes) (pn : UInt64) (payload : Bytes) :
    Bytes :=
  let header := first :: (cid ++ pnb)
  let (ct, tag) := k.aeadSeal P (packetNonce k.iv pn) header payload
  header ++ (ct ++ tag.toList)

theorem hpSample_applyHpMask {pnOffset pnLen : ℕ} (h : pnLen ≤ 4) (mask : Bytes) (isLong : Bool)
    (buf : Bytes) :
    hpSample pnOffset (applyHpMask pnOffset pnLen mask isLong buf) = hpSample pnOffset buf := by
  unfold hpSample applyHpMask
  rw [drop_xorAt _ (by rw [List.length_take]; omega), drop_xorAt _ (by simp)]

theorem and_headerFormLong_xor (a m : UInt8) :
    (a ^^^ (m &&& firstMask false)) &&& headerFormLong = a &&& headerFormLong := by
  have h0 : firstMask false &&& headerFormLong = 0 := by decide
  have hdistrib : (a ^^^ (m &&& firstMask false)) &&& headerFormLong =
      (a &&& headerFormLong) ^^^ ((m &&& firstMask false) &&& headerFormLong) := by
    apply UInt8.toBitVec_inj.1
    ext i hi
    simp [Bool.and_xor_distrib_right]
  rw [hdistrib, UInt8.and_assoc m, h0]
  simp

theorem length_sealedPacket (k : DirKeys) (first : UInt8) (cid pnb : Bytes) (pn : UInt64)
    (payload : Bytes) :
    (sealedPacket P k first cid pnb pn payload).length =
      1 + cid.length + pnb.length + payload.length + tagLen := by
  simp only [sealedPacket, DirKeys.aeadSeal, List.length_append, List.length_cons,
    sealInPlace_buffer, length_xorStream, Vector.length_toList, tagLen]
  omega

theorem length_protectPacket (k : DirKeys) (first : UInt8) (cid pnb : Bytes) (pn : UInt64)
    (payload : Bytes) :
    (protectPacket P k first cid pnb pn payload).length =
      1 + cid.length + pnb.length + payload.length + tagLen := by
  rw [← length_sealedPacket P k first cid pnb pn payload]
  simp [protectPacket, sealedPacket, applyHpMask]

theorem unprotectHeader_protectPacket {k k' : DirKeys} (hhp : k'.hpCipher = k.hpCipher)
    (largest : UInt8 → Option UInt64) {first : UInt8} (hform : first &&& headerFormLong = 0)
    (cid : Bytes) {pnb : Bytes} (hpnb : pnb.length = pnLength first) (hpnb4 : pnb.length ≤ 4)
    (pn : UInt64) {payload : Bytes} (hmin : 4 ≤ pnb.length + payload.length) :
    unprotectHeader P largest (protectPacket P k first cid pnb pn payload) (1 + cid.length) k' =
      .ok (sealedPacket P k first cid pnb pn payload,
        decodePacketNumber ((largest first).getD (0 - 1)) (readPn pnb) pnb.length) := by
  set buf := sealedPacket P k first cid pnb pn payload with hbuf
  have hlen : buf.length = 1 + cid.length + pnb.length + payload.length + tagLen :=
    length_sealedPacket P k first cid pnb pn payload
  have hfirst : buf.getD 0 0 = first := rfl
  have hpnd : (buf.drop (1 + cid.length)).take pnb.length = pnb := by
    simp [hbuf, sealedPacket, Nat.add_comm 1]
  set mask := k.hpMask P (hpSample (1 + cid.length) buf) with hmask
  set m0 := mask.getD 0 0 &&& firstMask false with hm0
  have hprot : protectPacket P k first cid pnb pn payload =
      applyHpMask (1 + cid.length) pnb.length mask false buf := rfl
  have hmask' : k'.hpMask P (hpSample (1 + cid.length)
      (protectPacket P k first cid pnb pn payload)) = mask := by
    rw [hprot, hpSample_applyHpMask hpnb4, DirKeys.hpMask, hhp, hmask, DirKeys.hpMask]
  have hp0 : (protectPacket P k first cid pnb pn payload).getD 0 0 = first ^^^ m0 := by
    rw [hprot, applyHpMask, List.getD_eq_getElem?_getD, getElem?_xorAt_of_outside (by omega)]
    simp [hbuf, sealedPacket, xorAt, xorStream, maskAt, hm0]
  have hlong : ((protectPacket P k first cid pnb pn payload).getD 0 0 &&& headerFormLong != 0) =
      false := by
    rw [hp0, hm0, and_headerFormLong_xor, hform]
    rfl
  have hoff0 : xorAt 0 [m0] (protectPacket P k first cid pnb pn payload) =
      xorAt (1 + cid.length) ((mask.drop 1).take pnb.length) buf := by
    rw [hprot, applyHpMask, xorAt_comm, xorAt_xorAt]
  have hfirst' : (xorAt (1 + cid.length) ((mask.drop 1).take pnb.length) buf).getD 0 0 =
      first := by
    rw [List.getD_eq_getElem?_getD, getElem?_xorAt_of_outside (by omega),
      ← List.getD_eq_getElem?_getD, hfirst]
  unfold unprotectHeader
  rw [if_neg (by rw [length_protectPacket]; simp [hpSampleLen, tagLen]; omega)]
  simp only [hmask', hlong, ← hm0, hoff0, hfirst', ← hpnb]
  rw [if_neg (by rw [length_xorAt, hlen]; omega)]
  simp only [xorAt_xorAt, hpnd, hfirst]

end Waitless.Quic
