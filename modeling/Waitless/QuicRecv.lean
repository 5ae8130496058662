import Waitless.QuicPacket

/-! # Receiving 1-RTT packets

The model of `process_short_header_packet`. `openShortHeader` is the part up to the AEAD verdict:
header protection comes off once, then the candidate keys are tried in order on the one payload
buffer (`trialOpen`), so each attempt works on what the one before left. -/

namespace Waitless.Quic

open StreamCipher Waitless.Ghash Waitless.AesGcm

def maxRecvRanges : ℕ := 32

/-- A packet number space. -/
structure SpaceState where
  nextSendPn : UInt64 := 0
  largestRecvPn : Option UInt64 := none
  ackPending : Bool := false
  largestAcked : Option UInt64 := none
  recvRanges : List (UInt64 × UInt64) := []

/-- `none` when a range covers it. -/
def insertionPoint (pn : UInt64) : List (UInt64 × UInt64) → Option ℕ
  | [] => some 0
  | (lo, hi) :: rest =>
    if pn > hi then some 0 else if pn ≥ lo then none else (insertionPoint pn rest).map (· + 1)

/-- Merges with the ranges it touches. -/
def insertRange (pn : UInt64) (ranges : List (UInt64 × UInt64)) (i : ℕ) : List (UInt64 × UInt64) :=
  let above := ranges.getD (i - 1) (0, 0)
  let below := ranges.getD i (0, 0)
  let touchAbove := 0 < i && above.1 == pn + 1
  let touchBelow := i < ranges.length && below.2 + 1 == pn
  match touchAbove, touchBelow with
  | true, true => (ranges.set (i - 1) (below.1, above.2)).eraseIdx i
  | true, false => ranges.set (i - 1) (pn, above.2)
  | false, true => ranges.set i (below.1, pn)
  | false, false =>
    if ranges.length < maxRecvRanges then ranges.insertIdx i (pn, pn)
    else if i < ranges.length then
      let kept := ranges.dropLast
      kept.insertIdx (min i kept.length) (pn, pn)
    else ranges

def SpaceState.recordRecvPn (s : SpaceState) (pn : UInt64) : SpaceState :=
  let s := { s with largestRecvPn := some (s.largestRecvPn.elim pn fun x => max x pn) }
  match insertionPoint pn s.recvRanges with
  | none => s
  | some i => { s with recvRanges := insertRange pn s.recvRanges i }

/-- `rest` is the dispatcher's. -/
structure Connection (σ : Type) where
  keys : AppKeys
  initialSpace : SpaceState := {}
  handshakeSpace : SpaceState := {}
  applicationSpace : SpaceState := {}
  handshakeSend : Option DirKeys := none
  handshakeRecv : Option DirKeys := none
  handshakeKeysDiscarded : Bool := false
  authenticatedPkts : UInt64 := 0
  appAckElicitingSinceAck : UInt32 := 0
  appFirstUnackedUs : UInt64 := 0
  lastRecvUs : UInt64 := 0
  peerCid : Bytes := []
  rest : σ

/-- Callees that are not modelled here. -/
structure Hooks (σ : Type) where
  dispatchFrames : Connection σ → Bytes → Connection σ × Except ConnError Unit
  discardHandshakeSent : Connection σ → Connection σ

section

variable (P : Primitives)

/-- Try the keys for a packet of phase `kp` on one buffer. -/
def trialOpen (k : AppKeys) (cur : DirKeys) (kp : UInt8) (pn : UInt64) (aad payload : Bytes)
    (tag : Tag) : AppKeys × (Bytes × Bool) :=
  let openPrev (payload : Bytes) : Bytes × Bool :=
    match k.applicationRecvPrev with
    | some prev => prev.aeadOpen P (packetNonce prev.iv pn) aad payload tag
    | none => (payload, false)
  if kp = k.recvKeyPhase then (k, cur.aeadOpen P (packetNonce cur.iv pn) aad payload tag)
  else
    match k.applicationRecvNext with
    | some next =>
      match next.aeadOpen P (packetNonce next.iv pn) aad payload tag with
      | (payload, true) => (k.rotateRecvKeys P, (payload, true))
      | (payload, false) => (k, openPrev payload)
    | none => (k, openPrev payload)

def keyPhaseOf (first : UInt8) : UInt8 := (first &&& 0x04) >>> 2

/-- The largest number received in the space of a first octet. -/
def Connection.largestFor {σ : Type} (c : Connection σ) (first : UInt8) : Option UInt64 :=
  if first &&& headerFormLong != 0 then
    match (first >>> 4 &&& 0x3).toNat with
    | 0 => c.initialSpace.largestRecvPn
    | 2 => c.handshakeSpace.largestRecvPn
    | _ => c.applicationSpace.largestRecvPn
  else c.applicationSpace.largestRecvPn

/-- Everything up to the AEAD verdict. -/
def openShortHeader {σ : Type} (c : Connection σ) (bytes : Bytes) :
    AppKeys × Except ConnError (UInt64 × Bytes) :=
  if bytes.length < 1 + serverCidLen + 4 + tagLen then (c.keys, .error .wire)
  else
    match c.keys.applicationRecv with
    | none => (c.keys, .error .badState)
    | some cur =>
      match unprotectHeader P c.largestFor bytes (1 + serverCidLen) cur with
      | .error e => (c.keys, .error e)
      | .ok (buf, pn) =>
        let payloadStart := 1 + serverCidLen + pnLength (buf.getD 0 0)
        let payloadEnd := bytes.length - tagLen
        if payloadEnd < payloadStart then (c.keys, .error .wire)
        else
          let tag := GhashState.padBlock (buf.drop payloadEnd)
          let payload := (buf.take payloadEnd).drop payloadStart
          let (keys, opened) := trialOpen P c.keys cur (keyPhaseOf (buf.getD 0 0)) pn
            (buf.take payloadStart) payload tag
          (keys, if opened.2 then .ok (pn, opened.1) else .error .decrypt)

theorem padBlock_toList (b : Block) : GhashState.padBlock b.toList = b := by
  apply Vector.ext
  intro i hi
  simp [GhashState.padBlock, List.getD_eq_getElem?_getD]

theorem openShortHeader_protectPacket {σ : Type} {c : Connection σ} {k cur : DirKeys}
    (hcur : c.keys.applicationRecv = some cur) (hhp : cur.hpCipher = k.hpCipher)
    {first : UInt8} (hform : first &&& headerFormLong = 0)
    {cid pnb : Bytes} (hcid : cid.length = serverCidLen) (hpnb : pnb.length = pnLength first)
    (hpnb4 : pnb.length ≤ 4) (pn : UInt64) {pn' : UInt64}
    (hpn : decodePacketNumber ((c.largestFor first).getD (0 - 1)) (readPn pnb) pnb.length = pn')
    {payload : Bytes} (hmin : 4 ≤ pnb.length + payload.length) :
    openShortHeader P c (protectPacket P k first cid pnb pn payload) =
      let s := k.aeadSeal P (packetNonce k.iv pn) (first :: (cid ++ pnb)) payload
      let t := trialOpen P c.keys cur (keyPhaseOf first) pn' (first :: (cid ++ pnb)) s.1 s.2
      (t.1, if t.2.2 then .ok (pn', t.2.1) else .error .decrypt) := by
  set header := first :: (cid ++ pnb) with hheader
  set s := k.aeadSeal P (packetNonce k.iv pn) header payload with hs
  have hslen : s.1.length = payload.length := by
    rw [hs, DirKeys.aeadSeal, sealInPlace_buffer, length_xorStream]
  have hhlen : header.length = 1 + serverCidLen + pnb.length := by
    rw [hheader, List.length_cons, List.length_append, hcid]
    omega
  have hsealed : sealedPacket P k first cid pnb pn payload = header ++ (s.1 ++ s.2.toList) := rfl
  have hlen : (protectPacket P k first cid pnb pn payload).length =
      1 + serverCidLen + pnb.length + payload.length + tagLen := by
    rw [← hcid, ← length_sealedPacket P k first cid pnb pn payload]
    simp [protectPacket, applyHpMask, sealedPacket]
  have hun := unprotectHeader_protectPacket P hhp c.largestFor hform cid hpnb
    hpnb4 pn hmin
  rw [hpn, hcid] at hun
  have hfirst : (sealedPacket P k first cid pnb pn payload).getD 0 0 = first := rfl
  have hstart : 1 + serverCidLen + pnLength first = header.length := by rw [hhlen, hpnb]
  have hend : (protectPacket P k first cid pnb pn payload).length - tagLen =
      (header ++ s.1).length := by
    rw [hlen, List.length_append, hhlen, hslen]
    omega
  unfold openShortHeader
  rw [if_neg (by rw [hlen]; omega)]
  simp only [hcur, hun, hfirst, hstart, hend]
  rw [if_neg (by simp), hsealed, ← List.append_assoc, List.drop_left, List.take_left,
    List.append_assoc, List.take_left, List.drop_left, padBlock_toList]

end

section

variable {σ : Type} (hooks : Hooks σ)

def Connection.noteAppAckEliciting (c : Connection σ) : Connection σ :=
  { c with
    applicationSpace := { c.applicationSpace with ackPending := true }
    appAckElicitingSinceAck :=
      if c.appAckElicitingSinceAck + 1 = 0 then c.appAckElicitingSinceAck
      else c.appAckElicitingSinceAck + 1
    appFirstUnackedUs := if c.appFirstUnackedUs = 0 then c.lastRecvUs else c.appFirstUnackedUs }

def Connection.discardHandshake (c : Connection σ) : Connection σ :=
  if c.handshakeKeysDiscarded then c
  else
    let c := hooks.discardHandshakeSent
      { c with handshakeKeysDiscarded := true, handshakeSend := none, handshakeRecv := none }
    { c with handshakeSpace := { c.handshakeSpace with largestAcked := none } }

/-- After the AEAD verdict: dispatch, then record the packet. -/
def Connection.acceptPacket (c : Connection σ) (pn : UInt64) (payload : Bytes) (total : ℕ) :
    Connection σ × Except ConnError ℕ :=
  let c := { c with authenticatedPkts := c.authenticatedPkts + 1 }
  match hooks.dispatchFrames c payload with
  | (c, .error e) => (c, .error e)
  | (c, .ok ()) =>
    let c := c.discardHandshake hooks
    let c := { c with applicationSpace := c.applicationSpace.recordRecvPn pn }
    (c.noteAppAckEliciting, .ok total)

def processShortHeaderPacket (P : Primitives) (c : Connection σ) (bytes : Bytes) :
    Connection σ × Except ConnError ℕ :=
  match openShortHeader P c bytes with
  | (keys, .error e) => ({ c with keys }, .error e)
  | (keys, .ok (pn, payload)) => { c with keys }.acceptPacket hooks pn payload bytes.length

end

end Waitless.Quic
