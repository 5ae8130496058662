import Waitless.KeyUpdate

/-! # Sending 1-RTT packets

The short-header encoders of `conn/tx.rs`: the data and ACK encoder (padded, also for the segments
of a GSO burst), the PTO probe and the 1-RTT close.

What an encoder appends is `protectPacket` of its first octet and frames (`shortPacket_eq`);
`keyPhase_matches_iff` compares the phase bit of that octet with the generation of the send keys. -/

namespace Waitless.Quic

open StreamCipher Waitless.Ghash Waitless.AesGcm AppKeys List

def padTo (n : ℕ) (out : Bytes) : Bytes := out ++ List.replicate (n - out.length) 0

/-- Pads for the sample, then up to the wire size if given. -/
def padPacket (headerStart pnOffset : ℕ) (padToWire : Option ℕ) (out : Bytes) : Bytes :=
  let out := padTo (pnOffset + (4 + hpSampleLen)) out
  padToWire.elim out fun g => padTo (headerStart + (g - tagLen)) out

theorem exists_padPacket (headerStart pnOffset : ℕ) (padToWire : Option ℕ) (out : Bytes) :
    ∃ j, padPacket headerStart pnOffset padToWire out = out ++ List.replicate j 0 ∧
      pnOffset + (4 + hpSampleLen) ≤ out.length + j := by
  cases padToWire with
  | none => exact ⟨_, rfl, by omega⟩
  | some g =>
    have hadd (a b : ℕ) : out ++ replicate a (0 : UInt8) ++ replicate b 0 =
        out ++ replicate (a + b) 0 := by
      rw [append_assoc, replicate_append_replicate]
    exact ⟨_, hadd _ _, by omega⟩

section

variable (P : Primitives)

def sealPacket (k : DirKeys) (out : Bytes) (headerStart pnOffset payloadOffset payloadLen totalEnd : ℕ)
    (pn : UInt64) (isLong : Bool) : Except ConnError Bytes :=
  let aad := (out.take payloadOffset).drop headerStart
  let payload := (out.drop payloadOffset).take payloadLen
  let (ct, tag) := k.aeadSeal P (packetNonce k.iv pn) aad payload
  let out := out.take payloadOffset ++ (ct ++ (tag.toList ++ out.drop (payloadOffset + payloadLen + tagLen)))
  if pnOffset + 4 + hpSampleLen > totalEnd then .error .outputTooSmall
  else
    let mask := k.hpMask P (hpSample pnOffset out)
    .ok (xorAt pnOffset ((mask.drop 1).take 4)
      (xorAt headerStart [mask.getD 0 0 &&& firstMask isLong] out))

/-- One short-header packet, topped up to `padToWire`. -/
def shortPacket (k : DirKeys) (first : UInt8) (cid : Bytes) (pn : UInt64) (frames : Bytes)
    (padToWire : Option ℕ) (out : Bytes) : Except ConnError Bytes :=
  let headerStart := out.length
  let pnOffset := headerStart + 1 + cid.length
  let payloadOffset := pnOffset + 4
  let out := out ++ (first :: (cid ++ (pnBytes pn 4 ++ frames)))
  let out := padPacket headerStart pnOffset padToWire out
  let payloadLen := out.length - payloadOffset
  let out := out ++ List.replicate tagLen 0
  sealPacket P k out headerStart pnOffset payloadOffset payloadLen out.length pn false

theorem hpSample_append (out : Bytes) (pnOffset : ℕ) (buf : Bytes) :
    hpSample (out.length + pnOffset) (out ++ buf) = hpSample pnOffset buf := by
  rw [hpSample, hpSample, Nat.add_assoc, drop_append, drop_of_length_le (by omega)]
  simp

theorem sealPacket_eq (k : DirKeys) (out : Bytes) (first : UInt8) (cid pnb payload room : Bytes)
    (pn : UInt64) (hpnb : pnb.length = 4) (hroom : room.length = tagLen) (totalEnd : ℕ)
    (hend : out.length + (1 + cid.length) + 4 + hpSampleLen ≤ totalEnd) :
    sealPacket P k (out ++ (first :: (cid ++ pnb) ++ (payload ++ room))) out.length
      (out.length + (1 + cid.length)) (out.length + (first :: (cid ++ pnb)).length)
      payload.length totalEnd pn false =
      .ok (out ++ protectPacket P k first cid pnb pn payload) := by
  set header := first :: (cid ++ pnb) with hheader
  have hpre : (out ++ (header ++ (payload ++ room))).take (out.length + header.length) =
      out ++ header := by
    rw [← append_assoc, ← length_append, take_left]
  have hpost : (out ++ (header ++ (payload ++ room))).drop (out.length + header.length) =
      payload ++ room := by
    rw [← append_assoc, ← length_append, drop_left]
  have hrest : (out ++ (header ++ (payload ++ room))).drop
      (out.length + header.length + payload.length + tagLen) = [] := by
    apply drop_of_length_le
    simp only [length_append]
    omega
  unfold sealPacket
  rw [hpre, hpost, hrest]
  simp only [drop_left, take_left, append_nil]
  rw [if_neg (by omega)]
  simp only [append_assoc, hpSample_append]
  have h0 := xorAt_append_right out 0
  simp only [Nat.add_zero] at h0
  rw [h0, xorAt_append_right]
  simp only [protectPacket, applyHpMask, hpnb, ← hheader]

/-- **What an encoder appends** is its protected header and frames, padded. -/
theorem shortPacket_eq (k : DirKeys) (first : UInt8) (cid : Bytes) (pn : UInt64) (frames : Bytes)
    (padToWire : Option ℕ) (out : Bytes) :
    ∃ j, shortPacket P k first cid pn frames padToWire out =
      .ok (out ++ protectPacket P k first cid (pnBytes pn 4) pn (frames ++ List.replicate j 0)) := by
  obtain ⟨j, hj, hmin⟩ := exists_padPacket out.length (out.length + 1 + cid.length) padToWire
    (out ++ (first :: (cid ++ (pnBytes pn 4 ++ frames))))
  refine ⟨j, ?_⟩
  have hbody : out ++ (first :: (cid ++ (pnBytes pn 4 ++ frames))) ++ replicate j 0 =
      out ++ (first :: (cid ++ pnBytes pn 4) ++ (frames ++ replicate j 0)) := by simp
  have hhlen : (first :: (cid ++ pnBytes pn 4)).length = 1 + cid.length + 4 := by
    rw [length_cons, length_append, length_pnBytes]
    omega
  have hlen : (out ++ (first :: (cid ++ pnBytes pn 4) ++ (frames ++ replicate j 0))).length -
      (out.length + 1 + cid.length + 4) = (frames ++ replicate j 0).length := by
    simp only [length_append, hhlen]
    omega
  have hoff : out.length + 1 + cid.length + 4 =
      out.length + (first :: (cid ++ pnBytes pn 4)).length := by
    rw [hhlen]
    omega
  rw [← sealPacket_eq P k out first cid (pnBytes pn 4) (frames ++ replicate j 0)
    (replicate tagLen 0) pn (by simp) (by simp)
    (out ++ (first :: (cid ++ pnBytes pn 4) ++ (frames ++ replicate j 0)) ++
      replicate tagLen 0).length]
  · simp only [shortPacket, hj, hbody, hlen]
    rw [hoff, Nat.add_assoc, append_assoc, append_assoc]
  · simp only [length_append, length_cons, length_pnBytes,
      length_replicate] at hmin ⊢
    omega

end

/-- Callees that are not modelled here. -/
structure SendHooks (σ : Type) where
  /-- The frames due for a 1-RTT packet; none is the empty list. -/
  appendFrames : Connection σ → Connection σ × Except ConnError Bytes
  /-- `write_close_transport` with frame type 0. -/
  writeCloseTransport : UInt64 → Bytes → Except ConnError Bytes
  /-- `record_sent_packet` at the 1-RTT level. -/
  recordSentPacket : Connection σ → UInt64 → ℕ → Connection σ

section

variable {σ : Type} (hooks : SendHooks σ) (P : Primitives)

def Connection.takePn (c : Connection σ) : UInt64 × Connection σ :=
  let pn := c.applicationSpace.nextSendPn
  (pn, { c with applicationSpace := { c.applicationSpace with nextSendPn := pn + 1 } })

def pnLengthBits : UInt8 := 4 - 1

def encodeOneRttPacketPadded (padToWire : Option ℕ) (c : Connection σ) (out : Bytes) :
    Connection σ × Except ConnError Bytes :=
  match c.keys.applicationSend with
  | none => (c, .ok out)
  | some k =>
    let first := fixedBit ||| c.keys.sendKeyPhase <<< 2 ||| pnLengthBits
    let cid := c.peerCid
    match hooks.appendFrames c with
    | (c, .error e) => (c, .error e)
    | (c, .ok []) => (c, .ok out)
    | (c, .ok (f :: frames)) =>
      let (pn, c) := c.takePn
      match shortPacket P k first cid pn (f :: frames) padToWire out with
      | .error e => (c, .error e)
      | .ok out' => (hooks.recordSentPacket c pn (out'.length - out.length), .ok out')

def encodePingProbe (c : Connection σ) (out : Bytes) : Connection σ × Except ConnError Bytes :=
  match c.keys.applicationSend with
  | none => (c, .ok out)
  | some k =>
    let (pn, c) := c.takePn
    match shortPacket P k (fixedBit ||| pnLengthBits) c.peerCid pn [0x01] none out with
    | .error e => (c, .error e)
    | .ok out' => (hooks.recordSentPacket c pn (out'.length - out.length), .ok out')

def encodeClosePacket (errorCode : UInt64) (reason : Bytes) (c : Connection σ) (out : Bytes) :
    Connection σ × Except ConnError Bytes :=
  match hooks.writeCloseTransport errorCode reason with
  | .error _ => (c, .error .wire)
  | .ok frames =>
    match c.keys.applicationSend with
    | none => (c, .ok out)
    | some k =>
      let (pn, c) := c.takePn
      (c, shortPacket P k (fixedBit ||| pnLengthBits) c.peerCid pn frames none out)

/-- The ways a 1-RTT packet leaves the connection. -/
inductive SendPath where
  /-- Data and ACK packets, and GSO segments. -/
  | oneRtt (padToWire : Option ℕ)
  | pingProbe
  | close (errorCode : UInt64) (reason : Bytes)

def encodeOn : SendPath → Connection σ → Bytes → Connection σ × Except ConnError Bytes
  | .oneRtt padToWire => encodeOneRttPacketPadded hooks P padToWire
  | .pingProbe => encodePingProbe hooks P
  | .close errorCode reason => encodeClosePacket hooks P errorCode reason

def SendPath.firstOctet (phase : UInt8) : SendPath → UInt8
  | .oneRtt _ => fixedBit ||| phase <<< 2 ||| pnLengthBits
  | .pingProbe => fixedBit ||| pnLengthBits
  | .close _ _ => fixedBit ||| pnLengthBits

def unprotectedFirst (k : DirKeys) (cidLen : ℕ) (bytes : Bytes) : UInt8 :=
  bytes.getD 0 0 ^^^ ((k.hpMask P (hpSample (1 + cidLen) bytes)).getD 0 0 &&& firstMask false)

variable {P} in
theorem unprotectedFirst_protectPacket (k : DirKeys) (first : UInt8) (cid : Bytes) {pnb : Bytes}
    (hpnb : pnb.length ≤ 4) (pn : UInt64) (payload : Bytes) :
    unprotectedFirst P k cid.length (protectPacket P k first cid pnb pn payload) = first := by
  have hprot : protectPacket P k first cid pnb pn payload =
      applyHpMask (1 + cid.length) pnb.length
        (k.hpMask P (hpSample (1 + cid.length) (sealedPacket P k first cid pnb pn payload))) false
        (sealedPacket P k first cid pnb pn payload) := rfl
  rw [unprotectedFirst, hprot, hpSample_applyHpMask hpnb, applyHpMask,
    getD_eq_getElem?_getD, getElem?_xorAt_of_outside (by omega)]
  simp only [xorAt, xorStream, maskAt, Nat.not_lt_zero, ↓reduceIte, sealedPacket, cons_append,
    append_assoc, getD_eq_getElem?_getD, Nat.sub_zero, mapIdx_cons, length_cons, length_nil,
    Nat.zero_add, Nat.lt_add_one, getElem?_pos, getElem_cons_zero, Option.getD_some, Nat.lt_one_iff,
    Nat.add_eq_zero_iff, Nat.succ_ne_self, and_false, not_false_eq_true, getElem?_neg,
    Option.getD_none, UInt8.xor_zero, length_mapIdx, length_append, Vector.length_toList,
    Nat.zero_lt_succ, UInt8.xor_assoc, UInt8.xor_self]

theorem encodeOn_appends {path : SendPath} {c : Connection σ} {k : DirKeys} {out bytes : Bytes}
    (hk : c.keys.applicationSend = some k)
    (hemit : (encodeOn hooks P path c out).2 = .ok (out ++ bytes)) (hne : bytes ≠ []) :
    ∃ pn payload, bytes =
      protectPacket P k (path.firstOctet c.keys.sendKeyPhase) c.peerCid (pnBytes pn 4) pn payload := by
  have happ {first : UInt8} {pn : UInt64} {frames : Bytes} {padToWire : Option ℕ}
      (h : shortPacket P k first c.peerCid pn frames padToWire out = .ok (out ++ bytes)) :
      ∃ pn payload, bytes = protectPacket P k first c.peerCid (pnBytes pn 4) pn payload := by
    obtain ⟨j, hj⟩ := shortPacket_eq P k first c.peerCid pn frames padToWire out
    rw [hj] at h
    exact ⟨pn, _, (append_cancel_left (Except.ok.inj h)).symm⟩
  cases path with
  | oneRtt padToWire =>
    simp only [encodeOn, encodeOneRttPacketPadded, hk] at hemit
    rcases hf : hooks.appendFrames c with ⟨c', _ | (_ | ⟨f, frames⟩)⟩
    · simp [hf] at hemit
    · simp [hf, hne] at hemit
    · simp only [hf] at hemit
      split at hemit
      · cases hemit
      next out' hs =>
        exact happ (hs.trans hemit)
  | pingProbe =>
    simp only [encodeOn, encodePingProbe, hk] at hemit
    split at hemit
    · cases hemit
    next out' hs =>
      exact happ (hs.trans hemit)
  | close errorCode reason =>
    simp only [encodeOn, encodeClosePacket, hk] at hemit
    split at hemit
    · cases hemit
    · exact happ hemit

theorem keyPhaseOf_firstOctet (n : ℕ) (path : SendPath) :
    keyPhaseOf (path.firstOctet (UInt8.ofNat (n % 2))) = UInt8.ofNat (n % 2) ↔
      (∃ padToWire, path = .oneRtt padToWire) ∨ n % 2 = 0 := by
  rcases Nat.mod_two_eq_zero_or_one n with h | h <;> cases path <;>
    simp [h, SendPath.firstOctet] <;> decide

/-- **The phase bit is the parity of the generation** from the data encoder, or if that is even. -/
theorem keyPhase_matches_iff (isClient : Bool) (ap : ApplicationSecrets) (n : ℕ)
    (path : SendPath) (c : Connection σ) (hkeys : c.keys = rotations P isClient ap n)
    (out bytes : Bytes) (hemit : (encodeOn hooks P path c out).2 = .ok (out ++ bytes))
    (hne : bytes ≠ []) :
    let k := keysAt P (ap.txSecret isClient) n
    let first := unprotectedFirst P k c.peerCid.length bytes
    (∃ pn payload, bytes = protectPacket P k first c.peerCid (pnBytes pn 4) pn payload) ∧
      (keyPhaseOf first = UInt8.ofNat (n % 2) ↔
        (∃ padToWire, path = .oneRtt padToWire) ∨ n % 2 = 0) := by
  have hrot : c.keys = rotated P (ap.rxSecret isClient) (ap.txSecret isClient) n := by
    rw [hkeys, rotations_eq_rotated]
  have hsend : c.keys.applicationSend = some (keysAt P (ap.txSecret isClient) n) := by rw [hrot]; rfl
  have hphase : c.keys.sendKeyPhase = UInt8.ofNat (n % 2) := by rw [hrot]; rfl
  obtain ⟨pn, payload, hbytes⟩ := encodeOn_appends hooks P hsend hemit hne
  have hfirst : unprotectedFirst P (keysAt P (ap.txSecret isClient) n) c.peerCid.length bytes =
      path.firstOctet (UInt8.ofNat (n % 2)) := by
    rw [hbytes, unprotectedFirst_protectPacket _ _ _ (by simp), hphase]
  simp only [hfirst]
  exact ⟨⟨pn, payload, by rw [hbytes, hphase]⟩, keyPhaseOf_firstOctet n path⟩

end

def sampleSendHooks : SendHooks Unit where
  appendFrames c := (c, .ok [0x01])
  writeCloseTransport _ reason := .ok (0x1c :: 0 :: 0 :: UInt8.ofNat reason.length :: reason)
  recordSentPacket c _ _ := c

def samplePacketOn (path : SendPath) (n : ℕ) : Bytes :=
  (encodeOn sampleSendHooks samplePrimitives path (sampleConnection n) []).2.toOption.getD []

theorem keyPhase_matches_iff_sample :
    samplePacketOn (.oneRtt (some 64)) 1 ≠ [] ∧
    (keyPhaseOf (unprotectedFirst samplePrimitives
        (keysAt samplePrimitives (sampleSecrets.txSecret false) 1) 0
        (samplePacketOn (.oneRtt (some 64)) 1)) = UInt8.ofNat (1 % 2) ↔
      (∃ padToWire, SendPath.oneRtt (some 64) = .oneRtt padToWire) ∨ 1 % 2 = 0) := by
  have hne : samplePacketOn (.oneRtt (some 64)) 1 ≠ [] := by decide +kernel
  exact ⟨hne, (keyPhase_matches_iff sampleSendHooks samplePrimitives false sampleSecrets 1
    (.oneRtt (some 64)) (sampleConnection 1) rfl [] _ (by decide +kernel) hne).2⟩

/-- A probe after one key update is labelled with phase 0. -/
theorem ping_mislabelled :
    (encodeOn sampleSendHooks samplePrimitives .pingProbe (sampleConnection 1) []).2 =
      .ok (samplePacketOn .pingProbe 1) ∧
    (sampleConnection 1).keys.applicationSend =
      some (keysAt samplePrimitives (sampleSecrets.txSecret false) 1) ∧
    keyPhaseOf (unprotectedFirst samplePrimitives
      (keysAt samplePrimitives (sampleSecrets.txSecret false) 1) 0
      (samplePacketOn .pingProbe 1)) = 0 := by
  decide +kernel

end Waitless.Quic
