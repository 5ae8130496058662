import Waitless.QuicRecv

/-! # Packets reordered across a key update

A packet sealed under the previous keys carries the other phase bit, so the receiver tries the next
keys first, and the failed open leaves the payload XORed with their keystream (`trialOpen_prev`). It
is opened to what the peer sealed exactly when that keystream is zero over the payload
(`straggler_opened_iff`). -/

namespace Waitless.Quic

open StreamCipher Waitless.Ghash Waitless.AesGcm

/-- What a peer puts into a 1-RTT packet. -/
structure PeerPacket where
  first : UInt8
  cid : Bytes
  pnLen : ℕ
  pn : UInt64
  payload : Bytes

namespace PeerPacket

variable (P : Primitives) (k : DirKeys) (pkt : PeerPacket)

def pnb : Bytes := pnBytes pkt.pn pkt.pnLen

def header : Bytes := pkt.first :: (pkt.cid ++ pkt.pnb)

def bytes : Bytes := protectPacket P k pkt.first pkt.cid pkt.pnb pkt.pn pkt.payload

/-- The ciphertext and tag of the packet. -/
def sealed : Bytes × Tag := k.aeadSeal P (packetNonce k.iv pkt.pn) pkt.header pkt.payload

/-- Well formed for the receiver, and its number decodes to its own. -/
structure Genuine {σ : Type} (c : Connection σ) (phase : UInt8) : Prop where
  form : pkt.first &&& headerFormLong = 0
  keyPhase : keyPhaseOf pkt.first = phase
  cidLen : pkt.cid.length = serverCidLen
  pnLength : pkt.pnLen = pnLength pkt.first
  sample : 4 ≤ pkt.pnLen + pkt.payload.length
  decodes : decodePacketNumber ((c.largestFor pkt.first).getD (0 - 1)) (readPn pkt.pnb)
    pkt.pnLen = pkt.pn

instance {σ : Type} (c : Connection σ) (phase : UInt8) : Decidable (pkt.Genuine c phase) :=
  decidable_of_iff (_ ∧ _ ∧ _ ∧ _ ∧ _ ∧ _)
    ⟨fun ⟨h₁, h₂, h₃, h₄, h₅, h₆⟩ => ⟨h₁, h₂, h₃, h₄, h₅, h₆⟩,
      fun ⟨h₁, h₂, h₃, h₄, h₅, h₆⟩ => ⟨h₁, h₂, h₃, h₄, h₅, h₆⟩⟩

end PeerPacket

theorem pnLength_le (first : UInt8) : pnLength first ≤ 4 := by
  have h : (first &&& 0x03).toNat ≤ 3 := by
    rw [UInt8.toNat_and]
    exact Nat.and_le_right
  unfold pnLength
  omega

section

variable (P : Primitives) {σ : Type} {c : Connection σ} {k cur : DirKeys} {pkt : PeerPacket}
  {phase : UInt8}

theorem openShortHeader_bytes (hcur : c.keys.applicationRecv = some cur)
    (hhp : cur.hpCipher = k.hpCipher) (hg : pkt.Genuine c phase) :
    openShortHeader P c (pkt.bytes P k) =
      let t := trialOpen P c.keys cur phase pkt.pn pkt.header (pkt.sealed P k).1 (pkt.sealed P k).2
      (t.1, if t.2.2 then .ok (pkt.pn, t.2.1) else .error .decrypt) := by
  have hle := pnLength_le pkt.first
  have hlen : pkt.pnb.length = pkt.pnLen := by
    rw [PeerPacket.pnb, length_pnBytes, hg.pnLength]
    omega
  have h := openShortHeader_protectPacket P hcur hhp hg.form hg.cidLen
    (hlen.trans hg.pnLength) (by rw [hlen, hg.pnLength]; exact hle) pkt.pn
    (hlen.symm ▸ hg.decodes) (hlen.symm ▸ hg.sample)
  rw [hg.keyPhase] at h
  exact h

theorem aeadOpen_sealed : k.aeadOpen P (packetNonce k.iv pkt.pn) pkt.header (pkt.sealed P k).1
    (pkt.sealed P k).2 = (pkt.payload, true) :=
  openInPlace_sealInPlace P.aes _ _ _ _

end

def packetStream (P : Primitives) (k : DirKeys) (pn : UInt64) : ℕ → UInt8 :=
  nonceStream P.aes k.aeadCipher (packetNonce k.iv pn)

/-- Opened as packet `pn`, under unchanged keys. -/
def OpensTo {σ : Type} (P : Primitives) (c : Connection σ) (bytes : Bytes) (pn : UInt64)
    (payload : Bytes) : Prop :=
  ∀ hooks : Hooks σ,
    processShortHeaderPacket hooks P c bytes = c.acceptPacket hooks pn payload bytes.length

section

variable {P : Primitives} {σ : Type} {c : Connection σ} {cur prev next : DirKeys}
  {pkt : PeerPacket}

def onlyPayload (σ : Type) (payload : Bytes) : Hooks σ where
  dispatchFrames c p := (c, if p = payload then .ok () else .error .wire)
  discardHandshakeSent c := c

theorem acceptPacket_onlyPayload (c : Connection σ) (pn : UInt64) (payload p : Bytes) (n : ℕ) :
    (c.acceptPacket (onlyPayload σ payload) pn p n).2 =
      if p = payload then .ok n else .error .wire := by
  by_cases h : p = payload <;> simp [Connection.acceptPacket, onlyPayload, h]

variable {bytes : Bytes} {pn : UInt64}

theorem opensTo_of_open {payload : Bytes}
    (h : openShortHeader P c bytes = (c.keys, .ok (pn, payload))) :
    OpensTo P c bytes pn payload := by
  intro hooks
  rw [processShortHeaderPacket, h]

theorem not_opensTo_of_error {e : ConnError} {keys : AppKeys}
    (h : openShortHeader P c bytes = (keys, .error e)) (pn : UInt64) (payload : Bytes) :
    ¬ OpensTo P c bytes pn payload := by
  intro ho
  have h2 := congrArg Prod.snd (ho (onlyPayload σ payload))
  rw [processShortHeaderPacket, h, acceptPacket_onlyPayload, if_pos rfl] at h2
  cases h2

theorem eq_of_opensTo {pn' : UInt64} {payload payload' : Bytes}
    {keys : AppKeys} (h : openShortHeader P c bytes = (keys, .ok (pn', payload')))
    (ho : OpensTo P c bytes pn payload) : payload' = payload := by
  have h2 := congrArg Prod.snd (ho (onlyPayload σ payload))
  rw [processShortHeaderPacket, h, acceptPacket_onlyPayload, acceptPacket_onlyPayload,
    if_pos rfl] at h2
  by_contra hne
  rw [if_neg hne] at h2
  cases h2

/-- The failed attempt has already deciphered the buffer once. -/
theorem trialOpen_prev {k : AppKeys} {kp : UInt8} (hkp : kp ≠ k.recvKeyPhase)
    (hnext : k.applicationRecvNext = some next) (hprev : k.applicationRecvPrev = some prev) {aad ct : Bytes} {tag : Tag}
    (hwrong : (next.aeadOpen P (packetNonce next.iv pn) aad ct tag).2 = false) :
    trialOpen P k cur kp pn aad ct tag =
      (k, prev.aeadOpen P (packetNonce prev.iv pn) aad
        (xorStream (packetStream P next pn) ct) tag) := by
  have hbuf : (next.aeadOpen P (packetNonce next.iv pn) aad ct tag).1 =
      xorStream (packetStream P next pn) ct := openInPlace_buffer _ _ _ _ _ _
  have hopen : next.aeadOpen P (packetNonce next.iv pn) aad ct tag =
      (xorStream (packetStream P next pn) ct, false) := Prod.ext hbuf hwrong
  simp only [trialOpen, if_neg hkp, hnext, hprev, hopen]

/-- **A straggler is opened iff the keystream of the next keys is zero over its payload.** -/
theorem straggler_opened_iff (hcur : c.keys.applicationRecv = some cur)
    (hprev : c.keys.applicationRecvPrev = some prev)
    (hnext : c.keys.applicationRecvNext = some next)
    (hhp : cur.hpCipher = prev.hpCipher)
    (hg : pkt.Genuine c (c.keys.recvKeyPhase ^^^ 1))
    (hwrong : (next.aeadOpen P (packetNonce next.iv pkt.pn) pkt.header (pkt.sealed P prev).1
      (pkt.sealed P prev).2).2 = false) :
    OpensTo P c (pkt.bytes P prev) pkt.pn pkt.payload ↔
      ∀ i, i < pkt.payload.length → packetStream P next pkt.pn i = 0 := by
  have hkp : c.keys.recvKeyPhase ^^^ 1 ≠ c.keys.recvKeyPhase := by
    intro h
    have h1 := congrArg (c.keys.recvKeyPhase ^^^ ·) h
    rw [← UInt8.xor_assoc, UInt8.xor_self, UInt8.zero_xor] at h1
    exact absurd h1 (by decide)
  have hopen := openShortHeader_bytes P hcur hhp hg
  simp only [trialOpen_prev hkp hnext hprev hwrong] at hopen
  have hct : (pkt.sealed P prev).1 = xorStream (packetStream P prev pkt.pn) pkt.payload :=
    sealInPlace_buffer _ _ _ _ _
  have hbuf : (prev.aeadOpen P (packetNonce prev.iv pkt.pn) pkt.header
      (xorStream (packetStream P next pkt.pn) (pkt.sealed P prev).1) (pkt.sealed P prev).2).1 =
      xorStream (packetStream P next pkt.pn) pkt.payload := by
    rw [DirKeys.aeadOpen, openInPlace_buffer, hct, xorStream_comm]
    exact congrArg _ (xorStream_xorStream _ _)
  rw [hbuf] at hopen
  rw [← xorStream_eq_self_iff]
  constructor
  · intro ho
    cases hv : (prev.aeadOpen P (packetNonce prev.iv pkt.pn) pkt.header
        (xorStream (packetStream P next pkt.pn) (pkt.sealed P prev).1)
        (pkt.sealed P prev).2).2 with
    | false =>
      rw [hv] at hopen
      exact absurd ho (not_opensTo_of_error hopen _ _)
    | true =>
      rw [hv] at hopen
      exact eq_of_opensTo hopen ho
  · intro hz
    have hzct : xorStream (packetStream P next pkt.pn) (pkt.sealed P prev).1 =
        (pkt.sealed P prev).1 := by
      rw [hct, xorStream_comm, hz]
    rw [hzct, aeadOpen_sealed, if_pos rfl, hz] at hopen
    exact opensTo_of_open hopen

end

/-- After `n` accepted key updates. -/
def sampleConnection (n : ℕ) : Connection Unit where
  keys := AppKeys.rotations samplePrimitives false sampleSecrets n
  rest := ()

def samplePeerKeys (n : ℕ) : DirKeys :=
  AppKeys.keysAt samplePrimitives (sampleSecrets.rxSecret false) n

def samplePacket (phase : UInt8) : PeerPacket where
  first := fixedBit ||| phase <<< 2
  cid := List.replicate 8 0
  pnLen := 1
  pn := 0
  payload := [1, 2, 3, 4]

theorem straggler_opened_iff_sample :
    (samplePacket 0).Genuine (sampleConnection 3) ((sampleConnection 3).keys.recvKeyPhase ^^^ 1) ∧
      (OpensTo samplePrimitives (sampleConnection 3)
          ((samplePacket 0).bytes samplePrimitives (samplePeerKeys 1)) 0 [1, 2, 3, 4] ↔
        ∀ i, i < 4 → packetStream samplePrimitives (samplePeerKeys 3) 0 i = 0) :=
  ⟨by decide +kernel,
    straggler_opened_iff rfl rfl rfl rfl (by decide +kernel) (by decide +kernel)⟩

/-- A genuine packet of the previous generation is rejected. -/
theorem straggler_rejected :
    (sampleConnection 3).keys.applicationRecvPrev = some (samplePeerKeys 1) ∧
    (sampleConnection 3).keys.applicationRecv = some (samplePeerKeys 2) ∧
    (sampleConnection 3).keys.applicationRecvNext = some (samplePeerKeys 3) ∧
    samplePeerKeys 1 ≠ samplePeerKeys 2 ∧ samplePeerKeys 2 ≠ samplePeerKeys 3 ∧
    samplePeerKeys 1 ≠ samplePeerKeys 3 ∧
    (samplePacket 0).Genuine (sampleConnection 3) ((sampleConnection 3).keys.recvKeyPhase ^^^ 1) ∧
    ((samplePeerKeys 3).aeadOpen samplePrimitives (packetNonce (samplePeerKeys 3).iv 0)
      (samplePacket 0).header ((samplePacket 0).sealed samplePrimitives (samplePeerKeys 1)).1
      ((samplePacket 0).sealed samplePrimitives (samplePeerKeys 1)).2).2 = false ∧
    (openShortHeader samplePrimitives (sampleConnection 3)
      ((samplePacket 0).bytes samplePrimitives (samplePeerKeys 1))).2 = .error .decrypt := by
  decide +kernel

end Waitless.Quic
