import Waitless.QuicTransport
import Waitless.TcpTypes

/-! # Acknowledgements and loss

The model of `conn/loss.rs`, over the loss core it shares with TCP (`LossParams`).
`detectLoss` declares what lies too far behind the largest acknowledged number lost and queues its
frames again. -/

namespace Waitless.Quic

open Waitless.AesGcm
open Waitless.Tcp (CongestionControl LossParams LostBy u64Max)

theorem lost_packetThreshold {p : LossParams} {largestAcked now : ℕ} {units : List (ℕ × ℕ)}
    {nextDeadline : Option ℕ} {id : ℕ}
    (h : (id, LostBy.packetThreshold) ∈ (p.detectBy largestAcked now units nextDeadline).1)
    (hacked : largestAcked < u64Max) : id + p.packetThreshold ≤ largestAcked := by
  induction units generalizing nextDeadline with
  | nil => simp [LossParams.detectBy] at h
  | cons u units ih =>
    obtain ⟨uid, sent⟩ := u
    unfold LossParams.detectBy at h
    split_ifs at h with hge hle
    · cases h
    · rcases List.mem_cons.1 h with heq | h
      · cases heq
        omega
      · exact ih h
    · split at h
      · split_ifs at h
        · rcases List.mem_cons.1 h with heq | h
          · cases heq
          · exact ih h
        · exact ih h
      · exact ih h

structure AckRun where
  sentPackets : SentPackets
  /-- The packet `largest_acknowledged`, if newly acknowledged. -/
  largestPkt : Option SentPacket := none
  ackedBytes : ℕ := 0
  /-- The packets taken out, last one first. -/
  acked : List (ℕ × SentPacket) := []
  iterations : ℕ := 0

namespace AckRun

variable (a : AckRun)

def removeOne (targetPn pn : ℕ) : AckRun :=
  let a := { a with iterations := a.iterations + 1 }
  match a.sentPackets.remove pn with
  | (none, sent) => { a with sentPackets := sent }
  | (some pkt, sent) =>
    { a with
      sentPackets := sent
      ackedBytes := if pkt.inFlight then saturatingAdd32 a.ackedBytes pkt.byteCount else a.ackedBytes
      largestPkt := if pn = targetPn then some pkt else a.largestPkt
      acked := (pn, pkt) :: a.acked }

def removeDown (targetPn : ℕ) : ℕ → ℕ → AckRun → AckRun
  | 0, pn, a => a.removeOne targetPn pn
  | n + 1, pn, a => removeDown targetPn n (pn - 1) (a.removeOne targetPn pn)

def ackRemoveRange (low high targetPn : ℕ) : AckRun :=
  if low > high then a else removeDown targetPn (high - low) high a

def removeRanges (targetPn : ℕ) : ℕ → List (ℕ × ℕ) → AckRun → AckRun
  | _, [], a => a
  | largestSmallest, (gap, length) :: ranges, a =>
    if largestSmallest < gap + 2 then a
    else
      let high := largestSmallest - (gap + 2)
      let low := high - length
      removeRanges targetPn low ranges (a.ackRemoveRange low high targetPn)

def ofFrame (sent : SentPackets) (largestAcknowledged firstAckRange : ℕ)
    (ackRanges : List (ℕ × ℕ)) : AckRun :=
  let firstSmallest := largestAcknowledged - firstAckRange
  removeRanges largestAcknowledged firstSmallest ackRanges
    (({ sentPackets := sent } : AckRun).ackRemoveRange firstSmallest largestAcknowledged
      largestAcknowledged)

end AckRun

def SentPacket.inFlightBytes (p : SentPacket) : ℕ := if p.inFlight then p.byteCount else 0

structure LossRun where
  sentPackets : SentPackets
  lostBytes : ℕ := 0
  lostFrames : List StreamRetx := []
  lostCrypto : List CryptoRetx := []
  lostCtrl : List CtrlRetx := []
  /-- The packets taken out, last one first. -/
  lost : List (ℕ × SentPacket) := []

def LossRun.removeOne (a : LossRun) (pn : ℕ) : LossRun :=
  match a.sentPackets.remove pn with
  | (none, sent) => { a with sentPackets := sent }
  | (some pkt, sent) =>
    { sentPackets := sent
      lostBytes := if pkt.inFlight then saturatingAdd32 a.lostBytes pkt.byteCount else a.lostBytes
      lostFrames := a.lostFrames ++ pkt.streamFrames
      lostCrypto := a.lostCrypto ++ pkt.cryptoFrames
      lostCtrl := a.lostCtrl ++ pkt.ctrlFrames
      lost := (pn, pkt) :: a.lost }

namespace Recovery

variable {κ : Type} (r : Recovery κ)

def updateRtt (latestRttUs peerAckDelayUs : ℕ) : Recovery κ :=
  let minRtt := r.minRttUs.elim latestRttUs fun x => min x latestRttUs
  let adjusted :=
    if latestRttUs > minRtt + peerAckDelayUs then latestRttUs - peerAckDelayUs else latestRttUs
  let r := { r with latestRttUs := some latestRttUs, minRttUs := some minRtt }
  match r.smoothedRttUs with
  | none => { r with smoothedRttUs := some adjusted, rttvarUs := adjusted / 2 }
  | some srtt =>
    let rttvarSample := max srtt adjusted - min srtt adjusted
    { r with
      rttvarUs := (3 * r.rttvarUs + rttvarSample) / 4
      smoothedRttUs := some ((7 * srtt + adjusted) / 8) }

/-- Only 1-RTT acknowledgements may be delayed. -/
def lossParams (level : CryptoLevel) : LossParams :=
  LossParams.rfc9002 (r.smoothedRttUs.getD 0) (r.latestRttUs.getD 0) 1000
    (if level = .oneRtt then r.peerMaxAckDelayUs else 0)

end Recovery

namespace Conn

variable {κ τ : Type} [CongestionControl κ] (now : ℕ) (level : CryptoLevel) (c : Conn κ τ)

def lostPackets : List (ℕ × LostBy) :=
  match (c.space level).largestAcked with
  | none => []
  | some largestAcked =>
    let sent := c.rest.recovery.sentPackets.get level
    ((c.rest.recovery.lossParams level).detectBy largestAcked.toNat now
      (sent.entries.map fun e => (e.1, e.2.timeSentUs)) none).1

def lossRun : LossRun :=
  (c.lostPackets now level).foldl (fun a e => a.removeOne e.1)
    { sentPackets := c.rest.recovery.sentPackets.get level }

/-- As far as is remembered. -/
def sendAborted (sid : ℕ) : Bool := c.rest.send.abortedSendSids.contains sid

def requeue (a : LossRun) : SendSide :=
  let s := c.rest.send
  let lostFrames := a.lostFrames.filter fun f => !c.sendAborted f.sid
  { s with
    retxBytes := lostFrames.foldl (fun n f => saturatingAdd32 n f.data.length) s.retxBytes
    retxQueue := s.retxQueue ++ lostFrames
    pendingResetStreams := s.pendingResetStreams ++ a.lostCtrl.filterMap fun
      | .resetStream sid code finalSize => some (sid, code, finalSize)
      | .stopSending _ _ => none
    pendingStopSending := s.pendingStopSending ++ a.lostCtrl.filterMap fun
      | .stopSending sid code => some (sid, code)
      | .resetStream _ _ _ => none
    cryptoRetxQueue := s.cryptoRetxQueue ++ a.lostCrypto }

def detectLoss : Conn κ τ :=
  let a := c.lossRun now level
  let r := c.rest.recovery
  (c.setSend (c.requeue a)).setRecovery { r with
    sentPackets := r.sentPackets.set level a.sentPackets
    bytesInFlight := r.bytesInFlight - a.lostBytes
    cc := if a.lostBytes > 0 then CongestionControl.onLoss r.cc a.lostBytes false else r.cc }

def ackRun (largestAcknowledged firstAckRange : ℕ) (ackRanges : List (ℕ × ℕ)) : AckRun :=
  AckRun.ofFrame (c.rest.recovery.sentPackets.get level) largestAcknowledged firstAckRange ackRanges

/-- When the largest packet is newly acknowledged. -/
def sampleRtt (largestPkt : Option SentPacket) (ackDelay : ℕ) : Recovery κ :=
  let r := c.rest.recovery
  match largestPkt with
  | some pkt =>
    if pkt.ackEliciting then
      r.updateRtt (now - pkt.timeSentUs)
        (min (ackDelay * 2 ^ r.peerAckDelayExponent) r.peerMaxAckDelayUs)
    else r
  | none => r

def applyAck (largestAcknowledged ackDelay firstAckRange : ℕ) (ackRanges : List (ℕ × ℕ)) : Conn κ τ :=
  let a := c.ackRun level largestAcknowledged firstAckRange ackRanges
  let s := c.space level
  let largest := UInt64.ofNat largestAcknowledged
  let c := c.setSpace level
    { s with largestAcked := some (s.largestAcked.elim largest fun x => max x largest) }
  let r := c.sampleRtt now a.largestPkt ackDelay
  let bytesInFlight := r.bytesInFlight - a.ackedBytes
  let r := { r with
    sentPackets := r.sentPackets.set level a.sentPackets
    bytesInFlight := bytesInFlight }
  c.setRecovery (if a.ackedBytes > 0 then
      { r with
        ptoCount := 0
        cc := CongestionControl.onAck r.cc a.ackedBytes bytesInFlight
          (r.smoothedRttUs.getD 0 % 2 ^ 32) (r.minRttUs.getD 0 % 2 ^ 32) (now / 1000) }
    else r)

def processAck (largestAcknowledged ackDelay firstAckRange : ℕ) (ackRanges : List (ℕ × ℕ)) :
    Conn κ τ :=
  let a := c.ackRun level largestAcknowledged firstAckRange ackRanges
  let c := (c.applyAck now level largestAcknowledged ackDelay firstAckRange ackRanges).detectLoss now
    level
  if a.sentPackets.isEmpty then
    c.setRecovery { c.rest.recovery with
      timeOfLastAckElicitingUs := c.rest.recovery.timeOfLastAckElicitingUs.set level none }
  else c

def stagedPacket (ackEliciting : Bool) (byteCount : ℕ) : SentPacket where
  timeSentUs := now
  ackEliciting := ackEliciting
  inFlight := ackEliciting
  byteCount := byteCount
  streamFrames := c.rest.send.pendingSentStreamFrames
  cryptoFrames := c.rest.send.pendingSentCryptoFrames
  ctrlFrames := c.rest.send.pendingSentCtrlFrames

def recordSentPacket (pn : ℕ) (ackEliciting : Bool) (byteCount : ℕ) : Conn κ τ :=
  let pkt := c.stagedPacket now ackEliciting byteCount
  let r := c.rest.recovery
  let r := { r with
    sentPackets := r.sentPackets.set level ((r.sentPackets.get level).insert pn pkt) }
  (c.setSend { c.rest.send with
    pendingSentStreamFrames := []
    pendingSentCryptoFrames := []
    pendingSentCtrlFrames := [] }).setRecovery (if ackEliciting then
      { r with
        timeOfLastAckElicitingUs := r.timeOfLastAckElicitingUs.set level (some now)
        bytesInFlight := saturatingAdd32 r.bytesInFlight byteCount }
    else r)

/-- With the bookkeeping every caller does beside it. -/
def discardSentPackets : Conn κ τ :=
  let r := c.rest.recovery
  let freed := (r.sentPackets.get level).sum SentPacket.inFlightBytes % 2 ^ 32
  let s := c.space level
  (c.setRecovery { r with
    sentPackets := r.sentPackets.set level .empty
    bytesInFlight := r.bytesInFlight - freed
    timeOfLastAckElicitingUs := r.timeOfLastAckElicitingUs.set level none }).setSpace level
      { s with largestAcked := none }

/-- Their CRYPTO frames are queued again. -/
def drainInitialSent : Conn κ τ :=
  let r := c.rest.recovery
  let sent := r.sentPackets.initial
  let pkts := sent.entries.map Prod.snd
  let drained := (sent.entries.map Prod.fst).foldl (fun s pn => (s.remove pn).2) sent
  (c.setSend { c.rest.send with
    cryptoRetxQueue := c.rest.send.cryptoRetxQueue ++ pkts.flatMap SentPacket.cryptoFrames }).setRecovery
      { r with
        sentPackets := r.sentPackets.set .initial drained
        bytesInFlight := pkts.foldl (fun n p => n - p.inFlightBytes) r.bytesInFlight }

end Conn

/-- With nothing to send, for concrete runs. -/
structure QuietTls where
  params : Option PeerParams := none

instance : Tls QuietTls where
  pushHandshake t _ _ _ := t
  popHandshake t _ _ := (t, [])
  hasPendingHandshake _ := false
  hasPendingOneRttCrypto _ := false
  clientTransportParams t := t.params.map some

def sampleConn : Conn Waitless.Tcp.ConstantWindow QuietTls where
  keys := AppKeys.rotations samplePrimitives false sampleSecrets 0
  handshakeKeysDiscarded := true
  peerCid := List.replicate 8 7
  rest := {
    recovery := { cc := ⟨65536⟩ }
    misc := {
      state := .established
      localCid := List.replicate 8 9
      initialKeysDiscarded := true
      handshakeDoneSent := true
      pathValidated := true
      tls := ⟨some {
        initialMaxData := 1 <<< 20
        initialMaxStreamDataBidiLocal := 1 <<< 20
        initialMaxStreamDataUni := 1 <<< 20 }⟩ } }

end Waitless.Quic
