import Mathlib

/-! # The TCP control block

One TCP connection as the per-core pool stores it: `TcpConnection` with every field a modelled
function reads, the out-of-order queue, the retransmission entries and the constants of `state.rs`.
Sequence numbers are `UInt32` and wrap as in the source; slot indices, byte counts and millisecond
clocks are `ℕ`, with the source's saturations and truncations written out. -/

namespace Waitless.Tcp

abbrev Bytes := List UInt8

def tcpFin : UInt8 := 0x01
def tcpSyn : UInt8 := 0x02
def tcpRst : UInt8 := 0x04
def tcpPsh : UInt8 := 0x08
def tcpAck : UInt8 := 0x10

def segmentSize : ℕ := 64
def maxSegments : ℕ := 1023
def nullSlot : ℕ := 0xFFFF
def rxRingBytes : ℕ := 16384
def mssV4 : ℕ := 1460
def mssV6 : ℕ := 1440
def mssMax : ℕ := mssV4

def rtoInitialMs : ℕ := 1000
def rtoK : ℕ := 4
def rtoMaxMs : ℕ := 60000
def tlpMinMs : ℕ := 10
def tlpMaxProbes : ℕ := 2
def rtxMaxRetries : ℕ := 8
def finRetxMax : ℕ := 5
def persistMaxProbes : ℕ := 8
def synRetxMax : ℕ := 5
def timeWaitMs : ℕ := 60000
def oooMaxSegs : ℕ := 32
def oooMaxBytes : ℕ := rxRingBytes

/-- RFC 9293, section 3.3.2. -/
inductive TcpState where
  | closed
  | listen
  | synReceived
  | established
  | finWait1
  | finWait2
  | closeWait
  | lastAck
  | timeWait
  | synSent
deriving DecidableEq

/-- Why a connect failed. -/
inductive ConnectFailure where
  | none
  | refused
  | timedOut
deriving DecidableEq

/-- An address of either family. -/
inductive IpAddr where
  | v4 (octets : Vector UInt8 4)
  | v6 (octets : Vector UInt8 16)
deriving DecidableEq

def IpAddr.v4Any : IpAddr := .v4 #v[0, 0, 0, 0]

def mssFor : IpAddr → ℕ
  | .v4 _ => mssV4
  | .v6 _ => mssV6

def u32Max : ℕ := 2 ^ 32 - 1
def u64Max : ℕ := 2 ^ 64 - 1

def packetThreshold : ℕ := 3

/-- Why a unit is given up. -/
inductive LostBy where
  | packetThreshold
  | time
deriving DecidableEq

/-- The thresholds of `loss.rs`, which TCP and QUIC share, in ticks of the caller. -/
structure LossParams where
  packetThreshold : ℕ
  timeThresholdTicks : Option ℕ

namespace LossParams

def rfc9002 (srttTicks latestRttTicks granularityTicks maxAckDelayTicks : ℕ) : LossParams where
  packetThreshold := Tcp.packetThreshold
  timeThresholdTicks :=
    let maxRtt := max srttTicks latestRttTicks
    if 0 < maxRtt then
      some (min (max (min (maxRtt * 9) u64Max / 8) granularityTicks + maxAckDelayTicks) u64Max)
    else none

/-- The units found lost, in order and with the reason, and the next deadline. -/
def detectBy (p : LossParams) (largestAcked now : ℕ) :
    List (ℕ × ℕ) → Option ℕ → List (ℕ × LostBy) × Option ℕ
  | [], nextDeadline => ([], nextDeadline)
  | (id, sent) :: units, nextDeadline =>
    if largestAcked ≤ id then ([], nextDeadline)
    else if min (id + p.packetThreshold) u64Max ≤ largestAcked then
      let r := detectBy p largestAcked now units nextDeadline
      ((id, .packetThreshold) :: r.1, r.2)
    else
      match p.timeThresholdTicks with
      | some tt =>
        if tt < now - sent then
          let r := detectBy p largestAcked now units nextDeadline
          ((id, .time) :: r.1, r.2)
        else
          let dl := min (min (sent + tt) u64Max + 1) u64Max
          detectBy p largestAcked now units (some (nextDeadline.elim dl (min · dl)))
      | none => detectBy p largestAcked now units nextDeadline

/-- For a caller that does not ask for the reason. -/
def detect (p : LossParams) (largestAcked now : ℕ) (units : List (ℕ × ℕ)) (nextDeadline : Option ℕ) :
    List ℕ × Option ℕ :=
  let r := p.detectBy largestAcked now units nextDeadline
  (r.1.map Prod.fst, r.2)

end LossParams

def satAdd32 (a b : ℕ) : ℕ := min (a + b) u32Max

def satMul32 (a b : ℕ) : ℕ := min (a * b) u32Max

/-- `u8::saturating_add(1)`, the step of every retry counter. -/
def satSucc8 (a : ℕ) : ℕ := min (a + 1) 255

def seqLt (a b : UInt32) : Bool := decide ((a - b).toInt32 < 0)

structure OooSeg where
  seqStart : UInt32
  bytes : Bytes
deriving DecidableEq

structure OooQueue where
  segs : List OooSeg
  totalBytes : ℕ

def OooQueue.new : OooQueue := ⟨[], 0⟩

/-- Sent and not acknowledged; `len` is the `u16` the source stores. -/
structure RtxEntry where
  iobuf : Bytes
  seqStart : UInt32
  len : ℕ
  lastTxMs : ℕ
  txCount : ℕ
  sacked : Bool

/-- The operations of the `CongestionControl` trait the TCP engine calls. -/
class CongestionControl (κ : Type) where
  new : ℕ → κ
  withDefaultMss : κ
  setSlowStartCap : κ → ℕ → κ
  onAck : κ → (bytesAcked inFlight smoothedUs minUs nowMs : ℕ) → κ
  onLoss : κ → (bytesLost : ℕ) → (persistent : Bool) → κ
  onRto : κ → κ
  window : κ → ℕ

/-- A controller that keeps one window, for concrete runs. -/
structure ConstantWindow where
  bytes : ℕ

instance : CongestionControl ConstantWindow where
  new := fun mss => ⟨10 * mss⟩
  withDefaultMss := ⟨14600⟩
  setSlowStartCap := fun k _ => k
  onAck := fun k _ _ _ _ _ => k
  onLoss := fun k _ _ => k
  onRto := id
  window := ConstantWindow.bytes

structure Endpoints where
  remoteIp : IpAddr
  localIp : IpAddr
  localPort : UInt16
  remotePort : UInt16
  listenerPort : UInt16

/-- Sequence space, peer window and negotiated options. -/
structure SendHalf where
  sndNxt : UInt32
  sndUna : UInt32
  sndWnd : ℕ
  sndWscale : ℕ
  sndMss : ℕ
  wscaleOk : Bool
  sackOk : Bool
  sndWl1 : UInt32
  sndWl2 : UInt32

/-- The receive side: ring, zero-copy stash and reassembly queue. -/
structure RecvHalf where
  rcvNxt : UInt32
  rcvWnd : ℕ
  rxRing : Option (ℕ → UInt8)
  rxHead : ℕ
  rxTail : ℕ
  rxUsed : ℕ
  chunkWanted : Bool
  pendingChunk : Option Bytes
  ooo : OooQueue

structure RtxHalf where
  rtxQueue : List RtxEntry
  rtxBytesInFlight : ℕ
  rtxAllocFailed : Bool

/-- The five deadlines; `0` means disarmed. -/
structure Deadlines where
  rtxDeadlineMs : ℕ
  tlpDeadlineMs : ℕ
  rackDeadlineMs : ℕ
  persistDeadlineMs : ℕ
  lifecycleDeadlineMs : ℕ
deriving DecidableEq

/-- Round-trip estimation and the retry counters. -/
structure RttState where
  rtoMs : ℕ
  rtxBackoff : ℕ
  srttMs : ℕ
  rttvarMs : ℕ
  rttSeeded : Bool
  rttAnchorMs : ℕ
  rttAnchorSeq : UInt32
  rttAnchorActive : Bool
  finRetxCount : ℕ
  persistBackoff : ℕ
  tlpCount : ℕ
  rackSackHint : Bool

structure CcState (κ : Type) where
  cwnd : ℕ
  dupAcks : ℕ
  cc : κ

structure TickLink where
  tickNext : ℕ
  tickInList : Bool

/-- What the pool keeps about a slot. -/
structure SlotLink where
  generation : UInt16
  nextFree : ℕ
  slotIndex : ℕ

/-- A slot of the pool. -/
structure TcpConnection (κ : Type) extends Endpoints, SendHalf, RecvHalf, RtxHalf, Deadlines,
    RttState, CcState κ, TickLink, SlotLink where
  state : TcpState
  accepted : Bool
  connectFailure : ConnectFailure
  recvWaker : Bool
  sendWaker : Bool

def Deadlines.none : Deadlines := ⟨0, 0, 0, 0, 0⟩

namespace TcpConnection

variable {κ : Type} [CongestionControl κ]

def new : TcpConnection κ where
  remoteIp := .v4Any
  localIp := .v4Any
  localPort := 0
  remotePort := 0
  listenerPort := 0
  sndNxt := 0
  sndUna := 0
  sndWnd := 0
  sndWscale := 0
  sndMss := mssMax
  wscaleOk := false
  sackOk := false
  sndWl1 := 0
  sndWl2 := 0
  rcvNxt := 0
  rcvWnd := rxRingBytes
  rxRing := none
  rxHead := 0
  rxTail := 0
  rxUsed := 0
  chunkWanted := false
  pendingChunk := none
  ooo := .new
  rtxQueue := []
  rtxBytesInFlight := 0
  rtxAllocFailed := false
  toDeadlines := .none
  rtoMs := rtoInitialMs
  rtxBackoff := 0
  srttMs := 0
  rttvarMs := 0
  rttSeeded := false
  rttAnchorMs := 0
  rttAnchorSeq := 0
  rttAnchorActive := false
  finRetxCount := 0
  persistBackoff := 0
  tlpCount := 0
  rackSackHint := false
  cwnd := 0
  dupAcks := 0
  cc := CongestionControl.withDefaultMss
  tickNext := nullSlot
  tickInList := false
  generation := 0
  nextFree := nullSlot
  slotIndex := 0
  state := .closed
  accepted := false
  connectFailure := .none
  recvWaker := false
  sendWaker := false

/-- A fresh connection that keeps its ring memory and its place. -/
def resetPreserving (c : TcpConnection κ) (nextGen : UInt16) : TcpConnection κ :=
  { new with
    generation := nextGen
    rxRing := c.rxRing
    slotIndex := c.slotIndex }

def Armed (c : TcpConnection κ) : Prop := c.toDeadlines ≠ .none

instance (c : TcpConnection κ) : Decidable c.Armed :=
  inferInstanceAs (Decidable (c.toDeadlines ≠ .none))

/-- Neither free nor a listener. -/
def Live (c : TcpConnection κ) : Prop := c.state ≠ .closed ∧ c.state ≠ .listen

instance (c : TcpConnection κ) : Decidable c.Live :=
  inferInstanceAs (Decidable (c.state ≠ .closed ∧ c.state ≠ .listen))

end TcpConnection

structure SegmentMeta where
  localIp : IpAddr
  dstIp : IpAddr
  srcPort : UInt16
  dstPort : UInt16
  seq : UInt32
  ack : UInt32
  flags : UInt8
  window : ℕ

structure TxSegment where
  head : SegmentMeta
  payload : Bytes
  options : Bytes

end Waitless.Tcp
