import Waitless.TcpRecvQueue

/-! # Timers, retransmission and congestion control of one connection

The methods of `TcpConnection` in `state.rs`, as functions on a `Local` state: the connection, the
head of the core's armed-timer list (the only pool cell these methods write) and the log of
segments handed to the wire. -/

namespace Waitless.Tcp

/-- What a `&mut TcpConnection` method can touch. -/
structure Local (κ : Type) where
  conn : TcpConnection κ
  tickHead : ℕ
  tx : List TxSegment

variable {κ : Type} [CongestionControl κ]

namespace TcpConnection

def header (c : TcpConnection κ) (seq ack : UInt32) (flags : UInt8) (window : ℕ) : SegmentMeta where
  localIp := c.localIp
  dstIp := c.remoteIp
  srcPort := c.localPort
  dstPort := c.remotePort
  seq := seq
  ack := ack
  flags := flags
  window := window

def ptoMs (c : TcpConnection κ) : ℕ :=
  if c.srttMs = 0 then 0
  else
    let pto := max (satMul32 c.srttMs 2) tlpMinMs
    if c.rtoMs ≤ pto then 0 else pto

def armTlp (c : TcpConnection κ) (now : ℕ) : TcpConnection κ :=
  { c with
    tlpDeadlineMs := if c.ptoMs ≠ 0 ∧ c.tlpCount < tlpMaxProbes then now + c.ptoMs else 0 }

def sampleRtt (c : TcpConnection κ) (r : ℕ) : TcpConnection κ :=
  let r := max r 1
  if c.rttSeeded then
    let delta := max c.srttMs r - min c.srttMs r
    { c with
      rttvarMs := c.rttvarMs - c.rttvarMs / 4 + delta / 4
      srttMs := c.srttMs - c.srttMs / 8 + r / 8 }
  else { c with srttMs := r, rttvarMs := r / 2, rttSeeded := true }

def estimatedRto (c : TcpConnection κ) : ℕ :=
  if c.rttSeeded then
    let spread := max 1 (satMul32 c.rttvarMs rtoK)
    min (max (satAdd32 c.srttMs spread) rtoInitialMs) rtoMaxMs
  else rtoInitialMs

def sampleAnchor (c : TcpConnection κ) (now : ℕ) : TcpConnection κ :=
  if c.rttAnchorActive && !seqLt c.sndUna c.rttAnchorSeq then
    { c.sampleRtt (min (now - c.rttAnchorMs) u32Max) with rttAnchorActive := false }
  else c

def flight (c : TcpConnection κ) : ℕ := (c.sndNxt - c.sndUna).toNat

def usableWindow (c : TcpConnection κ) : ℕ := min c.cwnd c.sndWnd - c.flight

def congestionInit (c : TcpConnection κ) : TcpConnection κ :=
  let smss := mssFor c.localIp
  let cc := CongestionControl.setSlowStartCap (CongestionControl.new smss : κ) (2 * smss)
  { c with cc := cc, cwnd := CongestionControl.window cc }

def cwndOnAck (c : TcpConnection κ) (acked now : ℕ) : TcpConnection κ :=
  let cc := CongestionControl.onAck c.cc acked c.flight (satMul32 c.srttMs 1000) 0 now
  { c with cc := cc, cwnd := CongestionControl.window cc }

def congestionOnRto (c : TcpConnection κ) : TcpConnection κ :=
  let cc := CongestionControl.onRto c.cc
  { c with cc := cc, cwnd := CongestionControl.window cc }

def rtxAckLoop (ackNum : UInt32) : List RtxEntry → ℕ → ℕ → List RtxEntry × ℕ × ℕ
  | [], inFlight, acked => ([], inFlight, acked)
  | head :: rest, inFlight, acked =>
    if !seqLt ackNum (head.seqStart + UInt32.ofNat head.len) then
      rtxAckLoop ackNum rest (inFlight - head.len) (acked + head.len)
    else if seqLt head.seqStart ackNum then
      let consumed := (ackNum - head.seqStart).toNat
      if consumed ≤ head.iobuf.length then
        ({ head with
            iobuf := head.iobuf.drop consumed
            seqStart := ackNum
            len := head.len - consumed % 65536 } :: rest, inFlight - consumed, acked + consumed)
      else (head :: rest, inFlight, acked)
    else (head :: rest, inFlight, acked)

def rtxAck (c : TcpConnection κ) (ackNum : UInt32) : TcpConnection κ × ℕ :=
  let (queue, inFlight, acked) := rtxAckLoop ackNum c.rtxQueue c.rtxBytesInFlight 0
  ({ c with rtxQueue := queue, rtxBytesInFlight := inFlight }, acked)

def handleRtxPushOom (c : TcpConnection κ) : TcpConnection κ :=
  { c with rtxQueue := [], rtxBytesInFlight := 0, rtxDeadlineMs := 0 }

def coveredBy (e : RtxEntry) (block : UInt32 × UInt32) : Bool :=
  !seqLt e.seqStart block.1 && !seqLt block.2 (e.seqStart + UInt32.ofNat e.len)

def applySack (c : TcpConnection κ) (blocks : List (UInt32 × UInt32)) : TcpConnection κ :=
  let queue := c.rtxQueue.map fun e => { e with sacked := e.sacked || blocks.any (coveredBy e) }
  let changed := c.rtxQueue.any fun e => !e.sacked && blocks.any (coveredBy e)
  { c with rtxQueue := queue, rackSackHint := c.rackSackHint || changed }

end TcpConnection

def drainChainPrefix : List Bytes → ℕ → List Bytes
  | chain, 0 => chain
  | [], _ => []
  | front :: rest, n + 1 =>
    if front.length ≤ n + 1 then drainChainPrefix rest (n + 1 - front.length)
    else front.drop (n + 1) :: rest

namespace Local

def sendSegmentOpts (l : Local κ) (head : SegmentMeta) (payload options : Bytes) : Local κ :=
  { l with tx := l.tx ++ [⟨head, payload.take mssMax, options⟩] }

def sendSegment (l : Local κ) (head : SegmentMeta) (payload : Bytes) : Local κ :=
  l.sendSegmentOpts head payload []

def sendControl (l : Local κ) (seq ack : UInt32) (flags : UInt8) (window : ℕ) : Local κ :=
  l.sendSegment (l.conn.header seq ack flags window) []

/-- Links the slot at the head of the list unless it is linked. -/
def armForTick (l : Local κ) : Local κ :=
  if l.conn.tickInList then l
  else
    { l with
      conn := { l.conn with tickNext := l.tickHead, tickInList := true }
      tickHead := l.conn.slotIndex }

def maybeSendWindowUpdate (l : Local κ) : Local κ :=
  if l.conn.state ≠ .established then l
  else
    let mss := mssFor l.conn.localIp
    let free := l.conn.rxFree
    if l.conn.rcvWnd < mss ∧ mss ≤ free then
      { l with conn := { l.conn with rcvWnd := free } }.sendControl
        l.conn.sndNxt l.conn.rcvNxt tcpAck free
    else l

def rxPop (l : Local κ) (cap : ℕ) : Local κ × Bytes :=
  if cap = 0 ∨ l.conn.rxUsed = 0 then (l, [])
  else if l.conn.rxRing.isNone then (l, [])
  else
    let (r, out) := l.conn.rxTake cap
    ({ l with conn := { l.conn with toRecvHalf := r } }.maybeSendWindowUpdate, out)

def armRtx (l : Local κ) (now : ℕ) : Local κ :=
  armForTick
    { l with conn := { l.conn with rtxDeadlineMs := now + l.conn.rtoMs }.armTlp now }

/-- The estimate, backed off, for the FIN, SYN and persist timers. -/
def backedOff (c : TcpConnection κ) (count : ℕ) : ℕ :=
  min (c.estimatedRto <<< min count 16) rtoMaxMs

def armFinTimer (l : Local κ) (now : ℕ) : Local κ :=
  armForTick { l with conn :=
    { l.conn with lifecycleDeadlineMs := now + backedOff l.conn l.conn.finRetxCount } }

def armTimeWait (l : Local κ) (now : ℕ) : Local κ :=
  armForTick { l with conn := { l.conn with lifecycleDeadlineMs := now + timeWaitMs } }

def armPersist (l : Local κ) (now : ℕ) : Local κ :=
  armForTick { l with conn :=
    { l.conn with persistDeadlineMs := now + backedOff l.conn l.conn.persistBackoff } }

def queueEntry (l : Local κ) (entry : RtxEntry) : Local κ :=
  { l with conn := { l.conn with
    rtxQueue := l.conn.rtxQueue ++ [entry]
    rtxBytesInFlight := satAdd32 l.conn.rtxBytesInFlight entry.len } }

def startAnchor (l : Local κ) (seq : UInt32) (now : ℕ) : Local κ :=
  if l.conn.rttAnchorActive then l
  else
    { l with conn := { l.conn with
      rttAnchorActive := true, rttAnchorSeq := seq, rttAnchorMs := now } }

def rtxPush (l : Local κ) (iobuf : Bytes) (seqStart : UInt32) (len now : ℕ) (reserved : Bool) :
    Local κ × Bool :=
  if !reserved then ({ l with conn := { l.conn with rtxAllocFailed := true } }, false)
  else
    let wasEmpty := l.conn.rtxQueue.isEmpty
    let l := l.queueEntry { iobuf, seqStart, len, lastTxMs := now, txCount := 1, sacked := false }
    let l := if wasEmpty && l.conn.rtxDeadlineMs == 0 then l.armRtx now else l
    (l.startAnchor (seqStart + UInt32.ofNat len) now, true)

/-- `reserve k` answers the allocation made with `k` entries queued. -/
def rtxSendLoop (now : ℕ) (reserve : ℕ → Bool) :
    List Bytes → ℕ → UInt32 → Local κ → Local κ × List Bytes
  | [], _, _, l => (l, [])
  | front :: rest, total, seq, l =>
    if total = 0 then (l, front :: rest)
    else if front.length ≤ total then
      let (l', ok) :=
        l.rtxPush front seq (front.length % 65536) now (reserve l.conn.rtxQueue.length)
      if ok then
        rtxSendLoop now reserve rest (total - front.length)
          (seq + UInt32.ofNat front.length) l'
      else
        ({ l' with conn := l'.conn.handleRtxPushOom },
          drainChainPrefix rest (total - front.length))
    else
      let (l', ok) :=
        l.rtxPush (front.take total) seq (total % 65536) now (reserve l.conn.rtxQueue.length)
      (if ok then l' else { l' with conn := l'.conn.handleRtxPushOom },
        front.drop total :: rest)

def rtxOnDataSent (l : Local κ) (chain : List Bytes) (total now : ℕ) (reserve : ℕ → Bool) :
    Local κ × List Bytes :=
  if total = 0 then (l, chain)
  else if l.conn.rtxAllocFailed then (l, drainChainPrefix chain total)
  else rtxSendLoop now reserve chain total (l.conn.sndNxt - UInt32.ofNat total) l

/-- `staged` answers the allocation of the copy. -/
def rtxOnDataSentSlice (l : Local κ) (bytes : Bytes) (now : ℕ) (staged reserved : Bool) : Local κ :=
  if bytes.isEmpty || l.conn.rtxAllocFailed then l
  else if !staged then
    { l with conn := { l.conn with rtxAllocFailed := true }.handleRtxPushOom }
  else
    let (l', ok) :=
      l.rtxPush bytes (l.conn.sndNxt - UInt32.ofNat bytes.length) (bytes.length % 65536) now
        reserved
    if ok then l' else { l' with conn := l'.conn.handleRtxPushOom }

def rtxOnAck (l : Local κ) (oldUna : UInt32) (now : ℕ) : Local κ :=
  let c := l.conn
  if c.rtxAllocFailed then
    if c.sndUna = c.sndNxt then
      { l with conn := { c with rtxAllocFailed := false, rtxBackoff := 0, rtoMs := rtoInitialMs } }
    else l
  else if c.sndUna = oldUna then l
  else
    let (c, acked) := c.rtxAck c.sndUna
    let c := if 0 < acked then c.cwndOnAck acked now else c
    let c := c.sampleAnchor now
    let c := { c with rtxBackoff := 0, tlpCount := 0 }
    let c := { c with rtoMs := c.estimatedRto }
    if c.rtxBytesInFlight = 0 then
      { l with conn := { c with rtxDeadlineMs := 0, tlpDeadlineMs := 0 } }
    else { l with conn := c }.armRtx now

def emitRtxEntry (l : Local κ) (idx now : ℕ) : Local κ :=
  match l.conn.rtxQueue[idx]? with
  | none => l
  | some e =>
    let n := min e.len l.conn.sndMss
    if n = 0 then l
    else
      let e' := { e with txCount := satSucc8 e.txCount, lastTxMs := now }
      let l := l.sendSegment
        (l.conn.header e.seqStart l.conn.rcvNxt (tcpAck ||| tcpPsh) l.conn.rxFree) (e.iobuf.take n)
      { l with conn := { l.conn with
        rtxQueue := l.conn.rtxQueue.set idx e', rttAnchorActive := false } }

def sendTlpProbe (l : Local κ) (now : ℕ) : Local κ :=
  if l.conn.rtxBytesInFlight = 0 then { l with conn := { l.conn with tlpDeadlineMs := 0 } }
  else
    let l := { l with conn := { l.conn with tlpCount := satSucc8 l.conn.tlpCount } }
    let l := l.emitRtxEntry 0 now
    armForTick { l with conn := l.conn.armTlp now }

def retransmitOldest (l : Local κ) (now : ℕ) : Local κ :=
  if l.conn.rtxBytesInFlight = 0 then { l with conn := { l.conn with rtxDeadlineMs := 0 } }
  else
    let c := l.conn.congestionOnRto
    let c := { c with rtxQueue := c.rtxQueue.map fun e => { e with sacked := false } }
    let l := { l with conn := c }.emitRtxEntry 0 now
    let rto := min (satMul32 l.conn.rtoMs 2) rtoMaxMs
    armForTick { l with conn := { l.conn with
      tlpDeadlineMs := 0
      rtxBackoff := satSucc8 l.conn.rtxBackoff
      rtoMs := rto
      rtxDeadlineMs := now + rto } }

def retransmitFin (l : Local κ) (now : ℕ) : Local κ :=
  let l := l.sendControl (l.conn.sndNxt - 1) l.conn.rcvNxt (tcpFin ||| tcpAck) l.conn.rxFree
  { l with conn := { l.conn with finRetxCount := satSucc8 l.conn.finRetxCount } }.armFinTimer now

def sendWindowProbe (l : Local κ) (now : ℕ) : Local κ :=
  let l := l.sendControl (l.conn.sndUna - 1) l.conn.rcvNxt tcpAck l.conn.rxFree
  { l with conn := { l.conn with persistBackoff := satSucc8 l.conn.persistBackoff } }.armPersist now

def highestSacked (c : TcpConnection κ) : Option ℕ :=
  ((c.rtxQueue.filter (·.sacked)).map fun e =>
    (e.seqStart + UInt32.ofNat e.len - c.sndUna).toNat).max?

def isHole (c : TcpConnection κ) (highest i : ℕ) : Bool :=
  match c.rtxQueue[i]? with
  | none => false
  | some e =>
    let off := (e.seqStart - c.sndUna).toNat
    !e.sacked && decide (off < 2 ^ 31) && decide (off < highest)

def sackRetransmitHoles (l : Local κ) (now : ℕ) : Local κ :=
  match highestSacked l.conn with
  | none => l
  | some highest =>
    (List.range l.conn.rtxQueue.length).foldl
      (fun l i => if isHole l.conn highest i then l.emitRtxEntry i now else l) l

def fastRetransmit (l : Local κ) (now : ℕ) : Local κ :=
  let l := { l with conn := { l.conn with cc := CongestionControl.onLoss l.conn.cc 0 false } }
  let l :=
    if l.conn.sackOk && l.conn.rtxQueue.any (·.sacked) then l.sackRetransmitHoles now
    else l.emitRtxEntry 0 now
  { l with conn := { l.conn with cwnd := CongestionControl.window l.conn.cc } }

def onDupAck (l : Local κ) (now : ℕ) : Local κ :=
  let l := { l with conn := { l.conn with dupAcks := satSucc8 l.conn.dupAcks } }
  if l.conn.dupAcks = 3 then l.fastRetransmit now else l

def onNewDataAck (l : Local κ) : Local κ := { l with conn := { l.conn with dupAcks := 0 } }

/-- Resends the units found lost: `lost` is in queue order. -/
def emitLost (base : UInt32) (now : ℕ) : List ℕ → List ℕ → Local κ → Local κ
  | [], _, l => l
  | _, [], l => l
  | i :: is, off :: lost, l =>
    match l.conn.rtxQueue[i]? with
    | some e =>
      if (e.seqStart - base).toNat = off then emitLost base now is lost (l.emitRtxEntry i now)
      else emitLost base now is (off :: lost) l
    | none => emitLost base now is (off :: lost) l

def resendLost (l : Local κ) (lost : List ℕ) (now : ℕ) : Local κ :=
  if lost.isEmpty then l
  else
    let l₁ := emitLost l.conn.sndUna now (List.range l.conn.rtxQueue.length) lost
      { l with conn := { l.conn with cc := CongestionControl.onLoss l.conn.cc 0 false } }
    { l₁ with conn := { l₁.conn with cwnd := CongestionControl.window l₁.conn.cc } }

def rearmRack (l : Local κ) : Option ℕ → Local κ
  | some deadline => armForTick { l with conn := { l.conn with rackDeadlineMs := deadline } }
  | none => l

def rackDetect (l : Local κ) (now : ℕ) : Local κ :=
  let l := { l with conn := { l.conn with rackDeadlineMs := 0 } }
  let c := l.conn
  if !c.rackSackHint || c.srttMs == 0 || c.rtxQueue.isEmpty then l
  else
    match ((c.rtxQueue.filter (·.sacked)).map fun e => (e.seqStart - c.sndUna).toNat).max? with
    | none => { l with conn := { c with rackSackHint := false } }
    | some largestAcked =>
      let params := { LossParams.rfc9002 c.srttMs 0 1 0 with packetThreshold := u64Max }
      let units := (c.rtxQueue.filter (!·.sacked)).map fun e =>
        ((e.seqStart - c.sndUna).toNat, e.lastTxMs)
      let (lost, deadline) := params.detect largestAcked now units none
      (l.resendLost lost now).rearmRack deadline

end Local

end Waitless.Tcp
