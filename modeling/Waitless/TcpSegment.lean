import Waitless.TcpMethods

/-! # An inbound segment at its connection

`receive.rs` from the parsed header on, for the connection the segment was dispatched to:
`handleSynSent` for an embryonic active open, and `segmentArrives` for every other live state,
which runs the acknowledgement, data, FIN and TIME-WAIT parts in the source's order. -/

namespace Waitless.Tcp

def beU16 (a b : UInt8) : UInt16 := UInt16.ofNat (a.toNat * 256 + b.toNat)

def beU32 (a b c d : UInt8) : UInt32 :=
  UInt32.ofNat (((a.toNat * 256 + b.toNat) * 256 + c.toNat) * 256 + d.toNat)

def be32Bytes (x : UInt32) : Bytes :=
  [(x >>> 24).toUInt8, (x >>> 16).toUInt8, (x >>> 8).toUInt8, x.toUInt8]

/-- A segment behind its fixed header; `parts` are the buffers of the chain. -/
structure Segment where
  srcIp : IpAddr
  dstIp : IpAddr
  srcPort : UInt16
  dstPort : UInt16
  seq : UInt32
  ack : UInt32
  flags : UInt8
  window : ℕ
  dataOffset : ℕ
  parts : List Bytes

/-- The first buffer must hold the header. -/
def Segment.parse (srcIp dstIp : IpAddr) (parts : List Bytes) : Option Segment :=
  match parts with
  | (s₁ :: s₀ :: d₁ :: d₀ :: q₃ :: q₂ :: q₁ :: q₀ :: a₃ :: a₂ :: a₁ :: a₀ :: off :: flags ::
      w₁ :: w₀ :: _ :: _ :: _ :: _ :: _) :: _ =>
      some
        { srcIp, dstIp
          srcPort := beU16 s₁ s₀
          dstPort := beU16 d₁ d₀
          seq := beU32 q₃ q₂ q₁ q₀
          ack := beU32 a₃ a₂ a₁ a₀
          flags
          window := (beU16 w₁ w₀).toNat
          dataOffset := (off >>> 4).toNat * 4
          parts }
  | _ => none

namespace Segment

def totalLen (seg : Segment) : ℕ := seg.parts.flatten.length

def payloadLen (seg : Segment) : ℕ := seg.totalLen - seg.dataOffset

def payload (seg : Segment) : Bytes := seg.parts.flatten.drop seg.dataOffset

def has (seg : Segment) (flag : UInt8) : Bool := seg.flags &&& flag != 0

def optionBytes (seg : Segment) : Option Bytes :=
  match seg.parts with
  | [] => none
  | first :: _ =>
    if 20 ≤ seg.dataOffset ∧ seg.dataOffset ≤ first.length then
      some ((first.take seg.dataOffset).drop 20)
    else none

end Segment

structure SynOptions where
  wscale : Option ℕ
  mss : Option ℕ
  sackPermitted : Bool

def SynOptions.default : SynOptions := ⟨none, none, false⟩

/-- The first occurrence of a value wins. -/
def SynOptions.record (out : SynOptions) (kind : UInt8) (len : ℕ) (body : Bytes) : SynOptions :=
  if kind = 2 ∧ len = 4 then
    match body with
    | hi :: lo :: _ => { out with mss := out.mss <|> some (beU16 hi lo).toNat }
    | _ => out
  else if kind = 3 ∧ len = 3 then
    match body with
    | s :: _ => { out with wscale := out.wscale <|> some (min s.toNat 14) }
    | _ => out
  else if kind = 4 ∧ len = 2 then { out with sackPermitted := true }
  else out

/-- Every round but the last moves on by a byte. -/
def parseSynOptions (opts : Bytes) : SynOptions := go opts.length opts .default
where
  go : ℕ → Bytes → SynOptions → SynOptions
    | 0, _, out => out
    | _, [], out => out
    | rounds + 1, kind :: rest, out =>
      if kind = 0 then out
      else if kind = 1 then go rounds rest out
      else
        match rest with
        | [] => out
        | len :: body =>
          if len.toNat < 2 then out
          else go rounds (body.drop (len.toNat - 2)) (out.record kind len.toNat body)

def readSackBlocks : ℕ → Bytes → List (UInt32 × UInt32)
  | room + 1, l₃ :: l₂ :: l₁ :: l₀ :: r₃ :: r₂ :: r₁ :: r₀ :: rest =>
    (beU32 l₃ l₂ l₁ l₀, beU32 r₃ r₂ r₁ r₀) :: readSackBlocks room rest
  | _, _ => []

def parseSackBlocks (opts : Bytes) : List (UInt32 × UInt32) := go opts.length opts
where
  go : ℕ → Bytes → List (UInt32 × UInt32)
    | 0, _ => []
    | _, [] => []
    | rounds + 1, kind :: rest =>
      if kind = 0 then []
      else if kind = 1 then go rounds rest
      else
        match rest with
        | [] => []
        | len :: body =>
          if len.toNat < 2 then []
          else if kind = 5 then readSackBlocks 4 (body.take (len.toNat - 2))
          else go rounds (body.drop (len.toNat - 2))

/-- Read only from a SYN with a long header. -/
def Segment.synOptions (seg : Segment) : SynOptions :=
  if seg.has tcpSyn && decide (20 < seg.dataOffset) then
    (seg.optionBytes.map parseSynOptions).getD .default
  else .default

def Segment.sackBlocks (seg : Segment) (sackOk : Bool) : List (UInt32 × UInt32) :=
  if sackOk && decide (20 < seg.dataOffset) then (seg.optionBytes.map parseSackBlocks).getD []
  else []

def negotiatedMss (localIp : IpAddr) : Option ℕ → ℕ
  | some peer => max (min (mssFor localIp) peer) 536
  | none => mssFor localIp

variable {κ : Type} [CongestionControl κ]

namespace Local

def replyHeader (l : Local κ) (seg : Segment) (flags : UInt8) : SegmentMeta where
  localIp := seg.dstIp
  dstIp := seg.srcIp
  srcPort := seg.dstPort
  dstPort := seg.srcPort
  seq := l.conn.sndNxt
  ack := l.conn.rcvNxt
  flags := flags
  window := l.conn.rxFree

def replyAck (l : Local κ) (seg : Segment) : Local κ := l.sendSegment (l.replyHeader seg tcpAck) []

def sackOption (blocks : List (UInt32 × UInt32)) : Bytes :=
  [1, 1, 5, UInt8.ofNat (2 + 8 * blocks.length)] ++
    blocks.flatMap fun b => be32Bytes b.1 ++ be32Bytes b.2

def emitAck (l : Local κ) (seg : Segment) : Local κ :=
  let blocks := l.conn.ooo.sackBlocks 4
  if l.conn.sackOk && !l.conn.ooo.isEmpty && !blocks.isEmpty then
    l.sendSegmentOpts (l.replyHeader seg tcpAck) [] (sackOption blocks)
  else l.replyAck seg

/-- Taking a parked waker; the task it wakes runs later. -/
def wakeRecv (l : Local κ) : Local κ := { l with conn := { l.conn with recvWaker := false } }

def wakeSend (l : Local κ) : Local κ := { l with conn := { l.conn with sendWaker := false } }

end Local

/-- What an inbound segment asks of the pool. -/
inductive Outcome where
  /-- answer with a challenge ACK and drop the segment -/
  | challenge
  /-- free the slot -/
  | free
  /-- go on; the flag says that the handshake just completed -/
  | done (established : Bool)

namespace Local

def updateWindow (c : TcpConnection κ) (seg : Segment) : TcpConnection κ :=
  if seqLt c.sndWl1 seg.seq || (c.sndWl1 == seg.seq && !seqLt seg.ack c.sndWl2) then
    { c with
      sndWnd := if c.wscaleOk then seg.window <<< c.sndWscale else seg.window
      sndWl1 := seg.seq
      sndWl2 := seg.ack }
  else c

def ackTransition (c : TcpConnection κ) (ack : UInt32) (ackAdvances : Bool) :
    TcpConnection κ × Outcome :=
  if c.state = .synReceived ∧ ackAdvances then
    ({ c with state := .established, sndUna := ack }, .done true)
  else if c.state = .lastAck ∧ ack = c.sndNxt then (c, .free)
  else if c.state = .finWait1 ∧ ack = c.sndNxt then
    ({ c with state := .finWait2, sndUna := ack, lifecycleDeadlineMs := 0, finRetxCount := 0 },
      .done false)
  else if ackAdvances then ({ c with sndUna := ack }, .done false)
  else (c, .done false)

def ackSack (l : Local κ) (seg : Segment) : Local κ :=
  let blocks := seg.sackBlocks l.conn.sackOk
  if blocks.isEmpty then l else { l with conn := l.conn.applySack blocks }

def ackCount (l : Local κ) (oldUna : UInt32) (isDupAck : Bool) (now : ℕ) : Local κ :=
  if isDupAck then l.onDupAck now
  else if l.conn.sndUna ≠ oldUna then l.onNewDataAck
  else l

def ackPersist (l : Local κ) : Local κ :=
  if 0 < l.conn.sndWnd then
    { l with conn := { l.conn with persistDeadlineMs := 0, persistBackoff := 0 } }
  else l

def ackWake (l : Local κ) : Local κ := if 0 < l.conn.usableWindow then l.wakeSend else l

/-- What follows the transition. -/
def ackBookkeeping (l : Local κ) (seg : Segment) (oldUna : UInt32) (isDupAck : Bool) (now : ℕ) :
    Local κ :=
  let l := l.rtxOnAck oldUna now
  let l := l.ackSack seg
  let l := l.ackCount oldUna isDupAck now
  let l := l.rackDetect now
  l.ackPersist.ackWake

def processAck (l : Local κ) (seg : Segment) (now : ℕ) : Local κ × Outcome :=
  let c := l.conn
  if seqLt c.sndNxt seg.ack then (l, .challenge)
  else
    let ackAdvances := seqLt c.sndUna seg.ack
    let isDupAck :=
      seg.ack == c.sndUna && seg.payloadLen == 0 && seg.flags &&& (tcpSyn ||| tcpFin) == 0 &&
        seqLt c.sndUna c.sndNxt
    match ackTransition (updateWindow c seg) seg.ack ackAdvances with
    | (_, .free) => (l, .free)
    | (c', outcome) =>
      (ackBookkeeping { l with conn := c' } seg c.sndUna isDupAck now, outcome)

def deliverParts : List Bytes → ℕ → RecvHalf → RecvHalf × ℕ
  | [], _, r => (r, 0)
  | part :: rest, skip, r =>
    if part.length ≤ skip then deliverParts rest (skip - part.length) r
    else
      let (r, n) := r.rxRingPush (part.drop skip)
      let (r, m) := deliverParts rest 0 r
      (r, n + m)

def gatherParts : List Bytes → ℕ → Bytes
  | [], _ => []
  | part :: rest, skip =>
    if part.length ≤ skip then gatherParts rest (skip - part.length)
    else part.drop skip ++ gatherParts rest 0

/-- Into the stash for a waiting `recv_chunk`, or the ring. -/
def deliver (r : RecvHalf) (seg : Segment) : RecvHalf × ℕ :=
  match seg.parts with
  | [part] =>
    if r.chunkWanted ∧ r.pendingChunk.isNone ∧ r.rxUsed = 0 then
      if seg.dataOffset + seg.payloadLen ≤ part.length then
        ({ r with
            pendingChunk := some ((part.drop seg.dataOffset).take seg.payloadLen)
            chunkWanted := false }, seg.payloadLen)
      else (r, 0)
    else deliverParts seg.parts seg.dataOffset r
  | _ => deliverParts seg.parts seg.dataOffset r

/-- With the number of bytes taken in. -/
def acceptInOrder (r : RecvHalf) (seg : Segment) : RecvHalf × ℕ :=
  let (r, pushed) := deliver r seg
  let r := { r with rcvNxt := r.rcvNxt + UInt32.ofNat pushed }
  let (r, drained) := if r.ooo.isEmpty then (r, 0) else r.drainOoo
  ({ r with rcvWnd := r.rxFree }, pushed + drained)

/-- `reserved` answers the allocation of the out-of-order copy. -/
def processData (l : Local κ) (seg : Segment) (reserved : Bool) : Local κ :=
  let c := l.conn
  if 0 < seg.payloadLen ∧
      (c.state = .established ∨ c.state = .finWait1 ∨ c.state = .finWait2) then
    if seg.seq = c.rcvNxt then
      let (r, n) := acceptInOrder c.toRecvHalf seg
      let l := { l with conn := { c with toRecvHalf := r } }
      let l := if 0 < n then l.wakeRecv else l
      l.emitAck seg
    else if seqLt seg.seq c.rcvNxt then l.emitAck seg
    else
      let q :=
        if reserved then (c.ooo.insert c.rcvNxt seg.seq (gatherParts seg.parts seg.dataOffset)).1
        else c.ooo
      emitAck { l with conn := { c with ooo := q } } seg
  else l

def finTransition (l : Local κ) (now : ℕ) : Local κ :=
  match l.conn.state with
  | .established | .synReceived => { l with conn := { l.conn with state := .closeWait } }
  | .finWait1 | .finWait2 =>
    { l with conn := { l.conn with state := .timeWait, finRetxCount := 0 } }.armTimeWait now
  | _ => l

def processFin (l : Local κ) (seg : Segment) (now : ℕ) : Local κ :=
  if seg.has tcpFin ∧ seg.seq + UInt32.ofNat seg.payloadLen = l.conn.rcvNxt then
    let l := { l with conn := { l.conn with rcvNxt := l.conn.rcvNxt + 1 } }
    let l := l.replyAck seg
    let l := l.finTransition now
    if l.conn.state = .closeWait then l.wakeRecv else l
  else l

def timeWaitReack (l : Local κ) (seg : Segment) (prevState : TcpState) (now : ℕ) : Local κ :=
  if prevState = .timeWait ∧ seg.has tcpFin then (l.replyAck seg).armTimeWait now else l

/-- The window update and wake-up every segment ends with. -/
def establishedTail (l : Local κ) : Local κ :=
  if l.conn.state = .established then
    let l := l.maybeSendWindowUpdate
    if 0 < l.conn.rxUsed ∨ l.conn.pendingChunk.isSome then l.wakeRecv else l
  else l

def afterAck (l : Local κ) (seg : Segment) (prevState : TcpState) (now : ℕ) (reserved : Bool) :
    Local κ :=
  let l := l.processData seg reserved
  let l := l.processFin seg now
  let l := l.timeWaitReack seg prevState now
  l.establishedTail

/-- Neither RST nor bare SYN, at a live connection that is not `SynSent`. -/
def segmentArrives (l : Local κ) (seg : Segment) (now : ℕ) (reserved : Bool) : Local κ × Outcome :=
  let prevState := l.conn.state
  if seg.has tcpAck then
    match l.processAck seg now with
    | (l, .done established) => (l.afterAck seg prevState now reserved, .done established)
    | (l, outcome) => (l, outcome)
  else (l.afterAck seg prevState now reserved, .done false)

def handleSynSent (l : Local κ) (seg : Segment) (now : ℕ) : Local κ :=
  let c := l.conn
  let opts := seg.synOptions
  if seg.has tcpAck && seg.ack != c.sndNxt then
    l.sendSegment { l.replyHeader seg tcpRst with seq := seg.ack, ack := 0, window := 0 } []
  else if !seg.has tcpSyn then l
  else if !seg.has tcpAck then l
  else
    let c := { c with
      rcvNxt := seg.seq + 1
      sndUna := seg.ack
      sndWnd := seg.window
      sndWl1 := seg.seq
      sndWl2 := seg.ack
      wscaleOk := opts.wscale.isSome
      sndWscale := opts.wscale.getD 0
      sackOk := opts.sackPermitted
      sndMss := negotiatedMss c.localIp opts.mss
      state := .established
      lifecycleDeadlineMs := 0
      finRetxCount := 0 }
    let c := c.congestionInit
    let c :=
      if c.rttAnchorActive && !seqLt c.sndUna c.rttAnchorSeq then
        let c := c.sampleAnchor now
        { c with rtoMs := c.estimatedRto }
      else c
    (({ l with conn := c }.replyAck seg).wakeSend).wakeRecv

end Local

end Waitless.Tcp
