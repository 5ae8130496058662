import Waitless.TcpPool

/-! # The TCP engine of one core

The entry points of the engine over the pool: passive and active opens, `accept`, `close`, the
reads and sends behind a handle, segment dispatch, and the timer tick with its walk of the armed
list. -/

namespace Waitless.Tcp

def maxCores : ℕ := 22

/-- `CHALLENGE_TOKENS` and `CHALLENGE_LAST_MS`, by core. -/
structure ChallengeAcks where
  challengeTokens : ℕ → ℕ
  challengeLastMs : ℕ → ℕ

namespace ChallengeAcks

def refillFor (elapsed : ℕ) : ℕ := min (elapsed * challengeAckRate) (2 ^ 64 - 1) / 1000

def challengeAckAllowed (s : ChallengeAcks) (core now : ℕ) : Bool × ChallengeAcks :=
  if maxCores ≤ core then (true, s)
  else
    let last := s.challengeLastMs core
    let s :=
      if last < now then
        let refill := refillFor (now - last)
        if 0 < refill then
          let next := min (s.challengeTokens core + refill) challengeAckBurst
          { challengeTokens := Function.update s.challengeTokens core next
            challengeLastMs := Function.update s.challengeLastMs core now }
        else s
      else s
    let cur := s.challengeTokens core
    if 0 < cur then
      (true, { s with challengeTokens := Function.update s.challengeTokens core (cur - 1) })
    else (false, s)

end ChallengeAcks

variable {κ : Type} [CongestionControl κ]

namespace Core

def sendRst (s : Core κ) (localIp dstIp : IpAddr) (srcPort dstPort : UInt16) (seq ack : UInt32) :
    Core κ :=
  { s with tx := s.tx ++
    [⟨{ localIp, dstIp, srcPort, dstPort, seq, ack, flags := tcpRst ||| tcpAck, window := 0 },
      [], []⟩] }

/-- On the bucket of this core. -/
def challengeAckAllowed (s : Core κ) (now : ℕ) : Bool × Core κ :=
  let acks : ChallengeAcks := ⟨fun _ => s.challengeTokens, fun _ => s.challengeLastMs⟩
  let r := acks.challengeAckAllowed 0 now
  (r.1, { s with
    challengeTokens := r.2.challengeTokens 0
    challengeLastMs := r.2.challengeLastMs 0 })

def sendChallengeAck (s : Core κ) (slot : ℕ) (seg : Segment) (now : ℕ) : Core κ :=
  match s.challengeAckAllowed now with
  | (true, s) => { s with tx := ((s.localAt slot).replyAck seg).tx }
  | (false, s) => s

def listenOnCore (s : Core κ) (port : UInt16) (env : Env) : Core κ × Option ℕ :=
  match s.allocConnection env.growOk with
  | none => (s, none)
  | some (slot, s) =>
    let s := s.setSlot slot { s.slots slot with state := .listen, localPort := port }
    (s.listenerRegister port slot, some slot)

def Acceptable (c : TcpConnection κ) (port : UInt16) : Prop :=
  c.state = .established ∧ c.listenerPort = port ∧ c.accepted = false

instance (c : TcpConnection κ) (port : UInt16) : Decidable (Acceptable c port) :=
  inferInstanceAs (Decidable (_ ∧ _ ∧ _))

/-- Up to the first acceptable slot; the cursor has 32 bits. -/
def acceptLoop (port : UInt16) : ℕ → Core κ → Option ℕ × Core κ
  | 0, s => (none, s)
  | rounds + 1, s =>
    match s.acceptRingPop port with
    | (none, s) => (none, s)
    | (some i, s) =>
      if Acceptable (s.slots i) port then (some i, s) else acceptLoop port rounds s

def markAccepted (s : Core κ) (i : ℕ) : Core κ × Option (ℕ × UInt16) :=
  (s.setSlot i { s.slots i with accepted := true }, some (i, (s.slots i).generation))

def acceptOnPortCore (s : Core κ) (port : UInt16) : Core κ × Option (ℕ × UInt16) :=
  match acceptLoop port (2 ^ 32) s with
  | (some i, s) => s.markAccepted i
  | (none, s) =>
    match s.indices.find? fun i => decide (Acceptable (s.slots i) port) with
    | some i => s.markAccepted i
    | none => (s, none)

/-- It goes inert and keeps its slot until the handle is closed. -/
def failConnect (s : Core κ) (slot : ℕ) (failure : ConnectFailure) : Core κ :=
  let s := s.tcpHashRemove (keyOf (s.slots slot))
  s.setSlot slot
    { s.slots slot with
      connectFailure := failure
      state := .closed
      lifecycleDeadlineMs := 0
      finRetxCount := 0
      rttAnchorActive := false
      sendWaker := false
      recvWaker := false }

def ephemeralLo : ℕ := 49152
def ephemeralCount : ℕ := 16384

def tupleInUse (s : Core κ) (remoteIp : IpAddr) (remotePort port : UInt16) : Bool :=
  match s.tcpHashFind (tcpHashKey remoteIp remotePort port) with
  | some i =>
    decide ((s.slots i).state ≠ .closed ∧ Matches (s.slots i) remoteIp remotePort port)
  | none => false

/-- Where a core stands among the cores. -/
structure Placement where
  affine : UInt16 → Bool
  sliceBase : ℕ
  sliceLen : ℕ

/-- The first free port that hashes home, or of the core's slice. -/
def allocEphemeralPort (s : Core κ) (remoteIp : IpAddr) (remotePort : UInt16) (p : Placement) :
    Option UInt16 × Core κ :=
  let free := fun off => !s.tupleInUse remoteIp remotePort (UInt16.ofNat (ephemeralLo + off))
  let offsets := (List.range ephemeralCount).map fun i => (s.nextOffset + i) % ephemeralCount
  match offsets.find? fun off => free off && p.affine (UInt16.ofNat (ephemeralLo + off)) with
  | some off =>
    (some (UInt16.ofNat (ephemeralLo + off)), { s with nextOffset := (off + 1) % ephemeralCount })
  | none =>
    match ((List.range p.sliceLen).map (p.sliceBase + ·)).find? free with
    | some off => (some (UInt16.ofNat (ephemeralLo + off)), s)
    | none => (none, s)

def ensureRxRing (c : TcpConnection κ) (ringOk : Bool) : Option (TcpConnection κ) :=
  if c.rxRing.isSome then some c
  else if ringOk then some { c with rxRing := some fun _ => 0 }
  else none

def openActive (c : TcpConnection κ) (localIp remoteIp : IpAddr) (localPort remotePort : UInt16)
    (env : Env) : TcpConnection κ :=
  { c with
    state := .synSent
    remoteIp, localIp, localPort, remotePort
    sndUna := env.isn
    sndNxt := env.isn + 1
    listenerPort := 0
    accepted := true
    rttAnchorMs := env.now
    rttAnchorSeq := env.isn + 1
    rttAnchorActive := true }

/-- The handle is the slot and its generation. -/
def connectOnCore (s : Core κ) (localIp remoteIp : IpAddr) (remotePort : UInt16) (p : Placement)
    (env : Env) : Core κ × Option (ℕ × UInt16) :=
  match s.allocEphemeralPort remoteIp remotePort p with
  | (none, s) => (s, none)
  | (some localPort, s) =>
    match s.allocConnection env.growOk with
    | none => (s, none)
    | some (slot, s) =>
      match ensureRxRing (s.slots slot) env.ringOk with
      | none => (s.freeConnection slot, none)
      | some c =>
        let s := s.setSlot slot (openActive c localIp remoteIp localPort remotePort env)
        let s := s.tcpHashInsert (tcpHashKey remoteIp remotePort localPort) slot
        (s.withLocal slot fun l => l.sendSyn.armFinTimer env.now,
          some (slot, (s.slots slot).generation))

def Valid (s : Core κ) (slot : ℕ) (generation : UInt16) : Prop :=
  slot < s.capacity ∧ (s.slots slot).generation = generation

instance (s : Core κ) (slot : ℕ) (generation : UInt16) : Decidable (s.Valid slot generation) :=
  inferInstanceAs (Decidable (_ ∧ _))

/-- Through a stale handle nothing happens, and `stale` is the answer. -/
def onHandle {α : Type} (s : Core κ) (slot : ℕ) (generation : UInt16) (stale : α)
    (f : Local κ → Local κ × α) : Core κ × α :=
  if s.Valid slot generation then
    let (l, a) := f (s.localAt slot)
    (s.putLocal slot l, a)
  else (s, stale)

def isReadableOrClosed (s : Core κ) (slot : ℕ) (generation : UInt16) : Bool :=
  if s.Valid slot generation then Local.isReadableOrClosed (s.slots slot) else true

/-- What a poll of a connect answers. -/
inductive ConnectStatus where
  | inProgress
  | established
  | refused
  | timedOut
deriving DecidableEq

def connectStatus (s : Core κ) (slot : ℕ) (generation : UInt16) : ConnectStatus :=
  if s.Valid slot generation then
    match (s.slots slot).state with
    | .synSent => .inProgress
    | .closed => if (s.slots slot).connectFailure = .refused then .refused else .timedOut
    | _ => .established
  else .timedOut

def asyncRecv (s : Core κ) (slot : ℕ) (generation : UInt16) (cap : ℕ) : Core κ × Bytes :=
  s.onHandle slot generation [] fun l => l.asyncRecv cap

def doRecvChunk (s : Core κ) (slot : ℕ) (generation : UInt16) (env : Env) : Core κ × Option Bytes :=
  s.onHandle slot generation none fun l => l.doRecvChunk env.reserved

def setChunkWanted (s : Core κ) (slot : ℕ) (generation : UInt16) (wanted : Bool) : Core κ × Unit :=
  s.onHandle slot generation () fun l => (l.setChunkWanted wanted, ())

/-- `register_recv_waker` and `clear_recv_waker`. -/
def setRecvWaker (s : Core κ) (slot : ℕ) (generation : UInt16) (parked : Bool) : Core κ × Unit :=
  s.onHandle slot generation () fun l =>
    ({ l with conn := { l.conn with recvWaker := parked } }, ())

def setSendWaker (s : Core κ) (slot : ℕ) (generation : UInt16) (parked : Bool) : Core κ × Unit :=
  s.onHandle slot generation () fun l =>
    ({ l with conn := { l.conn with sendWaker := parked } }, ())

def asyncTrySendChain (s : Core κ) (slot : ℕ) (generation : UInt16) (chain : List Bytes) (env : Env) :
    Core κ × List Bytes × Local.SendResult :=
  s.onHandle slot generation (chain, .closed) fun l =>
    l.asyncTrySendChain chain env.driver env.now env.reserve

def trySendTso (s : Core κ) (slot : ℕ) (generation : UInt16) (minPayload : ℕ) (fill : Option Bytes)
    (env : Env) : Core κ × Option Local.SendResult :=
  s.onHandle slot generation none fun l =>
    l.trySendTso minPayload fill env.driver env.now env.reserved (env.reserve 0)

def closeHandle (s : Core κ) (slot : ℕ) (generation : UInt16) (now : ℕ) : Core κ :=
  if s.Valid slot generation then
    match (s.localAt slot).close now with
    | some l => s.putLocal slot l
    | none => s.freeConnection slot
  else s

def pmtuFloor : IpAddr → ℕ
  | .v4 _ => 536
  | .v6 _ => 1220

def notePathMtu (s : Core κ) (remoteIp : IpAddr) (remotePort localPort : UInt16) (seq : UInt32)
    (candidateMss : ℕ) : Core κ :=
  match s.tcpHashFind (tcpHashKey remoteIp remotePort localPort) with
  | none => s
  | some i =>
    let c := s.slots i
    let newMss := max candidateMss (pmtuFloor c.localIp)
    if Matches c remoteIp remotePort localPort ∧ c.state = .established ∧
        (seq - c.sndUna).toNat < c.flight ∧ newMss < c.sndMss then
      s.setSlot i { c with sndMss := newMss }
    else s

/-- The RST branch: found by a scan on the full identity. -/
def receiveRst (s : Core κ) (seg : Segment) : Core κ :=
  match s.tcpLinearFind seg.srcIp seg.srcPort seg.dstPort with
  | none => s
  | some i =>
    let c := s.slots i
    if c.state = .synSent then
      if seg.has tcpAck && seg.ack == c.sndNxt then s.failConnect i .refused else s
    else if seg.seq = c.rcvNxt then s.freeConnection i
    else s

def openPassive (c : TcpConnection κ) (seg : Segment) (isn : UInt32) : TcpConnection κ :=
  let opts := seg.synOptions
  { c with
    state := .synReceived
    remoteIp := seg.srcIp
    localIp := seg.dstIp
    localPort := seg.dstPort
    remotePort := seg.srcPort
    sndNxt := isn
    sndUna := isn
    sndWnd := seg.window
    sndWl1 := seg.seq
    sndWl2 := 0
    wscaleOk := opts.wscale.isSome
    sndWscale := opts.wscale.getD 0
    sackOk := opts.sackPermitted
    sndMss := negotiatedMss seg.dstIp opts.mss
    rcvNxt := seg.seq + 1
    listenerPort := seg.dstPort
    accepted := false
    rxHead := 0
    rxTail := 0
    rxUsed := 0
    chunkWanted := false
    pendingChunk := none }.congestionInit

def sendSynAck (l : Local κ) (seg : Segment) : Local κ :=
  let l := l.sendSegmentOpts { l.replyHeader seg (tcpSyn ||| tcpAck) with window := rxRingBytes } []
    (synOptionBlob (mssFor l.conn.localIp) l.conn.wscaleOk l.conn.sackOk)
  { l with conn := { l.conn with sndNxt := l.conn.sndNxt + 1 } }

/-- The hash hit of the SYN branch, with its identity test. -/
def synHit (s : Core κ) (seg : Segment) : Option ℕ :=
  (s.tcpHashFind (tcpHashKey seg.srcIp seg.srcPort seg.dstPort)).filter fun i =>
    decide (Matches (s.slots i) seg.srcIp seg.srcPort seg.dstPort)

def hasListener (s : Core κ) (port : UInt16) : Bool :=
  (s.listenerFind port).isSome ||
    s.indices.any fun i => decide ((s.slots i).state = .listen ∧ (s.slots i).localPort = port)

def admitSyn (s : Core κ) (seg : Segment) (env : Env) : Core κ :=
  match s.allocConnection env.growOk with
  | none => s
  | some (slot, s) =>
    match ensureRxRing (s.slots slot) env.ringOk with
    | none =>
      (s.sendRst seg.dstIp seg.srcIp seg.dstPort seg.srcPort 0 (seg.seq + 1)).freeConnection slot
    | some c =>
      let s := s.setSlot slot (openPassive c seg env.isn)
      let s := s.tcpHashInsert (tcpHashKey seg.srcIp seg.srcPort seg.dstPort) slot
      s.withLocal slot fun l => sendSynAck l seg

def receiveSyn (s : Core κ) (seg : Segment) (env : Env) : Core κ :=
  match s.synHit seg with
  | some i =>
    let c := s.slots i
    if c.state = .established then s.sendChallengeAck i seg env.now
    else if c.state = .synSent then s
    else if !s.hasListener seg.dstPort then
      s.sendRst seg.dstIp seg.srcIp seg.dstPort seg.srcPort 0 (seg.seq + 1)
    else if c.Live then (s.freeConnection i).admitSyn seg env
    else s.admitSyn seg env
  | none =>
    if !s.hasListener seg.dstPort then
      s.sendRst seg.dstIp seg.srcIp seg.dstPort seg.srcPort 0 (seg.seq + 1)
    else s.admitSyn seg env

/-- The hash, and behind it the scan. -/
def lookup (s : Core κ) (seg : Segment) : Option ℕ :=
  match s.tcpHashFind (tcpHashKey seg.srcIp seg.srcPort seg.dstPort) with
  | some i => some i
  | none => s.tcpLinearFind seg.srcIp seg.srcPort seg.dstPort

def dispatch (s : Core κ) (seg : Segment) : Option ℕ :=
  (s.lookup seg).filter fun i => decide (s.slots i).Live

def receiveAt (s : Core κ) (i : ℕ) (seg : Segment) (env : Env) : Core κ :=
  if (s.slots i).state = .synSent then s.withLocal i fun l => l.handleSynSent seg env.now
  else
    match (s.localAt i).segmentArrives seg env.now env.reserved with
    | (_, .challenge) => s.sendChallengeAck i seg env.now
    | (_, .free) => s.freeConnection i
    | (l, .done established) =>
      let s := s.putLocal i l
      if established then s.acceptRingPush (s.slots i).listenerPort i else s

def receiveSegment (s : Core κ) (seg : Segment) (env : Env) : Core κ :=
  if seg.has tcpRst then s.receiveRst seg
  else if seg.has tcpSyn && !seg.has tcpAck then s.receiveSyn seg env
  else
    match s.dispatch seg with
    | some i => s.receiveAt i seg env
    | none => s

def tcpReceive (s : Core κ) (srcIp dstIp : IpAddr) (parts : List Bytes) (env : Env) : Core κ :=
  match Segment.parse srcIp dstIp parts with
  | some seg => s.receiveSegment seg env
  | none => s

/-- Retransmission and probe timers; `none` gives the connection up. -/
def rtxPhase (l : Local κ) (now : ℕ) : Option (Local κ) :=
  let c := l.conn
  if c.rtxDeadlineMs ≠ 0 ∧ c.rtxDeadlineMs ≤ now then
    if rtxMaxRetries ≤ c.rtxBackoff then none else some (l.retransmitOldest now)
  else if c.tlpDeadlineMs ≠ 0 ∧ c.tlpDeadlineMs ≤ now then
    if c.state = .established then some (l.sendTlpProbe now)
    else some { l with conn := { c with tlpDeadlineMs := 0 } }
  else some l

def rackPhase (l : Local κ) (now : ℕ) : Local κ :=
  if l.conn.rackDeadlineMs ≠ 0 ∧ l.conn.rackDeadlineMs ≤ now then l.rackDetect now else l

/-- The zero-window timer; `none` gives the connection up. -/
def persistPhase (l : Local κ) (now : ℕ) : Option (Local κ) :=
  let c := l.conn
  if c.persistDeadlineMs ≠ 0 ∧ c.persistDeadlineMs ≤ now then
    if c.state = .established then
      if persistMaxProbes ≤ c.persistBackoff then none else some (l.sendWindowProbe now)
    else some { l with conn := { c with persistDeadlineMs := 0 } }
  else some l

def lifecyclePhase (s : Core κ) (i now : ℕ) : Core κ :=
  let c := s.slots i
  if c.lifecycleDeadlineMs ≠ 0 ∧ c.lifecycleDeadlineMs ≤ now then
    match c.state with
    | .finWait1 | .lastAck =>
      if finRetxMax ≤ c.finRetxCount then s.freeConnection i
      else s.withLocal i fun l => l.retransmitFin now
    | .timeWait => s.freeConnection i
    | .synSent =>
      if synRetxMax ≤ c.finRetxCount then s.failConnect i .timedOut
      else s.withLocal i fun l => l.retransmitSyn now
    | _ => s.setSlot i { c with lifecycleDeadlineMs := 0 }
  else s

/-- The flag is set on the two give-up exits. -/
def visit (s : Core κ) (i now : ℕ) : Core κ × Bool :=
  match rtxPhase (s.localAt i) now with
  | none => (s.freeConnection i, true)
  | some l =>
    let l := rackPhase l now
    match persistPhase l now with
    | none => ((s.putLocal i l).freeConnection i, true)
    | some l => ((s.putLocal i l).lifecyclePhase i now, false)

def relink (s : Core κ) (i newHead : ℕ) : Core κ × ℕ :=
  if (s.slots i).Armed then (s.setSlot i { s.slots i with tickNext := newHead }, i)
  else (s.setSlot i { s.slots i with tickInList := false }, newHead)

/-- A give-up goes round again without moving the walker. -/
def tickLoop (now : ℕ) : ℕ → Core κ → ℕ → ℕ → Core κ × ℕ × List ℕ
  | 0, s, _, newHead => (s, newHead, [])
  | rounds + 1, s, walker, newHead =>
    if walker = nullSlot then (s, newHead, [])
    else
      let next := (s.slots walker).tickNext
      match s.visit walker now with
      | (s, true) =>
        let (s, newHead, visited) := tickLoop now rounds s walker newHead
        (s, newHead, walker :: visited)
      | (s, false) =>
        let (s, newHead) := s.relink walker newHead
        let (s, newHead, visited) := tickLoop now rounds s next newHead
        (s, newHead, walker :: visited)

/-- The walk from a detached list, of at most `capacity` slots. -/
def tickWalk (s : Core κ) (now : ℕ) : Core κ × ℕ × List ℕ :=
  tickLoop now (s.capacity + 2) { s with tickHead := nullSlot } s.tickHead nullSlot

def onTcpTick (s : Core κ) (now : ℕ) : Core κ :=
  let (s, newHead, _) := s.tickWalk now
  s.tickHeadPublish newHead

def shutdownSlot (s : Core κ) (i : ℕ) : Core κ :=
  let c := s.slots i
  let s :=
    if c.Live then
      (s.sendRst c.localIp c.remoteIp c.localPort c.remotePort c.sndNxt c.rcvNxt).freeConnection i
    else s
  s.setSlot i { s.slots i with rxRing := none, rtxQueue := [], rtxBytesInFlight := 0 }

def shutdownAll (s : Core κ) : Core κ := s.indices.foldl shutdownSlot s

end Core

/-- The entry points of the engine on one core. -/
inductive Op where
  | listen (port : UInt16) (env : Env)
  | connect (localIp remoteIp : IpAddr) (remotePort : UInt16) (place : Core.Placement) (env : Env)
  | receive (srcIp dstIp : IpAddr) (parts : List Bytes) (env : Env)
  | accept (port : UInt16)
  | close (slot : ℕ) (generation : UInt16) (env : Env)
  | sendChain (slot : ℕ) (generation : UInt16) (chain : List Bytes) (env : Env)
  | sendTso (slot : ℕ) (generation : UInt16) (minPayload : ℕ) (fill : Option Bytes) (env : Env)
  | recv (slot : ℕ) (generation : UInt16) (cap : ℕ)
  | recvChunk (slot : ℕ) (generation : UInt16) (env : Env)
  | chunkWanted (slot : ℕ) (generation : UInt16) (wanted : Bool)
  | recvWaker (slot : ℕ) (generation : UInt16) (parked : Bool)
  | sendWaker (slot : ℕ) (generation : UInt16) (parked : Bool)
  | pathMtu (remoteIp : IpAddr) (remotePort localPort : UInt16) (seq : UInt32) (mss : ℕ)
  | tick (now : ℕ)
  | shutdownAll

namespace Core

def step (s : Core κ) : Op → Core κ
  | .listen port env => (s.listenOnCore port env).1
  | .connect localIp remoteIp remotePort place env =>
    (s.connectOnCore localIp remoteIp remotePort place env).1
  | .receive srcIp dstIp parts env => s.tcpReceive srcIp dstIp parts env
  | .accept port => (s.acceptOnPortCore port).1
  | .close slot generation env => s.closeHandle slot generation env.now
  | .sendChain slot generation chain env => (s.asyncTrySendChain slot generation chain env).1
  | .sendTso slot generation minPayload fill env =>
    (s.trySendTso slot generation minPayload fill env).1
  | .recv slot generation cap => (s.asyncRecv slot generation cap).1
  | .recvChunk slot generation env => (s.doRecvChunk slot generation env).1
  | .chunkWanted slot generation wanted => (s.setChunkWanted slot generation wanted).1
  | .recvWaker slot generation parked => (s.setRecvWaker slot generation parked).1
  | .sendWaker slot generation parked => (s.setSendWaker slot generation parked).1
  | .pathMtu remoteIp remotePort localPort seq mss =>
    s.notePathMtu remoteIp remotePort localPort seq mss
  | .tick now => s.onTcpTick now
  | .shutdownAll => s.shutdownAll

end Core

end Waitless.Tcp
