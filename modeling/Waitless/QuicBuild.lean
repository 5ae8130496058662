import Waitless.QuicDispatch
import Waitless.QuicSend

/-! # Building packets

The model of the encoders of `conn/tx.rs`: which frames are due for a 1-RTT packet and what building
one does to the connection, the Initial and Handshake encoders, probes and closes.

The frames of a packet are kept beside their octets, with those that came fresh from a stream
(`Body`). -/

namespace Waitless.Quic

open Waitless.AesGcm
open Waitless.Tcp (CongestionControl)

/-- The state after a step, and its result. -/
abbrev Outcome (σ α : Type) := σ × Except ConnError α

/-- Go on with the next step unless this one failed. -/
def Outcome.andThen {σ α β : Type} (x : Outcome σ α) (f : σ → α → Outcome σ β) : Outcome σ β :=
  match x with
  | (s, .error e) => (s, .error e)
  | (s, .ok a) => f s a

/-- Frames under construction, and their octets. -/
structure Body where
  frames : List TxFrame := []
  bytes : Bytes := []
  /-- STREAM frames from `popChunk`, not retransmissions. -/
  handed : List StreamRetx := []

namespace Body

def push (b : Body) (f : TxFrame) : Except ConnError Body :=
  match f.write with
  | .error _ => .error .wire
  | .ok bytes => .ok { b with frames := b.frames ++ [f], bytes := b.bytes ++ bytes }

def ackEliciting (b : Body) : Bool := b.frames.any fun
  | .ack _ _ _ _ => false
  | _ => true

end Body

def packetBodyBudget : ℕ := 1100

def maxAckAdditional : ℕ := 8

/-- The `(gap, length)` pairs behind a range ending at `prevLo`. -/
def additionalRanges : ℕ → List (UInt64 × UInt64) → List (ℕ × ℕ)
  | _, [] => []
  | prevLo, (lo, hi) :: rest =>
    (prevLo - hi.toNat - 2, hi.toNat - lo.toNat) :: additionalRanges lo.toNat rest

def ackRangesFrom : List (UInt64 × UInt64) → Option (ℕ × ℕ × List (ℕ × ℕ))
  | [] => none
  | (topLo, topHi) :: rest =>
    some (topHi.toNat, topHi.toNat - topLo.toNat,
      (additionalRanges topLo.toNat rest).take maxAckAdditional)

/-- An ACK frame that cannot be written is left out. -/
def appendAckFrame (s : SpaceState) (b : Body) : Body :=
  match ackRangesFrom s.recvRanges with
  | none => b
  | some (largest, firstRange, additional) =>
    ((b.push (.ack largest 0 firstRange additional)).toOption).getD b

namespace RecvSide

/-- Raises a limit that runs out. -/
def replenish (opened advertised : ℕ) (force : Bool) (frame : ℕ → TxFrame) (b : Body) :
    (ℕ × Bool) × Except ConnError Body :=
  let refill := advertised ≤ opened + 256
  let advertised := if refill then opened + 1024 else advertised
  if refill ∨ force then
    match b.push (frame advertised) with
    | .error e => ((advertised, force), .error e)
    | .ok b => ((advertised, false), .ok b)
  else ((advertised, force), .ok b)

variable (r : RecvSide)

def appendMaxStreamsBidi (b : Body) : Outcome RecvSide Body :=
  let ((advertised, force), res) := replenish r.peerBidiStreamsOpened r.peerMaxStreamsBidiAdvertised
    r.forceMaxStreamsBidi .maxStreamsBidi b
  ({ r with peerMaxStreamsBidiAdvertised := advertised, forceMaxStreamsBidi := force }, res)

def appendMaxStreamsUni (b : Body) : Outcome RecvSide Body :=
  let ((advertised, force), res) := replenish r.peerUniStreamsOpened r.peerMaxStreamsUniAdvertised
    r.forceMaxStreamsUni .maxStreamsUni b
  ({ r with peerMaxStreamsUniAdvertised := advertised, forceMaxStreamsUni := force }, res)

def aggregateRecvBudget : ℕ := 256 * 1024 * 1024

def maxDataDue : Bool :=
  r.maxDataAdvertised - r.dataConsumed ≤ initialMaxData / 2 && r.recvBuffered ≤ aggregateRecvBudget

def appendMaxData (b : Body) : Outcome RecvSide Body :=
  let slid := r.maxDataDue
  let r := if slid then
    { r with maxDataAdvertised := min (r.dataConsumed + initialMaxData) maxVarint } else r
  if slid || r.forceMaxData then
    match b.push (.maxData r.maxDataAdvertised) with
    | .error e => (r, .error e)
    | .ok b => ({ r with forceMaxData := false }, .ok b)
  else (r, .ok b)

def streamDataDue (s : RecvStream) : Bool := s.recvMax - s.consumed ≤ initialMaxStreamData / 2

/-- The flag says that the packet had room. -/
def sweepStream (force : Bool) (headerLen : ℕ) (acc : Except ConnError (Body × Bool)) (sid : ℕ)
    (s : RecvStream) : Except ConnError (Body × Bool) × RecvStream :=
  match acc with
  | .error e => (.error e, s)
  | .ok (b, false) => (.ok (b, false), s)
  | .ok (b, true) =>
    if headerLen + b.bytes.length > packetBodyBudget then (.ok (b, false), s)
    else if s.isClosed then (.ok (b, true), s)
    else if streamDataDue s || force then
      let s := if streamDataDue s then
        { s with recvMax := min (s.consumed + initialMaxStreamData) maxVarint } else s
      match b.push (.maxStreamData sid s.recvMax) with
      | .error e => (.error e, s)
      | .ok b => (.ok (b, true), s)
    else (.ok (b, true), s)

def appendMaxStreamData (headerLen : ℕ) (b : Body) : Outcome RecvSide Body :=
  let (acc, streams) := r.recvStreams.mapAccum (sweepStream r.forceMaxStreamData headerLen) (.ok (b, true))
  let r := { r with recvStreams := streams }
  match acc with
  | .error e => (r, .error e)
  | .ok (b, complete) => ({ r with forceMaxStreamData := r.forceMaxStreamData && !complete }, .ok b)

def appendCredit (headerLen : ℕ) (b : Body) : Outcome RecvSide Body :=
  Outcome.andThen (Outcome.andThen (Outcome.andThen (r.appendMaxStreamsBidi b)
    appendMaxStreamsUni) appendMaxData) fun r b => r.appendMaxStreamData headerLen b

end RecvSide

namespace SendSide

def appendStopSending (headerLen : ℕ) : List (ℕ × ℕ) → SendSide → Body → Outcome SendSide Body
  | [], s, b => ({ s with pendingStopSending := [] }, .ok b)
  | (sid, code) :: rest, s, b =>
    if headerLen + b.bytes.length < packetBodyBudget then
      match b.push (.stopSending sid code) with
      | .error e => ({ s with pendingStopSending := rest }, .error e)
      | .ok b =>
        appendStopSending headerLen rest
          { s with pendingSentCtrlFrames := s.pendingSentCtrlFrames ++ [.stopSending sid code] } b
    else ({ s with pendingStopSending := (sid, code) :: rest }, .ok b)

def appendResetStreams (headerLen : ℕ) : List (ℕ × ℕ × ℕ) → SendSide → Body → Outcome SendSide Body
  | [], s, b => ({ s with pendingResetStreams := [] }, .ok b)
  | (sid, code, finalSize) :: rest, s, b =>
    if headerLen + b.bytes.length < packetBodyBudget then
      match b.push (.resetStream sid code finalSize) with
      | .error e => ({ s with pendingResetStreams := rest }, .error e)
      | .ok b =>
        appendResetStreams headerLen rest
          { s with pendingSentCtrlFrames :=
              s.pendingSentCtrlFrames ++ [.resetStream sid code finalSize] } b
    else ({ s with pendingResetStreams := (sid, code, finalSize) :: rest }, .ok b)

def appendAborts (headerLen : ℕ) (s : SendSide) (b : Body) : Outcome SendSide Body :=
  Outcome.andThen (appendStopSending headerLen s.pendingStopSending s b) fun s b =>
    appendResetStreams headerLen s.pendingResetStreams s b

end SendSide

def StreamRetx.frame (f : StreamRetx) : TxFrame := .stream f.sid f.offset f.fin f.data

structure DataRun where
  body : Body
  wireBudget : ℕ
  pktFrames : List StreamRetx := []

namespace SendSide

def appendRetx (inFlight : ℕ) : List StreamRetx → SendSide → DataRun → Outcome SendSide DataRun
  | [], s, run => ({ s with retxQueue := [] }, .ok run)
  | front :: rest, s, run =>
    let room := packetBodyBudget - (run.body.bytes.length + 16)
    if (room = 0 ∨ front.data.length > room) ∨
        (front.data.length > run.wireBudget ∧ ¬(inFlight = 0 ∧ run.pktFrames = [])) then
      ({ s with retxQueue := front :: rest }, .ok run)
    else
      let s := { s with retxBytes := s.retxBytes - front.data.length }
      match run.body.push front.frame with
      | .error e => ({ s with retxQueue := rest }, .error e)
      | .ok body =>
        appendRetx inFlight rest s
          { body
            wireBudget := run.wireBudget - front.data.length
            pktFrames := run.pktFrames ++ [front] }

end SendSide

structure FreshRun where
  body : Body
  ccBudget : ℕ
  connFcBudget : ℕ
  dataSentDelta : ℕ := 0
  pktFrames : List StreamRetx

/-- Room for the next chunk; `none` when the stream is blocked. -/
def FreshRun.maxChunk (run : FreshRun) (s : SendStream) : Option ℕ :=
  let bodySoFar := run.body.bytes.length
  if bodySoFar ≥ packetBodyBudget then none
  else if s.state = .closing ∧ s.outbound = [] then some 0
  else if run.ccBudget = 0 ∨ run.connFcBudget = 0 then none
  else
    let mc := min (min (min (packetBodyBudget - (bodySoFar + 16)) run.ccBudget) run.connFcBudget)
      (s.peerMaxStreamData - s.sendOffset)
    if mc = 0 then none else some mc

/-- Every turn adds octets: the budget is fuel enough. -/
def freshStream : ℕ → ℕ → SendStream → FreshRun → Outcome SendStream FreshRun
  | 0, _, s, run => (s, .ok run)
  | fuel + 1, sid, s, run =>
    match run.maxChunk s with
    | none => (s, .ok run)
    | some mc =>
      match s.popChunk mc with
      | (s, none) => (s, .ok run)
      | (s, some (offset, data, fin)) =>
        match run.body.push (.stream sid offset fin data) with
        | .error e => (s, .error e)
        | .ok body =>
          freshStream fuel sid s
            { body := { body with handed := body.handed ++ [⟨sid, offset, fin, data⟩] }
              ccBudget := run.ccBudget - data.length
              connFcBudget := run.connFcBudget - data.length
              dataSentDelta := run.dataSentDelta + data.length
              pktFrames := run.pktFrames ++ [⟨sid, offset, fin, data⟩] }

def freshStep (acc : Except ConnError FreshRun) (sid : ℕ) (s : SendStream) :
    Except ConnError FreshRun × SendStream :=
  match acc with
  | .error e => (.error e, s)
  | .ok run =>
    let (s, res) := freshStream (packetBodyBudget + 1) sid s run
    (res, s)

namespace SendSide

def appendFresh (window inFlight : ℕ) (s : SendSide) (run : DataRun) : Outcome SendSide Body :=
  let ccBudget := min run.wireBudget (window - (inFlight + s.retxBytes))
  let (acc, streams) := s.sendStreams.mapAccum freshStep
    (.ok { body := run.body, ccBudget, connFcBudget := s.peerMaxData - s.dataSent,
           pktFrames := run.pktFrames })
  let s := { s with sendStreams := streams }
  match acc with
  | .error e => (s, .error e)
  | .ok fresh =>
    ({ s with
        dataSent := s.dataSent + fresh.dataSentDelta
        pendingSentStreamFrames :=
          if fresh.pktFrames = [] then s.pendingSentStreamFrames else fresh.pktFrames },
      .ok fresh.body)

def appendData (window inFlight : ℕ) (s : SendSide) (b : Body) : Outcome SendSide Body :=
  Outcome.andThen (appendRetx inFlight s.retxQueue s { body := b, wireBudget := window - inFlight })
    fun s run => s.appendFresh window inFlight run

def hasPendingOneRttData (s : SendSide) : Bool :=
  !s.retxQueue.isEmpty || s.sendStreams.values.any fun t =>
    t.state = .closing || (t.state = .opened && !t.outbound.isEmpty)

end SendSide

def windowOf {κ : Type} [CongestionControl κ] (k : κ) : ℕ := CongestionControl.window k % 2 ^ 32

namespace Conn

variable {κ τ : Type}

section

variable (now : ℕ) (c : Conn κ τ)

def appAckElicitThreshold : ℕ := 8
def ackMaxDelayUs : ℕ := 25000

def appAckDue : Bool :=
  appAckElicitThreshold ≤ c.appAckElicitingSinceAck.toNat ||
    (c.appFirstUnackedUs != 0 && ackMaxDelayUs ≤ now - c.appFirstUnackedUs.toNat)

/-- The ACK of a 1-RTT packet: with data, or when it is due. -/
def appendAck (b : Body) : Conn κ τ × Body :=
  if c.applicationSpace.ackPending && (c.rest.send.hasPendingOneRttData || c.appAckDue now) then
    ({ c with
        applicationSpace := { c.applicationSpace with ackPending := false }
        appAckElicitingSinceAck := 0
        appFirstUnackedUs := 0 },
      appendAckFrame c.applicationSpace b)
  else (c, b)

def appendHandshakeDone (b : Body) : Outcome (Conn κ τ) Body :=
  if c.rest.misc.handshakeDoneSent then (c, .ok b)
  else (c.setMisc { c.rest.misc with handshakeDoneSent := true }, b.push .handshakeDone)

def appendPathResponse (b : Body) : Outcome (Conn κ τ) Body :=
  match c.rest.misc.pendingPathResponse with
  | none => (c, .ok b)
  | some data =>
    (c.setMisc { c.rest.misc with pendingPathResponse := none }, b.push (.pathResponse data))

def shortHeaderLen : ℕ := 1 + c.peerCid.length + 4

def onSend {α : Type} (f : SendSide → Outcome SendSide α) : Outcome (Conn κ τ) α :=
  let (s, res) := f c.rest.send
  (c.setSend s, res)

def onRecv {α : Type} (f : RecvSide → Outcome RecvSide α) : Outcome (Conn κ τ) α :=
  let (r, res) := f c.rest.recv
  (c.setRecv r, res)

def appendCrypto [Tls τ] (b : Body) : Outcome (Conn κ τ) Body :=
  if Tls.hasPendingOneRttCrypto c.rest.misc.tls then
    let (tls, data) := Tls.popHandshake c.rest.misc.tls .oneRtt 1024
    let c := c.setMisc { c.rest.misc with tls }
    if data = [] then (c, .ok b)
    else
      match b.push (.crypto c.rest.misc.oneRttCryptoOffset data) with
      | .error e => (c, .error e)
      | .ok b =>
        (c.setMisc { c.rest.misc with
          oneRttCryptoOffset := c.rest.misc.oneRttCryptoOffset + data.length }, .ok b)
  else (c, .ok b)

end

variable [CongestionControl κ] [Tls τ] (now : ℕ) (c : Conn κ τ)

/-- Retransmissions and fresh data under the congestion window. -/
def appendStreams (b : Body) : Outcome (Conn κ τ) Body :=
  let window := windowOf c.rest.recovery.cc
  let inFlight := c.rest.recovery.bytesInFlight
  c.onSend fun s => s.appendData window inFlight b

def oneRttBody : Outcome (Conn κ τ) Body :=
  let headerLen := c.shortHeaderLen
  let (c, b) := c.appendAck now {}
  Outcome.andThen (Outcome.andThen (Outcome.andThen (Outcome.andThen (Outcome.andThen
    (c.appendHandshakeDone b)
    appendPathResponse)
    fun c b => c.onSend fun s => s.appendAborts headerLen b)
    fun c b => c.onRecv fun r => r.appendCredit headerLen b)
    fun c b => c.appendCrypto b)
    fun c b => c.appendStreams b

def appendFrames : Outcome (Conn κ τ) Body :=
  Outcome.andThen (c.oneRttBody now) fun c b =>
    (c.setSend { c.rest.send with pendingAckEliciting := b.ackEliciting }, .ok b)

def reasonBytes (reason : String) : Bytes := reason.toList.map fun ch => UInt8.ofNat ch.toNat

def sendHooks : SendHooks (Transport κ τ) where
  appendFrames c :=
    let (c, res) := appendFrames now c
    (c, res.map Body.bytes)
  writeCloseTransport code reason :=
    match writeCloseTransport code.toNat 0 reason with
    | .error _ => .error .wire
    | .ok bytes => .ok bytes
  recordSentPacket c pn n :=
    recordSentPacket now .oneRtt c pn.toNat c.rest.send.pendingAckEliciting n

/-- A probe's PING is ack-eliciting. -/
def probeHooks : SendHooks (Transport κ τ) :=
  { sendHooks now with recordSentPacket := fun c pn n => recordSentPacket now .oneRtt c pn.toNat true n }

variable (P : Primitives)

def encodeOneRtt (padToWire : Option ℕ) (out : Bytes) : Outcome (Conn κ τ) Bytes :=
  encodeOneRttPacketPadded (sendHooks now) P padToWire c out

end Conn

namespace Conn

variable {κ τ : Type}

section

variable (P : Primitives) (c : Conn κ τ)

def takePnAt (level : CryptoLevel) : UInt64 × Conn κ τ :=
  let s := c.space level
  (s.nextSendPn, c.setSpace level { s with nextSendPn := s.nextSendPn + 1 })

def longPacket (k : DirKeys) (first : UInt8) (token : Bytes) (pn : UInt64) (frames out : Bytes) :
    Except ConnError Bytes :=
  match writeVarint (4 + frames.length + tagLen) with
  | .error _ => .error .wire
  | .ok lengthField =>
    if lengthField.length > 4 then .error .wire
    else
      let headerStart := out.length
      let out := out ++ (first :: (beOctets 4 quicVersion1 ++
        (UInt8.ofNat c.peerCid.length :: c.peerCid) ++
        (UInt8.ofNat c.rest.misc.localCid.length :: c.rest.misc.localCid) ++ token ++ lengthField))
      let pnOffset := out.length
      let out := out ++ pnBytes pn 4
      let payloadOffset := out.length
      let out := out ++ (frames ++ List.replicate tagLen 0)
      sealPacket P k out headerStart pnOffset payloadOffset frames.length out.length pn true

def tokenField : Except ConnError Bytes :=
  match c.rest.client with
  | some cs =>
    if cs.initialToken = [] then .ok [0]
    else
      match writeVarint cs.initialToken.length with
      | .error _ => .error .wire
      | .ok n => .ok (n ++ cs.initialToken)
  | none => .ok [0]

/-- A client pads Initial datagrams to 1200 octets. -/
def padInitial (token frames : Bytes) : Bytes :=
  if c.isClient then
    let overhead := 1 + 4 + 1 + c.peerCid.length + 1 + c.rest.misc.localCid.length + token.length +
      2 + 4 + tagLen
    padTo (1200 - overhead) frames
  else frames

def longBody (level : CryptoLevel) (offset : ℕ) (crypto : Bytes) (emitAck : Bool) :
    Except ConnError Body :=
  let b : Body := if emitAck then appendAckFrame (c.space level) {} else {}
  if crypto = [] then .ok b else b.push (.crypto offset crypto)

def stageCrypto (level : CryptoLevel) (offset : ℕ) (crypto : Bytes) : Conn κ τ :=
  if crypto = [] then c
  else c.setSend { c.rest.send with
    pendingSentCryptoFrames := c.rest.send.pendingSentCryptoFrames ++ [⟨level, offset, crypto⟩] }

variable (now : ℕ)

def recordLong (level : CryptoLevel) (pn : UInt64) (ackEliciting : Bool) (out : Bytes)
    (sealed : Except ConnError Bytes) : Outcome (Conn κ τ) Bytes :=
  match sealed with
  | .error e => (c, .error e)
  | .ok out' => (c.recordSentPacket now level pn.toNat ackEliciting (out'.length - out.length), .ok out')

def encodeInitialPacket (crypto : Bytes) (emitAck : Bool) (out : Bytes) : Outcome (Conn κ τ) Bytes :=
  match c.rest.misc.initialSend with
  | none => (c, .error .badState)
  | some k =>
    let (pn, c) := c.takePnAt .initial
    match c.longBody .initial 0 crypto emitAck with
    | .error e => (c, .error e)
    | .ok b =>
      let c := c.stageCrypto .initial 0 crypto
      match c.tokenField with
      | .error e => (c, .error e)
      | .ok token =>
        let frames := c.padInitial token b.bytes
        c.recordLong now .initial pn (!crypto.isEmpty) out
          (c.longPacket P k (0xc0 ||| pnLengthBits) token pn frames out)

def encodeHandshakePacket (crypto : Bytes) (emitAck : Bool) (out : Bytes) : Outcome (Conn κ τ) Bytes :=
  match c.handshakeSend with
  | none => (c, .error .badState)
  | some k =>
    let (pn, c) := c.takePnAt .handshake
    let offset := c.rest.misc.handshakeCryptoOffset
    match c.longBody .handshake offset crypto emitAck with
    | .error e => (c, .error e)
    | .ok b =>
      let c := c.setMisc { c.rest.misc with handshakeCryptoOffset := offset + crypto.length }
      let c := c.stageCrypto .handshake offset crypto
      c.recordLong now .handshake pn (!crypto.isEmpty) out
        (c.longPacket P k (0xe0 ||| pnLengthBits) [] pn b.bytes out)

end

variable [CongestionControl κ] [Tls τ] (now : ℕ) (P : Primitives) (c : Conn κ τ)

def encodePingProbeAt (level : CryptoLevel) (out : Bytes) : Outcome (Conn κ τ) Bytes :=
  match level with
  | .oneRtt => encodePingProbe (probeHooks now) P c out
  | .handshake =>
    match c.handshakeSend with
    | none => (c, .ok out)
    | some k =>
      let (pn, c) := c.takePnAt .handshake
      c.recordLong now .handshake pn true out
        (c.longPacket P k (0xe0 ||| pnLengthBits) [] pn [0x01] out)
  | .initial =>
    match c.rest.misc.initialSend with
    | none => (c, .ok out)
    | some k =>
      let (pn, c) := c.takePnAt .initial
      c.recordLong now .initial pn true out
        (c.longPacket P k (0xc0 ||| pnLengthBits) [0] pn [0x01] out)

/-- One packet at the highest level with keys, not recorded. -/
def encodeClose (errorCode : ℕ) (reason : String) (out : Bytes) : Outcome (Conn κ τ) Bytes :=
  match writeCloseTransport errorCode 0 (reasonBytes reason) with
  | .error _ => (c, .error .wire)
  | .ok frames =>
    if c.keys.applicationSend.isSome then
      encodeClosePacket (sendHooks now) P (UInt64.ofNat errorCode) (reasonBytes reason) c out
    else
      match c.handshakeSend, c.rest.misc.initialSend with
      | some k, _ =>
        let (pn, c) := c.takePnAt .handshake
        (c, c.longPacket P k (0xe0 ||| pnLengthBits) [] pn frames out)
      | none, some k =>
        let (pn, c) := c.takePnAt .initial
        (c, c.longPacket P k (0xc0 ||| pnLengthBits) [0] pn frames out)
      | none, none => (c, .ok out)

/-- Where the last ack-eliciting packet is the oldest. -/
def oldestLevel {κ : Type} (r : Recovery κ) : Option CryptoLevel :=
  let t := r.timeOfLastAckElicitingUs
  let older (a b : Option (CryptoLevel × ℕ)) : Option (CryptoLevel × ℕ) :=
    match a, b with
    | some x, some y => if y.2 < x.2 then some y else some x
    | none, b => b
    | a, none => a
  (older (older (t.initial.map (.initial, ·)) (t.handshake.map (.handshake, ·)))
    (t.oneRtt.map (.oneRtt, ·))).map Prod.fst

def sendPtoProbe : Conn κ τ × Bool :=
  match oldestLevel c.rest.recovery with
  | none => (c, false)
  | some level =>
    match c.encodePingProbeAt now P level [] with
    | (c, .ok (b :: bs)) =>
      let r := c.rest.recovery
      let ptoCount := saturatingAdd32 r.ptoCount 1
      let r := { r with
        ptoCount
        cc := if ptoCount = 2 then CongestionControl.onRto r.cc else r.cc }
      ((c.setRecovery r).setMisc { c.rest.misc with outbound := c.rest.misc.outbound ++ [b :: bs] },
        true)
    | (c, _) => (c, false)

def flushClose : Conn κ τ :=
  match c.rest.misc.closePending with
  | none => c
  | some (errorCode, reason) =>
    let c := c.setMisc { c.rest.misc with closePending := none }
    match c.encodeClose now P errorCode reason [] with
    | (c, .ok (b :: bs)) =>
      c.setMisc { c.rest.misc with outbound := c.rest.misc.outbound ++ [b :: bs], state := .failed }
    | (c, _) => c.setMisc { c.rest.misc with state := .failed }

end Conn

end Waitless.Quic
