import Waitless.HoleRing
import Waitless.QuicRecv
import Waitless.QuicRecvStream
import Waitless.QuicSendStream

/-! # The state of a QUIC connection and its stream API

The fields of `Connection` (`conn/mod.rs`) beyond those of `QuicRecv`: the receive side, the send
side, loss recovery, and the rest. The congestion controller `κ` and the TLS driver `τ` are
parameters. -/

namespace Waitless.Quic

open Waitless.AesGcm

/-- The packet number spaces. -/
inductive CryptoLevel where
  | initial
  | handshake
  | oneRtt
deriving DecidableEq

instance : Fintype CryptoLevel := ⟨{.initial, .handshake, .oneRtt}, fun l => by cases l <;> decide⟩

/-- One value per packet-number space. -/
structure Levels (α : Type) where
  initial : α
  handshake : α
  oneRtt : α

namespace Levels

variable {α : Type} (l : Levels α)

def get : CryptoLevel → α
  | .initial => l.initial
  | .handshake => l.handshake
  | .oneRtt => l.oneRtt

def set (level : CryptoLevel) (x : α) : Levels α :=
  match level with
  | .initial => { l with initial := x }
  | .handshake => { l with handshake := x }
  | .oneRtt => { l with oneRtt := x }

theorem get_set (level level' : CryptoLevel) (x : α) :
    (l.set level x).get level' = if level' = level then x else l.get level' := by
  cases level <;> cases level' <;> rfl

@[simp] theorem get_set_self (level : CryptoLevel) (x : α) : (l.set level x).get level = x := by
  rw [get_set, if_pos rfl]

end Levels

/-- How far the handshake is. -/
inductive ConnState where
  | preHandshake
  | connecting
  | established
  | failed
deriving DecidableEq

def u32Max : ℕ := 2 ^ 32 - 1

def saturatingAdd32 (a b : ℕ) : ℕ := min (a + b) u32Max

/-- The peer's transport parameters the connection reads. -/
structure PeerParams where
  initialMaxData : ℕ := 0
  initialMaxStreamDataBidiLocal : ℕ := 0
  initialMaxStreamDataBidiRemote : ℕ := 0
  initialMaxStreamDataUni : ℕ := 0
  ackDelayExponent : ℕ := 3
  maxAckDelayMs : ℕ := 25
  initialSourceConnectionId : Option Bytes := none
  originalDestinationConnectionId : Option Bytes := none
  retrySourceConnectionId : Option Bytes := none

/-- What the packet builder and the frame dispatcher use of the TLS driver. -/
class Tls (τ : Type) where
  pushHandshake : τ → CryptoLevel → (offset : ℕ) → Bytes → τ
  /-- Takes octets of a level's outgoing CRYPTO stream. -/
  popHandshake : τ → CryptoLevel → ℕ → τ × Bytes
  hasPendingHandshake : τ → Bool
  hasPendingOneRttCrypto : τ → Bool
  /-- The inner option is `none` when they do not parse. -/
  clientTransportParams : τ → Option (Option PeerParams)

structure StreamRetx where
  sid : ℕ
  offset : ℕ
  fin : Bool
  data : Bytes

structure CryptoRetx where
  level : CryptoLevel
  offset : ℕ
  data : Bytes

/-- A stream-abort frame kept for retransmission. -/
inductive CtrlRetx where
  | resetStream (sid appErrorCode finalSize : ℕ)
  | stopSending (sid appErrorCode : ℕ)

structure SentPacket where
  timeSentUs : ℕ
  ackEliciting : Bool
  inFlight : Bool
  byteCount : ℕ
  streamFrames : List StreamRetx := []
  cryptoFrames : List CryptoRetx := []
  ctrlFrames : List CtrlRetx := []

abbrev SentPackets := HoleRing SentPacket

def reapedStreamsCap : ℕ := 256

/-- The content of a ring cell no id was written to. -/
def reapedStreamEmpty : ℕ := 2 ^ 64 - 1

def initialMaxData : ℕ := 8 <<< 20

/-- What a connection keeps to receive. -/
structure RecvSide where
  recvStreams : SortedMap ℕ RecvStream := .empty
  /-- Streams the application has not accepted yet. -/
  openedStreams : List ℕ := []
  reapedStreams : List ℕ := List.replicate reapedStreamsCap reapedStreamEmpty
  reapedIdx : ℕ := 0
  /-- The error codes of streams the peer reset. -/
  streamResets : List (ℕ × ℕ) := []
  peerBidiStreamsOpened : ℕ := 0
  peerUniStreamsOpened : ℕ := 0
  peerMaxStreamsBidiAdvertised : ℕ := 1024
  peerMaxStreamsUniAdvertised : ℕ := 1024
  dataConsumed : ℕ := 0
  maxDataAdvertised : ℕ := initialMaxData
  dataReceived : ℕ := 0
  forceMaxData : Bool := false
  forceMaxStreamData : Bool := false
  forceMaxStreamsBidi : Bool := false
  forceMaxStreamsUni : Bool := false
  /-- The process-wide count. -/
  recvBuffered : ℕ := 0

/-- What a connection keeps to send. -/
structure SendSide where
  sendStreams : SortedMap ℕ SendStream := .empty
  retxQueue : List StreamRetx := []
  retxBytes : ℕ := 0
  cryptoRetxQueue : List CryptoRetx := []
  pendingResetStreams : List (ℕ × ℕ × ℕ) := []
  pendingStopSending : List (ℕ × ℕ) := []
  /-- Frames of the packet under construction. -/
  pendingSentStreamFrames : List StreamRetx := []
  pendingSentCryptoFrames : List CryptoRetx := []
  pendingSentCtrlFrames : List CtrlRetx := []
  /-- A local of the encoder. -/
  pendingAckEliciting : Bool := false
  abortedSendSids : List ℕ := []
  peerMaxData : ℕ := 0
  dataSent : ℕ := 0
  peerInitialMaxStreamDataBidi : ℕ := 0
  peerInitialMaxStreamDataUni : ℕ := 0
  peerFcApplied : Bool := false

/-- What a connection keeps for loss recovery. -/
structure Recovery (κ : Type) where
  sentPackets : Levels SentPackets := ⟨.empty, .empty, .empty⟩
  bytesInFlight : ℕ := 0
  latestRttUs : Option ℕ := none
  minRttUs : Option ℕ := none
  smoothedRttUs : Option ℕ := none
  rttvarUs : ℕ := 0
  timeOfLastAckElicitingUs : Levels (Option ℕ) := ⟨none, none, none⟩
  ptoCount : ℕ := 0
  peerAckDelayExponent : ℕ := 3
  peerMaxAckDelayUs : ℕ := 25000
  cc : κ

/-- What only a client connection has. -/
structure ClientState where
  serverCidAdopted : Bool := false
  tpsValidated : Bool := false
  retryScid : Option Bytes := none
  initialToken : Bytes := []

/-- Lifecycle, lower-level keys, TLS, address validation, queues and pacing. -/
structure Misc (τ : Type) where
  state : ConnState := .preHandshake
  localCid : Bytes := []
  initialDcid : Bytes := []
  initialSend : Option DirKeys := none
  initialRecv : Option DirKeys := none
  initialKeysDiscarded : Bool := false
  earlyRecv : Option DirKeys := none
  pendingZeroRtt : List Bytes := []
  txOwnerDriven : Bool := false
  tls : τ
  handshakeDoneSent : Bool := false
  pendingPathResponse : Option Bytes := none
  bytesReceivedPreValidation : ℕ := 0
  bytesSentPreValidation : ℕ := 0
  pathValidated : Bool := false
  curRxUs : ℕ := 0
  closePending : Option (ℕ × String) := none
  oneRttCryptoOffset : ℕ := 0
  handshakeCryptoOffset : ℕ := 0
  outbound : List Bytes := []
  paceBudget : ℤ := 0
  paceLastUs : ℕ := 0

/-- The connection fields beyond those of `Connection`. -/
structure Transport (κ τ : Type) where
  recv : RecvSide := {}
  send : SendSide := {}
  recovery : Recovery κ
  client : Option ClientState := none
  misc : Misc τ

abbrev Conn (κ τ : Type) := Connection (Transport κ τ)

namespace Conn

variable {κ τ : Type} (c : Conn κ τ)

def isClient : Bool := c.rest.client.isSome

def setRecv (r : RecvSide) : Conn κ τ := { c with rest := { c.rest with recv := r } }

def setSend (s : SendSide) : Conn κ τ := { c with rest := { c.rest with send := s } }

def setRecovery (r : Recovery κ) : Conn κ τ := { c with rest := { c.rest with recovery := r } }

def setMisc (m : Misc τ) : Conn κ τ := { c with rest := { c.rest with misc := m } }

def space : CryptoLevel → SpaceState
  | .initial => c.initialSpace
  | .handshake => c.handshakeSpace
  | .oneRtt => c.applicationSpace

def setSpace (level : CryptoLevel) (s : SpaceState) : Conn κ τ :=
  match level with
  | .initial => { c with initialSpace := s }
  | .handshake => { c with handshakeSpace := s }
  | .oneRtt => { c with applicationSpace := s }

@[simp] theorem setSend_send (s : SendSide) : (c.setSend s).rest.send = s := rfl

@[simp] theorem setSpace_rest (l : CryptoLevel) (s : SpaceState) : (c.setSpace l s).rest = c.rest := by
  cases l <;> rfl

theorem setSpace_space (l l' : CryptoLevel) (s : SpaceState) :
    (c.setSpace l s).space l' = if l' = l then s else c.space l' := by
  cases l <;> cases l' <;> rfl

@[simp] theorem noteAppAckEliciting_rest : c.noteAppAckEliciting.rest = c.rest := rfl

def closeWithError (errorCode : ℕ) (reason : String) : Conn κ τ :=
  if c.rest.misc.closePending = none ∧ c.rest.misc.state ≠ .failed then
    c.setMisc { c.rest.misc with closePending := some (errorCode, reason) }
  else c

end Conn

def pushCapped {α : Type} (v : List α) (item : α) (cap : ℕ) : List α :=
  (if v.length ≥ cap then v.drop 1 else v) ++ [item]

def streamResetsCap : ℕ := 16

namespace RecvSide

variable (r : RecvSide)

def markReaped (sid : ℕ) : RecvSide :=
  { r with
    reapedStreams := r.reapedStreams.set r.reapedIdx sid
    reapedIdx := (r.reapedIdx + 1) % reapedStreamsCap }

def isReaped (sid : ℕ) : Bool := r.reapedStreams.contains sid

def recordPeerReset (sid code : ℕ) : RecvSide :=
  if r.streamResets.any (·.1 == sid) then r
  else { r with streamResets := pushCapped r.streamResets (sid, code) streamResetsCap }

def popAcceptedStream : RecvSide × Option ℕ :=
  match r.openedStreams with
  | [] => (r, none)
  | sid :: rest => ({ r with openedStreams := rest }, some sid)

def credit (n : ℕ) : RecvSide :=
  { r with dataConsumed := r.dataConsumed + n, recvBuffered := r.recvBuffered - n }

/-- The bytes, and whether the end is reached. -/
def streamRecv (sid room : ℕ) : RecvSide × Bytes × Bool :=
  match r.recvStreams.get? sid with
  | none => (r, [], false)
  | some s =>
    let (s, data, eof) := s.drain room
    ({ r with recvStreams := r.recvStreams.insert sid s }.credit data.length, data, eof)

def discardLoop : ℕ → RecvStream → ℕ → RecvStream × ℕ
  | 0, s, total => (s, total)
  | fuel + 1, s, total =>
    match s.drain 2048 with
    | (s, [], _) => (s, total)
    | (s, b :: bs, _) => discardLoop fuel s (total + (b :: bs).length)

def discardRecv (sid : ℕ) : RecvSide :=
  match r.recvStreams.get? sid with
  | none => r
  | some s =>
    let (s, total) := discardLoop (s.buffer.length + 1) s 0
    { r with recvStreams := r.recvStreams.insert sid s }.credit total

def drop : RecvSide := { r with recvBuffered := r.recvBuffered - (r.dataReceived - r.dataConsumed) }

end RecvSide

def isBidirectional (sid : ℕ) : Bool := sid / 2 % 2 = 0

namespace Conn

variable {κ τ : Type} [Tls τ] (c : Conn κ τ)

/-- Once TLS has the peer's parameters. -/
def applyPeerFlowControl : Conn κ τ :=
  if c.rest.send.peerFcApplied then c
  else
    match Tls.clientTransportParams c.rest.misc.tls with
    | some (some p) =>
      (c.setSend { c.rest.send with
        peerMaxData := p.initialMaxData
        peerInitialMaxStreamDataBidi :=
          if c.isClient then p.initialMaxStreamDataBidiRemote else p.initialMaxStreamDataBidiLocal
        peerInitialMaxStreamDataUni := p.initialMaxStreamDataUni
        peerFcApplied := true }).setRecovery { c.rest.recovery with
          peerAckDelayExponent := p.ackDelayExponent
          peerMaxAckDelayUs := p.maxAckDelayMs * 1000 }
    | _ => c

def freshSendStream (sid : ℕ) : SendStream :=
  { rxUs := (c.rest.recv.recvStreams.get? sid).elim 0 RecvStream.rxUs
    peerMaxStreamData :=
      if isBidirectional sid then c.rest.send.peerInitialMaxStreamDataBidi
      else c.rest.send.peerInitialMaxStreamDataUni }

def ensureSendStream (sid : ℕ) : Conn κ τ :=
  if c.rest.send.sendStreams.contains sid then c
  else
    let c := c.applyPeerFlowControl
    c.setSend { c.rest.send with
      sendStreams := c.rest.send.sendStreams.insert sid (c.freshSendStream sid) }

def modifySendStream (sid : ℕ) (f : SendStream → SendStream) : Conn κ τ :=
  let c := c.ensureSendStream sid
  match c.rest.send.sendStreams.get? sid with
  | none => c
  | some s => c.setSend { c.rest.send with sendStreams := c.rest.send.sendStreams.insert sid (f s) }

def streamSend (sid : ℕ) (data : Bytes) : Conn κ τ := c.modifySendStream sid (·.writeIobuf data)

def streamClose (sid : ℕ) : Conn κ τ := c.modifySendStream sid SendStream.close

/-- What is queued for it goes, and a RESET_STREAM is due. -/
def resetStream (sid appErrorCode : ℕ) : Conn κ τ :=
  let c := c.ensureSendStream sid
  match c.rest.send.sendStreams.get? sid with
  | none => c
  | some s =>
    if s.state = .resetSent then c
    else
      let (s, finalSize) := s.abort
      let purged := (c.rest.send.retxQueue.filter (·.sid = sid)).foldl
        (fun n f => saturatingAdd32 n f.data.length) 0
      c.setSend { c.rest.send with
        sendStreams := c.rest.send.sendStreams.insert sid s
        retxQueue := c.rest.send.retxQueue.filter (·.sid ≠ sid)
        retxBytes := c.rest.send.retxBytes - purged
        abortedSendSids := pushCapped c.rest.send.abortedSendSids sid streamResetsCap
        pendingResetStreams := c.rest.send.pendingResetStreams ++ [(sid, appErrorCode, finalSize)] }

/-- Ask the peer to stop sending, and drop what is buffered. -/
def stopSending (sid appErrorCode : ℕ) : Conn κ τ :=
  let c := c.setSend { c.rest.send with
    pendingStopSending := c.rest.send.pendingStopSending ++ [(sid, appErrorCode)] }
  c.setRecv (c.rest.recv.discardRecv sid)

def maxReapPerCall : ℕ := 32

def finished (sid : ℕ) (s : SendStream) : Bool :=
  s.finSent && s.outbound.isEmpty &&
    (c.rest.recv.recvStreams.get? sid).any fun r => r.isClosed && r.buffer.isEmpty

def reapCandidates : List ℕ :=
  ((c.rest.send.sendStreams.entries.filter fun e => c.finished e.1 e.2).map Prod.fst).take
    maxReapPerCall

def reapStream (sid : ℕ) : Conn κ τ :=
  let c := c.setSend { c.rest.send with sendStreams := c.rest.send.sendStreams.erase sid }
  c.setRecv ({ c.rest.recv with recvStreams := c.rest.recv.recvStreams.erase sid }.markReaped sid)

def reapFinishedStreams : Conn κ τ := c.reapCandidates.foldl reapStream c

end Conn

end Waitless.Quic
