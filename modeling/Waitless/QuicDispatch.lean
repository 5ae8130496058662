import Waitless.QuicLoss
import Waitless.QuicWire

/-! # Dispatching received frames

The model of `dispatch_frames` (`conn/rx.rs`) and of what each frame does to the connection. -/

namespace Waitless.Quic

open Waitless.AesGcm
open Waitless.Tcp (CongestionControl)

def maxConcurrentRecvStreams : ℕ := 8192

def exceedsStreamLimit (sid bidiAdv uniAdv live : ℕ) : Bool :=
  let count := sid / 4 + 1
  let limit := if sid % 4 = 0 then bidiAdv else if sid % 4 = 2 then uniAdv else 0
  count > limit || live ≥ maxConcurrentRecvStreams

def clientExceedsStreamLimit (sid bidiAdv uniAdv live : ℕ) : Bool :=
  let count := sid / 4 + 1
  if sid % 4 = 0 then live ≥ maxConcurrentRecvStreams
  else
    let limit := if sid % 4 = 1 then bidiAdv else if sid % 4 = 3 then uniAdv else 0
    count > limit || live ≥ maxConcurrentRecvStreams

/-- The error code and reason of a close. -/
abbrev CloseError := ℕ × String

namespace RecvSide

variable (r : RecvSide) (isClient : Bool)

def overLimit (sid : ℕ) : Bool :=
  if isClient then
    clientExceedsStreamLimit sid r.peerMaxStreamsBidiAdvertised r.peerMaxStreamsUniAdvertised
      r.recvStreams.size
  else
    exceedsStreamLimit sid r.peerMaxStreamsBidiAdvertised r.peerMaxStreamsUniAdvertised
      r.recvStreams.size

def putStream (sid : ℕ) (s : RecvStream) : RecvSide :=
  { r with recvStreams := r.recvStreams.insert sid s }

def charge (n : ℕ) : RecvSide :=
  { r with dataReceived := r.dataReceived + n, recvBuffered := r.recvBuffered + n }

def noteOpened (sid : ℕ) : RecvSide :=
  let count := sid / 4 + 1
  let bidiKind := if isClient then 1 else 0
  let uniKind := if isClient then 3 else 2
  if sid % 4 = bidiKind then { r with peerBidiStreamsOpened := max r.peerBidiStreamsOpened count }
  else if sid % 4 = uniKind then { r with peerUniStreamsOpened := max r.peerUniStreamsOpened count }
  else r

def announces (wasNew : Bool) (sid : ℕ) : Bool :=
  if isClient then
    if sid % 4 = 3 then !r.openedStreams.contains sid else sid % 4 = 1 && wasNew
  else if sid % 4 = 2 then !r.openedStreams.contains sid
  else wasNew

def announce (sid : ℕ) : RecvSide := { r with openedStreams := r.openedStreams ++ [sid] }

def ingestOn (wasNew : Bool) (s : RecvStream) (sid offset : ℕ) (data : Bytes) (fin : Bool) :
    RecvSide × Option CloseError :=
  let frameEnd := offset + data.length
  let connDelta := frameEnd - s.recvHigh
  if frameEnd > s.recvMax ∨ r.dataReceived + connDelta > r.maxDataAdvertised then
    (r.putStream sid s, some (0x03, "flow control"))
  else
    let s := ({ s with recvHigh := max s.recvHigh frameEnd }.ingest offset data fin).1
    let r := (r.charge connDelta).putStream sid s
    let r := if wasNew then r.noteOpened isClient sid else r
    (if r.announces isClient wasNew sid then r.announce sid else r, none)

/-- The stream is not in the ring of reaped ids. -/
def receiveStream (curRxUs sid offset : ℕ) (data : Bytes) (fin : Bool) :
    RecvSide × Option CloseError :=
  match r.recvStreams.get? sid with
  | some s => r.ingestOn isClient false s sid offset data fin
  | none =>
    if r.overLimit isClient sid then (r, some (0x04, "stream limit"))
    else r.ingestOn isClient true { rxUs := curRxUs } sid offset data fin

def resetOn (wasNew : Bool) (s : RecvStream) (sid appErrorCode finalSize : ℕ) :
    RecvSide × Option CloseError :=
  if finalSize < s.recvHigh ∨ s.finOffset.any (· ≠ finalSize) then
    (r.putStream sid s, some (0x12, "final size"))
  else
    let connDelta := finalSize - s.recvHigh
    if finalSize > s.recvMax ∨ r.dataReceived + connDelta > r.maxDataAdvertised then
      (r.putStream sid s, some (0x03, "flow control"))
    else
      let newlyConsumed := finalSize - s.consumed
      let r := (((r.charge connDelta).putStream sid (s.applyReset finalSize)).credit
        newlyConsumed).recordPeerReset sid appErrorCode
      let accept := if isClient then sid % 4 = 1 ∨ sid % 4 = 3 else sid % 4 = 0 ∨ sid % 4 = 2
      (if wasNew ∧ accept then r.announce sid else r, none)

/-- The stream is not in the ring of reaped ids. -/
def receiveReset (sid appErrorCode finalSize : ℕ) : RecvSide × Option CloseError :=
  let ourUni := if isClient then 2 else 3
  if sid % 4 = ourUni then (r, some (0x05, "reset on send-only"))
  else
    match r.recvStreams.get? sid with
    | some s => r.resetOn isClient false s sid appErrorCode finalSize
    | none =>
      if r.overLimit isClient sid then (r, some (0x04, "stream limit"))
      else r.resetOn isClient true {} sid appErrorCode finalSize

def noteBlocked (kind : UInt8) : RecvSide :=
  if kind = 0x14 then { r with forceMaxData := true }
  else if kind = 0x15 then { r with forceMaxStreamData := true }
  else if kind = 0x16 then { r with forceMaxStreamsBidi := true }
  else if kind = 0x17 then { r with forceMaxStreamsUni := true }
  else r

end RecvSide

namespace Conn

variable {κ τ : Type} (c : Conn κ τ)

/-- A close error ends the dispatch. -/
def settle (res : RecvSide × Option CloseError) : Conn κ τ × Bool :=
  match res.2 with
  | none => ((c.setRecv res.1).noteAppAckEliciting, true)
  | some (code, reason) => ((c.setRecv res.1).closeWithError code reason, false)

def processStream (sid offset : ℕ) (data : Bytes) (fin : Bool) : Conn κ τ × Bool :=
  if c.rest.recv.isReaped sid then (c.noteAppAckEliciting, true)
  else c.settle (c.rest.recv.receiveStream c.isClient c.rest.misc.curRxUs sid offset data fin)

def processResetStream (sid appErrorCode finalSize : ℕ) : Conn κ τ × Bool :=
  if c.rest.recv.isReaped sid then (c.noteAppAckEliciting, true)
  else c.settle (c.rest.recv.receiveReset c.isClient sid appErrorCode finalSize)

def processStopSending [Tls τ] (sid appErrorCode : ℕ) : Conn κ τ × Bool :=
  if c.rest.recv.isReaped sid then (c.noteAppAckEliciting, true)
  else
    let peerUni := if c.isClient then 3 else 2
    if sid % 4 = peerUni then (c.closeWithError 0x05 "stop_sending recv-only", false)
    else
      let localInitBit := if c.isClient then 0 else 1
      if sid % 2 = localInitBit ∧ c.rest.send.sendStreams.contains sid = false then
        (c.closeWithError 0x05 "stop_sending unopened", false)
      else
        let terminal := (c.rest.send.sendStreams.get? sid).any SendStream.finSent
        ((if terminal then c else c.resetStream sid appErrorCode).noteAppAckEliciting, true)

def confirmHandshake : Conn κ τ :=
  if c.handshakeKeysDiscarded then c
  else
    discardSentPackets .handshake
      { c with handshakeKeysDiscarded := true, handshakeSend := none, handshakeRecv := none }

def raiseStreamLimit (sid maximum : ℕ) : Conn κ τ :=
  match c.rest.send.sendStreams.get? sid with
  | none => c
  | some s =>
    c.setSend { c.rest.send with
      sendStreams := c.rest.send.sendStreams.insert sid
        { s with peerMaxStreamData := max s.peerMaxStreamData maximum } }

variable [CongestionControl κ] [Tls τ] (now : ℕ) (level : CryptoLevel)

/-- The flag says whether the dispatch goes on. -/
def dispatchFrame : Frame → Conn κ τ × Bool
  | .padding | .ping => (c, true)
  | .crypto offset data =>
    (c.setMisc { c.rest.misc with tls := Tls.pushHandshake c.rest.misc.tls level offset data }, true)
  | .ack largest delay first ranges _ => (c.processAck now level largest delay first ranges, true)
  | .connectionCloseTransport _ _ _ => (c.setMisc { c.rest.misc with state := .failed }, false)
  | .connectionCloseApplication _ _ => (c.setMisc { c.rest.misc with state := .failed }, false)
  | .handshakeDone => (if c.isClient then c.confirmHandshake else c, true)
  | .stream sid offset data fin =>
    if level = .oneRtt then c.processStream sid offset data fin else (c, true)
  | .maxData maximum =>
    (c.setSend { c.rest.send with peerMaxData := max c.rest.send.peerMaxData maximum }, true)
  | .maxStreamData sid maximum => (c.raiseStreamLimit sid maximum, true)
  | .pathChallenge data => (c.setMisc { c.rest.misc with pendingPathResponse := some data }, true)
  | .resetStream sid code finalSize =>
    if level = .oneRtt then c.processResetStream sid code finalSize else (c, true)
  | .stopSending sid code =>
    if level = .oneRtt then c.processStopSending sid code else (c, true)
  | .skipped kind => (c.setRecv (c.rest.recv.noteBlocked kind), true)

/-- Each frame takes an octet at least. -/
def dispatchLoop : ℕ → Bytes → Conn κ τ → Conn κ τ × Except ConnError Unit
  | 0, _, c => (c, .ok ())
  | _ + 1, [], c => (c, .ok ())
  | fuel + 1, payload, c =>
    match parseFrame payload with
    | .error _ => (c, .error .wire)
    | .ok (frame, rest) =>
      match c.dispatchFrame now level frame with
      | (c, false) => (c, .ok ())
      | (c, true) => dispatchLoop fuel rest c

def dispatchFrames (payload : Bytes) : Conn κ τ × Except ConnError Unit :=
  dispatchLoop now level payload.length payload c

end Conn

end Waitless.Quic
