import Waitless.QuicBuild
import Waitless.Runs

/-! # What happens to a connection

An `Event` is a call of the application, a received frame, a packet that is built, or a turn of the
reaper. What the events do not name (keys, TLS, the receive bookkeeping of the packet-number
spaces, pacing, queues) changes arbitrarily in between (`Event.other`). -/

namespace Waitless.Quic

open Waitless.AesGcm
open Waitless.Tcp (CongestionControl)

/-- Not streams, packets in flight or numbers. -/
structure Others (τ : Type) where
  keys : AppKeys := {}
  handshakeSend : Option DirKeys := none
  handshakeRecv : Option DirKeys := none
  handshakeKeysDiscarded : Bool := false
  authenticatedPkts : UInt64 := 0
  appAckElicitingSinceAck : UInt32 := 0
  appFirstUnackedUs : UInt64 := 0
  lastRecvUs : UInt64 := 0
  peerCid : Bytes := []
  /-- Of these, what was received. -/
  spaces : Levels SpaceState := ⟨{}, {}, {}⟩
  client : ClientState := {}
  cryptoRetxQueue : List CryptoRetx := []
  misc : Misc τ

/-- What can happen to a connection. -/
inductive Event (τ : Type) where
  -- the application
  | send (sid : ℕ) (data : Bytes)
  | close (sid : ℕ)
  | reset (sid appErrorCode : ℕ)
  | stopSending (sid appErrorCode : ℕ)
  | recv (sid room : ℕ)
  | discardRecv (sid : ℕ)
  | accept
  | applyPeerFlowControl
  -- the peer
  | frame (level : CryptoLevel) (f : Frame)
  -- packets
  | oneRtt (padToWire : Option ℕ)
  | initial (crypto : Bytes) (emitAck : Bool)
  | handshake (crypto : Bytes) (emitAck : Bool)
  | probe
  | flushClose
  -- housekeeping
  | discardInitial
  | discardHandshake
  | retry
  | reap
  | other (o : Others τ)

namespace Conn

variable {κ τ : Type}

def withReceived (s received : SpaceState) : SpaceState :=
  { received with nextSendPn := s.nextSendPn, largestAcked := s.largestAcked }

/-- Replace everything the events do not name. -/
def setOthers (c : Conn κ τ) (o : Others τ) : Conn κ τ where
  keys := o.keys
  initialSpace := withReceived c.initialSpace o.spaces.initial
  handshakeSpace := withReceived c.handshakeSpace o.spaces.handshake
  applicationSpace := withReceived c.applicationSpace o.spaces.oneRtt
  handshakeSend := o.handshakeSend
  handshakeRecv := o.handshakeRecv
  handshakeKeysDiscarded := o.handshakeKeysDiscarded
  authenticatedPkts := o.authenticatedPkts
  appAckElicitingSinceAck := o.appAckElicitingSinceAck
  appFirstUnackedUs := o.appFirstUnackedUs
  lastRecvUs := o.lastRecvUs
  peerCid := o.peerCid
  rest :=
    { c.rest with
      send := { c.rest.send with cryptoRetxQueue := o.cryptoRetxQueue }
      client := c.rest.client.map fun _ => o.client
      misc := o.misc }

variable [CongestionControl κ] [Tls τ] (P : Primitives)

def step (c : Conn κ τ) (now : ℕ) : Event τ → Conn κ τ
  | .send sid data => c.streamSend sid data
  | .close sid => c.streamClose sid
  | .reset sid code => c.resetStream sid code
  | .stopSending sid code => c.stopSending sid code
  | .recv sid room => c.setRecv (c.rest.recv.streamRecv sid room).1
  | .discardRecv sid => c.setRecv (c.rest.recv.discardRecv sid)
  | .accept => c.setRecv c.rest.recv.popAcceptedStream.1
  | .applyPeerFlowControl => c.applyPeerFlowControl
  | .frame level f => (c.dispatchFrame now level f).1
  | .oneRtt padToWire => (c.encodeOneRtt now P padToWire []).1
  | .initial crypto emitAck => (c.encodeInitialPacket P now crypto emitAck []).1
  | .handshake crypto emitAck => (c.encodeHandshakePacket P now crypto emitAck []).1
  | .probe => (c.sendPtoProbe now P).1
  | .flushClose => c.flushClose now P
  | .discardInitial => discardSentPackets .initial c
  | .discardHandshake => discardSentPackets .handshake c
  | .retry => c.drainInitialSent
  | .reap => c.reapFinishedStreams
  | .other o => c.setOthers o

/-- A connection before its first event. -/
structure Fresh (c : Conn κ τ) : Prop where
  recv : c.rest.recv = { recvBuffered := c.rest.recv.recvBuffered }
  send : c.rest.send = {}
  recovery : c.rest.recovery = { cc := c.rest.recovery.cc }
  space : ∀ level, c.space level = {}

end Conn

/-- With a record of what happened. -/
structure History (κ τ : Type) where
  conn : Conn κ τ
  /-- Handed to the application, oldest first. -/
  accepted : List ℕ := []
  /-- The reaped stream ids, latest first. -/
  reaped : List ℕ := []
  arrived : List (ℕ × ℕ × ℕ) := []
  /-- The largest acknowledged numbers that arrived. -/
  acknowledged : List (CryptoLevel × ℕ) := []
  /-- The frames of 1-RTT packets, oldest first. -/
  packets : List (List TxFrame) := []
  handed : List StreamRetx := []
  acked : List StreamRetx := []

/-- Its stream, and the offset it reaches. -/
def Frame.streamEnd : Frame → Option (ℕ × ℕ)
  | .stream sid offset data _ => some (sid, offset + data.length)
  | .resetStream sid _ finalSize => some (sid, finalSize)
  | _ => none

def Frame.largestAcknowledged : Frame → Option ℕ
  | .ack largest _ _ _ _ => some largest
  | _ => none

def Event.streamEnd {τ : Type} : Event τ → Option (ℕ × ℕ)
  | .frame .oneRtt f => f.streamEnd
  | _ => none

def Event.acknowledges {τ : Type} : Event τ → Option (CryptoLevel × ℕ)
  | .frame level f => f.largestAcknowledged.map (level, ·)
  | _ => none

namespace History

variable {κ τ : Type} [CongestionControl κ] [Tls τ] (P : Primitives)

/-- Empty when the encoder builds no 1-RTT packet. -/
def builtBody (c : Conn κ τ) (now : ℕ) : Body :=
  match c.keys.applicationSend with
  | none => {}
  | some _ => (c.appendFrames now).2.toOption.getD {}

def ackedFrames (c : Conn κ τ) : CryptoLevel → Frame → List StreamRetx
  | level, .ack largest _ first ranges _ =>
    (c.ackRun level largest first ranges).acked.flatMap fun e => e.2.streamFrames
  | _, _ => []

def step (h : History κ τ) (i : ℕ × Event τ) : History κ τ :=
  let conn := h.conn.step P i.1 i.2
  match i.2 with
  | .accept => { h with conn, accepted := h.accepted ++ h.conn.rest.recv.popAcceptedStream.2.toList }
  | .reap => { h with conn, reaped := h.conn.reapCandidates.reverse ++ h.reaped }
  | .frame level f =>
    { h with
      conn
      arrived := h.arrived ++ i.2.streamEnd.toList.map fun e =>
        (e.1, e.2, conn.rest.recv.dataReceived - h.conn.rest.recv.dataReceived)
      acknowledged := h.acknowledged ++ i.2.acknowledges.toList
      acked := h.acked ++ ackedFrames h.conn level f }
  | .oneRtt _ =>
    let b := builtBody h.conn i.1
    { h with conn, packets := h.packets ++ [b.frames], handed := h.handed ++ b.handed }
  | _ => { h with conn }

def run (h : History κ τ) (is : List (ℕ × Event τ)) : History κ τ := is.foldl (step P) h

theorem run_append (h : History κ τ) (is js : List (ℕ × Event τ)) :
    h.run P (is ++ js) = (h.run P is).run P js := List.foldl_append

@[simp] theorem run_cons (h : History κ τ) (i : ℕ × Event τ) (is : List (ℕ × Event τ)) :
    h.run P (i :: is) = (h.step P i).run P is := rfl

@[simp] theorem run_nil (h : History κ τ) : h.run P [] = h := rfl

@[simp] theorem step_conn (h : History κ τ) (i : ℕ × Event τ) :
    (h.step P i).conn = h.conn.step P i.1 i.2 := by
  obtain ⟨now, e⟩ := i
  cases e <;> rfl

variable {h : History κ τ} {i : ℕ × Event τ}

theorem step_reaped (he : i.2 ≠ .reap) :
    (h.step P i).reaped = h.reaped := by
  obtain ⟨now, e⟩ := i
  cases e <;> first | rfl | exact absurd rfl he

theorem mem_reaped_step (i : ℕ × Event τ) {sid : ℕ} (hsid : sid ∈ h.reaped) :
    sid ∈ (h.step P i).reaped := by
  obtain ⟨now, e⟩ := i
  cases e <;> first | exact hsid | exact List.mem_append_right _ hsid

theorem step_packets (he : ∀ padToWire, i.2 ≠ .oneRtt padToWire) :
    (h.step P i).packets = h.packets := by
  obtain ⟨now, e⟩ := i
  cases e <;> first | rfl | exact absurd rfl (he _)

theorem step_accepted (he : i.2 ≠ .accept) :
    (h.step P i).accepted = h.accepted := by
  obtain ⟨now, e⟩ := i
  cases e <;> first | rfl | exact absurd rfl he

theorem step_arrived (h : History κ τ) (i : ℕ × Event τ) : (h.step P i).arrived =
    h.arrived ++ i.2.streamEnd.toList.map fun e =>
      (e.1, e.2, (h.conn.step P i.1 i.2).rest.recv.dataReceived - h.conn.rest.recv.dataReceived) := by
  obtain ⟨now, e⟩ := i
  cases e <;> first | rfl | exact (List.append_nil _).symm

end History

theorem fresh_sampleConn : sampleConn.Fresh := ⟨rfl, rfl, rfl, fun level => by cases level <;> rfl⟩

end Waitless.Quic
