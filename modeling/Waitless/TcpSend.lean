import Waitless.TcpSegment

/-! # Sending data, and the opening and closing segments

`send.rs` and the connection part of `connect.rs` and `listener.rs`: `asyncTrySendChain` with its
per-segment loop and its super-segment path, `trySendTso`, the SYN of an active open, and the FIN
of `close`. -/

namespace Waitless.Tcp

/-- What the driver offers and how many frames it still takes. -/
structure Driver where
  tsoAvailable : Bool
  macResolves : Bool
  tsoSlot : Bool
  txRoom : ℕ
  /-- capacity of a super-segment slot -/
  dataCap : ℕ

/-- Header bytes before the payload: Ethernet, IP and TCP. -/
def payloadOffset : IpAddr → ℕ
  | .v4 _ => 54
  | .v6 _ => 74

def tsoFrameBufLen : ℕ := 14 + 40 + 20 + 16384 + 24

/-- The frames sent and the number of payload bytes in them. -/
def sendPerMssFallback (mss : ℕ) : ℕ → SegmentMeta → Bytes → List TxSegment × ℕ
  | 0, _, _ => ([], 0)
  | room + 1, head, bytes =>
    if bytes.isEmpty then ([], 0)
    else
      let chunk := min bytes.length mss
      let (frames, sent) :=
        sendPerMssFallback mss room { head with seq := head.seq + UInt32.ofNat chunk }
          (bytes.drop chunk)
      (⟨head, bytes.take (min chunk mssMax), []⟩ :: frames, chunk + sent)

def sendSuperSegment (d : Driver) (mss : ℕ) (head : SegmentMeta) (bytes : Bytes) :
    List TxSegment × ℕ :=
  if !d.macResolves then ([], 0)
  else if d.tsoSlot then ([⟨head, bytes, []⟩], bytes.length)
  else sendPerMssFallback mss d.txRoom head bytes

def synOptionBlob (mss : ℕ) (wscale sack : Bool) : Bytes :=
  [2, 4, UInt8.ofNat (mss / 256), UInt8.ofNat mss] ++
    (if wscale then [1, 3, 3, 0] else []) ++ (if sack then [4, 2, 1, 1] else [])

variable {κ : Type} [CongestionControl κ]

namespace Local

/-- What a send answers. -/
inductive SendResult where
  | closed
  | sent (bytes : ℕ)

/-- The send strategy of `async_try_send_chain`. -/
def emitData (c : TcpConnection κ) (d : Driver) (bytes : Bytes) : List TxSegment × ℕ :=
  let head := c.header c.sndNxt c.rcvNxt (tcpAck ||| tcpPsh) c.rxFree
  if d.tsoAvailable ∧ c.sndMss < bytes.length ∧
      payloadOffset c.localIp + bytes.length ≤ tsoFrameBufLen then
    sendSuperSegment d c.sndMss head bytes
  else sendPerMssFallback c.sndMss (if d.macResolves then d.txRoom else 0) head bytes

def advanceSnd (l : Local κ) (n : ℕ) (frames : List TxSegment) : Local κ :=
  { l with
    conn := { l.conn with sndNxt := l.conn.sndNxt + UInt32.ofNat n }
    tx := l.tx ++ frames }

/-- The chain keeps what was not sent. -/
def asyncTrySendChain (l : Local κ) (chain : List Bytes) (d : Driver) (now : ℕ)
    (reserve : ℕ → Bool) : Local κ × List Bytes × SendResult :=
  let c := l.conn
  if c.state ≠ .established then (l, chain, .closed)
  else
    let total := chain.flatten.length
    if total = 0 then (l, chain, .sent 0)
    else
      let sendable := min total c.usableWindow
      if sendable = 0 then
        (if c.sndWnd = 0 ∧ c.persistDeadlineMs = 0 then l.armPersist now else l, chain, .sent 0)
      else
        let (frames, actuallySent) := emitData c d (chain.flatten.take sendable)
        let (l, chain) := (l.advanceSnd actuallySent frames).rtxOnDataSent chain actuallySent now
          reserve
        (l, chain, .sent actuallySent)

/-- `fill` is what the closure wrote, `staged` and `reserved` answer allocations. -/
def trySendTso (l : Local κ) (minPayload : ℕ) (fill : Option Bytes) (d : Driver) (now : ℕ)
    (staged reserved : Bool) : Local κ × Option SendResult :=
  let c := l.conn
  if c.state ≠ .established then (l, none)
  else if minPayload ≤ c.sndMss then (l, none)
  else if c.usableWindow < minPayload then (l, none)
  else if !d.macResolves || !d.tsoSlot then (l, none)
  else
    match fill with
    | none => (l, some .closed)
    | some payload =>
      if payload.isEmpty then (l, some (.sent 0))
      else if d.dataCap - payloadOffset c.localIp < payload.length then (l, none)
      else
        let head := c.header c.sndNxt c.rcvNxt (tcpAck ||| tcpPsh) c.rxFree
        ((l.advanceSnd payload.length [⟨head, payload, []⟩]).rtxOnDataSentSlice payload now staged
          reserved, some (.sent payload.length))

def sendSyn (l : Local κ) : Local κ :=
  l.sendSegmentOpts (l.conn.header l.conn.sndUna 0 tcpSyn rxRingBytes) []
    (synOptionBlob (mssFor l.conn.localIp) true true)

def retransmitSyn (l : Local κ) (now : ℕ) : Local κ :=
  let l := l.sendSyn
  { l with conn := { l.conn with
    rttAnchorActive := false
    finRetxCount := satSucc8 l.conn.finRetxCount } }.armFinTimer now

def sendFin (l : Local κ) (state : TcpState) (now : ℕ) : Local κ :=
  let l := l.sendControl l.conn.sndNxt l.conn.rcvNxt (tcpFin ||| tcpAck) l.conn.rxFree
  { l with conn := { l.conn with sndNxt := l.conn.sndNxt + 1, state := state } }.armFinTimer now

/-- The FIN, or `none` when the slot is to be freed. -/
def close (l : Local κ) (now : ℕ) : Option (Local κ) :=
  match l.conn.state with
  | .established => some (l.sendFin .finWait1 now)
  | .closeWait => some (l.sendFin .lastAck now)
  | _ => none

def isReadableOrClosed (c : TcpConnection κ) : Bool :=
  decide (0 < c.rxUsed) || c.pendingChunk.isSome ||
    decide (c.state = .closed ∨ c.state = .closeWait ∨ c.state = .lastAck ∨ c.state = .timeWait)

def asyncRecv (l : Local κ) (cap : ℕ) : Local κ × Bytes := l.rxPop cap

/-- `reserved` answers the allocation of the copy. -/
def doRecvChunk (l : Local κ) (reserved : Bool) : Local κ × Option Bytes :=
  match l.conn.pendingChunk with
  | some chunk => ({ l with conn := { l.conn with pendingChunk := none } }, some chunk)
  | none =>
    if l.conn.rxUsed = 0 then (l, none)
    else if !reserved then (l, none)
    else
      let (l, out) := l.rxPop l.conn.rxUsed
      (l, some out)

def setChunkWanted (l : Local κ) (wanted : Bool) : Local κ :=
  { l with conn := { l.conn with chunkWanted := wanted } }

end Local

end Waitless.Tcp
