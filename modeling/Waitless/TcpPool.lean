import Waitless.OpenAddressing
import Waitless.TcpSend

/-! # The per-core connection pool

`pool.rs`: the slots of one core with their free list, the 4-tuple hash, the armed-timer list, the
accept rings and the listener map, and the two functions everything else goes through,
`allocConnection` and `freeConnection`. -/

namespace Waitless.Tcp

def tcpHashSize : ℕ := 65536
def maxAcceptRings : ℕ := 8
def acceptRingCapacity : ℕ := 4096
def maxListenersPerCore : ℕ := 8
def challengeAckRate : ℕ := 100
def challengeAckBurst : ℕ := 100

/-- Free-running producer and consumer cursors over 4096 cells. -/
structure AcceptRing where
  head : UInt32
  tail : UInt32
  slots : ℕ → ℕ

def AcceptRing.new : AcceptRing := ⟨0, 0, fun _ => 0⟩

/-- The eight accept rings; port `0` marks an unassigned one. -/
structure AcceptRingTable where
  ports : ℕ → UInt16
  rings : ℕ → AcceptRing

structure ListenerMap where
  ports : ℕ → UInt16
  slots : ℕ → ℕ

/-- The TCP state of a core. -/
structure Core (κ : Type) where
  slots : ℕ → TcpConnection κ
  segments : ℕ
  freeHead : ℕ
  hash : OpenAddressing.Table UInt64 ℕ
  tickHead : ℕ
  acceptRings : AcceptRingTable
  listeners : ListenerMap
  challengeTokens : ℕ
  challengeLastMs : ℕ
  nextOffset : ℕ
  tx : List TxSegment

/-- What one call finds in its surroundings. -/
structure Env where
  now : ℕ
  isn : UInt32
  growOk : Bool
  ringOk : Bool
  reserved : Bool
  reserve : ℕ → Bool
  driver : Driver

/-- Surroundings that grant every request, for concrete runs. -/
def Env.granting (now : ℕ) : Env where
  now := now
  isn := 1000
  growOk := true
  ringOk := true
  reserved := true
  reserve := fun _ => true
  driver := ⟨false, true, false, 1048576, 0⟩

variable {κ : Type} [CongestionControl κ]

namespace Core

def init : Core κ where
  slots := fun _ => .new
  segments := 0
  freeHead := nullSlot
  hash := ⟨fun _ => 0, fun _ => 0⟩
  tickHead := nullSlot
  acceptRings := ⟨fun _ => 0, fun _ => .new⟩
  listeners := ⟨fun _ => 0, fun _ => 0⟩
  challengeTokens := challengeAckBurst
  challengeLastMs := 0
  nextOffset := 0
  tx := []

def capacity (s : Core κ) : ℕ := s.segments * segmentSize

def setSlot (s : Core κ) (i : ℕ) (c : TcpConnection κ) : Core κ :=
  { s with slots := Function.update s.slots i c }

/-- What a method of the connection in slot `i` works on. -/
def localAt (s : Core κ) (i : ℕ) : Local κ := ⟨s.slots i, s.tickHead, s.tx⟩

def putLocal (s : Core κ) (i : ℕ) (l : Local κ) : Core κ :=
  { s.setSlot i l.conn with tickHead := l.tickHead, tx := l.tx }

def withLocal (s : Core κ) (i : ℕ) (f : Local κ → Local κ) : Core κ := s.putLocal i (f (s.localAt i))

def indices (s : Core κ) : List ℕ := List.range s.capacity

def freeSlot (s : Core κ) (i : ℕ) : Core κ :=
  { s.setSlot i { s.slots i with nextFree := s.freeHead } with freeHead := i }

/-- A new segment of fresh slots, not linked yet. -/
def addSegment (s : Core κ) : Core κ :=
  { s with
    slots := fun i =>
      if s.capacity ≤ i ∧ i < s.capacity + segmentSize then { TcpConnection.new with slotIndex := i }
      else s.slots i
    segments := s.segments + 1 }

def growSegment (s : Core κ) (ok : Bool) : Option (Core κ) :=
  if maxSegments ≤ s.segments then none
  else if !ok then none
  else some (((List.range segmentSize).map (s.capacity + ·)).foldr (fun i s => s.freeSlot i) s.addSegment)

def popFree (s : Core κ) : Option (ℕ × Core κ) :=
  if s.freeHead = nullSlot then none
  else some (s.freeHead, { s with freeHead := (s.slots s.freeHead).nextFree })

def alloc (s : Core κ) (growOk : Bool) : Option (ℕ × Core κ) :=
  match s.popFree with
  | some r => some r
  | none => (s.growSegment growOk).bind popFree

/-- IPv6 addresses are folded to 32 bits. -/
def foldIp : IpAddr → UInt32
  | .v4 o => beU32 o[0]! o[1]! o[2]! o[3]!
  | .v6 o =>
    beU32 o[0]! o[1]! o[2]! o[3]! ^^^ beU32 o[4]! o[5]! o[6]! o[7]! ^^^
      beU32 o[8]! o[9]! o[10]! o[11]! ^^^ beU32 o[12]! o[13]! o[14]! o[15]!

def familyBit : IpAddr → UInt64
  | .v4 _ => 0
  | .v6 _ => (1 : UInt64) <<< 62

def tcpHashKey (srcIp : IpAddr) (srcPort dstPort : UInt16) : UInt64 :=
  ((foldIp srcIp).toUInt64 <<< 32) ||| (srcPort.toUInt64 <<< 16) ||| dstPort.toUInt64 |||
    ((1 : UInt64) <<< 63) ||| familyBit srcIp

def tcpHashBucket (key : UInt64) : ℕ := ((key * 0x9E3779B97F4A7C15) >>> 48).toNat

def tcpHashFind (s : Core κ) (key : UInt64) : Option ℕ :=
  s.hash.find tcpHashSize tcpHashBucket 0 key

def tcpHashInsert (s : Core κ) (key : UInt64) (slot : ℕ) : Core κ :=
  { s with hash := s.hash.insert tcpHashSize tcpHashBucket 0 key slot }

def tcpHashRemove (s : Core κ) (key : UInt64) : Core κ :=
  { s with hash := s.hash.remove tcpHashSize tcpHashBucket 0 0 key }

def keyOf (c : TcpConnection κ) : UInt64 := tcpHashKey c.remoteIp c.remotePort c.localPort

/-- The identity test of every lookup that makes one. -/
def Matches (c : TcpConnection κ) (srcIp : IpAddr) (srcPort dstPort : UInt16) : Prop :=
  c.remoteIp = srcIp ∧ c.localPort = dstPort ∧ c.remotePort = srcPort

instance (c : TcpConnection κ) (srcIp : IpAddr) (srcPort dstPort : UInt16) :
    Decidable (Matches c srcIp srcPort dstPort) :=
  inferInstanceAs (Decidable (_ ∧ _ ∧ _))

def tcpLinearFind (s : Core κ) (srcIp : IpAddr) (srcPort dstPort : UInt16) : Option ℕ :=
  s.indices.find? fun i => decide ((s.slots i).Live ∧ Matches (s.slots i) srcIp srcPort dstPort)

/-- The walk of `free_connection` to the predecessor of `slot`. -/
def unlinkLoop (slot : ℕ) : ℕ → ℕ → Core κ → Core κ
  | 0, _, s => s
  | rounds + 1, prev, s =>
    let prevNext := (s.slots prev).tickNext
    if prevNext = slot then
      s.setSlot prev { s.slots prev with tickNext := (s.slots slot).tickNext }
    else if prevNext = nullSlot then s
    else unlinkLoop slot rounds prevNext s

def unlinkTick (s : Core κ) (slot : ℕ) : Core κ :=
  if (s.slots slot).tickInList then
    if s.tickHead = slot then { s with tickHead := (s.slots slot).tickNext }
    else if s.tickHead = nullSlot then s
    else unlinkLoop slot s.capacity s.tickHead s
  else s

def listTail (s : Core κ) : ℕ → ℕ → ℕ
  | 0, i => i
  | rounds + 1, i =>
    if (s.slots i).tickNext = nullSlot then i else listTail s rounds (s.slots i).tickNext

def tickHeadPublish (s : Core κ) (newHead : ℕ) : Core κ :=
  if s.tickHead = nullSlot then { s with tickHead := newHead }
  else
    let tail := s.listTail s.capacity s.tickHead
    s.setSlot tail { s.slots tail with tickNext := newHead }

def freeConnection (s : Core κ) (slot : ℕ) : Core κ :=
  let c := s.slots slot
  if c.state = .closed ∧ c.nextFree ≠ nullSlot then s
  else
    let s := if c.Live then s.tcpHashRemove (keyOf c) else s
    let s := s.unlinkTick slot
    let s := s.setSlot slot ((s.slots slot).resetPreserving (c.generation + 1))
    s.freeSlot slot

/-- In its order of preference. -/
def reclaimOrder : List TcpState := [.finWait1, .finWait2, .lastAck, .timeWait, .closeWait]

/-- The slot the reclaim scan settles on. -/
def reclaimSlot (s : Core κ) : Option ℕ :=
  reclaimOrder.findSome? fun st => s.indices.find? fun i => decide ((s.slots i).state = st)

def allocConnection (s : Core κ) (growOk : Bool) : Option (ℕ × Core κ) :=
  match s.alloc growOk with
  | some (slot, s) => some (slot, s.setSlot slot ((s.slots slot).resetPreserving (s.slots slot).generation))
  | none =>
    match s.reclaimSlot with
    | some i => (s.freeConnection i).alloc growOk
    | none => none

def listenerRegister (s : Core κ) (port : UInt16) (slot : ℕ) : Core κ :=
  let m := s.listeners
  match (List.range maxListenersPerCore).find? fun i => m.ports i == 0 || m.ports i == port with
  | some i =>
    { s with listeners := ⟨Function.update m.ports i port, Function.update m.slots i slot⟩ }
  | none => s

def listenerFind (s : Core κ) (port : UInt16) : Option ℕ :=
  let m := s.listeners
  match (List.range maxListenersPerCore).find? fun i => m.ports i == port || m.ports i == 0 with
  | some i => if m.ports i = port then some (m.slots i) else none
  | none => none

/-- The ring of the port, or the first unassigned one, which it takes. -/
def ringIdxForPort (t : AcceptRingTable) (port : UInt16) : Option ℕ × AcceptRingTable :=
  match (List.range maxAcceptRings).find? fun i => t.ports i == port with
  | some i => (some i, t)
  | none =>
    match (List.range maxAcceptRings).find? fun i => t.ports i == 0 with
    | some i => (some i, { t with ports := Function.update t.ports i port })
    | none => (none, t)

/-- A full ring drops the entry. -/
def acceptRingPush (s : Core κ) (port : UInt16) (slot : ℕ) : Core κ :=
  match ringIdxForPort s.acceptRings port with
  | (none, t) => { s with acceptRings := t }
  | (some idx, t) =>
    let r := t.rings idx
    if acceptRingCapacity ≤ (r.head - r.tail).toNat then { s with acceptRings := t }
    else
      let r' : AcceptRing :=
        { r with
          slots := Function.update r.slots (r.head.toNat % acceptRingCapacity) slot
          head := r.head + 1 }
      { s with acceptRings := { t with rings := Function.update t.rings idx r' } }

def acceptRingPop (s : Core κ) (port : UInt16) : Option ℕ × Core κ :=
  match ringIdxForPort s.acceptRings port with
  | (none, t) => (none, { s with acceptRings := t })
  | (some idx, t) =>
    let r := t.rings idx
    if r.head = r.tail then (none, { s with acceptRings := t })
    else
      let r' : AcceptRing := { r with tail := r.tail + 1 }
      (some (r.slots (r.tail.toNat % acceptRingCapacity)),
        { s with acceptRings := { t with rings := Function.update t.rings idx r' } })

end Core

end Waitless.Tcp
