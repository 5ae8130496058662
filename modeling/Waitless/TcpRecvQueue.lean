import Waitless.RingBuffer
import Waitless.TcpTypes

/-! # The receive queues of a connection

The receive half of `state.rs`: the out-of-order queue (`OooQueue.insert`, `OooQueue.takeAt`), the
16 KiB ring (`rxRingPush`, `rxPop`), and `drainOoo`, which moves reassembled segments into the
ring. -/

namespace Waitless.Tcp

namespace OooQueue

def isEmpty (q : OooQueue) : Bool := q.segs.isEmpty

/-- As the source measures it. -/
def offset (rcvNxt : UInt32) (s : OooSeg) : ℕ := (s.seqStart - rcvNxt).toNat

/-- The half-open ranges `[off, stop)` and that of `s` intersect. -/
def overlaps (rcvNxt : UInt32) (off stop : ℕ) (s : OooSeg) : Bool :=
  decide (off < offset rcvNxt s + s.bytes.length) && decide (offset rcvNxt s < stop)

def insertSorted (rcvNxt : UInt32) (new : OooSeg) : List OooSeg → List OooSeg
  | [] => [new]
  | s :: rest =>
    if offset rcvNxt new < offset rcvNxt s then new :: s :: rest
    else s :: insertSorted rcvNxt new rest

def insert (q : OooQueue) (rcvNxt seqStart : UInt32) (bytes : Bytes) : OooQueue × Bool :=
  if bytes.isEmpty || decide (oooMaxSegs ≤ q.segs.length) then (q, false)
  else
    let off := (seqStart - rcvNxt).toNat
    if off = 0 ∨ oooMaxBytes ≤ off then (q, false)
    else
      let bytes := bytes.take (oooMaxBytes - off)
      if q.segs.any (overlaps rcvNxt off (off + bytes.length)) then (q, false)
      else if oooMaxBytes < q.totalBytes + bytes.length then (q, false)
      else
        (⟨insertSorted rcvNxt ⟨seqStart, bytes⟩ q.segs, q.totalBytes + bytes.length⟩, true)

def takeLoop (rcvNxt : UInt32) : List OooSeg → ℕ → Option OooSeg × OooQueue
  | [], total => (none, ⟨[], total⟩)
  | s :: rest, total =>
    let rel := (s.seqStart - rcvNxt).toInt32
    if 0 < rel then (none, ⟨s :: rest, total⟩)
    else if 0 < rel.toInt + s.bytes.length then (some s, ⟨rest, total - s.bytes.length⟩)
    else takeLoop rcvNxt rest (total - s.bytes.length)

def takeAt (q : OooQueue) (rcvNxt : UInt32) : Option OooSeg × OooQueue :=
  takeLoop rcvNxt q.segs q.totalBytes

/-- At most `room` blocks: adjacent segments merge. -/
def sackBlocks (q : OooQueue) (room : ℕ) : List (UInt32 × UInt32) :=
  go q.segs []
where
  /-- `out` is the block list so far, last block first. -/
  go : List OooSeg → List (UInt32 × UInt32) → List (UInt32 × UInt32)
    | [], out => out.reverse
    | s :: rest, out =>
      let right := s.seqStart + UInt32.ofNat s.bytes.length
      match out with
      | (l, r) :: out' =>
        if r = s.seqStart then go rest ((l, right) :: out')
        else if out.length = room then out.reverse
        else go rest ((s.seqStart, right) :: out)
      | [] => if room = 0 then [] else go rest [(s.seqStart, right)]

end OooQueue

namespace RecvHalf

def rxFree (r : RecvHalf) : ℕ := rxRingBytes - 1 - r.rxUsed

def ringBytes (r : RecvHalf) : Bytes :=
  match r.rxRing with
  | some mem => RingBuffer.contents rxRingBytes mem r.rxHead r.rxUsed
  | none => []

/-- The received bytes no read has returned yet, oldest first. -/
def unread (r : RecvHalf) : Bytes := r.pendingChunk.getD [] ++ r.ringBytes

/-- Copies as much of the payload as the ring has room for. -/
def rxRingPush (r : RecvHalf) (payload : Bytes) : RecvHalf × ℕ :=
  if payload.isEmpty then (r, 0)
  else if r.rxFree = 0 then (r, 0)
  else
    let n := min payload.length r.rxFree
    match r.rxRing with
    | none => (r, 0)
    | some mem =>
      ({ r with
          rxRing := some (RingBuffer.writeWrapped rxRingBytes mem r.rxTail (payload.take n))
          rxTail := (r.rxTail + n) % rxRingBytes
          rxUsed := r.rxUsed + n }, n)

/-- The copying part of `rx_pop` into a buffer of `cap` bytes. -/
def rxTake (r : RecvHalf) (cap : ℕ) : RecvHalf × Bytes :=
  if cap = 0 ∨ r.rxUsed = 0 then (r, [])
  else
    match r.rxRing with
    | none => (r, [])
    | some mem =>
      let n := min cap r.rxUsed
      ({ r with
          rxHead := (r.rxHead + n) % rxRingBytes
          rxUsed := r.rxUsed - n }, RingBuffer.readWrapped rxRingBytes mem r.rxHead n)

def drainLoop : ℕ → RecvHalf → ℕ → RecvHalf × ℕ
  | 0, r, delivered => (r, delivered)
  | rounds + 1, r, delivered =>
    match r.ooo.takeAt r.rcvNxt with
    | (none, q) => ({ r with ooo := q }, delivered)
    | (some seg, q) =>
      let tail := seg.bytes.drop (r.rcvNxt - seg.seqStart).toNat
      let (r', pushed) := { r with ooo := q }.rxRingPush tail
      let r' := { r' with rcvNxt := r'.rcvNxt + UInt32.ofNat pushed }
      if pushed < tail.length then (r', delivered + pushed)
      else drainLoop rounds r' (delivered + pushed)

/-- Every round takes a segment off the queue. -/
def drainOoo (r : RecvHalf) : RecvHalf × ℕ := drainLoop (r.ooo.segs.length + 1) r 0

end RecvHalf

end Waitless.Tcp
