import Waitless.LinkedChain
import Waitless.QuicWire

/-! # The connections of a worker

A worker keeps its connections in a table of slots that grows by segments.

The connection ID the server issues is the slot, the generation and four random bytes
(`makeLocalCid`); `parseLocalCid` reads the first two back. -/

namespace Waitless.Endpoint

open Waitless.AesGcm Waitless.Quic LinkedChain

def serverCidLen : ℕ := 8

abbrev Nonce := Vector UInt8 4

def toBeBytes (n : ℕ) : Bytes := [UInt8.ofNat (n / 256), UInt8.ofNat n]

def makeLocalCid (slot generation : ℕ) (nonce : Nonce) : Bytes :=
  toBeBytes slot ++ toBeBytes generation ++ nonce.toList

def parseLocalCid (dcid : Bytes) : Option (ℕ × ℕ) :=
  if dcid.length ≠ serverCidLen then none
  else some (beNat (slice dcid 0 2), beNat (slice dcid 2 4))

theorem toBeBytes_beNat (a b : UInt8) : toBeBytes (beNat [a, b]) = [a, b] := by
  have ha := a.toNat_lt
  have hb := b.toNat_lt
  have hval : beNat [a, b] = a.toNat * 256 + b.toNat := by simp [beNat]
  rw [toBeBytes, hval]
  congr 1
  · rw [← UInt8.toNat_inj, UInt8.toNat_ofNat']
    omega
  · congr 1
    rw [← UInt8.toNat_inj, UInt8.toNat_ofNat']
    omega

theorem eq_makeLocalCid {dcid : Bytes} {slot generation : ℕ} {nonce : Nonce}
    (hparse : parseLocalCid dcid = some (slot, generation)) (hnonce : dcid.drop 4 = nonce.toList) :
    dcid = makeLocalCid slot generation nonce := by
  rw [parseLocalCid] at hparse
  split_ifs at hparse with hlen
  obtain ⟨rfl, rfl⟩ := Prod.mk.inj (Option.some.inj hparse)
  rw [not_not, serverCidLen] at hlen
  match dcid, hlen with
  | [a, b, c, d, e, f, g, h], _ =>
    simp only [slice, List.take_succ_cons, List.take_zero, List.drop_zero, List.drop_succ_cons,
      makeLocalCid, toBeBytes_beNat] at hnonce ⊢
    rw [← hnonce]
    rfl

def segmentSize : ℕ := 64
def nullSlot : ℕ := 0xFFFF
def perIpSlotLimit : ℕ := 256
def heapAdmitThresholdPct : ℕ := 90
def heapSampleInterval : ℕ := 64

/-- A slot; `inbox` numbers a connection, `srcIp` is the packed address. -/
structure Slot where
  generation : ℕ := 0
  inbox : Option ℕ := none
  srcIp : ℕ := 0
  counted : Bool := false
  nextFree : ℕ := nullSlot

/-- The slots below `capacity` exist; `perIp` is zero without an entry. -/
structure SlotTable where
  slots : ℕ → Slot := fun _ => {}
  capacity : ℕ := 0
  freeHead : ℕ := nullSlot
  perIp : ℕ → ℕ := fun _ => 0
  initialDcids : List (Bytes × ℕ × ℕ) := []
  maxCapacity : ℕ
  live : ℕ := 0
  heapPressure : Bool := false
  heapSampleCountdown : ℕ := 0

/-- What the allocator reports. -/
structure HeapStats where
  allocatedBytes : ℕ
  claimedBytes : ℕ

def heapOverAdmitThreshold (h : HeapStats) : Bool :=
  h.claimedBytes ≠ 0 ∧ h.claimedBytes * heapAdmitThresholdPct ≤ h.allocatedBytes * 100

namespace SlotTable

def new (maxCapacity : ℕ) : SlotTable := { maxCapacity := min maxCapacity nullSlot }

def setSlot (t : SlotTable) (idx : ℕ) (s : Slot) : SlotTable :=
  { t with slots := Function.update t.slots idx s }

/-- The admission gate, which is sampled once in a while. -/
def underHeapPressure (t : SlotTable) (h : HeapStats) : Bool × SlotTable :=
  if t.heapSampleCountdown = 0 then
    (heapOverAdmitThreshold h, { t with
      heapPressure := heapOverAdmitThreshold h
      heapSampleCountdown := heapSampleInterval })
  else (t.heapPressure, { t with heapSampleCountdown := t.heapSampleCountdown - 1 })

/-- Its slots go in front of the free list in ascending order. -/
def growSegment (t : SlotTable) : Option SlotTable :=
  if nullSlot < t.capacity + segmentSize then none
  else some { t with
    slots := fun i =>
      if t.capacity ≤ i ∧ i < t.capacity + segmentSize then
        { nextFree := if i + 1 < t.capacity + segmentSize then i + 1 else t.freeHead }
      else t.slots i
    capacity := t.capacity + segmentSize
    freeHead := t.capacity }

/-- The head of the free list, if need be of a new segment. -/
def freeSlotOrGrow (t : SlotTable) : Option SlotTable :=
  if t.freeHead ≠ nullSlot then some t else t.growSegment

def take (t : SlotTable) (srcIp : ℕ) : (ℕ × ℕ) × SlotTable :=
  let idx := t.freeHead
  let slot := t.slots idx
  let generation := (slot.generation + 1) % 2 ^ 16
  ((idx, generation), { t.setSlot idx
      { generation, inbox := none, srcIp, counted := true, nextFree := nullSlot } with
    freeHead := slot.nextFree
    perIp := Function.update t.perIp srcIp (t.perIp srcIp + 1)
    live := t.live + 1 })

def allocate (t : SlotTable) (srcIp : ℕ) (h : HeapStats) : Option (ℕ × ℕ) × SlotTable :=
  let (pressure, t) := t.underHeapPressure h
  if pressure then (none, t)
  else if t.maxCapacity ≤ t.live then (none, t)
  else if perIpSlotLimit ≤ t.perIp srcIp then (none, t)
  else
    match t.freeSlotOrGrow with
    | none => (none, t)
    | some t =>
      let (id, t) := t.take srcIp
      (some id, t)

def install (t : SlotTable) (idx generation inbox : ℕ) : SlotTable :=
  let slot := t.slots idx
  if slot.generation = generation then t.setSlot idx { slot with inbox := some inbox } else t

/-- If somebody still holds the inbox. -/
def lookup (t : SlotTable) (alive : ℕ → Bool) (idx generation : ℕ) : Option ℕ :=
  if t.capacity ≤ idx then none
  else if (t.slots idx).generation ≠ generation then none
  else (t.slots idx).inbox.filter alive

def discharge (t : SlotTable) (idx : ℕ) : SlotTable :=
  let slot := t.slots idx
  if slot.counted then
    { t.setSlot idx { slot with counted := false } with
      perIp := Function.update t.perIp slot.srcIp (t.perIp slot.srcIp - 1) }
  else t

def markValidated (t : SlotTable) (idx generation : ℕ) : SlotTable :=
  if t.capacity ≤ idx then t
  else if (t.slots idx).generation ≠ generation then t
  else t.discharge idx

def freeSlot (t : SlotTable) (idx generation : ℕ) : SlotTable :=
  if t.capacity ≤ idx then t
  else if (t.slots idx).generation ≠ generation then t
  else
    let t := t.discharge idx
    { t.setSlot idx { t.slots idx with inbox := none, nextFree := t.freeHead } with
      initialDcids := t.initialDcids.filter fun e => ¬ (e.2.1 = idx ∧ e.2.2 = generation)
      freeHead := idx
      live := t.live - 1 }

def registerInitialDcid (t : SlotTable) (dcid : Bytes) (idx generation : ℕ) : SlotTable :=
  { t with initialDcids := (dcid, idx, generation) :: t.initialDcids.filter fun e => e.1 ≠ dcid }

def lookupInitialDcid (t : SlotTable) (alive : ℕ → Bool) (dcid : Bytes) : Option ℕ × SlotTable :=
  match t.initialDcids.find? fun e => e.1 = dcid with
  | none => (none, t)
  | some (_, idx, generation) =>
    match t.lookup alive idx generation with
    | some inbox => (some inbox, t)
    | none => (none, { t with initialDcids := t.initialDcids.filter fun e => e.1 ≠ dcid })

end SlotTable

end Waitless.Endpoint
