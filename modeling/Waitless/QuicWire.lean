import Mathlib
import Waitless.QuicPacket

/-! # The QUIC wire format

The model of `wire.rs` and `frame.rs`: variable-length integers, the long header up to the packet
number, and the frames in both directions.

`parseFrame_consumes` says that a parsed frame takes at least one octet, and an ACK frame more
octets than it has ranges. -/

namespace Waitless.Quic

open Waitless.AesGcm

/-- Why a header is refused. -/
inductive WireError where
  | truncated
  | badLength
  | wrongForm
  | badFixedBit
  | unsupportedVersion (version : ℕ)
  | outputTooSmall

/-- Why a frame is refused. -/
inductive FrameError where
  | truncated
  | badLength
  | unknownFrameType (t : UInt8)
  | badAckRanges
  | outputTooSmall
deriving DecidableEq

def maxVarint : ℕ := 2 ^ 62 - 1

def varintLenFromFirstByte (first : UInt8) : ℕ := 2 ^ (first >>> 6).toNat

def beNat (bytes : Bytes) : ℕ := bytes.foldl (fun v b => v * 256 + b.toNat) 0

/-- A varint at the front of `data`, and what is left. -/
def readVarint (data : Bytes) : Option (ℕ × Bytes) :=
  match data with
  | [] => none
  | first :: _ =>
    let len := varintLenFromFirstByte first
    if data.length < len then none
    else some (beNat ((first &&& 0x3f) :: (data.take len).drop 1), data.drop len)

def beOctets (len value : ℕ) : Bytes :=
  (List.range len).map fun i => UInt8.ofNat (value / 256 ^ (len - 1 - i))

def varintForm (value : ℕ) : ℕ × UInt8 :=
  if value < 2 ^ 6 then (1, 0x00)
  else if value < 2 ^ 14 then (2, 0x40)
  else if value < 2 ^ 30 then (4, 0x80)
  else (8, 0xc0)

def writeVarint (value : ℕ) : Except FrameError Bytes :=
  if value > maxVarint then .error .badLength
  else
    let (len, tag) := varintForm value
    match beOctets len value with
    | [] => .ok []
    | b :: bs => .ok ((b ||| tag) :: bs)

/-- A parser of the octets at the front of its input. -/
abbrev Reader := StateT Bytes (Except FrameError)

namespace Reader

def varint : Reader ℕ := fun data =>
  match readVarint data with
  | none => .error .truncated
  | some r => .ok r

def octets (e : FrameError) (n : ℕ) : Reader Bytes := fun data =>
  if data.length < n then .error e else .ok (data.take n, data.drop n)

def all : Reader Bytes := fun data => .ok (data, [])

def pairs : ℕ → Reader (List (ℕ × ℕ))
  | 0 => pure []
  | n + 1 => do
    let gap ← varint
    let length ← varint
    let rest ← pairs n
    pure ((gap, length) :: rest)

end Reader

structure EcnCounts where
  ect0 : ℕ
  ect1 : ℕ
  ce : ℕ
deriving DecidableEq

/-- A received frame. -/
inductive Frame where
  | padding
  | ping
  | ack (largestAcknowledged ackDelay firstAckRange : ℕ) (ackRanges : List (ℕ × ℕ))
      (ecn : Option EcnCounts)
  | crypto (offset : ℕ) (data : Bytes)
  | stream (streamId offset : ℕ) (data : Bytes) (fin : Bool)
  | connectionCloseTransport (errorCode frameType : ℕ) (reason : Bytes)
  | connectionCloseApplication (errorCode : ℕ) (reason : Bytes)
  | handshakeDone
  | pathChallenge (data : Bytes)
  | maxData (maximum : ℕ)
  | maxStreamData (streamId maximum : ℕ)
  | resetStream (streamId appErrorCode finalSize : ℕ)
  | stopSending (streamId appErrorCode : ℕ)
  | skipped (kind : UInt8)
deriving DecidableEq

open Reader

def parseAck (isEcn : Bool) : Reader Frame := do
  let largest ← varint
  let ackDelay ← varint
  let rangeCount ← varint
  let firstAckRange ← varint
  let ranges ← pairs rangeCount
  if isEcn then
    let ect0 ← varint
    let ect1 ← varint
    let ce ← varint
    pure (.ack largest ackDelay firstAckRange ranges (some ⟨ect0, ect1, ce⟩))
  else pure (.ack largest ackDelay firstAckRange ranges none)

def parseCrypto : Reader Frame := do
  let offset ← varint
  let length ← varint
  let data ← octets .truncated length
  pure (.crypto offset data)

def parseStream (typeByte : UInt8) : Reader Frame := do
  let streamId ← varint
  let offset ← (if typeByte &&& 0x04 != 0 then varint else pure 0 : Reader ℕ)
  let data ← (if typeByte &&& 0x02 != 0 then varint >>= octets .truncated else all : Reader Bytes)
  pure (.stream streamId offset data (typeByte &&& 0x01 != 0))

def parseCloseTransport : Reader Frame := do
  let errorCode ← varint
  let frameType ← varint
  let reasonLen ← varint
  let reason ← octets .truncated reasonLen
  pure (.connectionCloseTransport errorCode frameType reason)

def parseCloseApplication : Reader Frame := do
  let errorCode ← varint
  let reasonLen ← varint
  let reason ← octets .truncated reasonLen
  pure (.connectionCloseApplication errorCode reason)

def parseResetStream : Reader Frame := do
  let streamId ← varint
  let appErrorCode ← varint
  let finalSize ← varint
  pure (.resetStream streamId appErrorCode finalSize)

def parseStopSending : Reader Frame := do
  let streamId ← varint
  let appErrorCode ← varint
  pure (.stopSending streamId appErrorCode)

def parseMaxData : Reader Frame := do
  let maximum ← varint
  pure (.maxData maximum)

def parseMaxStreamData : Reader Frame := do
  let streamId ← varint
  let maximum ← varint
  pure (.maxStreamData streamId maximum)

def parsePathChallenge : Reader Frame := do
  let data ← octets .truncated 8
  pure (.pathChallenge data)

def skipOneVarint (kind : UInt8) : Reader Frame := do
  let _ ← varint
  pure (.skipped kind)

def skipTwoVarints (kind : UInt8) : Reader Frame := do
  let _ ← varint
  let _ ← varint
  pure (.skipped kind)

def skipVarLenField (kind : UInt8) : Reader Frame := do
  let tokenLen ← varint
  let _ ← octets .badLength tokenLen
  pure (.skipped kind)

def skipNewConnectionId (kind : UInt8) : Reader Frame := do
  let _ ← varint
  let _ ← varint
  let cidLen ← octets .badLength 1
  let _ ← octets .badLength ((cidLen.getD 0 0).toNat + 16)
  pure (.skipped kind)

def skipFixed (kind : UInt8) (n : ℕ) : Reader Frame := do
  let _ ← octets .truncated n
  pure (.skipped kind)

/-- The reader of a frame's fields, by its type octet. -/
def frameBody (t : UInt8) : Reader Frame :=
  if t = 0x00 then pure .padding
  else if t = 0x01 then pure .ping
  else if t = 0x02 ∨ t = 0x03 then parseAck (t = 0x03)
  else if t = 0x06 then parseCrypto
  else if 0x08 ≤ t ∧ t ≤ 0x0f then parseStream t
  else if t = 0x1c then parseCloseTransport
  else if t = 0x1d then parseCloseApplication
  else if t = 0x1e then pure .handshakeDone
  else if t = 0x07 then skipVarLenField t
  else if t = 0x04 then parseResetStream
  else if t = 0x05 then parseStopSending
  else if t = 0x10 then parseMaxData
  else if t = 0x11 then parseMaxStreamData
  else if t = 0x12 ∨ t = 0x13 ∨ t = 0x14 ∨ t = 0x16 ∨ t = 0x17 ∨ t = 0x19 then skipOneVarint t
  else if t = 0x15 then skipTwoVarints t
  else if t = 0x18 then skipNewConnectionId t
  else if t = 0x1a then parsePathChallenge
  else if t = 0x1b then skipFixed t 8
  else fun _ => .error (.unknownFrameType t)

def parseFrame (data : Bytes) : Except FrameError (Frame × Bytes) :=
  match data with
  | [] => .error .truncated
  | t :: rest => frameBody t rest

/-- A value `a` that the reader returns took at least `m a` octets. -/
def Reader.Consumes {α : Type} (m : α → ℕ) (r : Reader α) : Prop :=
  ∀ data a rest, r data = .ok (a, rest) → m a + rest.length ≤ data.length

namespace Reader

variable {α β : Type}

variable {data rest : Bytes} {r : Reader α}

theorem bind_eq_ok {f : α → Reader β} {b : β} :
    (r >>= f) data = .ok (b, rest) ↔ ∃ a mid, r data = .ok (a, mid) ∧ f a mid = .ok (b, rest) := by
  change (r data >>= fun p => f p.1 p.2) = _ ↔ _
  cases h : r data with
  | error e =>
    refine ⟨fun hc => ?_, fun ⟨a, mid, hr, _⟩ => ?_⟩
    · cases hc
    · cases hr
  | ok p =>
    refine ⟨fun hb => ⟨p.1, p.2, rfl, hb⟩, ?_⟩
    rintro ⟨a, mid, hr, hf⟩
    cases hr
    exact hf

theorem pure_eq_ok {a b : α} :
    (pure a : Reader α) data = .ok (b, rest) ↔ a = b ∧ data = rest := by
  change Except.ok (a, data) = _ ↔ _
  simp

theorem consumes_pure {m : α → ℕ} {a : α} (ha : m a = 0) : Consumes m (pure a : Reader α) := by
  intro data b rest h
  obtain ⟨rfl, rfl⟩ := pure_eq_ok.1 h
  omega

theorem Consumes.bind {m : β → ℕ} {f : α → Reader β} (hr : Consumes (fun _ => 0) r)
    (hf : ∀ a, Consumes m (f a)) : Consumes m (r >>= f) := by
  intro data b rest h
  obtain ⟨a, mid, hmid, hrest⟩ := bind_eq_ok.1 h
  have hmid' := hr data a mid hmid
  rw [Nat.zero_add] at hmid'
  exact (hf a mid b rest hrest).trans hmid'

theorem Consumes.ite {m : α → ℕ} {p : Prop} [Decidable p] {r' : Reader α} (hr : Consumes m r)
    (hr' : Consumes m r') : Consumes m (if p then r else r') := by
  split_ifs
  · exact hr
  · exact hr'

theorem length_of_varint {v : ℕ} (h : varint data = .ok (v, rest)) :
    rest.length < data.length := by
  unfold varint readVarint at h
  cases data with
  | nil => cases h
  | cons first tail =>
    have hpos : 0 < varintLenFromFirstByte first := Nat.two_pow_pos _
    simp only at h
    split_ifs at h with hlen
    cases h
    rw [List.length_drop]
    exact Nat.sub_lt (by simp) hpos

theorem consumes_varint : Consumes (fun _ => 0) varint := by
  intro data v rest h
  rw [Nat.zero_add]
  exact (length_of_varint h).le

theorem consumes_octets (e : FrameError) (n : ℕ) : Consumes (fun _ => 0) (octets e n) := by
  intro data a rest h
  unfold octets at h
  split_ifs at h
  cases h
  simp

theorem consumes_all : Consumes (fun _ => 0) all := by
  intro data a rest h
  cases h
  simp

theorem consumes_pairs (n : ℕ) : Consumes List.length (pairs n) := by
  induction n with
  | zero => exact consumes_pure rfl
  | succ n ih =>
    intro data ps rest h
    obtain ⟨gap, d1, h1, h⟩ := bind_eq_ok.1 h
    obtain ⟨len, d2, h2, h⟩ := bind_eq_ok.1 h
    obtain ⟨qs, d3, h3, h⟩ := bind_eq_ok.1 h
    obtain ⟨rfl, rfl⟩ := pure_eq_ok.1 h
    have hqs := ih d2 qs d3 h3
    have := length_of_varint h1
    have := length_of_varint h2
    rw [List.length_cons]
    omega

end Reader

def Frame.ackRangeCount : Frame → ℕ
  | .ack _ _ _ ranges _ => ranges.length
  | _ => 0

theorem consumes_parseAck (isEcn : Bool) : Consumes Frame.ackRangeCount (parseAck isEcn) := by
  refine consumes_varint.bind fun _ => consumes_varint.bind fun _ =>
    consumes_varint.bind fun count => consumes_varint.bind fun _ => ?_
  intro data f rest h
  obtain ⟨ranges, mid, hranges, h⟩ := bind_eq_ok.1 h
  have hmid := consumes_pairs count data ranges mid hranges
  split_ifs at h
  · obtain ⟨ect0, d1, h1, h⟩ := bind_eq_ok.1 h
    obtain ⟨ect1, d2, h2, h⟩ := bind_eq_ok.1 h
    obtain ⟨ce, d3, h3, h⟩ := bind_eq_ok.1 h
    obtain ⟨rfl, rfl⟩ := pure_eq_ok.1 h
    have := length_of_varint h1
    have := length_of_varint h2
    have := length_of_varint h3
    simp only [Frame.ackRangeCount]
    omega
  · obtain ⟨rfl, rfl⟩ := pure_eq_ok.1 h
    exact hmid

open Consumes

theorem consumes_parseStream (t : UInt8) : Consumes Frame.ackRangeCount (parseStream t) :=
  consumes_varint.bind fun _ =>
    (ite consumes_varint (consumes_pure rfl)).bind fun _ =>
      (ite (consumes_varint.bind fun n => consumes_octets _ n) consumes_all).bind fun _ =>
        consumes_pure rfl

theorem consumes_frameBody (t : UInt8) : Consumes Frame.ackRangeCount (frameBody t) := by
  refine ite (consumes_pure rfl) <| ite (consumes_pure rfl) <|
    ite (consumes_parseAck _) <| ite ?_ <| ite (consumes_parseStream t) <|
    ite ?_ <| ite ?_ <| ite (consumes_pure rfl) <| ite ?_ <|
    Consumes.ite ?_ <| Consumes.ite ?_ <| Consumes.ite ?_ <| Consumes.ite ?_ <| Consumes.ite ?_ <|
    Consumes.ite ?_ <| Consumes.ite ?_ <| Consumes.ite ?_ <| Consumes.ite ?_ ?_
  · exact consumes_varint.bind fun _ => consumes_varint.bind fun n =>
      (consumes_octets _ n).bind fun _ => consumes_pure rfl
  · exact consumes_varint.bind fun _ => consumes_varint.bind fun _ => consumes_varint.bind fun n =>
      (consumes_octets _ n).bind fun _ => consumes_pure rfl
  · exact consumes_varint.bind fun _ => consumes_varint.bind fun n =>
      (consumes_octets _ n).bind fun _ => consumes_pure rfl
  · exact consumes_varint.bind fun n => (consumes_octets _ n).bind fun _ => consumes_pure rfl
  · exact consumes_varint.bind fun _ => consumes_varint.bind fun _ => consumes_varint.bind fun _ =>
      consumes_pure rfl
  · exact consumes_varint.bind fun _ => consumes_varint.bind fun _ => consumes_pure rfl
  · exact consumes_varint.bind fun _ => consumes_pure rfl
  · exact consumes_varint.bind fun _ => consumes_varint.bind fun _ => consumes_pure rfl
  · exact consumes_varint.bind fun _ => consumes_pure rfl
  · exact consumes_varint.bind fun _ => consumes_varint.bind fun _ => consumes_pure rfl
  · exact consumes_varint.bind fun _ => consumes_varint.bind fun _ =>
      (consumes_octets _ 1).bind fun _ => (consumes_octets _ _).bind fun _ => consumes_pure rfl
  · exact (consumes_octets _ 8).bind fun _ => consumes_pure rfl
  · exact (consumes_octets _ 8).bind fun _ => consumes_pure rfl
  · intro data f rest h
    cases h

/-- **A frame takes more octets than it has ACK ranges.** -/
theorem parseFrame_consumes {data rest : Bytes} {f : Frame} (h : parseFrame data = .ok (f, rest)) :
    f.ackRangeCount + rest.length < data.length := by
  cases data with
  | nil => cases h
  | cons t tail => exact Nat.lt_succ_of_le (consumes_frameBody t tail f rest h)

/-- A frame of an outgoing packet. -/
inductive TxFrame where
  | ack (largest ackDelay firstAckRange : ℕ) (ranges : List (ℕ × ℕ))
  | handshakeDone
  | ping
  | pathResponse (data : Bytes)
  | stopSending (streamId appErrorCode : ℕ)
  | resetStream (streamId appErrorCode finalSize : ℕ)
  | maxStreamsBidi (maxStreams : ℕ)
  | maxStreamsUni (maxStreams : ℕ)
  | maxData (max : ℕ)
  | maxStreamData (streamId max : ℕ)
  | crypto (offset : ℕ) (data : Bytes)
  | stream (streamId offset : ℕ) (fin : Bool) (data : Bytes)
  | closeTransport (errorCode frameType : ℕ) (reason : Bytes)

def writeVarints (t : UInt8) (values : List ℕ) : Except FrameError Bytes := do
  let parts ← values.mapM writeVarint
  pure (t :: parts.flatten)

def writeAck (largest ackDelay firstAckRange : ℕ) (additionalRanges : List (ℕ × ℕ)) :
    Except FrameError Bytes :=
  writeVarints 0x02 (largest :: ackDelay :: additionalRanges.length :: firstAckRange ::
    additionalRanges.flatMap fun r => [r.1, r.2])

def writeStopSending (streamId appErrorCode : ℕ) : Except FrameError Bytes :=
  writeVarints 0x05 [streamId, appErrorCode]

def writeResetStream (streamId appErrorCode finalSize : ℕ) : Except FrameError Bytes :=
  writeVarints 0x04 [streamId, appErrorCode, finalSize]

def writeMaxStreamsBidi (maxStreams : ℕ) : Except FrameError Bytes := writeVarints 0x12 [maxStreams]

def writeMaxStreamsUni (maxStreams : ℕ) : Except FrameError Bytes := writeVarints 0x13 [maxStreams]

def writeMaxData (max : ℕ) : Except FrameError Bytes := writeVarints 0x10 [max]

def writeMaxStreamData (streamId max : ℕ) : Except FrameError Bytes :=
  writeVarints 0x11 [streamId, max]

def writeCrypto (offset : ℕ) (data : Bytes) : Except FrameError Bytes := do
  let header ← writeVarints 0x06 [offset, data.length]
  pure (header ++ data)

def appendStreamHeader (streamId offset : ℕ) (fin : Bool) (bodyLen : ℕ) : Except FrameError Bytes :=
  writeVarints (if fin then 0x0f else 0x0e) [streamId, offset, bodyLen]

def writeCloseTransport (errorCode frameType : ℕ) (reason : Bytes) : Except FrameError Bytes := do
  let header ← writeVarints 0x1c [errorCode, frameType, reason.length]
  pure (header ++ reason)

def TxFrame.write : TxFrame → Except FrameError Bytes
  | .ack largest ackDelay firstAckRange ranges => writeAck largest ackDelay firstAckRange ranges
  | .handshakeDone => .ok [0x1e]
  | .ping => .ok [0x01]
  | .pathResponse data => .ok (0x1b :: data)
  | .stopSending streamId code => writeStopSending streamId code
  | .resetStream streamId code finalSize => writeResetStream streamId code finalSize
  | .maxStreamsBidi n => writeMaxStreamsBidi n
  | .maxStreamsUni n => writeMaxStreamsUni n
  | .maxData n => writeMaxData n
  | .maxStreamData streamId n => writeMaxStreamData streamId n
  | .crypto offset data => writeCrypto offset data
  | .stream streamId offset fin data => do
    let header ← appendStreamHeader streamId offset fin data.length
    pure (header ++ data)
  | .closeTransport code frameType reason => writeCloseTransport code frameType reason

def quicVersion1 : ℕ := 1

def maxCidLen : ℕ := 20

/-- The type bits of a long header. -/
inductive LongPacketType where
  | initial
  | zeroRtt
  | handshake
  | retry
deriving DecidableEq

def LongPacketType.ofBits (bits : UInt8) : LongPacketType :=
  if bits = 0 then .initial else if bits = 1 then .zeroRtt else if bits = 2 then .handshake else .retry

/-- The fields all long headers share. -/
structure LongHeaderPreamble where
  firstByte : UInt8
  longType : LongPacketType
  version : ℕ
  dcid : Bytes
  scid : Bytes
  tailOffset : ℕ

def slice (data : Bytes) (lo hi : ℕ) : Bytes := (data.take hi).drop lo

def parseLongHeaderPreamble (data : Bytes) : Except WireError LongHeaderPreamble :=
  match data with
  | [] => .error .truncated
  | first :: _ =>
    if first &&& headerFormLong = 0 then .error .wrongForm
    else if first &&& fixedBit = 0 then .error .badFixedBit
    else if data.length < 1 + 4 + 1 then .error .truncated
    else
      let version := beNat (slice data 1 5)
      if version ≠ quicVersion1 then .error (.unsupportedVersion version)
      else
        let dcidLen := (data.getD 5 0).toNat
        if dcidLen > maxCidLen then .error .badLength
        else if data.length < 1 + 4 + 1 + dcidLen + 1 then .error .truncated
        else
          let scidLenOffset := 6 + dcidLen
          let scidLen := (data.getD scidLenOffset 0).toNat
          if scidLen > maxCidLen then .error .badLength
          else
            let scidStart := scidLenOffset + 1
            let scidEnd := scidStart + scidLen
            if data.length < scidEnd then .error .truncated
            else
              .ok { firstByte := first
                    longType := LongPacketType.ofBits ((first >>> 4) &&& 0x3)
                    version := version
                    dcid := slice data 6 (6 + dcidLen)
                    scid := slice data scidStart scidEnd
                    tailOffset := scidEnd }

end Waitless.Quic
