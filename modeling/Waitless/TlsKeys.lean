import Waitless.TlsReplay
import Waitless.TlsWire

/-! # Keys, records and tickets

The model of `schedule.rs`, `keys.rs`, `record.rs` and `ticket.rs`. SHA-256, HMAC, HKDF-Expand,
X25519, the AEAD and ECDSA are arbitrary functions, the fields of `Crypto`; of X25519 it is assumed
that the two ends of an exchange agree. A transcript is the string of octets that has been hashed.
-/

namespace Waitless.Tls

open Waitless.AesGcm
open Waitless.Quic (beNat beOctets)

/-- The primitives: arbitrary functions, of which only agreement is assumed. -/
structure Crypto where
  sha256 : Bytes → Bytes
  hmacSha256 : Bytes → Bytes → Bytes
  hkdfExpand : Bytes → Bytes → ℕ → Bytes
  aeadSeal : Bytes → Bytes → Bytes → Bytes → Bytes × Bytes
  aeadOpen : Bytes → Bytes → Bytes → Bytes → Bytes → Option Bytes
  x25519Public : Bytes → Bytes
  x25519Shared : Bytes → Bytes → Bytes
  ecdsaSign : Bytes → Bytes → Bytes
  x25519_agree : ∀ a b, x25519Shared a (x25519Public b) = x25519Shared b (x25519Public a)

/-- Primitives to run the model with. -/
def sampleCrypto : Crypto where
  sha256 x := UInt8.ofNat x.length :: List.replicate 31 0
  hmacSha256 _ data := (data ++ List.replicate 32 0).take 32
  hkdfExpand _ info n := (info.reverse ++ List.replicate n 0).take n
  aeadSeal _ _ _ data := (data, List.replicate 16 0)
  aeadOpen _ _ _ data _ := some data
  x25519Public _ := List.replicate 32 9
  x25519Shared _ _ := List.replicate 32 7
  ecdsaSign _ _ := [0x30, 0]
  x25519_agree _ _ := rfl

section

variable (K : Crypto)

def buildHkdfLabel (outLen : ℕ) (labelSuffix : String) (context : Bytes) : Bytes :=
  let fullLabel := ascii "tls13 " ++ ascii labelSuffix
  beOctets 2 outLen ++ UInt8.ofNat fullLabel.length :: fullLabel ++
    UInt8.ofNat context.length :: context

def hkdfExpandLabel (prk : Bytes) (labelSuffix : String) (context : Bytes) (len : ℕ) : Bytes :=
  K.hkdfExpand prk (buildHkdfLabel len labelSuffix context) len

def deriveSecret (secret : Bytes) (labelSuffix : String) (transcript : Bytes) : Bytes :=
  hkdfExpandLabel K secret labelSuffix transcript hashLen

def hkdfExtract (salt ikm : Bytes) : Bytes := K.hmacSha256 salt ikm

/-- A running hash, as the octets it has been fed. -/
abbrev Transcript := Bytes

def Transcript.snapshot (t : Transcript) : Bytes := K.sha256 t

def emptyTranscriptHash : Bytes := K.sha256 []

def deriveFinishedKey (secret : Bytes) : Bytes := hkdfExpandLabel K secret "finished" [] hashLen

def ctEq32 (a b : Bytes) : Bool := a.length == hashLen && a == b

structure KeySchedule where
  secret : Bytes

structure HandshakeSecrets where
  clientHs : Bytes
  serverHs : Bytes

structure ApplicationSecrets where
  clientAp : Bytes
  serverAp : Bytes
  exporter : Bytes

namespace KeySchedule

def newWithoutPsk : KeySchedule :=
  ⟨hkdfExtract K (List.replicate hashLen 0) (List.replicate hashLen 0)⟩

def newWithPsk (psk : Bytes) : KeySchedule := ⟨hkdfExtract K (List.replicate hashLen 0) psk⟩

variable (ks : KeySchedule)

def enterHandshake (dheShared transcript : Bytes) : HandshakeSecrets × KeySchedule :=
  let derived := deriveSecret K ks.secret "derived" (emptyTranscriptHash K)
  let handshakeSecret := hkdfExtract K derived dheShared
  (⟨deriveSecret K handshakeSecret "c hs traffic" transcript,
    deriveSecret K handshakeSecret "s hs traffic" transcript⟩, ⟨handshakeSecret⟩)

def enterApplication (transcript : Bytes) : ApplicationSecrets × KeySchedule :=
  let derived := deriveSecret K ks.secret "derived" (emptyTranscriptHash K)
  let masterSecret := hkdfExtract K derived (List.replicate hashLen 0)
  (⟨deriveSecret K masterSecret "c ap traffic" transcript,
    deriveSecret K masterSecret "s ap traffic" transcript,
    deriveSecret K masterSecret "exp master" transcript⟩, ⟨masterSecret⟩)

def resumptionSecret (transcript : Bytes) : Bytes :=
  deriveSecret K ks.secret "res master" transcript

end KeySchedule

/-- The key of one direction, with its record number. -/
structure TrafficKey where
  key : Bytes
  iv : Bytes
  seq : UInt64

namespace TrafficKey

def fromSecret (secret : Bytes) : TrafficKey :=
  ⟨hkdfExpandLabel K secret "key" [] 16, hkdfExpandLabel K secret "iv" [] 12, 0⟩

def nonceForSeq (tk : TrafficKey) (seq : UInt64) : Bytes :=
  tk.iv.take 4 ++ List.zipWith (· ^^^ ·) (tk.iv.drop 4) (beBytes64 seq)

def sealNext (tk : TrafficKey) (aad data : Bytes) : (Bytes × Bytes) × TrafficKey :=
  (K.aeadSeal tk.key (tk.nonceForSeq tk.seq) aad data, { tk with seq := tk.seq + 1 })

/-- The sequence number advances only when the record opens. -/
def openNext (tk : TrafficKey) (aad data tag : Bytes) : Option Bytes × TrafficKey :=
  match K.aeadOpen tk.key (tk.nonceForSeq tk.seq) aad data tag with
  | some pt => (some pt, { tk with seq := tk.seq + 1 })
  | none => (none, tk)

end TrafficKey

namespace ContentType

def changeCipherSpec : UInt8 := 20
def alert : UInt8 := 21
def handshake : UInt8 := 22
def applicationData : UInt8 := 23

end ContentType

/-- Why a record is refused. -/
inductive RecordError where
  | outputTooSmall
  | truncated
  | recordTooLarge
  | unexpectedOpaqueType
  | aeadOpenFailed
  | badInnerPlaintext
  | inputTooLarge
deriving DecidableEq

def headerLen : ℕ := 5
def tagLen : ℕ := 16
def maxRecordLen : ℕ := 16385 + tagLen
def maxInnerPlaintext : ℕ := 16385
def maxRecordTotal : ℕ := headerLen + maxRecordLen

def lenField (input : Bytes) : ℕ := beNat [input.getD 3 0, input.getD 4 0]

theorem headerLen_pos : 0 < headerLen := by decide

theorem headerLen_le (bs : Bytes) : headerLen ≤ headerLen + lenField bs := Nat.le_add_right _ _

theorem total_append (a b : Bytes) (h : headerLen ≤ a.length) :
    headerLen + lenField (a ++ b) = headerLen + lenField a := by
  simp only [headerLen] at h
  simp only [lenField, List.getD_append a b 0 3 (by omega), List.getD_append a b 0 4 (by omega)]

def recordHeader (contentType : UInt8) (len : ℕ) : Bytes :=
  contentType :: beOctets 2 legacyVersionTls12 ++ beOctets 2 len

def makeAad (recordLen : ℕ) : Bytes := recordHeader ContentType.applicationData recordLen

def recordSeal (tk : TrafficKey) (innerType : UInt8) (plaintext : Bytes) (room : ℕ) :
    Except RecordError (Bytes × TrafficKey) :=
  if plaintext.length ≥ maxInnerPlaintext then .error .inputTooLarge
  else
    let recordLen := plaintext.length + 1 + tagLen
    if room < headerLen + recordLen then .error .outputTooSmall
    else if recordLen > 0xffff then .error .recordTooLarge
    else
      let ((ciphertext, tag), tk) := tk.sealNext K (makeAad recordLen) (plaintext ++ [innerType])
      .ok (makeAad recordLen ++ ciphertext ++ tag, tk)

/-- The key advances once the AEAD accepts. -/
def recordOpen (tk : TrafficKey) (input : Bytes) :
    Except RecordError (UInt8 × Bytes) × TrafficKey :=
  if input.length < headerLen then (.error .truncated, tk)
  else if input.getD 0 0 ≠ ContentType.applicationData then (.error .unexpectedOpaqueType, tk)
  else
    let recordLen := lenField input
    if recordLen < tagLen + 1 ∨ recordLen > maxRecordLen then (.error .recordTooLarge, tk)
    else if input.length < headerLen + recordLen then (.error .truncated, tk)
    else
      let body := (input.drop headerLen).take recordLen
      match tk.openNext K (makeAad recordLen) (body.take (recordLen - tagLen))
          (body.drop (recordLen - tagLen)) with
      | (none, tk) => (.error .aeadOpenFailed, tk)
      | (some pt, tk) =>
        match (pt.reverse.dropWhile (· = 0)) with
        | [] => (.error .badInnerPlaintext, tk)
        | innerType :: content => (.ok (innerType, content.reverse), tk)

def buildPlaintext (contentType : UInt8) (body : Bytes) (room : ℕ) : Except RecordError Bytes :=
  if room < headerLen + body.length then .error .outputTooSmall
  else if body.length > 0xffff then .error .recordTooLarge
  else .ok (recordHeader contentType body.length ++ body)

def plainRecord (contentType : UInt8) (body : Bytes) : Bytes :=
  recordHeader contentType body.length ++ body

/-- A record as the peer seals it under the sample primitives. -/
def sealedRecord (innerType : UInt8) (body : Bytes) : Bytes :=
  makeAad (body.length + 1 + tagLen) ++ body ++ innerType :: List.replicate tagLen 0

def parsePlaintext (input : Bytes) : Except RecordError (UInt8 × Bytes) :=
  if input.length < headerLen then .error .truncated
  else if lenField input > maxRecordLen then .error .recordTooLarge
  else if input.length < headerLen + lenField input then .error .truncated
  else .ok (input.getD 0 0, (input.drop headerLen).take (lenField input))

structure TicketKey where
  name : Bytes
  key : Bytes

structure TicketPlaintext where
  version : UInt8
  resumptionMasterSecret : Bytes
  ticketAgeAdd : ℕ
  issuedAtCycles : ℕ
  cipherSuite : ℕ

def ticketVersion : UInt8 := 1
def keyNameLen : ℕ := 16
def ticketPlaintextLen : ℕ := 1 + 32 + 4 + 8 + 2
def sealedLen : ℕ := keyNameLen + 12 + ticketPlaintextLen + tagLen
def ticketLifetimeSeconds : ℕ := 7 * 24 * 3600

def TicketPlaintext.encode (pt : TicketPlaintext) : Bytes :=
  pt.version :: pt.resumptionMasterSecret ++ beOctets 4 pt.ticketAgeAdd ++
    beOctets 8 pt.issuedAtCycles ++ beOctets 2 pt.cipherSuite

def sealUnderKey (tk : TicketKey) (nonce : Bytes) (pt : TicketPlaintext) : Bytes :=
  let (ciphertext, tag) := K.aeadSeal tk.key nonce tk.name pt.encode
  tk.name ++ nonce ++ ciphertext ++ tag

def openUnderKey (tk : TicketKey) (sealed : Bytes) (nowCycles maxAgeCycles : ℕ) :
    Option TicketPlaintext :=
  if sealed.length ≠ sealedLen ∨ sealed.take keyNameLen ≠ tk.name then none
  else
    let rest := sealed.drop keyNameLen
    match K.aeadOpen tk.key (rest.take 12) tk.name ((rest.drop 12).take ticketPlaintextLen)
        (rest.drop (12 + ticketPlaintextLen)) with
    | none => none
    | some buf =>
      let issued := beNat ((buf.drop 37).take 8)
      -- the age is computed modulo 2^64
      if buf.getD 0 0 ≠ ticketVersion ∨ (nowCycles + 2 ^ 64 - issued) % 2 ^ 64 > maxAgeCycles then
        none
      else some {
        version := buf.getD 0 0
        resumptionMasterSecret := (buf.drop 1).take 32
        ticketAgeAdd := beNat ((buf.drop 33).take 4)
        issuedAtCycles := issued
        cipherSuite := beNat ((buf.drop 45).take 2) }

end

/-- The machine the process runs on. -/
structure Host where
  /-- The `n`-th random octets, of the given length. -/
  random : ℕ → ℕ → Option Bytes
  /-- The `n`-th reading of the cycle counter. -/
  clock : ℕ → ℕ
  ticketMaxAgeCycles : ℕ
  /-- The ticket key, once it has been made. -/
  ticketKey : TicketKey

/-- Randomness, clock and replay cache. -/
structure World where
  draws : ℕ := 0
  readings : ℕ := 0
  ticketKeyReady : Bool := false
  replay : ReplayCache := ReplayCache.initial

section

variable (K : Crypto) (H : Host)

def World.getrandom (w : World) (len : ℕ) : Option Bytes × World :=
  (H.random w.draws len, { w with draws := w.draws + 1 })

def World.nowCycles (w : World) : ℕ × World :=
  (H.clock w.readings, { w with readings := w.readings + 1 })

def World.openTicket (w : World) (sealed : Bytes) (now : ℕ) : Option TicketPlaintext :=
  if w.ticketKeyReady then openUnderKey K H.ticketKey sealed now H.ticketMaxAgeCycles else none

/-- Seals a ticket, making the key first when there is none yet. -/
def World.sealTicket (w : World) (pt : TicketPlaintext) : Option Bytes × World :=
  let (nonce, w) := ({ w with ticketKeyReady := true } : World).getrandom H 12
  (nonce.map fun nonce => sealUnderKey K H.ticketKey nonce pt, w)

structure ResumeAccept where
  schedule : KeySchedule
  selectedIdentity : ℕ
  earlyDataAllowed : Bool

/-- The binder of a client that holds `rms`. -/
def expectedBinder (candidate : KeySchedule) (partialTranscript : Bytes) : Bytes :=
  let binderKey := deriveSecret K candidate.secret "res binder" (emptyTranscriptHash K)
  K.hmacSha256 (deriveFinishedKey K binderKey) partialTranscript

/-- The first identity whose ticket opens and whose binder fits. -/
def tryIdentities (partialTranscript : Bytes) (now : ℕ) :
    ℕ → List (Bytes × Bytes) → World → Option ResumeAccept × World
  | _, [], w => (none, w)
  | i, (identity, binder) :: offers, w =>
    match w.openTicket K H identity now with
    | none => tryIdentities partialTranscript now (i + 1) offers w
    | some opened =>
      if opened.cipherSuite ≠ tlsAes128GcmSha256 then
        tryIdentities partialTranscript now (i + 1) offers w
      else
        let psk := hkdfExpandLabel K opened.resumptionMasterSecret "resumption" [] hashLen
        let candidate := KeySchedule.newWithPsk K psk
        if ctEq32 binder (expectedBinder K candidate partialTranscript) then
          let (allowed, replay) := Tls.earlyDataAllowed w.replay identity
          (some ⟨candidate, i, allowed⟩, { w with replay })
        else tryIdentities partialTranscript now (i + 1) offers w

def tryResume (w : World) (fullHandshakeMessage : Bytes) (pskOffer : PskOffer)
    (pskModes : UInt8) : Option ResumeAccept × World :=
  if pskModes &&& flagPskDheKe = 0 then (none, w)
  else if 4 + pskOffer.bindersOffset > fullHandshakeMessage.length then (none, w)
  else
    let (now, w) := w.nowCycles H
    tryIdentities K H (K.sha256 (fullHandshakeMessage.take (4 + pskOffer.bindersOffset))) now 0
      ((pskOffer.identities.map Prod.fst).zip pskOffer.binders) w

end

end Waitless.Tls
