import Waitless.ChunkedRecords
import Waitless.TlsKeys

/-! # The TLS server

The model of `server.rs` and `handlers.rs`: the handshake up to the session ticket, the application
data behind it, and `process_chunk`, which cuts the records out of what arrives.

The plaintext of a record inside a chunk is put out only when the whole chunk has been handled: a
record that fails takes the plaintext of those before it in its chunk along
(`plaintext_lost_with_chunk`). What a stream yields is the walk over all of it (`plaintexts`), and of
that a cut hands out what starts before its failing chunk (`pendingPlaintext_feed`). So two cuts of
one stream always end the same way, and `chunking_irrelevant` says exactly when they hand out the
same plaintext. Cryptographic primitives are the uninterpreted functions of `Crypto`. -/

namespace Waitless.Tls.Server

open Waitless.AesGcm
open List
open Waitless.Quic (beNat beOctets)

structure TlsServerConfig where
  certChain : List Bytes
  signingKey : Bytes

/-- Why a handshake fails. -/
inductive HandshakeError where
  | parseError (e : ParseError)
  | recordError (e : RecordError)
  | unsupportedClient
  | aeadFailed
  | txBufTooSmall
  | badClientFinished
  | unexpectedRecord
  | keyExhausted
  | internal
deriving DecidableEq

/-- The protocol agreed on. -/
inductive AlpnProtocol where
  | none
  | http11
  | h2
deriving DecidableEq

/-- How far the handshake is. -/
inductive State where
  | waitClientHello
  | waitClientFinished
  | established
  | closed
  | failed
deriving DecidableEq

def State.isTerminated (s : State) : Bool := s = .closed ∨ s = .failed

def txBufLen : ℕ := 4096

/-- A server, with what the process shares between connections. -/
structure TlsServer where
  state : State := .waitClientHello
  txBuf : Bytes := []
  transcript : Transcript := []
  schedule : KeySchedule
  ephemeral : Option Bytes
  clientHsTk : Option TrafficKey := none
  serverHsTk : Option TrafficKey := none
  clientApTk : Option TrafficKey := none
  serverApTk : Option TrafficKey := none
  serverHsSecret : Option Bytes := none
  clientHsSecret : Option Bytes := none
  negotiatedAlpn : AlpnProtocol := .none
  world : World

/-- A failed call leaves the state where it failed. -/
abbrev ServerM := EStateM HandshakeError TlsServer

/-- A pure check inside a method. -/
def orFail {α : Type} : Except HandshakeError α → ServerM α
  | .ok a => pure a
  | .error e => throw e

def orThrow {α : Type} (e : HandshakeError) : Option α → ServerM α
  | some a => pure a
  | none => throw e

section

variable (K : Crypto) (H : Host) (config : TlsServerConfig)

def initInPlace (seed : Bytes) (world : World) : TlsServer where
  schedule := KeySchedule.newWithoutPsk K
  ephemeral := some seed
  world

def onWorld {α : Type} (f : World → α × World) : ServerM α :=
  modifyGet fun s => ((f s.world).1, { s with world := (f s.world).2 })

def checkClientHello (rec : Bytes) : Except HandshakeError (Bytes × ClientHello × Bytes) := do
  let (ct, body) ← (parsePlaintext rec).mapError .recordError
  if ct ≠ ContentType.handshake then throw .unexpectedRecord
  let (hsType, hsBody) ← (parseHandshake body).mapError fun e =>
    if e = .truncated then .unsupportedClient else .parseError e
  if hsType ≠ MsgType.clientHello then throw .unexpectedRecord
  let ch ← (ClientHello.parse hsBody).mapError fun _ => .unsupportedClient
  match ch.x25519ClientPub with
  | some pub => return (body, ch, pub)
  | none => throw .unsupportedClient

/-- The server prefers `h2`. -/
def selectAlpn (offer : Option Bytes) : AlpnProtocol × Bytes :=
  match offer.map iterAlpn with
  | none => (.none, [])
  | some names =>
    if names.contains (ascii "h2") then (.h2, ascii "h2")
    else if names.contains (ascii "http/1.1") then (.http11, ascii "http/1.1")
    else (.none, [])

/-- When one of the offered tickets is good. -/
def resumeOffer (message : Bytes) (ch : ClientHello) : ServerM (Option ResumeAccept) :=
  match ch.psk with
  | some offer => onWorld fun w => tryResume K H w message offer ch.pskKeModes
  | none => pure none

/-- In a buffer of `cap` octets. -/
def encode (msgType : UInt8) (body : Option Bytes) (cap : ℕ) : ServerM Bytes := do
  let body ← orThrow .internal body
  orThrow .internal (encodeHandshake msgType body cap)

def sealHandshakeRecord (tk : TrafficKey) (body : Bytes) : ServerM TrafficKey := do
  let room := txBufLen - (← get).txBuf.length
  if room < headerLen + body.length + 1 + tagLen then throw .txBufTooSmall
  let (rec, tk) ← orFail ((recordSeal K tk ContentType.handshake body room).mapError .recordError)
  modify fun s => { s with txBuf := s.txBuf ++ rec }
  return tk

def sendSealed (tk : TrafficKey) (msg : Bytes) : ServerM TrafficKey := do
  modify fun s => { s with transcript := s.transcript ++ msg }
  sealHandshakeRecord K tk msg

/-- With the shared secret. -/
def sendServerHello (ch : ClientHello) (clientPub : Bytes) (selectedPskIdentity : Option ℕ) :
    ServerM Bytes := do
  let serverRandom ← orThrow .internal (← onWorld fun w => w.getrandom H 32)
  let ephemeral ← orThrow .internal (← get).ephemeral
  modify fun s => { s with ephemeral := none }
  let msg ← encode MsgType.serverHello (buildServerHello serverRandom ch.legacySessionId
    (K.x25519Public ephemeral) selectedPskIdentity 256) 280
  let s ← get
  let rec ← orFail ((buildPlaintext ContentType.handshake msg
    (txBufLen - s.txBuf.length)).mapError .recordError)
  set { s with txBuf := s.txBuf ++ rec, transcript := s.transcript ++ msg }
  return K.x25519Shared ephemeral clientPub

def enterHandshake (shared : Bytes) (resume : Option ResumeAccept) : ServerM HandshakeSecrets := do
  let s ← get
  let schedule := (resume.map ResumeAccept.schedule).getD s.schedule
  let (hs, schedule) := schedule.enterHandshake K shared (s.transcript.snapshot K)
  set { s with
    schedule
    clientHsSecret := some hs.clientHs
    serverHsSecret := some hs.serverHs
    clientHsTk := some (TrafficKey.fromSecret K hs.clientHs) }
  return hs

def ccsRecord : Bytes := [0x14, 0x03, 0x03, 0x00, 0x01, 0x01]

def sendCcs : ServerM Unit := do
  let s ← get
  if txBufLen - s.txBuf.length < ccsRecord.length then throw .txBufTooSmall
  set { s with txBuf := s.txBuf ++ ccsRecord }

def sendEncryptedExtensions (tk : TrafficKey) (selectedAlpn : Bytes) : ServerM TrafficKey := do
  let extras := if selectedAlpn.isEmpty then [] else
    [(ExtType.applicationLayerProtocolNegotiation, beOctets 2 (1 + selectedAlpn.length) ++
      UInt8.ofNat selectedAlpn.length :: selectedAlpn)]
  let msg ← encode MsgType.encryptedExtensions (buildEncryptedExtensions extras 32) 32
  sendSealed K tk msg

def sendCertificate (tk : TrafficKey) : ServerM TrafficKey := do
  let certMsg ← encode MsgType.certificate (buildCertificate config.certChain 4096) 4128
  let tk ← sendSealed K tk certMsg
  let signContent := signContentServerCertVerify ((← get).transcript.snapshot K)
  let cvMsg ← encode MsgType.certificateVerify
    (buildCertificateVerify (K.ecdsaSign config.signingKey signContent) 128) 150
  sendSealed K tk cvMsg

def sendFinished (tk : TrafficKey) (serverHs : Bytes) : ServerM TrafficKey := do
  let verify := K.hmacSha256 (deriveFinishedKey K serverHs) ((← get).transcript.snapshot K)
  let msg ← encode MsgType.finished (buildFinished verify hashLen) 48
  sendSealed K tk msg

def doClientHello (rec : Bytes) : ServerM Unit := do
  let (body, ch, clientPub) ← orFail (checkClientHello rec)
  let (negotiated, selected) := selectAlpn ch.alpnProtocolList
  let resume ← resumeOffer K H body ch
  modify fun s => { s with negotiatedAlpn := negotiated, transcript := s.transcript ++ body }
  let shared ← sendServerHello K H ch clientPub (resume.map ResumeAccept.selectedIdentity)
  let hs ← enterHandshake K shared resume
  sendCcs
  let tk ← sendEncryptedExtensions K (TrafficKey.fromSecret K hs.serverHs) selected
  -- a resumed handshake is authenticated by its binder
  let tk ← if resume.isSome then pure tk else sendCertificate K config tk
  let tk ← sendFinished K tk hs.serverHs
  modify fun s =>
    let (app, schedule) := s.schedule.enterApplication K (s.transcript.snapshot K)
    { s with
      serverHsTk := some tk
      schedule
      clientApTk := some (TrafficKey.fromSecret K app.clientAp)
      serverApTk := some (TrafficKey.fromSecret K app.serverAp)
      state := .waitClientFinished }

def emitSessionTicket : ServerM Unit := do
  let s ← get
  let rms := s.schedule.resumptionSecret K (s.transcript.snapshot K)
  let ageBytes ← orThrow .internal (← onWorld fun w => w.getrandom H 4)
  let ageAdd := beNat ageBytes
  let issuedAtCycles ← onWorld fun w => w.nowCycles H
  let sealed ← orThrow .internal (← onWorld fun w => w.sealTicket K H {
    version := ticketVersion
    resumptionMasterSecret := rms
    ticketAgeAdd := ageAdd
    issuedAtCycles
    cipherSuite := tlsAes128GcmSha256 })
  let msg ← encode MsgType.newSessionTicket
    (buildNewSessionTicket ticketLifetimeSeconds ageAdd [] sealed [] (sealedLen + 32))
    (sealedLen + 64)
  let tk ← orThrow .internal (← get).serverApTk
  let tk ← sealHandshakeRecord K tk msg
  modify fun s => { s with serverApTk := some tk }

def openHandshake (rec : Bytes) : ServerM (UInt8 × Bytes) := do
  let s ← get
  let tk ← orThrow .internal s.clientHsTk
  let (opened, tk) := recordOpen K tk rec
  set { s with clientHsTk := some tk }
  orFail (opened.mapError .recordError)

def doClientFinished (rec : Bytes) : ServerM Unit := do
  if rec.getD 0 0 ≠ ContentType.changeCipherSpec then
    let (innerType, pt) ← openHandshake K rec
    if innerType ≠ ContentType.handshake then throw .unexpectedRecord
    if 256 < pt.length then throw .internal
    let (hsType, hsBody) ← orFail ((parseHandshake pt).mapError .parseError)
    if hsType ≠ MsgType.finished then throw .unexpectedRecord
    let clientVerify ← orFail ((parseFinished hsBody).mapError .parseError)
    let s ← get
    let clientHsSecret ← orThrow .internal s.clientHsSecret
    let expected := K.hmacSha256 (deriveFinishedKey K clientHsSecret) (s.transcript.snapshot K)
    if !ctEq32 clientVerify expected then throw .badClientFinished
    modify fun s => { s with transcript := s.transcript ++ pt }
    -- without a ticket the handshake is complete all the same
    try emitSessionTicket K H catch _ => pure ()
    modify fun s => { s with state := .established }

/-- Once the handshake is over. -/
def doAppData (rec : Bytes) : ServerM (List Bytes) := do
  let s ← get
  let tk ← orThrow .internal s.clientApTk
  let (opened, tk) := recordOpen K tk rec
  set { s with clientApTk := some tk }
  let (innerType, pt) ← orFail (opened.mapError .recordError)
  if innerType = ContentType.applicationData then return if pt.isEmpty then [] else [pt]
  else if innerType = ContentType.alert then
    modify fun s => { s with state := .closed }
    return []
  else throw .unexpectedRecord

def dispatchRecord (rec : Bytes) : ServerM (List Bytes) := do
  match (← get).state with
  | .waitClientHello => doClientHello K H config rec *> pure []
  | .waitClientFinished => doClientFinished K H rec *> pure []
  | .established => doAppData K rec
  | .closed => return []
  | .failed => return []

def machine : ChunkedRecords.Machine UInt8 TlsServer HandshakeError Bytes where
  headerLen := headerLen
  total bs := headerLen + lenField bs
  maxTotal := maxRecordTotal
  tooLarge := .recordError .recordTooLarge
  stopped s := s.state.isTerminated
  handle s rec :=
    match dispatchRecord K H config rec s with
    | .ok out s => (.ok out, s)
    | .error e s => (.error e, s)
  headerLen_pos := headerLen_pos
  headerLen_le := headerLen_le
  total_append := total_append

/-- With its unfinished record, staged plaintext and queued plaintext. -/
structure Conn where
  reader : ChunkedRecords.Reader UInt8 TlsServer Bytes
  pendingPlaintext : List Bytes := []

def newBox (seed : Bytes) (world : World) : Conn where
  reader := ⟨[], initInPlace K seed world, []⟩

def processChunk (c : Conn) (chunk : Bytes) : Except HandshakeError Unit × Conn :=
  let (res, reader, out) := (machine K H config).processChunk c.reader chunk
  (res, ⟨reader, c.pendingPlaintext ++ out⟩)

def feed (c : Conn) : List Bytes → Except HandshakeError Unit × Conn
  | [] => (.ok (), c)
  | chunk :: chunks =>
    match processChunk K H config c chunk with
    | (.error e, c) => (.error e, c)
    | (.ok (), c) => feed c chunks

/-- How a connection stands. -/
inductive Outcome where
  | alive
  | closed
  | failed (e : HandshakeError)
deriving DecidableEq

def outcome : Except HandshakeError Unit × Conn → Outcome
  | (.error e, _) => .failed e
  | (.ok (), c) => if c.reader.state.state = .closed then .closed else .alive

theorem feed_eq (c : Conn) (chunks : List Bytes) :
    feed K H config c chunks =
      (((machine K H config).feed c.reader chunks).1,
        ⟨((machine K H config).feed c.reader chunks).2.1,
          c.pendingPlaintext ++ ((machine K H config).feed c.reader chunks).2.2⟩) := by
  induction chunks generalizing c with
  | nil => simp [feed, ChunkedRecords.Machine.feed]
  | cons chunk chunks ih =>
    rw [feed, processChunk, ChunkedRecords.Machine.feed]
    generalize (machine K H config).processChunk c.reader chunk = res
    obtain ⟨e | u, reader, out⟩ := res
    · rfl
    · simp only [ih, append_assoc]

theorem feed_new (seed : Bytes) (world : World) (chunks : List Bytes) :
    let x := feed K H config (newBox K seed world) chunks
    let w := (machine K H config).walk (initInPlace K seed world) chunks.flatten
    x.1 = w.result ∧ x.2.reader.state = w.state ∧
      x.2.pendingPlaintext ++ x.2.reader.staged = w.out := by
  have hfeed := (machine K H config).feed_spec (newBox K seed world).reader chunks
    ((machine K H config).idle_nil _) rfl
  rw [feed_eq]
  exact ⟨hfeed.result, hfeed.state, hfeed.out⟩

/-- The application plaintext of a stream, up to its end or its failing record. Every piece stands
with where its record starts. -/
def plaintexts (seed : Bytes) (world : World) (stream : Bytes) : List (ℕ × Bytes) :=
  ((machine K H config).marked.walk (initInPlace K seed world, 0) stream).out

/-- Where the chunk starts in which a record fails, or the end of the stream when none does. -/
def failingChunk (seed : Bytes) (world : World) (chunks : List Bytes) : ℕ :=
  (machine K H config).failingChunk (initInPlace K seed world) [] chunks

theorem pendingPlaintext_feed (seed : Bytes) (world : World) (chunks : List Bytes) :
    (feed K H config (newBox K seed world) chunks).2.pendingPlaintext =
      ((plaintexts K H config seed world chunks.flatten).filter
        fun x => x.1 < failingChunk K H config seed world chunks).map Prod.snd := by
  rw [feed_eq]
  exact (nil_append _).trans ((machine K H config).feed_out _ chunks)

/-- **The cut does not matter**: two cuts of a stream end the same way. They hand out the same
plaintext exactly when no record with plaintext, before the failing one, starts inside the failing
chunk of one cut only, and a cut hands out all of it when none starts inside its failing chunk. -/
theorem chunking_irrelevant (seed : Bytes) (world : World) (chunks₁ chunks₂ : List Bytes)
    (hstream : chunks₁.flatten = chunks₂.flatten) :
    let x₁ := feed K H config (newBox K seed world) chunks₁
    let x₂ := feed K H config (newBox K seed world) chunks₂
    let sent := plaintexts K H config seed world chunks₁.flatten
    outcome x₁ = outcome x₂ ∧
    x₁.2.reader.state.txBuf = x₂.2.reader.state.txBuf ∧
    (x₁.2.pendingPlaintext = x₂.2.pendingPlaintext ↔
      ∀ x ∈ sent, x.1 < failingChunk K H config seed world chunks₁ ↔
        x.1 < failingChunk K H config seed world chunks₂) ∧
    (x₁.2.pendingPlaintext = sent.map Prod.snd ↔
      ∀ x ∈ sent, x.1 < failingChunk K H config seed world chunks₁) := by
  have h1 := feed_new K H config seed world chunks₁
  have h2 := feed_new K H config seed world chunks₂
  have hout1 := pendingPlaintext_feed K H config seed world chunks₁
  have hout2 := pendingPlaintext_feed K H config seed world chunks₂
  rw [← hstream] at h2 hout2
  intro x₁ x₂ sent
  refine ⟨?_, ?_, ?_, ?_⟩
  · have hres : x₁.1 = x₂.1 := h1.1.trans h2.1.symm
    have hstate : x₁.2.reader.state = x₂.2.reader.state := h1.2.1.trans h2.2.1.symm
    generalize x₁ = y₁ at hres hstate
    generalize x₂ = y₂ at hres hstate
    obtain ⟨e | u, c₁⟩ := y₁
    · obtain ⟨e', c₂⟩ := y₂
      cases hres
      rfl
    · obtain ⟨e', c₂⟩ := y₂
      cases hres
      simp only [outcome]
      rw [hstate]
  · exact congrArg TlsServer.txBuf (h1.2.1.trans h2.2.1.symm)
  · rw [hout1, hout2]
    exact ChunkedRecords.map_filter_lt_eq_iff
  · rw [hout1]
    simpa using ChunkedRecords.map_filter_eq_map_iff (f := Prod.snd) (l := sent)
      (p := fun x => x.1 < failingChunk K H config seed world chunks₁)

end

def tagCrypto : Crypto :=
  { sampleCrypto with
    aeadOpen := fun _ _ _ data tag => if tag = List.replicate tagLen 0 then some data else none }

def sampleHost : Host where
  random _ len := some (List.replicate len 1)
  clock _ := 0
  ticketMaxAgeCycles := 10
  ticketKey := ⟨List.replicate 16 0, List.replicate 16 0⟩

def sampleConfig : TlsServerConfig := ⟨[[0x30, 0]], []⟩

def sampleClientHello : Bytes :=
  [1, 0, 0, 117, 3, 3] ++ List.replicate 32 0 ++ [0, 0, 2, 0x13, 1, 1, 0, 0, 74] ++
    extensionBytes ExtType.supportedGroups [0, 2, 0, 0x1d] ++
    extensionBytes ExtType.signatureAlgorithms [0, 2, 4, 3] ++
    extensionBytes ExtType.applicationLayerProtocolNegotiation ([0, 3, 2] ++ ascii "h2") ++
    extensionBytes ExtType.supportedVersions [2, 3, 4] ++
    extensionBytes ExtType.keyShare ([0, 36, 0, 0x1d, 0, 32] ++ List.replicate 32 9)

def sampleStream : Bytes :=
  plainRecord ContentType.handshake sampleClientHello ++
    sealedRecord ContentType.handshake ([20, 0, 0, 32, 31] ++ List.replicate 31 0) ++
    sealedRecord ContentType.applicationData [104, 105]

def forgedRecord : Bytes :=
  makeAad (2 + 1 + tagLen) ++ [104, 105, ContentType.applicationData] ++ List.replicate tagLen 1

def sampleFeed (chunks : List Bytes) : Except HandshakeError Unit × Conn :=
  feed tagCrypto sampleHost sampleConfig (newBox tagCrypto [] {}) chunks

/-- The forged record in a chunk of its own, or cut in its middle. -/
theorem chunking_irrelevant_forged :
    outcome (sampleFeed [sampleStream, forgedRecord]) = .failed (.recordError .aeadOpenFailed) ∧
    (sampleFeed [sampleStream, forgedRecord]).2.pendingPlaintext = [[104, 105]] ∧
    (sampleFeed [sampleStream ++ forgedRecord.take 9, forgedRecord.drop 9]).2.pendingPlaintext =
      (sampleFeed [sampleStream, forgedRecord]).2.pendingPlaintext := by
  refine ⟨by decide +kernel, by decide +kernel, ?_⟩
  have h := chunking_irrelevant tagCrypto sampleHost sampleConfig [] {}
    [sampleStream ++ forgedRecord.take 9, forgedRecord.drop 9] [sampleStream, forgedRecord]
    (by decide +kernel)
  unfold sampleFeed
  exact h.2.2.1.mpr (by decide +kernel)

/-- A forged record behind a good one, whose plaintext is lost. -/
theorem plaintext_lost_with_chunk :
    [sampleStream, forgedRecord].flatten = [sampleStream ++ forgedRecord].flatten ∧
    outcome (sampleFeed [sampleStream, forgedRecord]) =
      outcome (sampleFeed [sampleStream ++ forgedRecord]) ∧
    (sampleFeed [sampleStream, forgedRecord]).2.pendingPlaintext = [[104, 105]] ∧
    (sampleFeed [sampleStream ++ forgedRecord]).2.pendingPlaintext = [] := by
  decide +kernel

end Waitless.Tls.Server
