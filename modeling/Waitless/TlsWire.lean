import Waitless.QuicWire

/-! # TLS 1.3 handshake messages

The model of the `handshake` modules: the parsers and builders of the messages both ends of a
connection exchange, and the walk through a certificate that finds the server's public key. -/

namespace Waitless.Tls

open Waitless.AesGcm
open Waitless.Quic (beNat beOctets)

namespace MsgType

def clientHello : UInt8 := 1
def serverHello : UInt8 := 2
def newSessionTicket : UInt8 := 4
def encryptedExtensions : UInt8 := 8
def certificate : UInt8 := 11
def certificateVerify : UInt8 := 15
def finished : UInt8 := 20

end MsgType

namespace ExtType

def serverName : ℕ := 0
def supportedGroups : ℕ := 10
def signatureAlgorithms : ℕ := 13
def applicationLayerProtocolNegotiation : ℕ := 16
def preSharedKey : ℕ := 41
def supportedVersions : ℕ := 43
def pskKeyExchangeModes : ℕ := 45
def keyShare : ℕ := 51
def quicTransportParameters : ℕ := 0x39

end ExtType

def flagPskKe : UInt8 := 1
def flagPskDheKe : UInt8 := 2
def x25519Group : ℕ := 0x001d
def tlsAes128GcmSha256 : ℕ := 0x1301
def ecdsaSecp256r1Sha256 : ℕ := 0x0403
def legacyVersionTls12 : ℕ := 0x0303
def versionTls13 : ℕ := 0x0304
def hashLen : ℕ := 32

/-- Why a message is refused. -/
inductive ParseError where
  | truncated
  | badLength
  | wrongType
  | missingExtension
  | badExtension
  | unsupported
deriving DecidableEq

/-- A parser of the octets at the front of its buffer. -/
abbrev Parser := StateT Bytes (Except ParseError)

namespace Parser

def bytes (n : ℕ) : Parser Bytes := fun b =>
  if b.length < n then .error .truncated else .ok (b.take n, b.drop n)

def u16 : Parser ℕ := beNat <$> bytes 2
def u24 : Parser ℕ := beNat <$> bytes 3
def u32 : Parser ℕ := beNat <$> bytes 4

def vectorU8 : Parser Bytes := do bytes (beNat (← bytes 1))
def vectorU16 : Parser Bytes := do bytes (← u16)

def isEmpty : Parser Bool := do return (← get).isEmpty

def value {α : Type} (p : Parser α) (b : Bytes) : Except ParseError α := Prod.fst <$> p b

/-- `item` over and over to the end of the buffer. -/
def toEnd {σ : Type} (item : σ → Parser σ) : ℕ → σ → Parser σ
  | 0, s => pure s
  | n + 1, s => do if ← isEmpty then pure s else toEnd item n (← item s)

def all {σ : Type} (item : σ → Parser σ) (s : σ) (b : Bytes) : Except ParseError σ :=
  value (toEnd item b.length s) b

/-- The type and the body of one extension. -/
def extension : Parser (ℕ × Bytes) := do
  let t ← u16
  let body ← vectorU16
  return (t, body)

end Parser

def words : Bytes → List ℕ
  | a :: b :: bs => beNat [a, b] :: words bs
  | _ => []

def parseHandshake (data : Bytes) : Except ParseError (UInt8 × Bytes) :=
  match data with
  | t :: a :: b :: c :: rest =>
    let len := beNat [a, b, c]
    if 4 + len > data.length then .error .badLength else .ok (t, rest.take len)
  | _ => .error .truncated

def encodeHandshake (msgType : UInt8) (body : Bytes) (cap : ℕ) : Option Bytes :=
  if cap < 4 + body.length ∨ body.length > 0xffffff then none
  else some (msgType :: beOctets 3 body.length ++ body)

/-- Identities with their ages, and the binder of each. -/
structure PskOffer where
  identities : List (Bytes × ℕ)
  binders : List Bytes
  bindersOffset : ℕ

/-- What the server reads of a ClientHello. -/
structure ClientHello where
  legacySessionId : Bytes
  x25519ClientPub : Option Bytes := none
  offersTls13 : Bool := false
  offersX25519 : Bool := false
  psk : Option PskOffer := none
  pskKeModes : UInt8 := 0
  quicTransportParameters : Option Bytes := none
  alpnProtocolList : Option Bytes := none

def maxPskIdentities : ℕ := 4

namespace ClientHello

def parseKeyShare (ch : ClientHello) : Parser ClientHello := do
  let group ← Parser.u16
  let keyExchange ← Parser.vectorU16
  if group = x25519Group ∧ keyExchange.length = 32 then
    return { ch with x25519ClientPub := some keyExchange }
  else return ch

def parseIdentity (ids : List (Bytes × ℕ)) : Parser (List (Bytes × ℕ)) := do
  let identity ← Parser.vectorU16
  if identity.isEmpty then throw .badExtension
  let age ← Parser.u32
  return ids ++ [(identity, age)]

def parseBinder (binders : List Bytes) : Parser (List Bytes) := do
  let binder ← Parser.vectorU8
  if binder.length < 32 ∨ binder.length > 255 then throw .badExtension
  return binders ++ [binder]

/-- The body starts at `offset` in the message body. -/
def parsePreSharedKey (offset : ℕ) : Parser PskOffer := do
  let identitiesBytes ← Parser.vectorU16
  let identities ← Parser.all parseIdentity [] identitiesBytes
  let bindersBytes ← Parser.vectorU16
  let binders ← Parser.all parseBinder [] bindersBytes
  if identities.length ≠ binders.length ∨ identities.length = 0 then throw .badExtension
  if !(← Parser.isEmpty) then throw .badExtension
  return {
    identities := identities.take maxPskIdentities
    binders := binders.take maxPskIdentities
    bindersOffset := offset + 4 + 2 + identitiesBytes.length }

/-- The block of `extLen` octets starts at `extOffset`. -/
def parseExtension (extOffset extLen : ℕ) (ch : ClientHello) : Parser ClientHello := do
  let offset := extOffset + (extLen - (← get).length)
  let (t, data) ← Parser.extension
  if t = ExtType.supportedVersions then
    let versions ← Parser.value Parser.vectorU8 data
    if versions.length % 2 ≠ 0 then throw .badExtension
    return { ch with offersTls13 := ch.offersTls13 || (words versions).contains versionTls13 }
  else if t = ExtType.supportedGroups then
    let groups ← Parser.value Parser.vectorU16 data
    if groups.length % 2 ≠ 0 then throw .badExtension
    return { ch with offersX25519 := ch.offersX25519 || (words groups).contains x25519Group }
  else if t = ExtType.keyShare then
    let entries ← Parser.value Parser.vectorU16 data
    Parser.all parseKeyShare ch entries
  else if t = ExtType.signatureAlgorithms then
    let algs ← Parser.value Parser.vectorU16 data
    if algs.length % 2 ≠ 0 then throw .badExtension
    return ch
  else if t = ExtType.pskKeyExchangeModes then
    let (modes, rest) ← (Parser.vectorU8 data : Except ParseError (Bytes × Bytes))
    if modes.isEmpty || !rest.isEmpty then throw .badExtension
    return { ch with
      pskKeModes := modes.foldl
        (fun m b => if b = 0 then m ||| flagPskKe else if b = 1 then m ||| flagPskDheKe else m)
        ch.pskKeModes }
  else if t = ExtType.preSharedKey then
    let psk ← Parser.value (parsePreSharedKey offset) data
    -- the extension has to be the last one
    if !(← Parser.isEmpty) then throw .badExtension
    return { ch with psk := some psk }
  else if t = ExtType.quicTransportParameters then
    return { ch with quicTransportParameters := some data }
  else if t = ExtType.applicationLayerProtocolNegotiation then
    let names ← Parser.value Parser.vectorU16 data
    return { ch with alpnProtocolList := some names }
  else return ch

/-- The fields, and the extension block with its offset. -/
def parseFields (bodyLen : ℕ) : Parser (ClientHello × ℕ × Bytes) := do
  let _ ← Parser.u16
  let _ ← Parser.bytes 32
  let legacySessionId ← Parser.vectorU8
  if legacySessionId.length > 32 then throw .badLength
  let suites ← Parser.vectorU16
  if suites.length % 2 ≠ 0 then throw .badLength
  if !(words suites).contains tlsAes128GcmSha256 then throw .unsupported
  let _ ← Parser.vectorU8
  let extOffset := bodyLen - (← get).length + 2
  let extBytes ← Parser.vectorU16
  return ({ legacySessionId }, extOffset, extBytes)

def parse (body : Bytes) : Except ParseError ClientHello := do
  let (ch, extOffset, extBytes) ← Parser.value (parseFields body.length) body
  let ch ← Parser.all (parseExtension extOffset extBytes.length) ch extBytes
  if !ch.offersTls13 then throw .unsupported
  return ch

end ClientHello

/-- Up to the first name that does not fit. -/
def iterAlpn (list : Bytes) : List Bytes :=
  let rec go : ℕ → Bytes → List Bytes
    | 0, _ => []
    | _, [] => []
    | fuel + 1, len :: rest =>
      if len.toNat > rest.length then []
      else rest.take len.toNat :: go fuel (rest.drop len.toNat)
  go list.length list

def extensionBytes (t : ℕ) (body : Bytes) : Bytes :=
  beOctets 2 t ++ beOctets 2 body.length ++ body

def buildServerPreSharedKeyExt (selectedIdentity : ℕ) : Bytes :=
  extensionBytes ExtType.preSharedKey (beOctets 2 selectedIdentity)

def buildServerHello (serverRandom legacySessionIdEcho serverX25519Pub : Bytes)
    (selectedPskIdentity : Option ℕ) (cap : ℕ) : Option Bytes :=
  let exts :=
    extensionBytes ExtType.supportedVersions (beOctets 2 versionTls13) ++
    extensionBytes ExtType.keyShare
      (beOctets 2 x25519Group ++ beOctets 2 32 ++ serverX25519Pub) ++
    (selectedPskIdentity.map buildServerPreSharedKeyExt).getD []
  let out := beOctets 2 legacyVersionTls12 ++ serverRandom ++
    UInt8.ofNat legacySessionIdEcho.length :: legacySessionIdEcho ++
    beOctets 2 tlsAes128GcmSha256 ++ [0] ++ beOctets 2 exts.length ++ exts
  if legacySessionIdEcho.length > 32 ∨ cap < out.length then none else some out

def buildEncryptedExtensions (extras : List (ℕ × Bytes)) (cap : ℕ) : Option Bytes :=
  let exts := extras.flatMap fun e => extensionBytes e.1 e.2
  if exts.length > 0xffff ∨ cap < 2 + exts.length then none
  else some (beOctets 2 exts.length ++ exts)

def buildCertificate (chain : List Bytes) (cap : ℕ) : Option Bytes :=
  let list := chain.flatMap fun cert => beOctets 3 cert.length ++ cert ++ [0, 0]
  if chain.isEmpty ∨ (chain.any fun cert => 0xffffff < cert.length) ∨ cap < 1 + 3 + list.length ∨
      list.length > 0xffffff then none
  else some (0 :: beOctets 3 list.length ++ list)

/-- What the signature of a CertificateVerify message covers. -/
def signContentServerCertVerify (transcriptHash : Bytes) : Bytes :=
  List.replicate 64 0x20 ++ ascii "TLS 1.3, server CertificateVerify" ++ [0] ++ transcriptHash

def buildCertificateVerify (signature : Bytes) (cap : ℕ) : Option Bytes :=
  if cap < 2 + 2 + signature.length ∨ signature.length > 0xffff then none
  else some (beOctets 2 ecdsaSecp256r1Sha256 ++ beOctets 2 signature.length ++ signature)

def buildFinished (verifyData : Bytes) (cap : ℕ) : Option Bytes :=
  if cap < verifyData.length then none else some verifyData

def parseFinished (body : Bytes) : Except ParseError Bytes :=
  if body.length ≠ hashLen then .error .badLength else .ok body

def buildNewSessionTicket (lifetimeSeconds ageAdd : ℕ) (ticketNonce ticket extensions : Bytes)
    (cap : ℕ) : Option Bytes :=
  if ticketNonce.length > 255 ∨ ticket.isEmpty ∨ ticket.length > 0xffff ∨
      extensions.length > 0xfffe ∨
      cap < 4 + 4 + 1 + ticketNonce.length + 2 + ticket.length + 2 + extensions.length then none
  else some (beOctets 4 lifetimeSeconds ++ beOctets 4 ageAdd ++
    UInt8.ofNat ticketNonce.length :: ticketNonce ++ beOctets 2 ticket.length ++ ticket ++
    beOctets 2 extensions.length ++ extensions)

end Waitless.Tls
