import Waitless.Hpack
import Waitless.HttpParser
import Waitless.QuicWire

/-! # HTTP/2 frames and requests

The model of `frame.rs` and of the framing helpers of `server.rs`: the frame header, the frames the
server sends, padding and priority of a received frame, SETTINGS parameters, and the sink that
turns the fields of a header block into a request. -/

namespace Waitless.Http2

open Waitless.AesGcm
open Waitless.Http (RequestHead Header Method isDigit maxPath maxHeaders maxName maxValue)
open Waitless.Quic (beNat)

/-- The type octet of a frame. -/
inductive FrameType where
  | data
  | headers
  | priority
  | rstStream
  | settings
  | pushPromise
  | ping
  | goaway
  | windowUpdate
  | continuation
  | unknown (ty : UInt8)
deriving DecidableEq

def FrameType.ofByte : UInt8 → FrameType
  | 0x0 => .data
  | 0x1 => .headers
  | 0x2 => .priority
  | 0x3 => .rstStream
  | 0x4 => .settings
  | 0x5 => .pushPromise
  | 0x6 => .ping
  | 0x7 => .goaway
  | 0x8 => .windowUpdate
  | 0x9 => .continuation
  | ty => .unknown ty

namespace Flags

def endStream : UInt8 := 0x1
def ack : UInt8 := 0x1
def endHeaders : UInt8 := 0x4
def padded : UInt8 := 0x8
def priority : UInt8 := 0x20

end Flags

namespace SettingsId

def enablePush : ℕ := 0x2
def initialWindowSize : ℕ := 0x4
def maxFrameSize : ℕ := 0x5

end SettingsId

/-- RFC 9113, section 7. -/
inductive ErrorCode where
  | noError
  | protocolError
  | internalError
  | flowControlError
  | streamClosed
  | frameSizeError
  | refusedStream
  | cancel
  | compressionError
  | enhanceYourCalm
deriving DecidableEq

def frameHeaderLen : ℕ := 9

structure FrameHeader where
  length : ℕ
  ty : FrameType
  flags : UInt8
  streamId : ℕ

namespace FrameHeader

/-- Nine bytes; the reserved bit of the stream id is ignored. -/
def parse (buf : Bytes) : FrameHeader where
  length := beNat (buf.take 3)
  ty := .ofByte (buf.getD 3 0)
  flags := buf.getD 4 0
  streamId := beNat ((buf.drop 5).take 4) % 2 ^ 31

def hasFlag (h : FrameHeader) (flag : UInt8) : Bool := h.flags &&& flag ≠ 0

end FrameHeader

/-- Not bounded by flow control. -/
inductive CtrlFrame where
  | rstStream (sid : ℕ) (code : ErrorCode)
  | settingsAck
  | pingAck (payload : Bytes)
  | goaway (lastStreamId : ℕ) (code : ErrorCode)
  | windowUpdate (sid increment : ℕ)

/-- A frame to be sent. -/
inductive OutFrame where
  | ctrl (frame : CtrlFrame)
  | headers (sid : ℕ) (endStream : Bool) (block : Bytes)
  | data (sid : ℕ) (endStream : Bool) (payload : Bytes)

def padding (payload : Bytes) (fl : UInt8) : Option (ℕ × Bytes) :=
  if fl &&& Flags.padded ≠ 0 then
    match payload with
    | [] => none
    | first :: rest => some (first.toNat, rest)
  else some (0, payload)

def stripPadding (pad : ℕ) (p : Bytes) : Option Bytes :=
  if p.length < pad then none else some (p.take (p.length - pad))

def headersFragment (payload : Bytes) (fl : UInt8) : Option Bytes := do
  let (pad, p) ← padding payload fl
  if fl &&& Flags.priority ≠ 0 then
    if p.length < 5 then none else stripPadding pad (p.drop 5)
  else stripPadding pad p

def dataPayload (payload : Bytes) (fl : UInt8) : Option Bytes := do
  let (pad, p) ← padding payload fl
  stripPadding pad p

def settingPairs : Bytes → List (ℕ × ℕ)
  | a :: b :: c :: d :: e :: f :: rest => (beNat [a, b], beNat [c, d, e, f]) :: settingPairs rest
  | _ => []

def parseSettings (payload : Bytes) : Option (List (ℕ × ℕ)) :=
  if payload.length % 6 ≠ 0 then none else some (settingPairs payload)

def windowIncrement (payload : Bytes) : ℕ := beNat (payload.take 4) % 2 ^ 31

def setPath (r : RequestHead) (path : Bytes) : RequestHead := { r with path := path.take maxPath }

def pushHeader (r : RequestHead) (name value : Bytes) : RequestHead :=
  if maxHeaders ≤ r.headers.length then r
  else { r with headers := r.headers ++ [⟨name.take maxName, value.take maxValue⟩] }

/-- The request so far, and what has been seen of it. -/
structure RequestSink where
  req : RequestHead := {}
  malformed : Bool := false
  seenRegular : Bool := false
  hasMethod : Bool := false
  hasScheme : Bool := false
  hasPath : Bool := false
  hasAuthority : Bool := false

def decodeMethod (value : Bytes) : Method :=
  if value = ascii "GET" then .get
  else if value = ascii "HEAD" then .head
  else if value = ascii "POST" then .post
  else if value = ascii "PUT" then .put
  else if value = ascii "DELETE" then .delete
  else .unknown

/-- Fields of HTTP/1 connections that a request must not have. -/
def connectionSpecific : List Bytes :=
  [ascii "connection", ascii "keep-alive", ascii "proxy-connection", ascii "transfer-encoding",
    ascii "upgrade"]

namespace RequestSink

def reject (s : RequestSink) : RequestSink := { s with malformed := true }

def onField (s : RequestSink) (f : Field) : RequestSink :=
  if f.name.any fun b => 65 ≤ b ∧ b ≤ 90 then s.reject
  else
    let isPseudo := f.name.head? = some 58
    if isPseudo ∧ s.seenRegular then s.reject
    else
      let s := if isPseudo then s else { s with seenRegular := true }
      if f.name = ascii ":method" then
        if s.hasMethod then s.reject
        else { s with hasMethod := true, req := { s.req with method := decodeMethod f.value } }
      else if f.name = ascii ":path" then
        if s.hasPath ∨ f.value = [] then s.reject
        else { s with hasPath := true, req := setPath s.req f.value }
      else if f.name = ascii ":scheme" then
        if s.hasScheme then s.reject else { s with hasScheme := true }
      else if f.name = ascii ":authority" then
        if s.hasAuthority then s.reject
        else { s with hasAuthority := true, req := pushHeader s.req (ascii "host") f.value }
      else if isPseudo then s.reject
      else if f.name ∈ connectionSpecific then s.reject
      else if f.name = ascii "te" then if f.value = ascii "trailers" then s else s.reject
      else { s with req := pushHeader s.req f.name f.value }

/-- A pseudo-header is missing, or a field is not allowed. -/
def isMalformed (s : RequestSink) : Bool :=
  s.malformed || !s.hasMethod || !s.hasScheme || !s.hasPath

end RequestSink

/-- A number in decimal, below `2 ^ 64`. -/
def parseContentLength (v : Option Bytes) : Option ℕ := do
  let v ← v
  if v = [] then none
  else
    v.foldlM (fun n b =>
      if !isDigit b then none
      else if 2 ^ 64 ≤ n * 10 then none
      else if 2 ^ 64 ≤ n * 10 + (b.toNat - 48) then none
      else some (n * 10 + (b.toNat - 48))) 0

end Waitless.Http2
