import Waitless.BodySource
import Waitless.Http2Frame

/-! # The HTTP/2 server

The model of `server.rs`: a connection whose demultiplexer reads frames and flushes responses, and
one task for every request with a body.

A run interleaves the demultiplexer, the bytes of the peer and the tasks in any order
(`World.step`). -/

namespace Waitless.Http2

open Waitless.AesGcm
open Waitless.Http.Streaming

def maxFrameSize : ℕ := 16384
def headerTableSize : ℕ := 4096
def maxHeaderListSize : ℕ := 64 * 1024
def maxConcurrentStreams : ℕ := 100
def initialWindow : ℤ := 65535
def streamRecvBufCap : ℕ := 1024 * 1024
def streamSendBufCap : ℕ := 256 * 1024
def headerBlockCap : ℕ := 64 * 1024
def maxContinuationFrames : ℕ := 1024
def rstFloodCap : ℕ := 200
def controlFloodCap : ℕ := 1024
def nameScratchLen : ℕ := 256
def valueScratchLen : ℕ := 16 * 1024

def maxWindow : ℤ := 0x7fffffff

/-- From the demultiplexer to a handler. -/
structure BodyChan where
  chunks : List Bytes := []
  eof : Bool := false
  reset : Bool := false
  consumedUncredited : ℕ := 0
  buffered : ℕ := 0

/-- From a handler to the demultiplexer. -/
structure TxChan where
  /-- The header block of a streamed response. -/
  head : Option Bytes := none
  chunks : List Bytes := []
  buffered : ℕ := 0
  fin : Bool := false
  reset : Bool := false

/-- What the task of a stream and the demultiplexer share. -/
structure Channels where
  body : BodyChan := {}
  tx : TxChan := {}

def BodyChan.nextChunk (d : BodyChan) : Poll (Option Bytes) × BodyChan :=
  match d.chunks with
  | chunk :: chunks =>
    (.ready (some chunk), { d with
      chunks := chunks
      buffered := d.buffered - chunk.length
      consumedUncredited := d.consumedUncredited + chunk.length })
  | [] => if d.reset || d.eof then (.ready none, d) else (.pending, d)

/-- What was read, and whether the end was told. -/
structure Task where
  reader : BodyReader
  headSent : Bool := false
  finished : Bool := false
  read : Bytes := []
  ended : Bool := false

/-- A response handed over as a whole. -/
structure Response where
  headerBlock : Bytes
  body : Bytes

/-- `body` is what is left to send. -/
structure StreamOut where
  id : ℕ
  headerBlock : Bytes
  headersSent : Bool := false
  body : Bytes
  sendWindow : ℤ

/-- A stream of the demultiplexer. -/
structure StreamSlot where
  id : ℕ
  sendWindow : ℤ
  recvWindow : ℤ
  headersSent : Bool := false
  contentLength : Option ℕ
  bodyReceived : ℕ := 0

/-- A header block still without END_HEADERS. -/
structure HeaderAsm where
  streamId : ℕ
  buf : Bytes
  endStream : Bool
  contFrames : ℕ := 0

/-- What frames and tasks share. -/
structure Streams where
  outQueue : List StreamOut := []
  streams : List StreamSlot := []
  chans : ℕ → Channels := fun _ => {}
  respSink : List (ℕ × Response) := []
  /-- The streams tasks were spawned for, the last one first. -/
  spawned : List ℕ := []
  tasks : ℕ → Task := fun _ => { reader := .newStreaming [] none }
  /-- The stream whose handler runs inline. -/
  inline : Option ℕ := none
  peerInitialWindow : ℤ := initialWindow
  lastStreamId : ℕ := 0
  streamsReset : ℕ := 0

/-- The state of the demultiplexer. -/
structure H2Conn extends Streams where
  hpack : Decoder := .new headerTableSize maxHeaderListSize
  ctrlOut : List CtrlFrame := []
  headerAsm : Option HeaderAsm := none
  connSendWindow : ℤ := initialWindow
  peerMaxFrameSize : ℕ := maxFrameSize
  ctrlSinceProgress : ℕ := 0
  closing : Bool := false

namespace Streams

def modifyChan (c : Streams) (sid : ℕ) (f : Channels → Channels) : Streams :=
  { c with chans := Function.update c.chans sid (f (c.chans sid)) }

def modifyBody (c : Streams) (sid : ℕ) (f : BodyChan → BodyChan) : Streams :=
  c.modifyChan sid fun ch => { ch with body := f ch.body }

def slot (c : Streams) (sid : ℕ) : Option StreamSlot := c.streams.find? fun s => s.id = sid

def modifySlot (c : Streams) (sid : ℕ) (f : StreamSlot → StreamSlot) : Streams :=
  { c with streams := c.streams.map fun s => if s.id = sid then f s else s }

def removeSlot (c : Streams) (sid : ℕ) : Streams :=
  { c with streams := c.streams.filter fun s => s.id ≠ sid }

def activeCount (c : Streams) : ℕ := c.streams.length + c.outQueue.length

/-- Its window starts at the peer's initial window. -/
def queueResponse (c : Streams) (sid : ℕ) (resp : Response) : Streams :=
  { c with outQueue := c.outQueue ++
      [{ id := sid, headerBlock := resp.headerBlock, body := resp.body,
         sendWindow := c.peerInitialWindow }] }

def drainResponse (c : Streams) (r : ℕ × Response) : Streams :=
  match c.slot r.1 with
  | none => c
  | some _ =>
    if (c.chans r.1).body.reset then c.removeSlot r.1
    else (c.removeSlot r.1).queueResponse r.1 r.2

def drainResponses (c : Streams) : Streams :=
  c.respSink.foldl drainResponse { c with respSink := [] }

def spawnStreaming (c : Streams) (sid : ℕ) (contentLength : Option ℕ) : Streams :=
  { c with
    spawned := sid :: c.spawned
    tasks := Function.update c.tasks sid { reader := .newStreaming [] contentLength }
    streams := c.streams ++
      [{ id := sid, sendWindow := c.peerInitialWindow, recvWindow := initialWindow,
         contentLength := contentLength }]
    chans := Function.update c.chans sid {} }

def tearDown (ch : Channels) : Channels :=
  { body := { ch.body with reset := true }, tx := { ch.tx with reset := true } }

/-- Its task is told, and what it has to send is dropped. -/
def peerReset (c : Streams) (sid : ℕ) : Streams :=
  let c := { c with streamsReset := c.streamsReset + 1 }
  let c := if (c.slot sid).isSome then (c.removeSlot sid).modifyChan sid tearDown else c
  { c with outQueue := c.outQueue.filter fun o => o.id ≠ sid }

def serverReset (c : Streams) (sid : ℕ) : Streams :=
  if (c.slot sid).isSome then (c.removeSlot sid).modifyBody sid fun d => { d with reset := true }
  else c

/-- Why the server resets the stream of a DATA frame. -/
def dataError (c : Streams) (slot : StreamSlot) (len : ℕ) (data : Bytes) (endStream : Bool) :
    Option ErrorCode :=
  let got := slot.bodyReceived + data.length
  if slot.recvWindow - len < 0 then some .flowControlError
  else if slot.contentLength.any fun cl => cl < got || (endStream && got ≠ cl) then
    some .protocolError
  else if streamRecvBufCap < (c.chans slot.id).body.buffered + data.length then
    some .flowControlError
  else none

def deliver (c : Streams) (sid len : ℕ) (data : Bytes) (endStream : Bool) : Streams :=
  (c.modifySlot sid fun s =>
    { s with
      recvWindow := s.recvWindow - len
      bodyReceived := s.bodyReceived + data.length }).modifyBody sid fun d =>
    { d with
      chunks := if data = [] then d.chunks else d.chunks ++ [data]
      buffered := d.buffered + data.length
      eof := d.eof || endStream }

def creditOut (c : Streams) (sid inc : ℕ) : Streams :=
  { c with
    outQueue := c.outQueue.map fun o =>
      if o.id = sid then { o with sendWindow := o.sendWindow + inc } else o }

def creditSlot (c : Streams) (sid inc : ℕ) : Streams :=
  c.modifySlot sid fun s => { s with sendWindow := s.sendWindow + inc }

end Streams

abbrev Outcome := Except ErrorCode Unit × H2Conn

namespace H2Conn

def onStreams (c : H2Conn) (f : Streams → Streams) : H2Conn := { c with toStreams := f c.toStreams }

def ctrl (c : H2Conn) (frames : List CtrlFrame) : H2Conn := { c with ctrlOut := c.ctrlOut ++ frames }

def ok (c : H2Conn) : Outcome := (.ok (), c)

def fail (c : H2Conn) (e : ErrorCode) : Outcome := (.error e, c)

def creditConn (c : H2Conn) (len : ℕ) : H2Conn :=
  if 0 < len then c.ctrl [.windowUpdate 0 len] else c

def creditConsumed (c : H2Conn) (sid : ℕ) : H2Conn :=
  let n := (c.chans sid).body.consumedUncredited
  let c := c.onStreams (·.modifyBody sid fun d => { d with consumedUncredited := 0 })
  if 0 < n then
    (c.ctrl [.windowUpdate sid (min n 0x7fffffff)]).onStreams
      (·.modifySlot sid fun s => { s with recvWindow := s.recvWindow + n })
  else c

def creditConsumedBodies (c : H2Conn) : H2Conn :=
  (c.streams.map StreamSlot.id).foldl creditConsumed c

/-- Sends what the windows allow of one response. -/
def emitOut (peerMax : ℕ) : ℕ → ℤ → StreamOut → List OutFrame × ℤ × Option StreamOut
  | 0, w, item => ([], w, some item)
  | fuel + 1, w, item =>
    if !item.headersSent then
      let endStream := item.body.isEmpty
      let frame := OutFrame.headers item.id endStream item.headerBlock
      if endStream then ([frame], w, none)
      else
        let (frames, w, item) := emitOut peerMax fuel w { item with headersSent := true }
        (frame :: frames, w, item)
    else if item.body.isEmpty then ([], w, none)
    else
      let allowed := min (min (min w item.sendWindow) peerMax) item.body.length
      if allowed ≤ 0 then ([], w, some item)
      else
        let n := allowed.toNat
        let finishes : Bool := item.body.length = n
        let frame := OutFrame.data item.id finishes (item.body.take n)
        if finishes then ([frame], w - n, none)
        else
          let (frames, w, item) := emitOut peerMax fuel (w - n)
            { item with body := item.body.drop n, sendWindow := item.sendWindow - n }
          (frame :: frames, w, item)

def drainQueue (peerMax : ℕ) : ℤ → List StreamOut → List OutFrame × ℤ × List StreamOut
  | w, [] => ([], w, [])
  | w, item :: items =>
    let (frames, w, item) := emitOut peerMax (item.body.length + 2) w item
    let (frames', w, items) := drainQueue peerMax w items
    (frames ++ frames', w, item.toList ++ items)

def emitChunks (peerMax : ℕ) :
    ℕ → ℤ → StreamSlot → TxChan → List OutFrame × ℤ × StreamSlot × TxChan × Bool
  | 0, w, s, d => ([], w, s, d, false)
  | fuel + 1, w, s, d =>
    match d.chunks with
    | [] => ([], w, s, d, false)
    | front :: chunks =>
      let allowed := min (min (min w s.sendWindow) peerMax) front.length
      if allowed ≤ 0 then ([], w, s, d, false)
      else
        let n := allowed.toNat
        let endStream : Bool := d.fin && (decide (n = front.length) && chunks.isEmpty)
        let d := { d with
          chunks := if n = front.length then chunks else front.drop n :: chunks
          buffered := d.buffered - n }
        let s := { s with sendWindow := s.sendWindow - n }
        let (frames, w, s, d, ended) := emitChunks peerMax fuel (w - n) s d
        (.data s.id endStream (front.take n) :: frames, w, s, d, endStream || ended)

/-- The flag says that the slot is done. -/
def emitStreaming (peerMax : ℕ) (w : ℤ) (s : StreamSlot) (d : TxChan) :
    List OutFrame × ℤ × StreamSlot × TxChan × Bool :=
  if d.reset then
    if s.headersSent then ([.ctrl (.rstStream s.id .internalError)], w, s, d, true)
    else ([], w, s, d, d.head.isSome)
  else
    match d.head with
    | none => ([], w, s, d, false)
    | some block =>
      let endStream := d.fin && d.chunks.isEmpty
      let head := if s.headersSent then [] else [OutFrame.headers s.id endStream block]
      if !s.headersSent && endStream then (head, w, { s with headersSent := true }, d, true)
      else
        let s := { s with headersSent := true }
        let (frames, w, s, d, ended) :=
          emitChunks peerMax (d.chunks.flatten.length + d.chunks.length + 1) w s d
        if d.fin && d.chunks.isEmpty then
          (head ++ frames ++ (if ended then [] else [.data s.id true []]), w, s, d, true)
        else (head ++ frames, w, s, d, false)

/-- The slots that are done go away. -/
def drainSlots (peerMax : ℕ) :
    ℤ → (ℕ → Channels) → List StreamSlot → List OutFrame × ℤ × (ℕ → Channels) × List StreamSlot
  | w, chans, [] => ([], w, chans, [])
  | w, chans, s :: ss =>
    let (frames, w, s, d, done) := emitStreaming peerMax w s (chans s.id).tx
    let chans := Function.update chans s.id { chans s.id with tx := d }
    let (frames', w, chans, ss) := drainSlots peerMax w chans ss
    (frames ++ frames', w, chans, if done then ss else s :: ss)

def flush (c : H2Conn) : List OutFrame × H2Conn :=
  let (queued, w, outQueue) := drainQueue c.peerMaxFrameSize c.connSendWindow c.outQueue
  let (streamed, w, chans, streams) := drainSlots c.peerMaxFrameSize w c.chans c.streams
  (c.ctrlOut.map .ctrl ++ queued ++ streamed,
    { c with
      ctrlOut := [], connSendWindow := w, outQueue := outQueue, chans := chans, streams := streams })

def errorGoaway (c : H2Conn) (code : ErrorCode) : H2Conn :=
  if c.closing then c else { c.ctrl [.goaway c.lastStreamId code] with closing := true }

def noteFrameForFloodGuard (c : H2Conn) (ty : FrameType) (length : ℕ) : Outcome :=
  if ty = .headers ∨ (ty = .data ∧ 0 < length) then ok { c with ctrlSinceProgress := 0 }
  else
    let c := { c with ctrlSinceProgress := c.ctrlSinceProgress + 1 }
    if controlFloodCap < c.ctrlSinceProgress then c.fail .enhanceYourCalm else c.ok

/-- Up to the first window that gets too large. -/
def shiftWindows {α : Type} (shift : α → α) (window : α → ℤ) : List α → List α × Bool
  | [] => ([], true)
  | a :: as =>
    if maxWindow < window (shift a) then (shift a :: as, false)
    else
      let (as, ok) := shiftWindows shift window as
      (shift a :: as, ok)

def applyInitialWindow (c : H2Conn) (value : ℕ) : Outcome :=
  if maxWindow < value then c.fail .flowControlError
  else
    let delta := value - c.peerInitialWindow
    let (outQueue, queueOk) := shiftWindows
      (fun o => { o with sendWindow := o.sendWindow + delta }) StreamOut.sendWindow c.outQueue
    if delta ≠ 0 ∧ !queueOk then { c with outQueue := outQueue }.fail .flowControlError
    else
      let (streams, slotsOk) := shiftWindows
        (fun s => { s with sendWindow := s.sendWindow + delta }) StreamSlot.sendWindow c.streams
      if delta ≠ 0 ∧ !slotsOk then
        { c with outQueue := outQueue, streams := streams }.fail .flowControlError
      else { c with outQueue := outQueue, streams := streams, peerInitialWindow := value }.ok

def applySetting (c : H2Conn) (id value : ℕ) : Outcome :=
  if id = SettingsId.initialWindowSize then c.applyInitialWindow value
  else if id = SettingsId.maxFrameSize then
    if value < 16384 ∨ 16777215 < value then c.fail .protocolError
    else ok { c with peerMaxFrameSize := value }
  else if id = SettingsId.enablePush then if 1 < value then c.fail .protocolError else c.ok
  else c.ok

def applySettings (c : H2Conn) : List (ℕ × ℕ) → Outcome
  | [] => c.ok
  | (id, value) :: params =>
    match c.applySetting id value with
    | (.ok (), c) => applySettings c params
    | (.error e, c) => c.fail e

def processSettings (c : H2Conn) (hdr : FrameHeader) (payload : Bytes) : Outcome :=
  if hdr.streamId ≠ 0 then c.fail .protocolError
  else if hdr.hasFlag Flags.ack then
    if hdr.length ≠ 0 then c.fail .frameSizeError else c.ok
  else
    match parseSettings payload with
    | none => c.fail .frameSizeError
    | some params =>
      match c.applySettings params with
      | (.ok (), c) => (c.ctrl [.settingsAck]).ok
      | (.error e, c) => c.fail e

def resetStream (c : H2Conn) (sid : ℕ) (code : ErrorCode) : H2Conn :=
  (c.onStreams (·.serverReset sid)).ctrl [.rstStream sid code]

/-- Trailers, a late block, or a new request. -/
def completeHeaders (c : H2Conn) (spawns : Bool) (sid : ℕ) (endStream : Bool) (block : Bytes) :
    Outcome :=
  let (verdict, hpack, fields) := c.hpack.decode block nameScratchLen valueScratchLen
  let c := { c with hpack := hpack }
  match verdict with
  | .error .headerListTooLarge => c.fail .enhanceYourCalm
  | .error _ => c.fail .compressionError
  | .ok () =>
    let sink := fields.foldl RequestSink.onField {}
    if (c.slot sid).isSome then
      if endStream then
        (c.onStreams (·.modifyBody sid fun d => { d with eof := true })).ok
      else c.ok
    else if sid ≤ c.lastStreamId then
      let c := { c with streamsReset := c.streamsReset + 1 }
      if rstFloodCap < c.streamsReset then c.fail .enhanceYourCalm else c.ok
    else
      let c := { c with lastStreamId := sid }
      let contentLength := parseContentLength (sink.req.header (ascii "content-length"))
      if sink.isMalformed then (c.ctrl [.rstStream sid .protocolError]).ok
      else if maxConcurrentStreams ≤ c.activeCount then
        (c.ctrl [.rstStream sid .refusedStream]).ok
      else if endStream then
        if contentLength.any (· ≠ 0) then (c.ctrl [.rstStream sid .protocolError]).ok
        else ok { c with inline := some sid }
      else if spawns then (c.onStreams (·.spawnStreaming sid contentLength)).ok
      else (c.ctrl [.rstStream sid .refusedStream]).ok

def processHeaders (c : H2Conn) (spawns : Bool) (hdr : FrameHeader) (payload : Bytes) : Outcome :=
  if hdr.streamId = 0 ∨ hdr.streamId % 2 = 0 then c.fail .protocolError
  else
    match headersFragment payload hdr.flags with
    | none => c.fail .protocolError
    | some frag =>
      let endStream := hdr.hasFlag Flags.endStream
      if hdr.hasFlag Flags.endHeaders then c.completeHeaders spawns hdr.streamId endStream frag
      else if headerBlockCap < frag.length then c.fail .enhanceYourCalm
      else ok { c with headerAsm := some { streamId := hdr.streamId, buf := frag, endStream } }

def continueHeaders (c : H2Conn) (spawns : Bool) (asm : HeaderAsm) (hdr : FrameHeader)
    (payload : Bytes) : Outcome :=
  let asm := { asm with contFrames := asm.contFrames + 1 }
  if maxContinuationFrames < asm.contFrames then
    { c with headerAsm := some asm }.fail .enhanceYourCalm
  else if headerBlockCap < asm.buf.length + payload.length then
    { c with headerAsm := some asm }.fail .enhanceYourCalm
  else
    let asm := { asm with buf := asm.buf ++ payload }
    if hdr.hasFlag Flags.endHeaders then
      { c with headerAsm := none }.completeHeaders spawns asm.streamId asm.endStream asm.buf
    else ok { c with headerAsm := some asm }

def processData (c : H2Conn) (hdr : FrameHeader) (payload : Bytes) : Outcome :=
  if hdr.streamId = 0 then c.fail .protocolError
  else
    match dataPayload payload hdr.flags with
    | none => c.fail .protocolError
    | some data =>
      let endStream := hdr.hasFlag Flags.endStream
      match c.slot hdr.streamId with
      | none => (c.creditConn hdr.length).ok
      | some slot =>
        match c.dataError slot hdr.length data endStream with
        | some code => ((c.resetStream hdr.streamId code).creditConn hdr.length).ok
        | none =>
          let c := c.onStreams (·.deliver hdr.streamId hdr.length data endStream)
          (c.creditConn hdr.length).ok

def processWindowUpdate (c : H2Conn) (hdr : FrameHeader) (payload : Bytes) : Outcome :=
  if hdr.length ≠ 4 then c.fail .frameSizeError
  else
    let inc := windowIncrement payload
    if inc = 0 then
      if hdr.streamId = 0 then c.fail .protocolError
      else (c.ctrl [.rstStream hdr.streamId .protocolError]).ok
    else if hdr.streamId = 0 then
      let c := { c with connSendWindow := c.connSendWindow + inc }
      if maxWindow < c.connSendWindow then c.fail .flowControlError else c.ok
    else
      match c.outQueue.find? fun o => o.id = hdr.streamId with
      | some item =>
        let c := c.onStreams (·.creditOut hdr.streamId inc)
        if maxWindow < item.sendWindow + inc then
          (c.ctrl [.rstStream hdr.streamId .flowControlError]).ok
        else c.ok
      | none =>
        match c.slot hdr.streamId with
        | some slot =>
          let c := c.onStreams (·.creditSlot hdr.streamId inc)
          if maxWindow < slot.sendWindow + inc then
            (c.ctrl [.rstStream hdr.streamId .flowControlError]).ok
          else c.ok
        | none => c.ok

def processRstStream (c : H2Conn) (hdr : FrameHeader) : Outcome :=
  if hdr.streamId = 0 then c.fail .protocolError
  else if hdr.length ≠ 4 then c.fail .frameSizeError
  else
    let c := c.onStreams (·.peerReset hdr.streamId)
    if rstFloodCap < c.streamsReset then c.fail .enhanceYourCalm else c.ok

def processPing (c : H2Conn) (hdr : FrameHeader) (payload : Bytes) : Outcome :=
  if hdr.streamId ≠ 0 then c.fail .protocolError
  else if hdr.length ≠ 8 then c.fail .frameSizeError
  else if hdr.hasFlag Flags.ack then c.ok
  else (c.ctrl [.pingAck (payload.take 8)]).ok

def dispatchFrame (c : H2Conn) (spawns : Bool) (hdr : FrameHeader) (payload : Bytes) : Outcome :=
  match hdr.ty with
  | .settings => c.processSettings hdr payload
  | .headers => c.processHeaders spawns hdr payload
  | .data => c.processData hdr payload
  | .windowUpdate => c.processWindowUpdate hdr payload
  | .rstStream => c.processRstStream hdr
  | .ping => c.processPing hdr payload
  | .priority => c.ok
  | .goaway => ok { c with closing := true }
  | .pushPromise => c.fail .protocolError
  | .continuation => c.fail .protocolError
  | .unknown _ => c.ok

def processFrame (c : H2Conn) (spawns : Bool) (hdr : FrameHeader) (payload : Bytes) : Outcome :=
  match c.headerAsm with
  | some asm =>
    if hdr.ty ≠ .continuation ∨ hdr.streamId ≠ asm.streamId then c.fail .protocolError
    else c.continueHeaders spawns asm hdr payload
  | none =>
    if hdr.ty = .continuation then c.fail .protocolError
    else
      match c.noteFrameForFloodGuard hdr.ty hdr.length with
      | (.error e, c) => c.fail e
      | (.ok (), c) => c.dispatchFrame spawns hdr payload

def resetAllStreams (c : H2Conn) : H2Conn :=
  c.onStreams fun s =>
    { (s.streams.map StreamSlot.id).foldl (fun s sid => s.modifyChan sid Streams.tearDown) s with
      streams := [] }

end H2Conn

/-- What a handler can do between two of its awaits. -/
inductive TaskOp where
  /-- Asks for the next bytes of the body. -/
  | read
  /-- Writes, with the header block the first time. -/
  | write (block chunk : Bytes)
  | finish (block : Bytes)
  /-- Returns, with this response if it has not streamed one. -/
  | done (success : Bool) (resp : Response)

def flushHead (t : Task) (d : TxChan) (block : Bytes) : Option (Task × TxChan) :=
  if t.headSent then some (t, d)
  else if d.reset then none
  else some ({ t with headSent := true }, { d with head := some block })

def writeChunk (d : TxChan) (chunk : Bytes) : TxChan :=
  if d.reset then d
  else if d.buffered = 0 ∨ d.buffered + chunk.length ≤ streamSendBufCap then
    { d with buffered := d.buffered + chunk.length, chunks := d.chunks ++ [chunk] }
  else d

def finishTx (d : TxChan) : TxChan := if d.reset then d else { d with fin := true }

def Streams.put (c : Streams) (sid : ℕ) (t : Task) (ch : Channels) : Streams :=
  { c with tasks := Function.update c.tasks sid t, chans := Function.update c.chans sid ch }

def Streams.readTask (c : Streams) (sid : ℕ) : Streams :=
  let t := c.tasks sid
  let ch := c.chans sid
  match t.reader.chunk BodyChan.nextChunk ch.body with
  | (.pending, reader, body) => c.put sid { t with reader } { ch with body }
  | (.ready none, reader, body) => c.put sid { t with reader, ended := true } { ch with body }
  | (.ready (some bytes), reader, body) =>
    c.put sid { t with reader, read := t.read ++ bytes } { ch with body }

def Streams.runTask (c : Streams) (sid : ℕ) (op : TaskOp) : Streams :=
  let t := c.tasks sid
  let ch := c.chans sid
  match op with
  | .read => c.readTask sid
  | .write block chunk =>
    match flushHead t ch.tx block with
    | none => c
    | some (t, tx) => c.put sid t { ch with tx := writeChunk tx chunk }
  | .finish block =>
    match flushHead t ch.tx block with
    | none => c
    | some (t, tx) => c.put sid t { ch with tx := finishTx tx }
  | .done success resp =>
    let t' := { t with finished := true }
    if t.headSent then
      c.put sid t' { ch with tx := if success then finishTx ch.tx else { ch.tx with reset := true } }
    else { c.put sid t' ch with respSink := c.respSink ++ [(sid, resp)] }

/-- Credit, and payloads up to the first END_STREAM. -/
structure Seen where
  credit : ℕ := 0
  body : Bytes := []
  ended : Bool := false

/-- A connection with its tasks, and what went over the wire. -/
structure World where
  conn : H2Conn := {}
  inbuf : Bytes := []
  closed : Bool := false
  wire : List OutFrame := []
  seen : ℕ → Seen := fun _ => {}
  /-- The initial window size the peer has told last. -/
  peerWindow : ℤ := initialWindow

/-- What stands at the front of the input. -/
inductive ReadResult where
  | frame (hdr : FrameHeader) (payload rest : Bytes)
  | frameTooLarge
  | needMore

def readFrame (inbuf : Bytes) : ReadResult :=
  if inbuf.length < frameHeaderLen then .needMore
  else
    let hdr := FrameHeader.parse inbuf
    let total := frameHeaderLen + hdr.length
    if maxFrameSize < hdr.length then .frameTooLarge
    else if inbuf.length < total then .needMore
    else .frame hdr ((inbuf.take total).drop frameHeaderLen) (inbuf.drop total)

/-- A step of the demultiplexer or of a task. -/
inductive Action where
  /-- The demultiplexer's loop up to its next read. -/
  | sweep
  | recv (chunk : Bytes)
  | frame (spawns : Bool)
  /-- The peer is gone. -/
  | eof
  /-- The handler the demultiplexer is running returns. -/
  | respond (resp : Response)
  /-- The task of a stream goes on. -/
  | task (sid : ℕ) (op : TaskOp)

namespace World

def close (w : World) (c : H2Conn) : World :=
  { w with conn := { c.resetAllStreams with outQueue := [] }, closed := true }

def sweep (w : World) : World :=
  let c := w.conn.creditConsumedBodies.onStreams Streams.drainResponses
  let (frames, c) := c.flush
  { w with
    conn := c, wire := w.wire ++ frames
    closed := c.closing && c.outQueue.isEmpty && c.streams.isEmpty }

/-- A connection error: GOAWAY, and the connection is dropped. -/
def abort (w : World) (c : H2Conn) (code : ErrorCode) : World :=
  let (frames, c) := (c.errorGoaway code).flush
  close { w with wire := w.wire ++ frames } c

/-- The header block a frame completes. -/
def blockOf (c : H2Conn) (hdr : FrameHeader) : Option (ℕ × Bool) :=
  if !hdr.hasFlag Flags.endHeaders then none
  else
    match hdr.ty, c.headerAsm with
    | .headers, _ => some (hdr.streamId, hdr.hasFlag Flags.endStream)
    | .continuation, some asm => some (asm.streamId, asm.endStream)
    | _, _ => none

/-- What a frame adds to what the peer has sent. -/
def observe (sid : ℕ) (c : H2Conn) (hdr : FrameHeader) (payload : Bytes) (s : Seen) : Seen :=
  if c.lastStreamId < sid then s
  else
    match hdr.ty with
    | .data =>
      if hdr.streamId = sid ∧ !s.ended then
        { s with
          body := s.body ++ (dataPayload payload hdr.flags).getD []
          ended := hdr.hasFlag Flags.endStream }
      else s
    | .windowUpdate =>
      if hdr.streamId = sid then { s with credit := s.credit + windowIncrement payload } else s
    | _ =>
      match blockOf c hdr with
      | some (sid', fin) => if sid' = sid then { s with ended := s.ended || fin } else s
      | none => s

def observeWindow (hdr : FrameHeader) (payload : Bytes) (w : ℤ) : ℤ :=
  if hdr.ty = .settings ∧ !hdr.hasFlag Flags.ack then
    (settingPairs payload).foldl
      (fun w p => if p.1 = SettingsId.initialWindowSize then (p.2 : ℤ) else w) w
  else w

def takeFrame (w : World) (spawns : Bool) (hdr : FrameHeader) (payload : Bytes) : World :=
  let w' := { w with
    seen := fun sid => observe sid w.conn hdr payload (w.seen sid)
    peerWindow := observeWindow hdr payload w.peerWindow }
  match w.conn.processFrame spawns hdr payload with
  | (.error e, c) => w'.abort c e
  | (.ok (), c) => { w' with conn := c }

/-- Connected, and no handler is running. -/
def ready (w : World) : Bool := !w.closed && w.conn.inline.isNone

def step (w : World) (a : Action) : World :=
  match a with
  | .sweep => if w.ready then w.sweep else w
  | .recv chunk => { w with inbuf := w.inbuf ++ chunk }
  | .frame spawns =>
    if w.ready then
      match readFrame w.inbuf with
      | .needMore => w
      | .frameTooLarge => w.abort w.conn .frameSizeError
      | .frame hdr payload rest => takeFrame { w with inbuf := rest } spawns hdr payload
    else w
  | .eof => if w.ready then w.close w.conn else w
  | .respond resp =>
    match w.conn.inline with
    | some sid =>
      { w with conn := w.conn.onStreams fun c => { c.queueResponse sid resp with inline := none } }
    | none => w
  | .task sid op =>
    if sid ∈ w.conn.spawned ∧ !(w.conn.tasks sid).finished then
      { w with conn := w.conn.onStreams (·.runTask sid op) }
    else w

def run (w : World) (as : List Action) : World := as.foldl step w

def dataSent (sid : ℕ) (frames : List OutFrame) : ℕ :=
  (frames.map fun f =>
    match f with
    | .data id _ payload => if id = sid then payload.length else 0
    | _ => 0).sum

end World

end Waitless.Http2
