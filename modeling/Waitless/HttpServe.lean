import Waitless.BodySource

/-! # Keep-alive connections

The model of `serve_conn` with `body.rs` and the response head of `response.rs`.

So over any cut of a pipeline of requests into chunks the handler is called once for each request,
in order, with its head and its part of the body, and the same responses are sent
(`pipelining_exact`). -/

namespace Waitless.Http

open Waitless.AesGcm Scanner StreamingRequestParser List

/-- A buffered response. -/
structure Response where
  status : ℤ := 200
  contentType : Bytes := ascii "application/octet-stream"
  body : Bytes := []
  extraHeaders : List (Bytes × Bytes) := []

def Response.badRequest : Response where
  status := 400
  contentType := ascii "text/plain"
  body := ascii "Bad Request"

def headerBufSize : ℕ := 1024

/-- What does not fit is left out. -/
def hpush (buf data : Bytes) : Bytes :=
  if headerBufSize < buf.length + data.length then buf else buf ++ data

def writeUsize (n : ℕ) : Bytes := (Nat.toDigits 10 n).map fun c => UInt8.ofNat c.toNat

def writeStatusCode (status : ℤ) : Bytes :=
  if 100 ≤ status ∧ status ≤ 999 then writeUsize status.toNat else ascii "0"

def statusText (status : ℤ) : String :=
  if status = 200 then "OK"
  else if status = 201 then "Created"
  else if status = 204 then "No Content"
  else if status = 301 then "Moved Permanently"
  else if status = 302 then "Found"
  else if status = 304 then "Not Modified"
  else if status = 400 then "Bad Request"
  else if status = 401 then "Unauthorized"
  else if status = 403 then "Forbidden"
  else if status = 404 then "Not Found"
  else if status = 405 then "Method Not Allowed"
  else if status = 500 then "Internal Server Error"
  else if status = 501 then "Not Implemented"
  else if status = 502 then "Bad Gateway"
  else if status = 503 then "Service Unavailable"
  else "Unknown"

def writeResponseHeadParts (resp : Response) (keepAlive : Bool) : Bytes :=
  let parts := [ascii "HTTP/1.1 ", writeStatusCode resp.status, ascii " ",
    ascii (statusText resp.status), ascii "\r\nContent-Type: ", resp.contentType,
    ascii "\r\nContent-Length: ", writeUsize resp.body.length, ascii "\r\nConnection: ",
    ascii (if keepAlive then "keep-alive" else "close"), ascii "\r\n"]
  let extra := resp.extraHeaders.flatMap fun h => [h.1, ascii ": ", h.2, ascii "\r\n"]
  (parts ++ extra ++ [ascii "\r\n"]).foldl hpush []

def Response.bytes (resp : Response) (keepAlive : Bool) : Bytes :=
  writeResponseHeadParts resp keepAlive ++ resp.body

open Streaming (BodyReader Poll)

/-- The chunks of the connection. A body of length zero has no source, and does not ask for one. -/
def nextChunk : List Bytes → Poll (Option Bytes) × List Bytes
  | [] => (.ready none, [])
  | iobuf :: stream => (.ready (some iobuf), stream)

namespace Streaming.BodyReader

def new (prebuf : Bytes) (total : ℕ) : BodyReader where
  prebuf := prebuf.take (min prebuf.length total)
  limit := some total

def isEmpty (br : BodyReader) : Bool := br.remaining = 0

/-- The flag says that the body came to its end. -/
def discard : ℕ → BodyReader → List Bytes → Bool × BodyReader × List Bytes
  | 0, br, stream => (false, br, stream)
  | fuel + 1, br, stream =>
    if br.limit.any fun t => t ≤ br.delivered then (true, br, stream)
    else
      match br.chunk nextChunk stream with
      | (.ready (some c), br, stream) =>
        if c.isEmpty then (br.limit.isNone, br, stream) else discard fuel br stream
      | (_, br, stream) => (br.limit.isNone, br, stream)

/-- Reads until there are `want` octets or the body ends. -/
def readUpTo (want : ℕ) : ℕ → Bytes → BodyReader → List Bytes → Bytes × BodyReader × List Bytes
  | 0, acc, br, stream => (acc, br, stream)
  | fuel + 1, acc, br, stream =>
    if want ≤ acc.length then (acc, br, stream)
    else
      match br.chunk nextChunk stream with
      | (.ready (some c), br, stream) => readUpTo want fuel (acc ++ c) br stream
      | (_, br, stream) => (acc, br, stream)

end Streaming.BodyReader

/-- A handler that buffers its responses. -/
structure Handler (σ : Type) where
  asks : σ → RequestHead → ℕ
  respond : σ → RequestHead → Bytes → Response × σ

/-- The head, and the octets of the body it asked for. -/
structure Call where
  head : RequestHead
  read : Bytes
deriving DecidableEq

/-- Why a connection is given up. -/
inductive Ending where
  | peerEof
  | overflow
  | bodyDrainFailed
  | closed
deriving DecidableEq

/-- What a connection has come to. -/
structure Served where
  ending : Ending
  calls : List Call := []
  sent : List Bytes := []
deriving DecidableEq

def Served.after (calls : List Call) (sent : List Bytes) (x : Served) : Served :=
  { x with calls := calls ++ x.calls, sent := sent ++ x.sent }

def wantClose (r : RequestHead) : Bool :=
  r.reject || (r.header (ascii "Connection")).any fun v => eqIgnoreCase v (ascii "close")

def bodyOf (r : RequestHead) (carry : Option Bytes) : BodyReader :=
  if 0 < r.contentLength then
    .new ((carry.getD []).take (min r.contentLength (carry.getD []).length)) r.contentLength
  else .new [] 0

def advanceCarry (r : RequestHead) (carry leftover : Option Bytes) : Option Bytes :=
  if 0 < r.contentLength then
    let carry := carry.bind fun c => intoRemainder c (min r.contentLength c.length)
    leftover <|> carry
  else carry

variable {σ : Type} (h : Handler σ)

def serveLoop : ℕ → σ → Option Bytes → List Bytes → Served
  | 0, _, _, _ => { ending := .closed }
  | fuel + 1, s, carry, stream =>
    match ({} : StreamingRequestParser).readHead {} (carry.toList ++ stream) with
    | .overflow => { ending := .overflow }
    | .eof => { ending := .peerEof }
    | .done r carry stream =>
      if r.reject then { ending := .closed, sent := [Response.badRequest.bytes false] }
      else
        let want := h.asks s r
        let (read, body, stream) :=
          BodyReader.readUpTo want (stream.length + 2) [] (bodyOf r carry) stream
        let (resp, s) := h.respond s r (read.take want)
        let (drained, body, stream) :=
          if wantClose r || body.isEmpty then (true, body, stream)
          else body.discard (stream.length + 2) stream
        if !drained then { ending := .bodyDrainFailed, calls := [⟨r, read.take want⟩] }
        else if wantClose r then
          { ending := .closed, calls := [⟨r, read.take want⟩], sent := [resp.bytes false] }
        else
          (serveLoop fuel s (advanceCarry r carry body.leftover) stream).after
            [⟨r, read.take want⟩] [resp.bytes true]

def serveConn (s : σ) (stream : List Bytes) : Served :=
  serveLoop h (stream.flatten.length + 1) s none stream

namespace Streaming.BodyReader

def unread (br : BodyReader) : Bytes := br.prebuf.drop br.prebufConsumed

def turns (br : BodyReader) (stream : List Bytes) : ℕ :=
  stream.length + if br.unread = [] then 0 else 1

/-- `left` is still to be read of the body and `rest` comes behind it; `tail` is the part of the carry
behind the body. -/
structure Reading (br : BodyReader) (stream : List Bytes) (tail left rest : Bytes) : Prop where
  limit : br.limit = some (br.delivered + left.length)
  bytes : br.unread ++ (tail ++ (br.leftover.getD [] ++ stream.flatten)) = left ++ rest
  unread_le : br.unread.length ≤ left.length
  tail : tail ≠ [] → left.length ≤ br.unread.length ∧ br.leftover = none
  leftover : left ≠ [] → br.leftover = none
  chunks : ∀ c ∈ stream, c ≠ []

variable {br : BodyReader} {stream : List Bytes} {tail left rest : Bytes}

theorem Reading.any_limit (hr : Reading br stream tail left rest) :
    (br.limit.any fun t => t ≤ br.delivered) = true ↔ left = [] := by
  simp [hr.limit]

theorem chunk_nil (hr : Reading br stream tail [] rest) :
    br.chunk nextChunk stream = (.ready none, br, stream) := by
  rw [chunk, if_pos (hr.any_limit.mpr rfl)]

theorem chunk_prebuf (hr : Reading br stream tail left rest) (hunread : br.unread ≠ []) :
    ∃ left' br', br.chunk nextChunk stream = (.ready (some br.unread), br', stream) ∧ left = br.unread ++ left' ∧
      br'.unread = [] ∧ Reading br' stream tail left' rest := by
  have hpos := length_pos_iff.mpr hunread
  have hlen : br.unread.length = br.prebuf.length - br.prebufConsumed := by simp [unread]
  have hopen := mt hr.any_limit.mp (length_pos_iff.mp (hpos.trans_le hr.unread_le))
  obtain ⟨hlimit, hbytes, hle, htail, hleftover, hchunks⟩ := hr
  obtain ⟨left', rfl⟩ : br.unread <+: left :=
    prefix_of_prefix_length_le (hbytes ▸ prefix_append ..) (prefix_append ..) hle
  rw [append_assoc, append_cancel_left_eq] at hbytes
  rw [length_append] at hlimit
  have htake : br.wanted (br.prebuf.length - br.prebufConsumed) = br.unread.length := by
    rw [wanted, hlimit, Option.elim_some]
    omega
  have hall : br.prebuf.drop (br.prebufConsumed + br.unread.length) = [] :=
    drop_eq_nil_of_le (by omega)
  rw [chunk, if_neg hopen, if_pos (by omega)]
  simp only [htake]
  have hunread' : (br.prebuf.drop br.prebufConsumed).take br.unread.length = br.unread :=
    take_length
  rw [hunread']
  have hnil : ({ br with
      prebufConsumed := br.prebufConsumed + br.unread.length
      delivered := br.delivered + br.unread.length } : BodyReader).unread = [] := hall
  refine ⟨left', _, rfl, rfl, hnil, ?_⟩
  refine ⟨?_, ?_, ?_, ?_, ?_, hchunks⟩
  · simp only [hlimit, Nat.add_assoc]
  · rw [hnil]
    exact hbytes
  · rw [hnil]
    exact Nat.zero_le _
  · intro ht
    have := (htail ht).1
    rw [length_append] at this
    exact ⟨by omega, (htail ht).2⟩
  · exact fun hne => hleftover (by simp [hne])

theorem chunk_stream (hr : Reading br stream tail left rest) (hunread : br.unread = [])
    (hleft : left ≠ []) :
    ∃ c left' br' iobuf stream', stream = iobuf :: stream' ∧
      br.chunk nextChunk stream = (.ready (some c), br', stream') ∧ c ≠ [] ∧ left = c ++ left' ∧
      br'.unread = [] ∧
      Reading br' stream' tail left' rest := by
  have hpos := length_pos_iff.mpr hleft
  have hconsumed : ¬ br.prebufConsumed < br.prebuf.length := by
    have := congrArg length hunread
    simp only [unread, length_drop, length_nil] at this
    omega
  have hopen := mt hr.any_limit.mp hleft
  obtain ⟨hlimit, hbytes, hle, htail, hleftover, hchunks⟩ := hr
  obtain rfl : tail = [] := by
    by_contra ht
    have := (htail ht).1
    rw [hunread, length_nil] at this
    omega
  rw [hunread, hleftover hleft] at hbytes
  simp only [Option.getD_none, nil_append] at hbytes
  cases stream with
  | nil =>
    have := congrArg length hbytes
    simp only [flatten_nil, length_nil, length_append] at this
    omega
  | cons iobuf stream' =>
    have hne : iobuf ≠ [] := hchunks iobuf (mem_cons_self ..)
    have hnepos := length_pos_iff.mpr hne
    have hchunks' : ∀ c ∈ stream', c ≠ [] := fun c hc => hchunks c (mem_cons_of_mem _ hc)
    rw [flatten_cons] at hbytes
    have hwant : br.wanted iobuf.length = min iobuf.length left.length := by
      rw [wanted, hlimit, Option.elim_some, Nat.add_sub_cancel_left]
    rw [chunk, if_neg hopen, if_neg hconsumed]
    simp only [nextChunk, accept, hwant]
    rw [if_neg (by omega)]
    by_cases hfits : iobuf.length ≤ left.length
    · -- the whole chunk belongs to the body
      obtain ⟨left', rfl⟩ : iobuf <+: left :=
        prefix_of_prefix_length_le (hbytes ▸ prefix_append ..) (prefix_append ..)
          hfits
      rw [append_assoc, append_cancel_left_eq] at hbytes
      rw [length_append] at hlimit
      rw [Nat.min_eq_left hfits, if_pos rfl]
      refine ⟨iobuf, left', _, iobuf, stream', rfl, rfl, hne, rfl, hunread, ?_⟩
      refine ⟨?_, ?_, ?_, fun ht => absurd rfl ht, ?_, hchunks'⟩
      · simp only [hlimit, Nat.add_assoc]
      · change br.unread ++ ([] ++ (br.leftover.getD [] ++ stream'.flatten)) = left' ++ rest
        rw [hunread, hleftover hleft]
        exact hbytes
      · change br.unread.length ≤ left'.length
        rw [hunread]
        exact Nat.zero_le _
      · exact fun _ => hleftover hleft
    · -- the body ends inside the chunk
      have hsplit : iobuf.take left.length = left ∧
          iobuf.drop left.length ++ stream'.flatten = rest := by
        obtain ⟨more, rfl⟩ : left <+: iobuf :=
          prefix_of_prefix_length_le (prefix_append ..)
            (hbytes ▸ prefix_append ..) (by omega)
        rw [append_assoc, append_cancel_left_eq] at hbytes
        simpa using hbytes
      rw [Nat.min_eq_right (by omega), if_neg (by omega), hsplit.1]
      refine ⟨left, [], _, iobuf, stream', rfl, rfl, hleft, by simp, hunread, ?_⟩
      refine ⟨hlimit, ?_, ?_, fun ht => absurd rfl ht, fun ht => absurd rfl ht, hchunks'⟩
      · change br.unread ++ ([] ++ ((intoRemainder iobuf left.length).getD [] ++ stream'.flatten)) =
          [] ++ rest
        rw [hunread, getD_intoRemainder]
        exact hsplit.2
      · change br.unread.length ≤ 0
        rw [hunread]
        exact Nat.zero_le _

/-- **Every chunk is the next part of the body.** -/
theorem chunk_spec (hr : Reading br stream tail left rest) (hleft : left ≠ []) :
    ∃ c left' br' stream', br.chunk nextChunk stream = (.ready (some c), br', stream') ∧ c ≠ [] ∧
      left = c ++ left' ∧
      Reading br' stream' tail left' rest ∧ br'.turns stream' < br.turns stream := by
  by_cases hunread : br.unread = []
  · obtain ⟨c, left', br', iobuf, stream', rfl, hchunk, hne, hsplit, hunread', hr'⟩ :=
      chunk_stream hr hunread hleft
    refine ⟨c, left', br', stream', hchunk, hne, hsplit, hr', ?_⟩
    simp [turns, hunread, hunread']
  · obtain ⟨left', br', hchunk, hsplit, hunread', hr'⟩ := chunk_prebuf hr hunread
    refine ⟨_, left', br', stream, hchunk, hunread, hsplit, hr', ?_⟩
    simp [turns, hunread, hunread']

theorem readUpTo_spec (want : ℕ) {fuel : ℕ} (acc : Bytes) (hr : Reading br stream tail left rest)
    (hfuel : br.turns stream < fuel) :
    ∃ read left' br' stream', readUpTo want fuel acc br stream = (acc ++ read, br', stream') ∧
      left = read ++ left' ∧ Reading br' stream' tail left' rest ∧
      (want ≤ (acc ++ read).length ∨ left' = []) ∧ br'.turns stream' ≤ br.turns stream := by
  induction fuel generalizing acc br stream left with
  | zero => omega
  | succ fuel ih =>
    rw [readUpTo]
    split_ifs with hwant
    · exact ⟨[], left, br, stream, by simp, rfl, hr, Or.inl (by simpa using hwant), le_rfl⟩
    · by_cases hleft : left = []
      · subst hleft
        rw [chunk_nil hr]
        exact ⟨[], [], br, stream, by simp, rfl, hr, Or.inr rfl, le_rfl⟩
      · obtain ⟨c, left1, br1, stream1, hchunk, -, rfl, hr1, hturns⟩ := chunk_spec hr hleft
        rw [hchunk]
        obtain ⟨read, left2, br2, stream2, hread, rfl, hr2, hend, hle⟩ :=
          ih (acc ++ c) hr1 (by omega)
        refine ⟨c ++ read, left2, br2, stream2, ?_, by simp, hr2, ?_, by omega⟩
        · simpa using hread
        · simpa using hend

theorem readUpTo_nil (want fuel : ℕ) (acc : Bytes) (hr : Reading br stream tail [] rest) :
    readUpTo want fuel acc br stream = (acc, br, stream) := by
  cases fuel with
  | zero => rfl
  | succ fuel =>
    rw [readUpTo, chunk_nil hr]
    split_ifs <;> rfl

theorem discard_spec {fuel : ℕ} (hr : Reading br stream tail left rest)
    (hfuel : br.turns stream < fuel) :
    ∃ br' stream', discard fuel br stream = (true, br', stream') ∧
      Reading br' stream' tail [] rest := by
  induction fuel generalizing br stream left with
  | zero => omega
  | succ fuel ih =>
    rw [discard]
    by_cases hleft : left = []
    · rw [if_pos (hr.any_limit.mpr hleft)]
      exact ⟨br, stream, rfl, hleft ▸ hr⟩
    · obtain ⟨c, left1, br1, stream1, hchunk, hne, rfl, hr1, hturns⟩ := chunk_spec hr hleft
      rw [if_neg (mt hr.any_limit.mp hleft), hchunk]
      simp only [List.isEmpty_iff, hne, if_false]
      exact ih hr1 (by omega)

theorem turns_lt (br : BodyReader) (stream : List Bytes) : br.turns stream < stream.length + 2 := by
  rw [turns]
  split_ifs <;> omega

theorem isEmpty_iff (hr : Reading br stream tail left rest) : br.isEmpty = true ↔ left = [] := by
  rw [isEmpty, remaining, hr.limit, decide_eq_true_iff, Option.elim_some, Nat.add_sub_cancel_left,
    length_eq_zero_iff]

end Streaming.BodyReader

open Streaming.BodyReader

variable {carry : Option Bytes} {r : RequestHead} {rest : Bytes} {stream : List Bytes}

theorem reading_bodyOf
    {body : Bytes} (hlen : body.length = r.contentLength)
    (hbytes : carry.getD [] ++ stream.flatten = body ++ rest) (hchunks : ∀ c ∈ stream, c ≠ []) :
    Reading (bodyOf r carry) stream ((carry.getD []).drop r.contentLength) body rest := by
  by_cases hpos : 0 < r.contentLength
  · have hbody : bodyOf r carry = {
        prebuf := (carry.getD []).take r.contentLength
        limit := some r.contentLength } := by
      have hmin : (carry.getD []).take (min r.contentLength (carry.getD []).length) =
          (carry.getD []).take r.contentLength := by
        rw [← take_take, take_length]
      rw [bodyOf, if_pos hpos, new]
      simp [hmin]
    rw [hbody]
    generalize carry.getD [] = c at hbytes
    refine ⟨by simp [hlen], ?_, ?_, ?_, fun _ => rfl, hchunks⟩
    · change c.take _ ++ (c.drop _ ++ ([] ++ stream.flatten)) = body ++ rest
      rw [← hbytes, nil_append, ← append_assoc, take_append_drop]
    · change (c.take _).length ≤ body.length
      rw [length_take, hlen]
      exact Nat.min_le_left ..
    · intro htail
      have hlong : r.contentLength < c.length := by
        by_contra hshort
        exact htail (drop_eq_nil_of_le (by omega))
      change body.length ≤ (c.take _).length ∧ _
      rw [length_take, hlen]
      exact ⟨by omega, rfl⟩
  · have hzero : r.contentLength = 0 := by omega
    obtain rfl : body = [] := length_eq_zero_iff.mp (hlen.trans hzero)
    rw [bodyOf, if_neg hpos, hzero, drop_zero]
    exact ⟨rfl, hbytes, le_rfl, fun _ => ⟨le_rfl, rfl⟩, fun h => absurd rfl h, hchunks⟩

theorem advanceCarry_spec {br : BodyReader} (hpos : 0 < r.contentLength)
    (hr : Reading br stream ((carry.getD []).drop r.contentLength) [] rest) :
    (advanceCarry r carry br.leftover).getD [] ++ stream.flatten = rest := by
  have hbytes := hr.bytes
  rw [length_eq_zero_iff.mp (Nat.le_zero.mp hr.unread_le), nil_append,
    nil_append] at hbytes
  rw [← hbytes, advanceCarry, if_pos hpos]
  cases hleftover : br.leftover with
  | some l =>
    have htail : (carry.getD []).drop r.contentLength = [] := by
      by_contra hne
      rw [(hr.tail hne).2] at hleftover
      cases hleftover
    simp [htail]
  | none =>
    cases carry with
    | none => simp
    | some c =>
      have hmin : c.drop (min r.contentLength c.length) = c.drop r.contentLength := by
        rcases Nat.le_total r.contentLength c.length with h | h
        · rw [Nat.min_eq_left h]
        · rw [Nat.min_eq_right h, drop_length, drop_eq_nil_of_le h]
      simp [getD_intoRemainder, hmin]

theorem body_spec
    {body : Bytes} (hlen : body.length = r.contentLength)
    (hbytes : carry.getD [] ++ stream.flatten = body ++ rest) (hchunks : ∀ c ∈ stream, c ≠ [])
    (want : ℕ) :
    ∃ read br stream₁ br' stream',
      readUpTo want (stream.length + 2) [] (bodyOf r carry) stream = (read, br, stream₁) ∧
      read.take want = body.take want ∧
      (if br.isEmpty then (true, br, stream₁) else br.discard (stream₁.length + 2) stream₁) =
        (true, br', stream') ∧
      (∀ c ∈ stream', c ≠ []) ∧
      (advanceCarry r carry br'.leftover).getD [] ++ stream'.flatten = rest := by
  have hr := reading_bodyOf hlen hbytes hchunks
  by_cases hpos : 0 < r.contentLength
  · obtain ⟨read, left, br, stream₁, hread, rfl, hr1, hend, -⟩ :=
      readUpTo_spec want [] hr (turns_lt ..)
    rw [nil_append] at hread hend
    have htake : read.take want = (read ++ left).take want := by
      rcases hend with hwant | rfl
      · rw [take_append_of_le_length hwant]
      · rw [append_nil]
    have hdrained : ∃ br' stream',
        (if br.isEmpty then (true, br, stream₁) else br.discard (stream₁.length + 2) stream₁) =
          (true, br', stream') ∧
        Reading br' stream' ((carry.getD []).drop r.contentLength) [] rest := by
      by_cases hleft : left = []
      · subst hleft
        rw [if_pos ((isEmpty_iff hr1).mpr rfl)]
        exact ⟨br, stream₁, rfl, hr1⟩
      · rw [if_neg (by simpa [isEmpty_iff hr1] using hleft)]
        exact discard_spec hr1 (turns_lt ..)
    obtain ⟨br', stream', hdrain, hr'⟩ := hdrained
    exact ⟨read, br, stream₁, br', stream', hread, htake, hdrain, hr'.chunks,
      advanceCarry_spec hpos hr'⟩
  · -- an empty body leaves the carry and the chunks as they are
    have hzero : r.contentLength = 0 := by omega
    obtain rfl : body = [] := length_eq_zero_iff.mp (hlen.trans hzero)
    refine ⟨[], bodyOf r carry, stream, bodyOf r carry, stream, readUpTo_nil _ _ _ hr, by simp,
      by rw [if_pos ((isEmpty_iff hr).mpr rfl)], hchunks, ?_⟩
    rw [advanceCarry, if_neg hpos, hbytes, nil_append]

/-- A head that the parser accepts, and a body of its length. -/
structure Request where
  headBytes : Bytes
  head : RequestHead
  body : Bytes
  accepted : ∃ p, ({} : StreamingRequestParser).feed {} headBytes = (.done headBytes.length, p, head)
  not_rejected : head.reject = false
  keepAlive : wantClose head = false
  body_length : body.length = head.contentLength

namespace Request

def bytes (q : Request) : Bytes := q.headBytes ++ q.body

def pipeline (reqs : List Request) : Bytes := reqs.flatMap bytes

theorem within_head (q : Request) :
    ∃ p : Parser, within Parser.step maxHeadBytes ({}, {}) q.headBytes = .ended (p, q.head) [] := by
  obtain ⟨p, haccepted⟩ := q.accepted
  have hfeed := ({} : StreamingRequestParser).feed_spec {} q.headBytes (Nat.zero_le _)
  simp only [Nat.sub_zero] at hfeed
  cases hres : within Parser.step maxHeadBytes ({}, {}) q.headBytes with
  | ended x rest =>
    rw [hres] at hfeed
    obtain ⟨consumed, hfeed, -, hdrop⟩ := hfeed
    rw [haccepted] at hfeed
    simp only [Prod.mk.injEq, FeedResult.done.injEq] at hfeed
    obtain ⟨rfl, -, hhead⟩ := hfeed
    rw [drop_length] at hdrop
    exact ⟨x.1, by rw [hhead, hdrop]⟩
  | more x =>
    rw [hres] at hfeed
    rw [haccepted] at hfeed
    simp at hfeed
  | overflow =>
    rw [hres] at hfeed
    rw [haccepted] at hfeed
    simp at hfeed

theorem headBytes_ne_nil (q : Request) : q.headBytes ≠ [] := by
  intro hnil
  obtain ⟨p, hscan⟩ := q.within_head
  rw [hnil] at hscan
  simp [within, scan] at hscan

theorem readHead_eq (q : Request) {bufs : List Bytes} {rest : Bytes}
    (hbytes : bufs.flatten = q.headBytes ++ rest) :
    ∃ carry bufs', ({} : StreamingRequestParser).readHead {} bufs = .done q.head carry bufs' ∧
      bufs' <:+ bufs.tail ∧ carry.getD [] ++ bufs'.flatten = rest := by
  obtain ⟨p, hscan⟩ := q.within_head
  have hread := ({} : StreamingRequestParser).readHead_spec {} bufs (Nat.zero_le _)
  simp only [Nat.sub_zero] at hread
  rw [hbytes, within_append, hscan] at hread
  exact hread

end Request

open Request

/-- What a handler is called with and what is sent. -/
def answers : σ → List Request → List Call × List Bytes
  | _, [] => ([], [])
  | s, q :: reqs =>
    let read := q.body.take (h.asks s q.head)
    let (resp, s) := h.respond s q.head read
    let (calls, sent) := answers s reqs
    (⟨q.head, read⟩ :: calls, resp.bytes true :: sent)

theorem serveLoop_pipeline (reqs : List Request) {fuel : ℕ} {s : σ} {carry : Option Bytes}
    {stream : List Bytes} (hfuel : (pipeline reqs).length < fuel)
    (hbytes : carry.getD [] ++ stream.flatten = pipeline reqs) (hchunks : ∀ c ∈ stream, c ≠ []) :
    serveLoop h fuel s carry stream =
      { ending := .peerEof, calls := (answers h s reqs).1, sent := (answers h s reqs).2 } := by
  have hbufs : (carry.toList ++ stream).flatten = carry.getD [] ++ stream.flatten := by
    cases carry <;> simp
  rw [hbytes] at hbufs
  induction reqs generalizing fuel s carry stream with
  | nil =>
    obtain ⟨fuel, rfl⟩ : ∃ k, fuel = k + 1 := ⟨fuel - 1, by omega⟩
    have hread := ({} : StreamingRequestParser).readHead_spec {} (carry.toList ++ stream)
      (Nat.zero_le _)
    rw [hbufs] at hread
    rw [serveLoop, show readHead _ _ _ = .eof from hread]
    rfl
  | cons q reqs ih =>
    obtain ⟨fuel, rfl⟩ : ∃ k, fuel = k + 1 := ⟨fuel - 1, by omega⟩
    have hcons : pipeline (q :: reqs) = q.headBytes ++ (q.body ++ pipeline reqs) := by
      rw [pipeline, flatMap_cons, bytes, append_assoc]
      rfl
    have hlen := length_pos_iff.mpr q.headBytes_ne_nil
    rw [hcons] at hfuel hbufs
    simp only [length_append] at hfuel
    obtain ⟨carry1, stream1, hread, hsuffix, hbody⟩ := q.readHead_eq hbufs
    have htail : (carry.toList ++ stream).tail <:+ stream := by
      cases carry with
      | none => exact tail_suffix stream
      | some c => exact suffix_rfl
    have hchunks1 : ∀ c ∈ stream1, c ≠ [] := fun c hc =>
      hchunks c ((hsuffix.trans htail).mem hc)
    obtain ⟨read, br, stream2, br', stream3, hupTo, htake, hdrain, hchunks3, hrest⟩ :=
      body_spec q.body_length hbody hchunks1 (h.asks s q.head)
    rw [serveLoop, hread]
    simp only [q.not_rejected, q.keepAlive, hupTo, htake, Bool.false_or, hdrain]
    rw [ih (by omega) hrest hchunks3 (by rw [← hrest]; cases advanceCarry q.head carry1 br'.leftover <;> simp)]
    rfl

/-- **Pipelining is exact**: each request is handled once, in order, in whatever chunks it comes. -/
theorem pipelining_exact (s : σ) (reqs : List Request) (stream : List Bytes)
    (hstream : stream.flatten = pipeline reqs) (hchunks : ∀ c ∈ stream, c ≠ []) :
    serveConn h s stream =
      { ending := .peerEof, calls := (answers h s reqs).1, sent := (answers h s reqs).2 } :=
  serveLoop_pipeline h reqs (by rw [hstream]; exact Nat.lt_succ_self _) hstream hchunks

def sampleHead : Bytes := ascii "POST /a HTTP/1.1\r\nContent-Length: 5\r\n\r\n"

def sampleRequest : Request where
  headBytes := sampleHead
  head := (({} : StreamingRequestParser).feed {} sampleHead).2.2
  body := ascii "hello"
  accepted := ⟨(({} : StreamingRequestParser).feed {} sampleHead).2.1, by decide +kernel⟩
  not_rejected := by decide +kernel
  keepAlive := by decide +kernel
  body_length := by decide +kernel

def sampleHandler : Handler ℕ where
  asks _ _ := 3
  respond n _ read := ({ body := read }, n + 1)

/-- Two requests in chunks that cut a head and a body. -/
theorem pipelining_exact_sample :
    serveConn sampleHandler 0
        [sampleRequest.bytes.take 7, sampleRequest.bytes.drop 7 ++ sampleRequest.bytes.take 43,
          sampleRequest.bytes.drop 43] =
      { ending := .peerEof
        calls := [⟨sampleRequest.head, ascii "hel"⟩, ⟨sampleRequest.head, ascii "hel"⟩]
        sent := [Response.bytes { body := ascii "hel" } true,
          Response.bytes { body := ascii "hel" } true] } := by
  rw [pipelining_exact sampleHandler 0 [sampleRequest, sampleRequest] _ (by decide +kernel)
    (by decide +kernel)]
  decide +kernel

end Waitless.Http
