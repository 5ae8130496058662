import Waitless.BodySource
import Waitless.QuicWire

/-! # HTTP/3 request bodies

The model of `frame.rs` and of the body source of `server.rs`.

A request body is the DATA payloads of the stream behind HEADERS. The source appends what `recv`
returns to a buffer, parses one frame from it and hands on the whole payload of a DATA frame; it
skips other frames, and takes HEADERS for trailers. A stream is described by its frames
(`WireFrame`, whose integers need not be minimal) and the beginning of one more (`Unfinished`), in
any chunking, with FIN behind it or still open (`Feeds`).

* `truncated_can_help`: truncated means that more bytes help, but for a GOAWAY frame that is too
  short for its identifier (`Stuck`); such a frame keeps all behind it in the buffer until FIN.
* `body_exact`: the handler reads all DATA payloads exactly if no empty one has others behind it
  and no shorter length is declared. An empty DATA frame looks like the end of the body, and
  without a declared length so does FIN within a frame (`body_loses`).
* `buffered_le`: body bytes are handed on as they arrive, and at most a chunk of them is held,
  exactly if no wait is within the payload of a DATA frame. A longer frame is buffered whole
  (`data_frame_waits`). -/

namespace Waitless.Http3

open Waitless.AesGcm Waitless.Quic Waitless.Http.Streaming List

/-- Why a frame is refused. -/
inductive FrameError where
  | truncated
  | badLength
  | outputTooSmall
deriving DecidableEq

/-- A frame of a request stream. -/
inductive Frame where
  | data (body : Bytes)
  | headers (body : Bytes)
  | settings (body : Bytes)
  | goAway (id : ℕ)
  | skipped (ty : ℕ)

namespace Ftype

def data : ℕ := 0x00
def headers : ℕ := 0x01
def settings : ℕ := 0x04
def goaway : ℕ := 0x07

end Ftype

def parseFrame (data : Bytes) : Except FrameError (Frame × Bytes) :=
  match readVarint data with
  | none => .error .truncated
  | some (ty, rest) =>
    match readVarint rest with
    | none => .error .truncated
    | some (len, rest) =>
      if rest.length < len then .error .truncated
      else
        let body := rest.take len
        let rest := rest.drop len
        if ty = Ftype.data then .ok (.data body, rest)
        else if ty = Ftype.headers then .ok (.headers body, rest)
        else if ty = Ftype.settings then .ok (.settings body, rest)
        else if ty = Ftype.goaway then
          match readVarint body with
          | none => .error .truncated
          | some (id, _) => .ok (.goAway id, rest)
        else .ok (.skipped ty, rest)

/-- The body of a request, read off its stream. -/
structure H3BodySource where
  /-- Bytes of the stream not yet parsed. -/
  buf : Bytes
  eof : Bool
  done : Bool := false
  /-- What the calls of `recv` will return: bytes, and FIN. -/
  recvs : List (Bytes × Bool)

namespace H3BodySource

def work (s : H3BodySource) : ℕ :=
  s.buf.length + (s.recvs.map fun r => r.1.length).sum + s.recvs.length

/-- The loop of `next_chunk`, for at most `fuel` rounds. -/
def nextLoop : ℕ → H3BodySource → Poll (Option Bytes) × H3BodySource
  | 0, s => (.pending, s)
  | fuel + 1, s =>
    match parseFrame s.buf with
    | .ok (.data payload, rest) => (.ready (some payload), { s with buf := rest })
    | .ok (.headers _, rest) => (.ready none, { s with buf := rest, done := true })
    | .ok (_, rest) => nextLoop fuel { s with buf := rest }
    | .error .truncated =>
      if s.eof then (.ready none, { s with done := true })
      else
        match s.recvs with
        | [] => (.pending, s)
        | (chunk, fin) :: recvs =>
          let s := { s with buf := s.buf ++ chunk, eof := s.eof || fin, recvs := recvs }
          if chunk = [] ∧ s.eof then (.ready none, { s with done := true })
          else nextLoop fuel s
    | .error _ => (.ready none, { s with done := true })

def nextChunk (s : H3BodySource) : Poll (Option Bytes) × H3BodySource :=
  if s.done then (.ready none, s) else nextLoop (s.work + 1) s

end H3BodySource

/-- Its integers need not be minimal. -/
structure WireFrame where
  ty : ℕ
  payload : Bytes
  tyBytes : Bytes
  lenBytes : Bytes
  read_ty : readVarint tyBytes = some (ty, [])
  read_len : readVarint lenBytes = some (payload.length, [])

namespace WireFrame

def bytes (f : WireFrame) : Bytes := f.tyBytes ++ f.lenBytes ++ f.payload

/-- A GOAWAY frame carries an identifier. -/
def Whole (f : WireFrame) : Prop := f.ty = Ftype.goaway → (readVarint f.payload).isSome

/-- DATA, or a frame without meaning in a body. -/
def InBody (f : WireFrame) : Prop := f.ty ≠ Ftype.headers ∧ f.Whole

end WireFrame

def wire (fs : List WireFrame) : Bytes := fs.flatMap WireFrame.bytes

def dataPayloads (fs : List WireFrame) : List Bytes :=
  (fs.filter fun f => f.ty = Ftype.data).map WireFrame.payload

def bodyOf (fs : List WireFrame) : Bytes := (dataPayloads fs).flatten

/-- The beginning of a frame, and not all of it. -/
def Unfinished (tail : Bytes) : Prop := ∃ f : WireFrame, tail <+: f.bytes ∧ tail ≠ f.bytes

/-- Nothing is received behind FIN, and FIN is where `fin` says so. -/
def Ends (fin : Bool) : Bool → List (Bytes × Bool) → Prop
  | eof, [] => eof = fin
  | true, _ :: _ => False
  | false, (_, eof) :: recvs => Ends fin eof recvs

/-- It will be given exactly these bytes, and FIN behind them or nothing more for now. -/
structure H3BodySource.Feeds (s : H3BodySource) (fin : Bool) (bytes : Bytes) : Prop where
  bytes_eq : s.buf ++ s.recvs.flatMap Prod.fst = bytes
  ends : Ends fin s.eof s.recvs
  running : s.done = false

variable {n : ℕ} {p v : Bytes}

theorem length_of_readVarint (h : readVarint v = some (n, [])) :
    ∃ b bs, v = b :: bs ∧ v.length = varintLenFromFirstByte b := by
  unfold readVarint at h
  cases v with
  | nil => cases h
  | cons b bs =>
    dsimp only at h
    split_ifs at h with hlen
    simp only [Option.some.injEq, Prod.mk.injEq, drop_eq_nil_iff] at h
    exact ⟨b, bs, rfl, by omega⟩

theorem readVarint_append (h : readVarint v = some (n, [])) (rest : Bytes) :
    readVarint (v ++ rest) = some (n, rest) := by
  obtain ⟨b, bs, rfl, hlen⟩ := length_of_readVarint h
  have htake : (b :: (bs ++ rest)).take (varintLenFromFirstByte b) = b :: bs := by
    rw [← cons_append, ← hlen, take_left]
  have hdrop : (b :: (bs ++ rest)).drop (varintLenFromFirstByte b) = rest := by
    rw [← cons_append, ← hlen, drop_left]
  have hge : ¬(b :: (bs ++ rest)).length < varintLenFromFirstByte b := by
    rw [← hlen, length_cons, length_cons, length_append]
    omega
  unfold readVarint at h ⊢
  dsimp only [cons_append] at h ⊢
  rw [if_neg hge, htake, hdrop]
  rw [if_neg (by omega), ← hlen, take_length, Option.some.injEq, Prod.mk.injEq] at h
  rw [h.1]

theorem readVarint_cut (h : readVarint v = some (n, [])) (hp : p <+: v)
    (hne : p ≠ v) : readVarint p = none := by
  obtain ⟨b, bs, rfl, hlen⟩ := length_of_readVarint h
  have hlt : p.length < (b :: bs).length := by
    by_contra hge
    exact hne (hp.eq_of_length_le (by omega))
  cases p with
  | nil => rfl
  | cons c cs =>
    obtain ⟨rfl, -⟩ := cons_prefix_cons.mp hp
    unfold readVarint
    dsimp only
    rw [if_pos (by omega)]

open WireFrame

theorem WireFrame.parseFrame_append {f : WireFrame} (hf : f.Whole) (rest : Bytes) :
    ∃ g, parseFrame (f.bytes ++ rest) = .ok (g, rest) ∧
      (f.ty = Ftype.data → g = .data f.payload) ∧ (f.ty ≠ Ftype.data → ∀ b, g ≠ .data b) ∧
      (f.ty ≠ Ftype.headers → ∀ b, g ≠ .headers b) ∧ (f.ty = Ftype.headers → ∃ b, g = .headers b) := by
  have hty : readVarint (f.bytes ++ rest) = some (f.ty, f.lenBytes ++ (f.payload ++ rest)) := by
    rw [WireFrame.bytes, append_assoc, append_assoc]
    exact readVarint_append f.read_ty _
  unfold parseFrame
  simp only [hty, readVarint_append f.read_len]
  rw [if_neg (by rw [length_append]; omega), take_left, drop_left]
  split_ifs with hd hh hs hg
  · exact ⟨_, rfl, fun _ => rfl, fun h => absurd hd h, fun _ => nofun,
      fun h => absurd (hd.symm.trans h) (by decide)⟩
  · exact ⟨_, rfl, fun h => absurd h hd, fun _ => nofun, fun h => absurd hh h, fun _ => ⟨_, rfl⟩⟩
  · exact ⟨_, rfl, fun h => absurd h hd, fun _ => nofun, fun _ => nofun, fun h => absurd h hh⟩
  · obtain ⟨⟨id, r⟩, hid⟩ := Option.isSome_iff_exists.mp (hf hg)
    rw [hid]
    exact ⟨_, rfl, fun h => absurd h hd, fun _ => nofun, fun _ => nofun, fun h => absurd h hh⟩
  · exact ⟨_, rfl, fun h => absurd h hd, fun _ => nofun, fun _ => nofun, fun h => absurd h hh⟩

theorem WireFrame.length_bytes_pos (f : WireFrame) : 0 < f.bytes.length := by
  obtain ⟨b, bs, hb, -⟩ := length_of_readVarint f.read_ty
  simp [bytes, hb]

theorem prefix_append_cases {a b : Bytes} (hp : p <+: a ++ b) :
    (p <+: a ∧ p ≠ a) ∨ ∃ q, p = a ++ q ∧ q <+: b := by
  by_cases ha : a <+: p
  · obtain ⟨q, rfl⟩ := ha
    exact .inr ⟨q, rfl, (prefix_append_right_inj a).mp hp⟩
  · rcases prefix_or_prefix_of_prefix hp (prefix_append a b) with h | h
    · exact .inl ⟨h, fun e => ha (e ▸ prefix_rfl)⟩
    · exact absurd h ha

theorem WireFrame.parseFrame_cut {f : WireFrame} (hp : p <+: f.bytes)
    (hne : p ≠ f.bytes) : parseFrame p = .error .truncated := by
  rw [bytes, append_assoc] at hp hne
  unfold parseFrame
  rcases prefix_append_cases hp with ⟨hp, hlt⟩ | ⟨q, rfl, hq⟩
  · rw [readVarint_cut f.read_ty hp hlt]
  · rw [readVarint_append f.read_ty]
    dsimp only
    rcases prefix_append_cases hq with ⟨hq, hlt⟩ | ⟨r, rfl, hr⟩
    · rw [readVarint_cut f.read_len hq hlt]
    · rw [readVarint_append f.read_len]
      have hlt : r.length < f.payload.length := by
        by_contra hge
        exact hne (by rw [hr.eq_of_length_le (by omega)])
      dsimp only
      rw [if_pos hlt]

/-- The beginning of an unfinished frame is unfinished too. -/
theorem Unfinished.of_isPrefix {tail : Bytes} (h : Unfinished tail) (hp : p <+: tail) :
    Unfinished p := by
  obtain ⟨f, htail, hne⟩ := h
  refine ⟨f, hp.trans htail, fun e => hne ?_⟩
  exact htail.eq_of_length_le (by rw [← e]; exact hp.length_le)

theorem Unfinished.truncated {tail : Bytes} (h : Unfinished tail) (hp : p <+: tail) :
    parseFrame p = .error .truncated := by
  obtain ⟨f, hf, hne⟩ := h.of_isPrefix hp
  exact parseFrame_cut hf hne

/-- No byte behind a GOAWAY frame without an identifier helps. -/
theorem WireFrame.truncated_of_not_whole {f : WireFrame} {rest : Bytes} (hf : ¬f.Whole)
    (hp : p <+: f.bytes ++ rest) : parseFrame p = .error .truncated := by
  rcases prefix_append_cases hp with ⟨hp, hne⟩ | ⟨more, rfl, -⟩
  · exact parseFrame_cut hp hne
  · obtain ⟨hg, hid⟩ := Classical.not_imp.mp hf
    have hty : readVarint (f.bytes ++ more) = some (f.ty, f.lenBytes ++ (f.payload ++ more)) := by
      rw [WireFrame.bytes, append_assoc, append_assoc]
      exact readVarint_append f.read_ty _
    have hlen : ¬(f.payload ++ more).length < f.payload.length := by simp
    simp only [parseFrame, hty, readVarint_append f.read_len, if_neg hlen, take_left, hg]
    rw [Option.not_isSome_iff_eq_none.mp hid]
    rfl

namespace H3BodySource

variable {s : H3BodySource} {fin : Bool} {bytes rest tail : Bytes} {f : WireFrame}
  {fs : List WireFrame}

theorem Feeds.recv {chunk : Bytes} {eof : Bool} {recvs : List (Bytes × Bool)}
    (h : s.Feeds fin bytes) (heof : s.eof = false) (hr : s.recvs = (chunk, eof) :: recvs) :
    { s with buf := s.buf ++ chunk, eof := s.eof || eof, recvs := recvs : H3BodySource }.Feeds
        fin bytes ∧
      { s with buf := s.buf ++ chunk, eof := s.eof || eof, recvs := recvs : H3BodySource }.work <
        s.work := by
  obtain ⟨hbytes, hends, hrun⟩ := h
  rw [hr] at hbytes hends
  refine ⟨⟨?_, ?_, hrun⟩, ?_⟩
  · simpa using hbytes
  · simpa [heof, Ends] using hends
  · simp only [work, hr, length_append, map_cons, sum_cons, length_cons]
    omega

theorem Feeds.of_eof (h : s.Feeds fin bytes) (heof : s.eof = true) : fin = true ∧ s.buf = bytes := by
  obtain ⟨hbytes, hends, -⟩ := h
  rw [heof] at hends
  cases hr : s.recvs with
  | nil =>
    rw [hr] at hends
    exact ⟨Eq.symm hends, by simpa [hr] using hbytes⟩
  | cons r recvs => rw [hr] at hends; exact hends.elim

theorem Feeds.buf_isPrefix (h : s.Feeds fin bytes) : s.buf <+: bytes :=
  ⟨_, h.bytes_eq⟩

variable {fuel : ℕ}

theorem nextLoop_frame (hf : f.Whole) (hnh : f.ty ≠ Ftype.headers)
    (h : s.Feeds fin (f.bytes ++ rest)) (hfuel : s.work < fuel) :
    ∃ s' : H3BodySource, ∃ fuel', s'.Feeds fin rest ∧ s'.work < fuel' ∧ s'.work < s.work ∧
      nextLoop fuel s = if f.ty = Ftype.data then (.ready (some f.payload), s')
        else nextLoop fuel' s' := by
  induction fuel generalizing s with
  | zero => omega
  | succ fuel ih =>
    by_cases hall : f.bytes <+: s.buf
    · -- The frame is in the buffer.
      obtain ⟨more, hbuf⟩ := hall
      have hpos := f.length_bytes_pos
      have hwork : s.work = f.bytes.length + { s with buf := more : H3BodySource }.work := by
        simp only [work, ← hbuf, length_append]
        omega
      have hfeeds : { s with buf := more : H3BodySource }.Feeds fin rest := by
        refine ⟨?_, h.ends, h.running⟩
        have := h.bytes_eq
        rw [← hbuf, append_assoc] at this
        exact append_cancel_left this
      refine ⟨{ s with buf := more }, fuel, hfeeds, by omega, by omega, ?_⟩
      rw [nextLoop, ← hbuf]
      obtain ⟨g, hparse, hdata, hd, hh, -⟩ := parseFrame_append hf more
      by_cases hty : f.ty = Ftype.data
      · rw [hparse, if_pos hty, hdata hty]
      · rw [hparse, if_neg hty]
        cases g with
        | data b => exact absurd rfl (hd hty b)
        | headers b => exact absurd rfl (hh hnh b)
        | settings b => rfl
        | goAway id => rfl
        | skipped ty => rfl
    · -- It is not, and so there is more to receive.
      have hp : s.buf <+: f.bytes := by
        rcases prefix_or_prefix_of_prefix h.buf_isPrefix (prefix_append f.bytes rest) with
          hp | hp
        · exact hp
        · exact absurd hp hall
      have hne : s.buf ≠ f.bytes := fun e => hall (e ▸ prefix_rfl)
      have hmore : ∀ {t : H3BodySource}, t.Feeds fin (f.bytes ++ rest) → t.buf = s.buf →
          t.eof = false := by
        intro t ht hbuf
        by_contra heof
        have := (ht.of_eof (by simpa using heof)).2
        exact hall ⟨rest, by rw [← this, hbuf]⟩
      have heof := hmore h rfl
      cases hr : s.recvs with
      | nil =>
        have := h.bytes_eq
        rw [hr, flatMap_nil, append_nil] at this
        exact absurd ⟨rest, this.symm⟩ hall
      | cons r recvs =>
        obtain ⟨chunk, eof⟩ := r
        obtain ⟨hfeeds, hwork⟩ := h.recv heof hr
        obtain ⟨s', fuel', h1, h2, h3, h4⟩ := ih hfeeds (by omega)
        refine ⟨s', fuel', h1, h2, by omega, ?_⟩
        rw [nextLoop, parseFrame_cut hp hne, if_neg (by simp [heof]), hr, ← h4]
        refine if_neg ?_
        rintro ⟨rfl, hend⟩
        exact absurd (hend.symm.trans (hmore hfeeds (append_nil _))) (by simp)

/-- The rest of a stream without a frame is kept: until FIN, or for what comes. -/
theorem nextLoop_cut (htail : ∀ p, p <+: tail → parseFrame p = .error .truncated)
    (h : s.Feeds fin tail) (hfuel : s.work < fuel) :
    ∃ s', nextLoop fuel s = (if fin then .ready none else .pending, s') ∧ s'.buf = tail := by
  induction fuel generalizing s with
  | zero => omega
  | succ fuel ih =>
    rw [nextLoop, htail _ h.buf_isPrefix]
    cases heof : s.eof with
    | true =>
      obtain ⟨rfl, hbuf⟩ := h.of_eof heof
      exact ⟨_, rfl, hbuf⟩
    | false =>
      rw [if_neg (by simp)]
      cases hr : s.recvs with
      | nil =>
        obtain ⟨hbytes, hends, -⟩ := h
        rw [hr, heof] at hends
        obtain rfl : false = fin := hends
        exact ⟨s, rfl, by simpa [hr] using hbytes⟩
      | cons r recvs =>
        obtain ⟨chunk, eof⟩ := r
        obtain ⟨hfeeds, hwork⟩ := h.recv heof hr
        rw [heof] at hfeeds hwork
        dsimp only
        by_cases hlast : chunk = [] ∧ (false || eof) = true
        · obtain ⟨rfl, hbuf⟩ := hfeeds.of_eof hlast.2
          exact ⟨_, if_pos hlast, hbuf⟩
        · rw [if_neg hlast]
          exact ih hfeeds (by omega)

theorem nextLoop_frames (hfs : ∀ f ∈ fs, f.InBody) (htail : Unfinished tail)
    (h : s.Feeds fin (wire fs ++ tail)) (hfuel : s.work < fuel) :
    match dataPayloads fs with
    | [] => ∃ s', nextLoop fuel s = (if fin then .ready none else .pending, s') ∧ s'.buf = tail
    | p :: ps => ∃ s' fs', nextLoop fuel s = (.ready (some p), s') ∧
        s'.Feeds fin (wire fs' ++ tail) ∧ dataPayloads fs' = ps ∧ ∀ f ∈ fs', f.InBody := by
  induction fs generalizing s fuel with
  | nil => exact nextLoop_cut (fun _ => htail.truncated) h hfuel
  | cons f fs ih =>
    have hwire : wire (f :: fs) ++ tail = f.bytes ++ (wire fs ++ tail) := by
      rw [wire, flatMap_cons, append_assoc]
      rfl
    rw [hwire] at h
    obtain ⟨hnh, hwhole⟩ := hfs f mem_cons_self
    obtain ⟨s', fuel', hfeeds, hfuel', -, heq⟩ := nextLoop_frame hwhole hnh h hfuel
    have hfs' : ∀ f ∈ fs, f.InBody := fun g hg => hfs g (mem_cons_of_mem _ hg)
    by_cases hty : f.ty = Ftype.data
    · have : dataPayloads (f :: fs) = f.payload :: dataPayloads fs := by
        simp [dataPayloads, hty]
      rw [this]
      exact ⟨s', fs, by rw [heq, if_pos hty], hfeeds, rfl, hfs'⟩
    · have : dataPayloads (f :: fs) = dataPayloads fs := by simp [dataPayloads, hty]
      rw [this, heq, if_neg hty]
      exact ih hfs' hfeeds hfuel'

theorem Feeds.nextChunk (h : s.Feeds fin bytes) : s.nextChunk = nextLoop (s.work + 1) s :=
  if_neg (by simp [h.running])

theorem Feeds.yields (hfs : ∀ f ∈ fs, f.InBody) (htail : Unfinished tail)
    (h : s.Feeds true (wire fs ++ tail)) : Yields H3BodySource.nextChunk s (dataPayloads fs) := by
  generalize hps : dataPayloads fs = ps
  induction ps generalizing s fs with
  | nil =>
    have hspec := nextLoop_frames hfs htail h (Nat.lt_succ_self s.work)
    rw [hps] at hspec
    obtain ⟨s', hs', -⟩ := hspec
    exact .done (by rw [h.nextChunk, hs', if_pos rfl])
  | cons p ps ih =>
    have hspec := nextLoop_frames hfs htail h (Nat.lt_succ_self s.work)
    rw [hps] at hspec
    obtain ⟨s', fs', hs', hfeeds, hps', hfs'⟩ := hspec
    exact .chunk (by rw [h.nextChunk, hs']) (ih hfs' hfeeds hps')

/-- Without FIN the calls come to one that waits, with what is no frame yet. -/
theorem Feeds.waits (hfs : ∀ f ∈ fs, f.InBody) (htail : Unfinished tail)
    (h : s.Feeds false (wire fs ++ tail)) :
    ∃ k t, ((fun s => (H3BodySource.nextChunk s).2)^[k] s).nextChunk = (.pending, t) ∧
      t.buf = tail := by
  generalize hps : dataPayloads fs = ps
  induction ps generalizing s fs with
  | nil =>
    have hspec := nextLoop_frames hfs htail h (Nat.lt_succ_self s.work)
    rw [hps] at hspec
    obtain ⟨t, ht, hbuf⟩ := hspec
    exact ⟨0, t, by rw [Function.iterate_zero_apply, h.nextChunk, ht]; rfl, hbuf⟩
  | cons p ps ih =>
    have hspec := nextLoop_frames hfs htail h (Nat.lt_succ_self s.work)
    rw [hps] at hspec
    obtain ⟨s', fs', hs', hfeeds, hps', hfs'⟩ := hspec
    obtain ⟨k, t, hwait, hbuf⟩ := ih hfs' hfeeds hps'
    refine ⟨k + 1, t, ?_, hbuf⟩
    rw [Function.iterate_succ_apply, h.nextChunk, hs']
    exact hwait

end H3BodySource

variable {d rest : Bytes}

theorem readVarint_split (h : readVarint d = some (n, rest)) :
    ∃ v, d = v ++ rest ∧ readVarint v = some (n, []) := by
  cases d with
  | nil => cases h
  | cons b bs =>
    obtain ⟨k, hk⟩ : ∃ k, varintLenFromFirstByte b = k + 1 :=
      ⟨_, (Nat.sub_add_cancel Nat.one_le_two_pow).symm⟩
    simp only [readVarint, hk, length_cons, take_succ_cons, drop_succ_cons, drop_zero] at h
    split_ifs at h with hlen
    rw [Option.some.injEq, Prod.mk.injEq] at h
    obtain ⟨rfl, rfl⟩ := h
    refine ⟨b :: bs.take k, by simp, ?_⟩
    have hmin : min k bs.length = k := by omega
    simp [readVarint, hk, hmin, take_take]

theorem readVarint_eq_none :
    readVarint d = none ↔ ∀ b ∈ d.head?, d.length < varintLenFromFirstByte b := by
  cases d with
  | nil => simp [readVarint]
  | cons b bs => simp [readVarint]

/-- A number cut off can be completed, and not to zero. -/
theorem readVarint_complete (h : readVarint d = none) :
    ∃ more n, n ≠ 0 ∧ readVarint (d ++ more) = some (n, []) := by
  cases d with
  | nil => exact ⟨[1], 1, one_ne_zero, rfl⟩
  | cons b bs =>
    obtain ⟨k, hk⟩ := Nat.exists_eq_add_of_lt (readVarint_eq_none.mp h b rfl)
    have hlen : (b :: (bs ++ (replicate k 0 ++ [1]))).length = varintLenFromFirstByte b := by
      simp only [length_cons, length_append, length_replicate, length_nil] at hk ⊢
      omega
    refine ⟨replicate k 0 ++ [1], beNat ((b &&& 0x3f) :: (bs ++ (replicate k 0 ++ [1]))), ?_, ?_⟩
    · rw [beNat, ← append_assoc, ← cons_append, foldl_append]
      simp
    · rw [cons_append, readVarint, if_neg (by omega), ← hlen, drop_length, take_length]
      rfl

/-- A GOAWAY frame that declares no byte, or fewer than the first one asks for. -/
def Stuck (d : Bytes) : Prop :=
  ∃ rest len body, readVarint d = some (Ftype.goaway, rest) ∧ readVarint rest = some (len, body) ∧
    (len = 0 ∨ ∃ b ∈ body.head?, len < varintLenFromFirstByte b)

theorem Stuck.truncated (h : Stuck d) (more : Bytes) :
    parseFrame (d ++ more) = .error .truncated := by
  obtain ⟨rest, len, body, hty, hlen, hshort⟩ := h
  obtain ⟨v, rfl, hv⟩ := readVarint_split hty
  obtain ⟨w, rfl, hw⟩ := readVarint_split hlen
  have hid : readVarint ((body ++ more).take len) = none := by
    rw [readVarint_eq_none]
    intro b hb
    rcases hshort with rfl | ⟨c, hc, hlt⟩
    · cases hb
    · obtain ⟨bs, rfl⟩ : ∃ bs, body = c :: bs := by
        cases body with
        | nil => cases hc
        | cons x xs => cases hc; exact ⟨xs, rfl⟩
      cases len with
      | zero => cases hb
      | succ len =>
        cases hb
        exact lt_of_le_of_lt (length_take_le _ _) hlt
  rw [append_assoc, append_assoc, parseFrame, readVarint_append hv]
  dsimp only
  rw [readVarint_append hw]
  dsimp only
  by_cases hmore : (body ++ more).length < len
  · rw [if_pos hmore]
  · rw [if_neg hmore, hid]
    rfl

theorem truncated_isPrefix (h : parseFrame d = .error .truncated) (hd : ¬Stuck d) :
    ∃ f : WireFrame, f.Whole ∧ d <+: f.bytes := by
  have hzeros : ∀ len ≠ 0, (readVarint (replicate len 0)).isSome := by
    intro len hlen
    obtain ⟨k, rfl⟩ := Nat.exists_eq_succ_of_ne_zero hlen
    refine Option.isSome_iff_ne_none.mpr fun h => absurd (readVarint_eq_none.mp h 0 rfl) ?_
    rw [length_replicate]
    exact not_lt.mpr (Nat.succ_pos k)
  cases hty : readVarint d with
  | none =>
    obtain ⟨more, ty, -, hread⟩ := readVarint_complete hty
    exact ⟨⟨ty, [0], d ++ more, [1], hread, rfl⟩, fun _ => rfl, more ++ [1] ++ [0], by
      simp [WireFrame.bytes]⟩
  | some p =>
    obtain ⟨ty, rest⟩ := p
    cases hlen : readVarint rest with
    | none =>
      obtain ⟨v, rfl, hv⟩ := readVarint_split hty
      obtain ⟨more, len, hpos, hread⟩ := readVarint_complete hlen
      exact ⟨⟨ty, replicate len 0, v, rest ++ more, hv, by rwa [length_replicate]⟩,
        fun _ => hzeros len hpos, more ++ replicate len 0, by simp [WireFrame.bytes]⟩
    | some q =>
      obtain ⟨len, body⟩ := q
      have hroom : ty = Ftype.goaway → len ≠ 0 ∧ ∀ b ∈ body.head?, varintLenFromFirstByte b ≤ len := by
        rintro rfl
        refine ⟨fun e => hd ⟨rest, len, body, hty, hlen, .inl e⟩, fun b hb => ?_⟩
        exact not_lt.mp fun hlt => hd ⟨rest, len, body, hty, hlen, .inr ⟨b, hb, hlt⟩⟩
      -- A complete frame is truncated only by its identifier.
      have hlt : body.length < len := by
        by_contra hge
        simp only [parseFrame, hty, hlen, if_neg hge] at h
        split_ifs at h with h1 h2 h3 hg
        cases hid : readVarint (body.take len) with
        | some r => rw [hid] at h; cases h
        | none =>
          obtain ⟨hpos, hfits⟩ := hroom hg
          cases body with
          | nil => exact hpos (Nat.le_zero.mp (not_lt.mp hge))
          | cons b bs =>
            have hshort := readVarint_eq_none.mp hid b (by rw [head?_take, if_neg hpos]; rfl)
            rw [length_take_of_le (not_lt.mp hge)] at hshort
            exact absurd (hfits b rfl) (not_le.mpr hshort)
      have hsum : (body ++ replicate (len - body.length) 0).length = len := by
        rw [length_append, length_replicate]
        omega
      obtain ⟨v, rfl, hv⟩ := readVarint_split hty
      obtain ⟨w, rfl, hw⟩ := readVarint_split hlen
      refine ⟨⟨ty, body ++ replicate (len - body.length) 0, v, w, hv, by rw [hsum, hw]⟩, fun hg => ?_,
        replicate (len - body.length) 0, by simp [WireFrame.bytes]⟩
      cases body with
      | nil => exact hzeros _ (by simpa using (hroom hg).1)
      | cons b bs =>
        refine Option.isSome_iff_ne_none.mpr fun hid => ?_
        have hshort := readVarint_eq_none.mp hid b rfl
        rw [hsum] at hshort
        exact absurd ((hroom hg).2 b rfl) (not_le.mpr hshort)

/-- **A truncated frame can be completed**, and a complete one is consumed, but for a GOAWAY frame
too short for its identifier: that one keeps all bytes behind it until FIN. -/
theorem truncated_can_help (d : Bytes) :
    (parseFrame d = .error .truncated →
      ((∃ more g rest, parseFrame (d ++ more) = .ok (g, rest)) ↔ ¬Stuck d)) ∧
    (∀ (f : WireFrame) rest, (∃ g, parseFrame (f.bytes ++ rest) = .ok (g, rest)) ↔ f.Whole) ∧
    ∀ (s : H3BodySource) (f : WireFrame) rest, s.Feeds true (f.bytes ++ rest) →
      (f.Whole → f.ty ≠ Ftype.headers → ∃ s' : H3BodySource, ∃ fuel, s'.Feeds true rest ∧
        s'.work < fuel ∧ s.nextChunk = if f.ty = Ftype.data then (.ready (some f.payload), s')
          else H3BodySource.nextLoop fuel s') ∧
      (¬f.Whole → ∃ s', s.nextChunk = (.ready none, s') ∧ s'.buf = f.bytes ++ rest) := by
  refine ⟨fun h => ⟨?_, fun hd => ?_⟩, fun f rest => ⟨?_, fun hf => ?_⟩, fun s f rest hs => ⟨?_, ?_⟩⟩
  · rintro ⟨more, g, rest, hok⟩ hd
    rw [hd.truncated more] at hok
    cases hok
  · obtain ⟨f, hf, more, hbytes⟩ := truncated_isPrefix h hd
    obtain ⟨g, hg, -⟩ := parseFrame_append hf []
    exact ⟨more, g, [], by rw [hbytes, ← hg, append_nil]⟩
  · rintro ⟨g, hok⟩
    by_contra hf
    rw [truncated_of_not_whole hf prefix_rfl] at hok
    cases hok
  · obtain ⟨g, hg, -⟩ := parseFrame_append hf rest
    exact ⟨g, hg⟩
  · intro hf hnh
    obtain ⟨s', fuel, h1, h2, -, h3⟩ := H3BodySource.nextLoop_frame hf hnh hs (Nat.lt_succ_self _)
    exact ⟨s', fuel, h1, h2, hs.nextChunk.trans h3⟩
  · intro hf
    rw [hs.nextChunk]
    exact H3BodySource.nextLoop_cut (fun _ => truncated_of_not_whole hf) hs (Nat.lt_succ_self _)

theorem truncated_can_help_data : ∃ more g rest, parseFrame ([7, 2, 65] ++ more) = .ok (g, rest) := by
  refine ((truncated_can_help [7, 2, 65]).1 rfl).mpr ?_
  rintro ⟨rest, len, body, hty, hlen, hshort⟩
  cases hty
  cases hlen
  rcases hshort with h | ⟨b, hb, hlt⟩
  · cases h
  · cases hb
    exact absurd hlt (by decide)

/-- An empty GOAWAY frame is truncated for ever: the DATA frame behind it is lost. -/
theorem goaway_waits :
    (¬∃ more, parseFrame ([7, 0] ++ more) ≠ .error .truncated) ∧
      (H3BodySource.nextChunk { buf := [7, 0], eof := false, recvs := [([0, 1, 65], true)] }).1 =
        .ready none := by
  refine ⟨?_, rfl⟩
  rintro ⟨more, h⟩
  exact h rfl

open BodyReader

/-- All is in front of the first empty payload exactly if only empty ones are behind it. -/
theorem length_flatten_takeWhile (ps : List Bytes) :
    (ps.takeWhile (· ≠ [])).flatten.length = ps.flatten.length ↔
      ps.Pairwise fun a b => a = [] → b = [] := by
  induction ps with
  | nil => simp
  | cons p ps ih =>
    rw [pairwise_cons]
    by_cases hp : p = []
    · subst hp
      rw [takeWhile_cons_of_neg (by simp), flatten_nil, flatten_cons, nil_append, length_nil, eq_comm,
        length_eq_zero_iff, flatten_eq_nil_iff]
      exact ⟨fun h => ⟨fun b hb _ => h b hb, pairwise_of_forall_mem_list fun _ _ b hb _ => h b hb⟩,
        fun h b hb => h.1 b hb rfl⟩
    · rw [takeWhile_cons_of_pos (by simpa using hp), flatten_cons, flatten_cons, length_append,
        length_append, Nat.add_left_cancel_iff, ih]
      simp [hp]

/-- **Bodies are exact** where no empty DATA frame precedes a nonempty one and no shorter length is
declared, and not otherwise. A body cut within a frame is told from a whole one where the payloads
in front of the first empty one are shorter than a declared length. -/
theorem body_exact (limit : Option ℕ) {s : H3BodySource} {fs : List WireFrame} {tail : Bytes}
    (hfs : ∀ f ∈ fs, f.InBody) (htail : Unfinished tail) (h : s.Feeds true (wire fs ++ tail))
    {fuel : ℕ} (hfuel : fs.length < fuel) :
    ∃ bytes br, readAll H3BodySource.nextChunk fuel (newStreaming [] limit) s = some (bytes, br) ∧
      (tail = [] → (bytes = bodyOf fs ↔
        (dataPayloads fs).Pairwise (fun a b => a = [] → b = []) ∧
          ∀ n ∈ limit, (bodyOf fs).length ≤ n)) ∧
      (tail ≠ [] → (br.remaining ≠ 0 ↔
        ∃ n ∈ limit, ((dataPayloads fs).takeWhile (· ≠ [])).flatten.length < n)) ∧
      br.remaining = limit.elim 0 (· - bytes.length) := by
  have hpre : (newStreaming [] limit).prebuf.length ≤ (newStreaming [] limit).prebufConsumed := by
    cases limit <;> simp [newStreaming]
  have hroom : (newStreaming [] limit).room = limit := by
    cases limit <;> simp [newStreaming, room]
  have hlen : (dataPayloads fs).length < fuel := by
    refine lt_of_le_of_lt ?_ hfuel
    rw [dataPayloads, length_map]
    exact length_filter_le ..
  obtain ⟨br, hread, hlimit, hdelivered⟩ := readAll_of_yields (h.yields hfs htail) hpre hlen
  rw [hroom] at hread hdelivered
  rw [show (newStreaming [] limit).limit = limit from rfl] at hlimit
  rw [show (newStreaming [] limit).delivered = 0 from rfl, Nat.zero_add] at hdelivered
  have hrem : br.remaining = limit.elim 0
      (· - (within limit ((dataPayloads fs).takeWhile (· ≠ [])).flatten).length) := by
    rw [remaining, hlimit, hdelivered]
  have hpart : within limit ((dataPayloads fs).takeWhile (· ≠ [])).flatten <+: bodyOf fs := by
    refine IsPrefix.trans ?_ ( takeWhile_prefix fun p => decide (p ≠ [])).flatten
    cases limit with
    | none => exact prefix_rfl
    | some n => exact take_prefix n _
  refine ⟨_, br, hread, fun _ => ?_, fun _ => ?_, hrem⟩
  · have hle : ((dataPayloads fs).takeWhile (· ≠ [])).flatten.length ≤ (bodyOf fs).length :=
      ( takeWhile_prefix fun p => decide (p ≠ [])).flatten.length_le
    rw [← length_flatten_takeWhile]
    have hiff : within limit ((dataPayloads fs).takeWhile (· ≠ [])).flatten = bodyOf fs ↔
        (within limit ((dataPayloads fs).takeWhile (· ≠ [])).flatten).length = (bodyOf fs).length :=
      ⟨fun e => by rw [e], hpart.eq_of_length⟩
    rw [hiff]
    cases limit with
    | none => simp [within, bodyOf]
    | some n =>
      simp only [within, Option.elim_some, length_take, Option.mem_some_iff, forall_eq', bodyOf] at hle ⊢
      omega
  · rw [hrem]
    cases limit with
    | none => simp
    | some n =>
      simp only [within, Option.elim_some, length_take, Option.mem_some_iff, exists_eq_left']
      omega

def shortFrame (ty : UInt8) (payload : Bytes) : Bytes := ty :: UInt8.ofNat payload.length :: payload

def greased : List WireFrame := [
  ⟨0, [97, 98], [0], [2], rfl, rfl⟩, ⟨33, [120], [33], [1], rfl, rfl⟩,
  ⟨0, [99, 100], [0], [0x40, 2], rfl, rfl⟩]

def greasedSource : H3BodySource where
  buf := [0, 2, 97]
  eof := false
  recvs := [([98, 33], false), ([1, 120, 0, 0x40, 2, 99, 100], false), ([], true)]

def cutSource : H3BodySource where
  buf := [0, 2]
  eof := false
  recvs := [([97, 98, 33], true)]

theorem body_exact_greased :
    (∃ bytes br, readAll H3BodySource.nextChunk 4 (newStreaming [] none) greasedSource =
      some (bytes, br) ∧ bytes = bodyOf greased) ∧
    ∃ bytes br, readAll H3BodySource.nextChunk 2 (newStreaming [] (some 3)) cutSource =
      some (bytes, br) ∧ br.remaining ≠ 0 := by
  have hin : ∀ f ∈ greased, f.InBody := by
    simp [greased, WireFrame.InBody, WireFrame.Whole, Ftype.headers, Ftype.goaway]
  constructor
  · obtain ⟨bytes, br, hread, hbody, -⟩ := body_exact none hin
      (⟨greased[0], nil_prefix, by decide⟩ : Unfinished [])
      (⟨by decide, by simp [greasedSource, Ends], rfl⟩ : greasedSource.Feeds true _)
      (by decide : _ < 4)
    exact ⟨bytes, br, hread, (hbody rfl).mpr ⟨by decide, by simp⟩⟩
  · obtain ⟨bytes, br, hread, -, hcut, -⟩ := body_exact (some 3)
      (fun f hf => hin f (mem_of_mem_take (i := 1) hf))
      (⟨greased[1], ⟨[1, 120], rfl⟩, by decide⟩ : Unfinished [33])
      (⟨by decide, by simp [cutSource, Ends], rfl⟩ : cutSource.Feeds true _) (by decide : _ < 2)
    exact ⟨bytes, br, hread, (hcut (by simp)).mpr ⟨3, rfl, by decide⟩⟩

/-- An empty DATA frame ends the body, and without a declared length so does FIN within a frame. -/
theorem body_loses :
    readAll H3BodySource.nextChunk 4 (newStreaming [] none)
        { buf := shortFrame 0 [97, 98] ++ shortFrame 0 [] ++ shortFrame 0 [99, 100], eof := true,
          recvs := [] } =
      some ([97, 98], { limit := none, delivered := 2 }) ∧
    readAll H3BodySource.nextChunk 2 (newStreaming [] none)
        { buf := (shortFrame 0 [97, 98]).take 3, eof := true, recvs := [] } =
      some ([], { limit := none }) ∧
    ({ limit := none } : BodyReader).remaining = 0 := by
  decide +kernel

/-- Payload bytes of a DATA frame at the front that is not complete. -/
def heldPayload (d : Bytes) : ℕ :=
  match readVarint d with
  | none => 0
  | some (ty, rest) => if ty = Ftype.data then (readVarint rest).elim 0 (·.2.length) else 0

/-- Payload bytes of the DATA frames in a buffer, the last of which may be cut. -/
def bodyBytes : ℕ → Bytes → ℕ
  | 0, _ => 0
  | fuel + 1, buf =>
    match parseFrame buf with
    | .ok (.data payload, rest) => payload.length + bodyBytes fuel rest
    | .ok (_, rest) => bodyBytes fuel rest
    | .error _ => heldPayload buf

def H3BodySource.held (s : H3BodySource) : ℕ := bodyBytes (s.buf.length + 1) s.buf

theorem readVarint_rest_le {more : Bytes} (h : readVarint d = none)
    (hm : readVarint (d ++ more) = some (n, rest)) : rest.length ≤ more.length := by
  cases d with
  | nil =>
    obtain ⟨v, hv, -⟩ := readVarint_split hm
    simp [(nil_append more).symm.trans hv]
  | cons b bs =>
    have hlt := readVarint_eq_none.mp h b rfl
    rw [cons_append, readVarint] at hm
    split_ifs at hm
    cases hm
    rw [length_drop, ← cons_append, length_append]
    omega

/-- A payload that has not begun is all in what comes next. -/
theorem payload_le {len : ℕ} {more body : Bytes} (h : heldPayload d = 0)
    (hty : readVarint (d ++ more) = some (Ftype.data, rest))
    (hlen : readVarint rest = some (len, body)) : body.length ≤ more.length := by
  obtain ⟨w, hw, -⟩ := readVarint_split hlen
  cases hd : readVarint d with
  | none =>
    have := readVarint_rest_le hd hty
    rw [hw, length_append] at this
    omega
  | some p =>
    obtain ⟨ty, rest0⟩ := p
    obtain ⟨v, rfl, hv⟩ := readVarint_split hd
    rw [append_assoc, readVarint_append hv] at hty
    cases hty
    cases hr : readVarint rest0 with
    | none => exact readVarint_rest_le hr hlen
    | some q =>
      obtain ⟨len0, body0⟩ := q
      obtain ⟨w, rfl, hread⟩ := readVarint_split hr
      rw [append_assoc, readVarint_append hread] at hlen
      cases hlen
      have hnone : body0.length = 0 := by simpa [heldPayload, hd, hr] using h
      rw [length_append]
      omega

theorem parseFrame_ok {g : Frame} (h : parseFrame d = .ok (g, rest)) :
    ∃ f : WireFrame, f.Whole ∧ d = f.bytes ++ rest ∧ ∀ p, g = .data p → f.ty = Ftype.data ∧ f.payload = p := by
  unfold parseFrame at h
  cases hty : readVarint d with
  | none => rw [hty] at h; cases h
  | some p =>
    obtain ⟨ty, d1⟩ := p
    rw [hty] at h
    dsimp only at h
    cases hlen : readVarint d1 with
    | none => rw [hlen] at h; cases h
    | some q =>
      obtain ⟨len, d2⟩ := q
      rw [hlen] at h
      dsimp only at h
      by_cases hshort : d2.length < len
      · rw [if_pos hshort] at h
        cases h
      · rw [if_neg hshort] at h
        obtain ⟨v, rfl, hv⟩ := readVarint_split hty
        obtain ⟨w, rfl, hw⟩ := readVarint_split hlen
        have hsize : (d2.take len).length = len := length_take_of_le (not_lt.mp hshort)
        refine ⟨⟨ty, d2.take len, v, w, hv, by rw [hsize, hw]⟩, ?_⟩
        have hbytes : v ++ (w ++ d2) = v ++ w ++ d2.take len ++ d2.drop len := by simp
        split_ifs at h with h1 h2 h3 h4
        · cases h
          exact ⟨fun e => absurd (h1.symm.trans e) (by decide), hbytes, fun p e => ⟨h1, Frame.data.inj e⟩⟩
        · cases h
          exact ⟨fun e => absurd (h2.symm.trans e) (by decide), hbytes, nofun⟩
        · cases h
          exact ⟨fun e => absurd (h3.symm.trans e) (by decide), hbytes, nofun⟩
        · cases hid : readVarint (d2.take len) with
          | none => rw [hid] at h; cases h
          | some r =>
            rw [hid] at h
            cases h
            exact ⟨fun _ => Option.isSome_iff_exists.mpr ⟨r, hid⟩, hbytes, nofun⟩
        · cases h
          exact ⟨fun e => absurd e h4, hbytes, nofun⟩

theorem bodyBytes_append_le {more : Bytes} (hcut : parseFrame d = .error .truncated)
    (h : heldPayload d = 0) (fuel : ℕ) : bodyBytes fuel (d ++ more) ≤ more.length := by
  induction fuel generalizing d more with
  | zero => exact Nat.zero_le _
  | succ fuel ih =>
    rw [bodyBytes]
    cases hparse : parseFrame (d ++ more) with
    | error e =>
      dsimp only
      unfold heldPayload
      cases hty : readVarint (d ++ more) with
      | none => exact Nat.zero_le _
      | some p =>
        obtain ⟨ty, rest⟩ := p
        dsimp only
        split_ifs with hdata
        · cases hlen : readVarint rest with
          | none => exact Nat.zero_le _
          | some q => exact payload_le h (hdata ▸ hty) hlen
        · exact Nat.zero_le _
    | ok r =>
      obtain ⟨g, rest⟩ := r
      obtain ⟨f, hf, hbytes, hdata⟩ := parseFrame_ok hparse
      have hrest : bodyBytes fuel rest ≤ rest.length := ih (d := []) rfl rfl
      have hle : rest.length ≤ more.length := by
        rcases prefix_append_cases (⟨_, hbytes⟩ : d <+: f.bytes ++ rest) with ⟨hp, -⟩ | ⟨q, rfl, -⟩
        · have hsum := congrArg length hbytes
          have := hp.length_le
          simp only [length_append] at hsum
          omega
        · obtain ⟨x, hx, -⟩ := parseFrame_append hf q
          rw [hx] at hcut
          cases hcut
      cases g with
      | data p =>
        obtain ⟨hty, rfl⟩ := hdata p rfl
        have hread : readVarint (d ++ more) = some (Ftype.data, f.lenBytes ++ (f.payload ++ rest)) := by
          rw [hbytes, WireFrame.bytes, append_assoc, append_assoc, ← hty]
          exact readVarint_append f.read_ty _
        have hbody := payload_le h hread (readVarint_append f.read_len _)
        rw [length_append] at hbody
        dsimp only
        omega
      | headers b => exact hrest.trans hle
      | settings b => exact hrest.trans hle
      | goAway id => exact hrest.trans hle
      | skipped ty => exact hrest.trans hle

namespace H3BodySource

variable {s : H3BodySource} {fuel : ℕ}

/-- While the stream is open, no `recv` returns some of the payload of a DATA frame and not all. -/
def Prompt (s : H3BodySource) : Prop :=
  s.eof = false → ∀ n fs tail, (∀ r ∈ s.recvs.take n, r.2 = false) →
    s.buf ++ (s.recvs.take n).flatMap Prod.fst = wire fs ++ tail → (∀ f ∈ fs, f.InBody) →
      Unfinished tail → heldPayload tail = 0

/-- What is to come is frames, and no GOAWAY frame among them lacks its identifier. -/
def Framed (s : H3BodySource) : Prop :=
  ∃ fs tail, s.buf ++ s.recvs.flatMap Prod.fst = wire fs ++ tail ∧ (∀ f ∈ fs, f.Whole) ∧ Unfinished tail

/-- What the calls of `next_chunk` keep. -/
structure Bounded (s : H3BodySource) : Prop where
  recv_le : ∀ r ∈ s.recvs, r.1.length ≤ 4096
  held_le : ∀ fuel, bodyBytes fuel s.buf ≤ 4096
  framed : s.done = false → s.Framed
  prompt : s.done = false → s.Prompt

theorem held_of_truncated (h : parseFrame s.buf = .error .truncated) : s.held = heldPayload s.buf := by
  rw [held, bodyBytes, h]

theorem Prompt.now (h : s.Prompt) (heof : s.eof = false) (hbuf : Unfinished s.buf) :
    heldPayload s.buf = 0 :=
  h heof 0 [] s.buf (by simp) (by simp [wire]) (by simp) hbuf

theorem Prompt.frame {rest : Bytes} {f : WireFrame} (h : s.Prompt) (hbuf : s.buf = f.bytes ++ rest)
    (hf : f.InBody) : { s with buf := rest : H3BodySource }.Prompt := by
  intro heof n fs tail hopen hbytes hfs htail
  refine h heof n (f :: fs) tail hopen ?_ (forall_mem_cons.mpr ⟨hf, hfs⟩) htail
  rw [hbuf, append_assoc, hbytes, wire, wire, flatMap_cons, append_assoc]

theorem Prompt.recv {chunk : Bytes} {fin done : Bool} {recvs : List (Bytes × Bool)} (h : s.Prompt)
    (hr : s.recvs = (chunk, fin) :: recvs) :
    Prompt { buf := s.buf ++ chunk, eof := s.eof || fin, done, recvs } := by
  intro heof n fs tail hopen hbytes hfs htail
  obtain ⟨heof, hfin⟩ := Bool.or_eq_false_iff.mp heof
  refine h heof (n + 1) fs tail ?_ ?_ hfs htail
  · rw [hr, take_succ_cons]
    exact forall_mem_cons.mpr ⟨hfin, hopen⟩
  · rw [hr, take_succ_cons, flatMap_cons, ← append_assoc]
    exact hbytes

/-- A stream cut anywhere is frames and the beginning of one. -/
theorem framed_isPrefix {fs : List WireFrame} {tail bytes : Bytes} (hfs : ∀ f ∈ fs, f.Whole)
    (htail : Unfinished tail) (hp : bytes <+: wire fs ++ tail) :
    ∃ gs cut, bytes = wire gs ++ cut ∧ (∀ g ∈ gs, g.Whole) ∧ Unfinished cut := by
  induction fs generalizing bytes with
  | nil =>
    exact ⟨[], bytes, rfl, by simp, htail.of_isPrefix hp⟩
  | cons f fs ih =>
    obtain ⟨hwhole, hrest⟩ := forall_mem_cons.mp hfs
    rw [wire, flatMap_cons, append_assoc] at hp
    rcases prefix_append_cases hp with ⟨hp, hne⟩ | ⟨q, rfl, hq⟩
    · exact ⟨[], bytes, rfl, by simp, f, hp, hne⟩
    · obtain ⟨gs, cut, rfl, hgs, hcut⟩ := ih hrest hq
      refine ⟨f :: gs, cut, ?_, forall_mem_cons.mpr ⟨hwhole, hgs⟩, hcut⟩
      rw [wire, wire, flatMap_cons, append_assoc]

/-- The buffer is a frame and more, or less. -/
theorem Framed.parse (h : s.Framed) :
    (∃ (f : WireFrame) (g : Frame) (rest : Bytes), s.buf = f.bytes ++ rest ∧ f.Whole ∧
      parseFrame s.buf = .ok (g, rest) ∧ (f.ty = Ftype.headers → ∃ b, g = .headers b) ∧
        { s with buf := rest : H3BodySource }.Framed) ∨
    parseFrame s.buf = .error .truncated ∧ Unfinished s.buf := by
  obtain ⟨fs, tail, hbytes, hfs, htail⟩ := h
  cases fs with
  | nil =>
    have hp : s.buf <+: tail := ⟨_, hbytes⟩
    exact .inr ⟨htail.truncated hp, htail.of_isPrefix hp⟩
  | cons f fs =>
    obtain ⟨hf, hrest⟩ := forall_mem_cons.mp hfs
    rw [wire, flatMap_cons, append_assoc] at hbytes
    rcases prefix_append_cases (⟨_, hbytes⟩ : s.buf <+: _) with ⟨hp, hne⟩ | ⟨more, hbuf, -⟩
    · exact .inr ⟨parseFrame_cut hp hne, f, hp, hne⟩
    · obtain ⟨g, hparse, -, -, -, hheaders⟩ := parseFrame_append hf more
      rw [hbuf, append_assoc] at hbytes
      exact .inl ⟨f, g, more, hbuf, hf, hbuf ▸ hparse, hheaders, fs, tail, append_cancel_left hbytes,
        hrest, htail⟩

theorem Bounded.frame {rest : Bytes} {f : WireFrame} {g : Frame} (h : s.Bounded)
    (hbuf : s.buf = f.bytes ++ rest) (hf : f.Whole) (hparse : parseFrame s.buf = .ok (g, rest))
    (hheaders : f.ty = Ftype.headers → ∃ b, g = .headers b)
    (hrest : { s with buf := rest : H3BodySource }.Framed) (done : Bool)
    (hdone : done = false → s.done = false ∧ ∀ b, g ≠ .headers b) :
    Bounded { s with buf := rest, done } where
  recv_le := h.recv_le
  held_le fuel := by
    refine le_trans ?_ (h.held_le (fuel + 1))
    rw [bodyBytes, hparse]
    cases g <;> simp
  framed _ := hrest
  prompt hd := by
    obtain ⟨hrun, hg⟩ := hdone hd
    refine Prompt.frame (s := { s with done }) ?_ hbuf ⟨fun e => ?_, hf⟩
    · exact h.prompt hrun
    · obtain ⟨b, hb⟩ := hheaders e
      exact hg b hb

theorem nextLoop_bounded (h : s.Bounded) (hrun : s.done = false) (hfuel : s.work < fuel) :
    (nextLoop fuel s).2.Bounded ∧ ((nextLoop fuel s).1 = .pending → (nextLoop fuel s).2.held = 0) := by
  induction fuel generalizing s with
  | zero => omega
  | succ fuel ih =>
    rcases (h.framed hrun).parse with ⟨f, g, rest, hbuf, hf, hparse, hh, hrest⟩ | ⟨hparse, hcut⟩
    · have hwork : { s with buf := rest : H3BodySource }.work < fuel := by
        have := f.length_bytes_pos
        simp only [work, hbuf, length_append] at hfuel ⊢
        omega
      have hnext := fun hg : ∀ b, g ≠ .headers b =>
        h.frame hbuf hf hparse hh hrest s.done fun hd => ⟨hd, hg⟩
      rw [nextLoop, hparse]
      cases g with
      | data p => exact ⟨hnext nofun, nofun⟩
      | headers b => exact ⟨h.frame hbuf hf hparse hh hrest true nofun, nofun⟩
      | settings b => exact ih (hnext nofun) hrun hwork
      | goAway id => exact ih (hnext nofun) hrun hwork
      | skipped ty => exact ih (hnext nofun) hrun hwork
    · rw [nextLoop, hparse]
      cases heof : s.eof with
      | true => exact ⟨⟨h.recv_le, h.held_le, nofun, nofun⟩, nofun⟩
      | false =>
        have hnone := (h.prompt hrun).now heof hcut
        rw [if_neg (by simp)]
        cases hr : s.recvs with
        | nil => exact ⟨h, fun _ => (held_of_truncated hparse).trans hnone⟩
        | cons r recvs =>
          obtain ⟨chunk, fin⟩ := r
          have hrecv := h.recv_le
          rw [hr] at hrecv
          obtain ⟨hchunk, hrecvs⟩ := forall_mem_cons.mp hrecv
          have hmore : ∀ done, Bounded { buf := s.buf ++ chunk, eof := false || fin, done, recvs } := by
            intro done
            refine ⟨hrecvs, fun k => (bodyBytes_append_le hparse hnone k).trans hchunk, fun _ => ?_,
              fun _ => ?_⟩
            · obtain ⟨fs, tail, hbytes, hfs⟩ := h.framed hrun
              exact ⟨fs, tail, by rw [← hbytes, hr, flatMap_cons, ← append_assoc], hfs⟩
            · rw [← heof]
              exact (h.prompt hrun).recv hr
          dsimp only
          split_ifs
          · exact ⟨hmore true, nofun⟩
          · refine ih (hmore s.done) hrun ?_
            simp only [work, hr, length_append, map_cons, sum_cons, length_cons] at hfuel ⊢
            omega

theorem ends_of_open {recvs : List (Bytes × Bool)} (h : ∀ r ∈ recvs, r.2 = false) :
    Ends false false recvs := by
  induction recvs with
  | nil => rfl
  | cons r recvs ih =>
    obtain ⟨chunk, fin⟩ := r
    obtain ⟨hfin, hrest⟩ := forall_mem_cons.mp h
    obtain rfl : fin = false := hfin
    exact ih hrest

/-- **Body bytes are handed on as they arrive**, and at most a chunk of them is held between two
calls, exactly if the payload of no DATA frame is cut where the source waits. -/
theorem buffered_le (hrecv : ∀ r ∈ s.recvs, r.1.length ≤ 4096) (hbuf : s.buf.length ≤ 4096)
    (hrun : s.done = false) (hframed : s.Framed) :
    (∀ n k, ((fun s => (nextChunk s).2)^[k] { s with recvs := s.recvs.take n }).held ≤ 4096 ∧
      ∀ t, nextChunk ((fun s => (nextChunk s).2)^[k] { s with recvs := s.recvs.take n }) =
        (.pending, t) → t.held = 0) ↔ s.Prompt := by
  constructor
  · intro hall heof n fs tail hopen hbytes hfs htail
    have hfeeds : Feeds { s with recvs := s.recvs.take n } false (wire fs ++ tail) :=
      ⟨hbytes, by rw [heof]; exact ends_of_open hopen, hrun⟩
    obtain ⟨k, t, hwait, rfl⟩ := hfeeds.waits hfs htail
    rw [← held_of_truncated (htail.truncated prefix_rfl)]
    exact (hall n k).2 t hwait
  · intro hprompt n
    have hcall : ∀ t : H3BodySource, t.Bounded →
        (nextChunk t).2.Bounded ∧ ((nextChunk t).1 = .pending → (nextChunk t).2.held = 0) := by
      intro t ht
      rw [nextChunk]
      split_ifs with hdone
      · exact ⟨ht, nofun⟩
      · exact nextLoop_bounded ht (by simpa using hdone) (Nat.lt_succ_self _)
    have hstart : Bounded { s with recvs := s.recvs.take n } := by
      refine ⟨fun r hr => hrecv r (mem_of_mem_take hr), fun fuel => ?_, fun _ => ?_, fun _ => ?_⟩
      · exact (bodyBytes_append_le (d := []) rfl rfl fuel).trans hbuf
      · obtain ⟨fs, tail, hbytes, hfs, htail⟩ := hframed
        refine framed_isPrefix hfs htail ⟨(s.recvs.drop n).flatMap Prod.fst, ?_⟩
        rw [← hbytes, append_assoc, ← flatMap_append, take_append_drop]
      · intro heof m fs tail
        rw [take_take]
        exact hprompt heof (min m n) fs tail
    intro k
    have hk : ((fun s => (nextChunk s).2)^[k] { s with recvs := s.recvs.take n }).Bounded := by
      induction k with
      | zero => exact hstart
      | succ k ih =>
        rw [Function.iterate_succ_apply']
        exact (hcall _ ih).1
    refine ⟨hk.held_le _, fun t ht => ?_⟩
    have hnone := (hcall _ hk).2
    rw [ht] at hnone
    exact hnone rfl

/-- One frame a call of `recv`. -/
def promptSource : H3BodySource where
  buf := []
  eof := false
  recvs := [([0, 2, 97, 98], false), ([0, 0x40, 2, 99, 100], true)]

theorem buffered_le_prompt : promptSource.done = false ∧ ∀ n k,
    ((fun s => (nextChunk s).2)^[k] { promptSource with recvs := promptSource.recvs.take n }).held ≤
      4096 := by
  refine ⟨rfl, fun n k => ?_⟩
  refine ((buffered_le (s := promptSource) ?_ (by decide) rfl ?_).mpr ?_ n k).1
  · simp [promptSource]
  · exact ⟨[greased[0], greased[2]], [], rfl, by simp [greased, Whole, Ftype.goaway], greased[0],
      nil_prefix, by decide⟩
  · intro _ n fs tail hopen hbytes hfs htail
    match n, hopen, hbytes with
    | 0, _, hbytes =>
      obtain ⟨-, rfl⟩ := append_eq_nil_iff.mp hbytes.symm
      rfl
    | 1, _, hbytes =>
      cases fs with
      | nil =>
        obtain rfl : [0, 2, 97, 98] = tail := hbytes
        cases htail.truncated prefix_rfl
      | cons f fs =>
        obtain ⟨g, hparse, -⟩ := parseFrame_append (hfs f mem_cons_self).2 (wire fs ++ tail)
        have hall : ([0, 2, 97, 98] : Bytes) = f.bytes ++ (wire fs ++ tail) := by
          rw [← append_assoc]
          exact hbytes
        rw [← hall] at hparse
        have hnil : [] = wire fs ++ tail := congrArg Prod.snd (Except.ok.inj hparse)
        obtain ⟨-, rfl⟩ := append_eq_nil_iff.mp hnil.symm
        rfl
    | n + 2, hopen, _ => exact absurd (hopen _ (mem_cons_of_mem _ mem_cons_self)) (by simp)

theorem nextLoop_waits {f : WireFrame} {chunks : List Bytes} (heof : s.eof = false)
    (hrecvs : s.recvs = chunks.map fun c => (c, false)) (hp : s.buf ++ chunks.flatten <+: f.bytes)
    (hne : s.buf ++ chunks.flatten ≠ f.bytes) (hfuel : chunks.length < fuel) :
    nextLoop fuel s = (.pending, { s with buf := s.buf ++ chunks.flatten, recvs := [] }) := by
  induction chunks generalizing s fuel with
  | nil =>
    obtain ⟨fuel, rfl⟩ : ∃ k, fuel = k + 1 := ⟨fuel - 1, by omega⟩
    rw [flatten_nil, append_nil] at hp hne ⊢
    obtain ⟨buf, eof, done, recvs⟩ := s
    obtain rfl : eof = false := heof
    obtain rfl : recvs = [] := hrecvs
    rw [nextLoop, parseFrame_cut hp hne]
    rfl
  | cons c chunks ih =>
    obtain ⟨fuel, rfl⟩ : ∃ k, fuel = k + 1 := ⟨fuel - 1, by omega⟩
    rw [flatten_cons, ← append_assoc] at hp hne ⊢
    have hcut : parseFrame s.buf = .error .truncated := by
      have hbuf := (prefix_append s.buf c).trans ((prefix_append _ _).trans hp)
      refine parseFrame_cut hbuf fun e => hne ?_
      exact hp.eq_of_length_le (by rw [← e]; simp)
    rw [nextLoop, hcut, hrecvs]
    simp only [heof, map_cons, Bool.false_or, Bool.false_eq_true, if_false, and_false]
    exact ih (s := { s with buf := s.buf ++ c, eof := false, recvs := _ }) rfl rfl hp hne
      (by simpa using hfuel)

/-- All but the last byte may wait. -/
theorem nextChunk_waits (f : WireFrame) : ∃ s s' : H3BodySource, s.buf = [] ∧
    (∀ r ∈ s.recvs, r.1.length ≤ 4096) ∧ s.recvs.flatMap Prod.fst = f.bytes.dropLast ∧
      s.nextChunk = (.pending, s') ∧ s'.buf = f.bytes.dropLast := by
  have hpos := f.length_bytes_pos
  have hne : f.bytes.dropLast ≠ f.bytes := by
    intro e
    have hlen := congrArg length e
    rw [length_dropLast] at hlen
    omega
  have hp := dropLast_prefix f.bytes
  generalize f.bytes.dropLast = bytes at hne hp ⊢
  have hflat : (bytes.map fun b => [b]).flatten = bytes := by
    rw [← flatMap_def, flatMap_singleton']
  let s : H3BodySource :=
    { buf := [], eof := false, recvs := (bytes.map fun b => [b]).map fun c => (c, false) }
  have hwait : nextLoop (s.work + 1) s = _ := nextLoop_waits (f := f) rfl rfl (by rwa [hflat])
    (by rwa [hflat]) (by simp [s, work])
  refine ⟨s, _, rfl, by simp [s], ?_, hwait, hflat⟩
  rw [flatMap_map, flatMap_map]
  exact flatMap_singleton' bytes

/-- A DATA frame of a mebibyte waits for its last byte. -/
theorem data_frame_waits : ∃ f : WireFrame, ∃ s s' : H3BodySource,
    f.ty = Ftype.data ∧ f.payload.length = 2 ^ 20 ∧ s.buf = [] ∧
      (∀ r ∈ s.recvs, r.1.length ≤ 4096) ∧ s.recvs.flatMap Prod.fst = f.bytes.dropLast ∧
      s.nextChunk = (.pending, s') ∧ s'.buf.length = 2 ^ 20 + 4 := by
  obtain ⟨payload, hlen⟩ : ∃ payload : Bytes, payload.length = 2 ^ 20 :=
    ⟨replicate (2 ^ 20) 0, length_replicate⟩
  have hread : readVarint [0x80, 0x10, 0, 0] = some (payload.length, []) := by
    rw [hlen]
    decide
  obtain ⟨s, s', hbuf, hrecvs, hbytes, hwait, hbuf'⟩ := nextChunk_waits
    ⟨0, payload, [0], [0x80, 0x10, 0, 0], rfl, hread⟩
  refine ⟨_, s, s', rfl, hlen, hbuf, hrecvs, hbytes, hwait, ?_⟩
  rw [hbuf', length_dropLast]
  simp only [WireFrame.bytes, length_append, length_cons, length_nil, hlen]
  omega

end H3BodySource

end Waitless.Http3
