import Waitless.QuicBuildSpec
import Waitless.QuicPacketNumber

/-! # A QUIC packet from end to end

`parseFrame_write` reads back every kind of frame the sender writes, whatever follows it. The octets
of a packet under construction are those of its frames (`coherent_appendFrames`), and `dispatchLoop`
takes them apart again, the padding included. `packet_delivered` adds the packet protection. -/

namespace Waitless.Quic

open Waitless.AesGcm List Reader
open Waitless.Tcp (CongestionControl)

/-! ### Reading back what was written -/

theorem tagged_octet : ∀ k < 4, ∀ n < 64,
    ((UInt8.ofNat n ||| UInt8.ofNat (k * 64)) >>> 6).toNat = k ∧
      ((UInt8.ofNat n ||| UInt8.ofNat (k * 64)) &&& 0x3f).toNat = n := by
  decide +kernel

theorem readVarint_tagged {k n : ℕ} {t : Bytes} (hk : k < 4) (hn : n < 64)
    (hlen : t.length + 1 = 2 ^ k) (rest : Bytes) :
    readVarint ((UInt8.ofNat n ||| UInt8.ofNat (k * 64)) :: t ++ rest) =
      some (t.foldl (fun v b => v * 256 + b.toNat) n, rest) := by
  obtain ⟨hform, hbits⟩ := tagged_octet k hk n hn
  have hl : varintLenFromFirstByte (UInt8.ofNat n ||| UInt8.ofNat (k * 64)) = t.length + 1 := by
    rw [varintLenFromFirstByte, hform, hlen]
  unfold readVarint
  dsimp only [cons_append]
  rw [hl, if_neg (by simp), take_succ_cons, take_left, drop_succ_cons, drop_succ_cons, drop_left,
    beNat, foldl_cons, Nat.zero_mul, Nat.zero_add, hbits, drop_zero]

theorem readVarint_writeVarint {v : ℕ} {bytes : Bytes} (h : writeVarint v = .ok bytes)
    (rest : Bytes) : readVarint (bytes ++ rest) = some (v, rest) := by
  have hform (k : ℕ) (hk : k < 4) (hv : v / 256 ^ (2 ^ k - 1) < 64) :=
    readVarint_tagged (t := (beOctets (2 ^ k) v).tail) hk hv (by
      rw [beOctets, length_tail, length_map, length_range, Nat.sub_add_cancel Nat.one_le_two_pow])
      rest
  unfold writeVarint varintForm maxVarint at h
  split_ifs at h with hmax h6 h14 h30
  all_goals cases h
  · refine (hform 0 (by decide) (by omega)).trans ?_
    simp [beOctets]
  · refine (hform 1 (by decide) (by omega)).trans ?_
    simp [beOctets, range_succ]
    omega
  · refine (hform 2 (by decide) (by omega)).trans ?_
    simp [beOctets, range_succ]
    omega
  · refine (hform 3 (by decide) (by omega)).trans ?_
    simp [beOctets, range_succ]
    omega

/-- The octets of the numbers, one behind the other. -/
def Varints : List ℕ → Bytes → Prop
  | [], bytes => bytes = []
  | v :: vs, bytes => ∃ w rest, writeVarint v = .ok w ∧ bytes = w ++ rest ∧ Varints vs rest

section

variable {t : UInt8} {α : Type} {u v x : ℕ} {w bytes : Bytes}

theorem varints_of_write {vs : List ℕ} (h : writeVarints t vs = .ok bytes) :
    ∃ body, bytes = t :: body ∧ Varints vs body := by
  induction vs generalizing bytes with
  | nil =>
    cases h
    exact ⟨[], rfl, rfl⟩
  | cons v vs ih =>
    unfold writeVarints at h ih
    rw [mapM_cons] at h
    rcases hw : writeVarint v with e | w <;> rw [hw] at h
    · cases h
    rcases hm : vs.mapM writeVarint with e | parts <;> rw [hm] at h ih
    · cases h
    cases h
    obtain ⟨body, hbody, hvs⟩ := ih rfl
    obtain rfl := (cons.inj hbody).2
    exact ⟨_, rfl, w, _, hw, rfl, hvs⟩

theorem varint_bind (h : writeVarint v = .ok w) (f : ℕ → Reader α) (rest : Bytes) :
    (varint >>= f) (w ++ rest) = f v rest := by
  change (varint (w ++ rest) >>= fun p => f p.1 p.2) = _
  rw [varint, readVarint_writeVarint h]
  rfl

theorem octets_bind (e : FrameError) (data : Bytes) (f : Bytes → Reader α) (rest : Bytes) :
    (octets e data.length >>= f) (data ++ rest) = f data rest := by
  change (octets e data.length (data ++ rest) >>= fun p => f p.1 p.2) = _
  rw [octets, if_neg (by simp), take_left, drop_left]
  rfl

theorem pairs_bind {ranges : List (ℕ × ℕ)} (h : Varints (ranges.flatMap fun r => [r.1, r.2]) bytes)
    (f : List (ℕ × ℕ) → Reader α) (rest : Bytes) :
    (pairs ranges.length >>= f) (bytes ++ rest) = f ranges rest := by
  induction ranges generalizing bytes f with
  | nil =>
    cases h
    rfl
  | cons r ranges ih =>
    obtain ⟨w1, b1, h1, rfl, w2, b2, h2, rfl, h⟩ := h
    simp only [length_cons, pairs, bind_assoc, append_assoc]
    rw [varint_bind h1, varint_bind h2]
    exact ih h fun rs => f (r :: rs)

theorem bind_two (h : writeVarints t [u, v] = .ok bytes) : ∃ body, bytes = t :: body ∧
    ∀ (f : ℕ → ℕ → Reader α) rest,
      (varint >>= fun a => varint >>= f a) (body ++ rest) = f u v rest := by
  obtain ⟨_, rfl, w1, _, h1, rfl, w2, _, h2, rfl, rfl⟩ := varints_of_write h
  refine ⟨_, rfl, fun f rest => ?_⟩
  rw [append_nil, append_assoc, varint_bind h1, varint_bind h2]

theorem bind_three (h : writeVarints t [u, v, x] = .ok bytes) : ∃ body, bytes = t :: body ∧
    ∀ (f : ℕ → ℕ → ℕ → Reader α) rest,
      (varint >>= fun a => varint >>= fun b => varint >>= f a b) (body ++ rest) = f u v x rest := by
  obtain ⟨_, rfl, w1, _, h1, rfl, w2, _, h2, rfl, w3, _, h3, rfl, rfl⟩ := varints_of_write h
  refine ⟨_, rfl, fun f rest => ?_⟩
  rw [append_nil, append_assoc, append_assoc, varint_bind h1, varint_bind h2, varint_bind h3]

end

theorem ok_of_bind {header : Except FrameError Bytes} {data bytes : Bytes}
    (h : (do let w ← header; pure (w ++ data)) = (Except.ok bytes : Except FrameError Bytes)) :
    ∃ w, header = .ok w ∧ bytes = w ++ data := by
  cases header with
  | error e => cases h
  | ok w =>
    cases h
    exact ⟨w, rfl, rfl⟩

/-- What a written frame is read as. -/
def TxFrame.received : TxFrame → Frame
  | .ack largest delay first ranges => .ack largest delay first ranges none
  | .handshakeDone => .handshakeDone
  | .ping => .ping
  | .pathResponse _ => .skipped 0x1b
  | .stopSending sid code => .stopSending sid code
  | .resetStream sid code finalSize => .resetStream sid code finalSize
  | .maxStreamsBidi _ => .skipped 0x12
  | .maxStreamsUni _ => .skipped 0x13
  | .maxData n => .maxData n
  | .maxStreamData sid n => .maxStreamData sid n
  | .crypto offset data => .crypto offset data
  | .stream sid offset fin data => .stream sid offset data fin
  | .closeTransport code frameType reason => .connectionCloseTransport code frameType reason

/-- A PATH_RESPONSE has eight octets. -/
def TxFrame.Sized : TxFrame → Prop
  | .pathResponse data => data.length = 8
  | _ => True

theorem parseFrame_write {f : TxFrame} {bytes : Bytes} (hf : f.Sized) (h : f.write = .ok bytes)
    (rest : Bytes) : parseFrame (bytes ++ rest) = .ok (f.received, rest) := by
  cases f with
  | handshakeDone | ping =>
    cases h
    rfl
  | pathResponse data =>
    cases h
    have := octets_bind .truncated data (fun _ => (pure (.skipped 0x1b) : Reader Frame)) rest
    rw [hf] at this
    exact this
  | maxStreamsBidi _ | maxStreamsUni _ | maxData _ =>
    obtain ⟨_, rfl, w, _, hw, rfl, rfl⟩ := varints_of_write h
    rw [append_nil]
    exact varint_bind hw _ _
  | stopSending _ _ | maxStreamData _ _ =>
    obtain ⟨_, rfl, hread⟩ := bind_two h
    exact hread _ _
  | resetStream sid code finalSize =>
    obtain ⟨_, rfl, hread⟩ := bind_three h
    exact hread _ _
  | ack largest delay first ranges =>
    obtain ⟨_, rfl, w1, _, h1, rfl, w2, _, h2, rfl, w3, _, h3, rfl, w4, _, h4, rfl, hr⟩ :=
      varints_of_write h
    rw [cons_append, append_assoc, append_assoc, append_assoc, append_assoc]
    exact (((varint_bind h1 _ _).trans (varint_bind h2 _ _)).trans
      ((varint_bind h3 _ _).trans (varint_bind h4 _ _))).trans (pairs_bind hr _ _)
  | crypto offset data =>
    obtain ⟨header, hw, rfl⟩ := ok_of_bind h
    obtain ⟨_, rfl, hread⟩ := bind_two hw
    rw [append_assoc]
    exact (hread _ _).trans (octets_bind _ _ _ _)
  | closeTransport code frameType reason =>
    obtain ⟨header, hw, rfl⟩ := ok_of_bind h
    obtain ⟨_, rfl, hread⟩ := bind_three hw
    rw [append_assoc]
    exact (hread _ _).trans (octets_bind _ _ _ _)
  | stream sid offset fin data =>
    obtain ⟨header, hw, rfl⟩ := ok_of_bind h
    obtain ⟨body, rfl, hread⟩ := bind_three hw
    have hstream : (varint >>= fun i => varint >>= fun o => (varint >>= octets .truncated) >>= fun d =>
        pure (Frame.stream i o d fin)) (body ++ (data ++ rest)) =
        .ok (.stream sid offset data fin, rest) := by
      simp only [bind_assoc]
      exact (hread _ _).trans (octets_bind _ _ _ _)
    rw [append_assoc]
    cases fin <;> exact hstream

/-! ### Dispatching what was written -/

/-- The octets of the frames, one behind the other. -/
def Written (fs : List TxFrame) (bytes : Bytes) : Prop :=
  ∃ parts : List Bytes, bytes = parts.flatten ∧ fs.map TxFrame.write = parts.map .ok ∧
    ∀ f ∈ fs, f.Sized

namespace Conn

variable {κ τ : Type} [CongestionControl κ] [Tls τ] (now : ℕ) (level : CryptoLevel)

/-- The frames in turn, up to one that ends the dispatch. -/
def dispatchEach : List Frame → Conn κ τ → Conn κ τ
  | [], c => c
  | f :: fs, c =>
    match c.dispatchFrame now level f with
    | (c, false) => c
    | (c, true) => dispatchEach fs c

variable {now level} {c : Conn κ τ} {fuel : ℕ}

theorem dispatchLoop_of_parse {payload rest : Bytes} {f : Frame}
    (h : parseFrame payload = .ok (f, rest)) :
    dispatchLoop now level (fuel + 1) payload c =
      match c.dispatchFrame now level f with
      | (c, false) => (c, .ok ())
      | (c, true) => dispatchLoop now level fuel rest c := by
  cases payload with
  | nil => cases h
  | cons a payload =>
    rcases hframe : c.dispatchFrame now level f with ⟨c', _ | _⟩
    · simp only [dispatchLoop, h, hframe]
    · simp only [dispatchLoop, h, hframe]

theorem dispatchLoop_padding (j : ℕ) :
    ∀ fuel, dispatchLoop now level fuel (replicate j 0) c = (c, .ok ()) := by
  induction j with
  | zero => rintro (_ | _) <;> rfl
  | succ j ih =>
    rintro (_ | fuel)
    · rfl
    · exact (dispatchLoop_of_parse (f := .padding) rfl).trans (ih fuel)

theorem dispatchLoop_written {fs : List TxFrame} {bytes : Bytes} (h : Written fs bytes) (j : ℕ)
    (hfuel : (bytes ++ replicate j 0).length ≤ fuel) :
    dispatchLoop now level fuel (bytes ++ replicate j 0) c =
      (dispatchEach now level (fs.map TxFrame.received) c, .ok ()) := by
  obtain ⟨parts, rfl, hparts, hsized⟩ := h
  induction fs generalizing parts fuel c with
  | nil =>
    obtain rfl := map_eq_nil_iff.mp hparts.symm
    exact dispatchLoop_padding j fuel
  | cons f fs ih =>
    obtain ⟨w, parts, rfl, hw, hparts⟩ := map_eq_cons_iff.mp hparts.symm
    have hparse := parseFrame_write (hsized f mem_cons_self) hw.symm
      (parts.flatten ++ replicate j 0)
    rw [← append_assoc] at hparse
    have hlt := (parseFrame_consumes hparse).trans_le hfuel
    obtain ⟨fuel, rfl⟩ := Nat.exists_eq_add_one_of_ne_zero (Nat.ne_zero_of_lt hlt)
    rw [flatten_cons, dispatchLoop_of_parse hparse, map_cons, dispatchEach]
    split
    · rfl
    · exact ih parts (Nat.lt_succ_iff.mp ((Nat.le_add_left _ _).trans_lt hlt)) hparts.symm
        fun g hg => hsized g (mem_cons_of_mem f hg)

end Conn

/-! ### The frames of a packet under construction -/

def Body.Coherent (b : Body) : Prop := Written b.frames b.bytes

theorem Body.Coherent.push {b b' : Body} {f : TxFrame} (hb : b.Coherent)
    (h : b.push f = .ok b') (hf : f.Sized) : b'.Coherent := by
  obtain ⟨parts, hbytes, hparts, hsized⟩ := hb
  unfold Body.push at h
  split at h
  · cases h
  next w hw =>
    cases h
    refine ⟨parts ++ [w], by simp [hbytes], by simp [hparts, hw], fun g hg => ?_⟩
    rcases mem_append.mp hg with hg | hg
    · exact hsized g hg
    · rw [mem_singleton.mp hg]
      exact hf

/-- A body is coherent if there is one. -/
def Outcome.Coherent {σ : Type} (x : Outcome σ Body) : Prop := ∀ b, x.2 = .ok b → b.Coherent

section

variable {σ : Type} {b : Body}

theorem Outcome.Coherent.andThen {x : Outcome σ Body} {g : σ → Body → Outcome σ Body}
    (hx : x.Coherent) (hg : ∀ s b, b.Coherent → (g s b).Coherent) : (x.andThen g).Coherent := by
  obtain ⟨s, e | b⟩ := x
  · exact nofun
  · exact hg s b (hx b rfl)

theorem Body.Coherent.ok (hb : b.Coherent) (s : σ) : Outcome.Coherent (s, .ok b) := by
  rintro b' ⟨⟩
  exact hb

theorem Body.Coherent.pushed (hb : b.Coherent) {f : TxFrame} (hf : f.Sized) (s s' : σ) :
    Outcome.Coherent (match b.push f with
      | .error e => (s, .error e)
      | .ok b => (s', .ok b)) := by
  cases hpush : b.push f with
  | error e => exact nofun
  | ok b' => exact (hb.push hpush hf).ok s'

namespace RecvSide

variable (r : RecvSide) (headerLen : ℕ)

theorem coherent_replenish (hb : b.Coherent) (opened advertised : ℕ) (force : Bool)
    {frame : ℕ → TxFrame} (hf : ∀ n, (frame n).Sized) :
    Outcome.Coherent (replenish opened advertised force frame b) := by
  simp only [replenish]
  split_ifs
  all_goals first
    | exact hb.pushed (hf _) _ _
    | exact hb.ok _

theorem coherent_appendMaxStreamData (hb : b.Coherent) :
    (r.appendMaxStreamData headerLen b).Coherent := by
  have hall := (SortedMap.mapAccum_rec (m := r.recvStreams)
    (f := sweepStream r.forceMaxStreamData headerLen) (s := .ok (b, true))
    (I := fun acc => ∀ b x, acc = .ok (b, x) → b.Coherent) (R := fun _ _ _ => True)
    (fun acc sid s _ hacc => ⟨?_, trivial⟩) (fun b' x h => by cases h; exact hb)).1
  · intro b' hb'
    simp only [appendMaxStreamData] at hb'
    split at hb'
    · cases hb'
    · cases hb'
      exact hall _ _ ‹_›
  · intro b' x h
    rcases acc with e | ⟨b, _ | _⟩
    · cases h
    · exact hacc b' x h
    · simp only [sweepStream] at h
      split_ifs at h
      all_goals first
        | cases h
          exact hacc _ _ rfl
        | split at h
          · cases h
          next hpush =>
            cases h
            exact (hacc _ _ rfl).push hpush trivial

theorem coherent_appendCredit (hb : b.Coherent) : (r.appendCredit headerLen b).Coherent := by
  refine ((Outcome.Coherent.andThen (x := r.appendMaxStreamsBidi b) ?_ fun r b hb => ?_).andThen
    fun r b hb => ?_).andThen fun r _ => coherent_appendMaxStreamData r headerLen
  · exact coherent_replenish hb _ _ _ fun _ => (trivial : (TxFrame.maxStreamsBidi _).Sized)
  · exact coherent_replenish hb _ _ _ fun _ => (trivial : (TxFrame.maxStreamsUni _).Sized)
  · unfold appendMaxData
    extract_lets slid r'
    split_ifs
    · exact hb.pushed (f := .maxData _) trivial _ _
    · exact hb.ok _

end RecvSide

namespace SendSide

variable {headerLen : ℕ}

theorem coherent_appendStopSending (q : List (ℕ × ℕ)) (s : SendSide) (hb : b.Coherent) :
    (appendStopSending headerLen q s b).Coherent := by
  induction q generalizing s b with
  | nil => exact hb.ok _
  | cons e q ih =>
    unfold appendStopSending
    split_ifs
    · split
      · exact nofun
      next hpush =>
        exact ih _ (hb.push hpush trivial)
    · exact hb.ok _

theorem coherent_appendResetStreams (q : List (ℕ × ℕ × ℕ)) (s : SendSide) (hb : b.Coherent) :
    (appendResetStreams headerLen q s b).Coherent := by
  induction q generalizing s b with
  | nil => exact hb.ok _
  | cons e q ih =>
    unfold appendResetStreams
    split_ifs
    · split
      · exact nofun
      next hpush =>
        exact ih _ (hb.push hpush trivial)
    · exact hb.ok _

theorem coherent_appendRetx (inFlight : ℕ) (q : List StreamRetx) (s : SendSide) (run : DataRun)
    (hb : run.body.Coherent) :
    ∀ run', (appendRetx inFlight q s run).2 = .ok run' → run'.body.Coherent := by
  induction q generalizing s run with
  | nil =>
    rintro run' ⟨⟩
    exact hb
  | cons f q ih =>
    unfold appendRetx
    simp only
    split_ifs
    · rintro run' ⟨⟩
      exact hb
    · split
      · exact nofun
      next hpush =>
        exact ih _ _ (hb.push hpush trivial)

theorem coherent_freshStream (fuel sid : ℕ) (s : SendStream) (run : FreshRun)
    (hb : run.body.Coherent) :
    ∀ run', (freshStream fuel sid s run).2 = .ok run' → run'.body.Coherent := by
  induction fuel generalizing s run with
  | zero =>
    rintro run' ⟨⟩
    exact hb
  | succ fuel ih =>
    unfold freshStream
    cases run.maxChunk s with
    | none =>
      rintro run' ⟨⟩
      exact hb
    | some mc =>
      dsimp only
      obtain ⟨s, _ | ⟨offset, data, fin⟩⟩ := s.popChunk mc
      · rintro run' ⟨⟩
        exact hb
      · dsimp only
        cases hpush : run.body.push (.stream sid offset fin data) with
        | error e => rintro run' ⟨⟩
        | ok body =>
          have hbody : body.Coherent := hb.push hpush trivial
          exact ih _ _ hbody

theorem coherent_appendData (window inFlight : ℕ) (s : SendSide) (hb : b.Coherent) :
    (appendData window inFlight s b).Coherent := by
  have hretx := coherent_appendRetx inFlight s.retxQueue s ⟨b, window - inFlight, []⟩ hb
  unfold appendData
  generalize appendRetx inFlight s.retxQueue s _ = x at hretx
  obtain ⟨s, e | run⟩ := x
  · exact nofun
  · intro b' hb'
    have hall := (SortedMap.mapAccum_rec (m := s.sendStreams) (f := freshStep)
      (s := .ok { body := run.body
                  ccBudget := min run.wireBudget (window - (inFlight + s.retxBytes))
                  connFcBudget := s.peerMaxData - s.dataSent
                  pktFrames := run.pktFrames })
      (I := fun acc => ∀ run, acc = .ok run → run.body.Coherent) (R := fun _ _ _ => True)
      (fun acc sid t _ hacc => ⟨?_, trivial⟩) (by rintro _ ⟨⟩; exact hretx run rfl)).1
    · simp only [Outcome.andThen, appendFresh] at hb'
      split at hb'
      · cases hb'
      · cases hb'
        exact hall _ ‹_›
    · rcases acc with e | run
      · exact nofun
      · exact coherent_freshStream (packetBodyBudget + 1) sid t run (hacc run rfl)

end SendSide

end

namespace Conn

variable {κ τ : Type} (now : ℕ) (c : Conn κ τ)

theorem coherent_appendAck : (c.appendAck now {}).2.Coherent := by
  have hempty : Body.Coherent {} := ⟨[], rfl, rfl, nofun⟩
  unfold appendAck appendAckFrame
  split_ifs
  · dsimp only
    split
    · exact hempty
    next largest firstRange additional _ =>
      cases hpush : Body.push {} (.ack largest 0 firstRange additional) with
      | error e => exact hempty
      | ok b' => exact hempty.push hpush trivial
  · exact hempty

theorem appendAck_misc : (c.appendAck now {}).1.rest.misc = c.rest.misc := by
  unfold appendAck
  split_ifs <;> rfl

variable {c} in
theorem coherent_appendPathResponse {b : Body} (hb : b.Coherent)
    (hpath : ∀ data ∈ c.rest.misc.pendingPathResponse, data.length = 8) :
    (c.appendPathResponse b).Coherent := by
  unfold appendPathResponse
  split
  · exact hb.ok _
  next data hdata =>
    exact fun b' h => hb.push (f := .pathResponse data) h (hpath data hdata)

variable [CongestionControl κ] [Tls τ]

/-- **The octets of a 1-RTT packet are those of its frames.** -/
theorem coherent_appendFrames
    (hpath : ∀ data ∈ c.rest.misc.pendingPathResponse, data.length = 8) :
    (c.appendFrames now).Coherent := by
  have hb := c.coherent_appendAck now
  rw [← appendAck_misc now c] at hpath
  unfold appendFrames oneRttBody
  generalize c.appendAck now {} = x at hb hpath
  obtain ⟨c, b⟩ := x
  have hdone : Outcome.Coherent ((c.appendHandshakeDone b).andThen appendPathResponse) := by
    unfold appendHandshakeDone
    split_ifs
    · exact coherent_appendPathResponse hb hpath
    · cases hpush : b.push .handshakeDone with
      | error e => exact nofun
      | ok b' => exact coherent_appendPathResponse (hb.push hpush trivial) hpath
  refine ((((hdone.andThen fun c b hb => ?_).andThen fun c b hb => ?_).andThen
    fun c b hb => ?_).andThen fun c b hb => ?_).andThen fun c b hb => hb.ok _
  · exact (SendSide.coherent_appendStopSending _ _ hb).andThen
      fun s _ => SendSide.coherent_appendResetStreams _ s
  · exact RecvSide.coherent_appendCredit _ _ hb
  · unfold appendCrypto
    dsimp only
    split_ifs
    all_goals first
      | exact hb.pushed (f := .crypto _ _) trivial _ _
      | exact hb.ok _
  · exact SendSide.coherent_appendData _ _ _ hb

end Conn

/-! ### From one end to the other -/

theorem readPn_pnBytes (pn : UInt64) : (readPn (pnBytes pn 4)).toNat = pn.toNat % 2 ^ (8 * 4) := by
  rw [readPn_toNat _ (by simp)]
  simp [pnBytes, beBytes64, Nat.shiftRight_eq_div_pow]
  omega

theorem firstOctet_fields {phase : UInt8} (h : phase = 0 ∨ phase = 1) :
    let first := SendPath.firstOctet phase (.oneRtt none)
    first &&& headerFormLong = 0 ∧ keyPhaseOf first = phase ∧ 4 = pnLength first := by
  rcases h with rfl | rfl <;> decide

theorem openShortHeader_own {σ : Type} (P : Primitives) {c : Connection σ} {k : DirKeys}
    (hk : c.keys.applicationRecv = some k) {pkt : PeerPacket}
    (hg : pkt.Genuine c c.keys.recvKeyPhase) :
    openShortHeader P c (pkt.bytes P k) = (c.keys, .ok (pkt.pn, pkt.payload)) := by
  rw [openShortHeader_bytes P hk rfl hg]
  simp [trialOpen, aeadOpen_sealed]

namespace Conn

variable {κ τ κ' τ' : Type} [CongestionControl κ] [Tls τ] [CongestionControl κ'] [Tls τ']
  (now : ℕ) (P : Primitives)

/-- The callees of `process_short_header_packet`. -/
def recvHooks : Hooks (Transport κ τ) where
  dispatchFrames c := dispatchFrames c now .oneRtt
  discardHandshakeSent := discardSentPackets .handshake

/-- Packet `pn` of `total` octets with these frames has been processed. -/
def afterPacket (c : Conn κ τ) (fs : List Frame) (pn : UInt64) (total : ℕ) :
    Conn κ τ × Except ConnError ℕ :=
  let c := dispatchEach now .oneRtt fs { c with authenticatedPkts := c.authenticatedPkts + 1 }
  let c := c.discardHandshake (recvHooks now)
  ({ c with applicationSpace := c.applicationSpace.recordRecvPn pn }.noteAppAckEliciting, .ok total)

/-- **A 1-RTT packet arrives frame by frame** as the sender chose them. -/
theorem packet_delivered {c : Conn κ τ} {k : DirKeys} (hk : c.keys.applicationSend = some k)
    (hcid : c.peerCid.length = serverCidLen)
    (hbit : c.keys.sendKeyPhase = 0 ∨ c.keys.sendKeyPhase = 1)
    (hpath : ∀ data ∈ c.rest.misc.pendingPathResponse, data.length = 8) {pn : UInt64}
    (hpn : c.applicationSpace.nextSendPn = pn) (hlt : pn.toNat < 2 ^ 62) {padToWire : Option ℕ}
    (out : Bytes) {bytes : Bytes} (hne : bytes ≠ [])
    (hsent : (c.encodeOneRtt now P padToWire out).2 = .ok (out ++ bytes))
    {d : Conn κ' τ'} (hd : d.keys.applicationRecv = some k)
    (hphase : d.keys.recvKeyPhase = c.keys.sendKeyPhase) {e : ℕ}
    (he : (d.applicationSpace.largestRecvPn.getD (0 - 1) + 1).toNat = e)
    (habove : e < pn.toNat + 2 ^ 31) (hbelow : pn.toNat ≤ e + 2 ^ 31) :
    ∃ body, (c.appendFrames now).2 = .ok body ∧ ∀ t,
      processShortHeaderPacket (recvHooks t) P d bytes =
        d.afterPacket t (body.frames.map TxFrame.received) pn bytes.length := by
  obtain ⟨hform, hbit, hlen⟩ := firstOctet_fields hbit
  have hcoh := coherent_appendFrames now c hpath
  have hbuilt := sat_appendFrames c now
  simp only [encodeOneRtt, encodeOneRttPacketPadded, hk, sendHooks] at hsent
  generalize c.appendFrames now = x at hcoh hbuilt hsent
  obtain ⟨c₁, e | body⟩ := x
  · cases hsent
  obtain ⟨_, _, hb⟩ := hbuilt.ok body rfl
  have hnext : c₁.applicationSpace.nextSendPn = pn :=
    (congrArg (fun x => (x.2.2 .oneRtt).1) hb.fixed).trans hpn
  obtain ⟨j, hj⟩ := shortPacket_eq P k (SendPath.firstOctet c.keys.sendKeyPhase (.oneRtt none))
    c.peerCid pn body.bytes padToWire out
  have hbytes : bytes = PeerPacket.bytes P k ⟨SendPath.firstOctet c.keys.sendKeyPhase (.oneRtt none),
      c.peerCid, 4, pn, body.bytes ++ replicate j 0⟩ := by
    cases hbody : body.bytes with
    | nil => simp [Except.map, hbody, hne] at hsent
    | cons b bs =>
      simp only [Except.map, hbody, Connection.takePn, hnext] at hsent
      rw [hbody, SendPath.firstOctet] at hj
      rw [hj] at hsent
      exact (append_cancel_left (Except.ok.inj hsent)).symm
  refine ⟨body, rfl, fun t => ?_⟩
  have hopen : openShortHeader P d bytes = (d.keys, .ok (pn, body.bytes ++ replicate j 0)) := by
    rw [hbytes]
    refine openShortHeader_own P hd
      ⟨hform, hbit.trans hphase.symm, hcid, hlen, Nat.le_add_right _ _, ?_⟩
    simp only [Connection.largestFor, hform]
    exact decode_of_near (by decide) le_rfl he (readPn_pnBytes _) hlt habove hbelow
  rw [opensTo_of_open hopen]
  simp only [Connection.acceptPacket, recvHooks, dispatchFrames,
    dispatchLoop_written (hcoh body rfl) j le_rfl]
  rfl

end Conn

def sampleSender : Conn Waitless.Tcp.ConstantWindow QuietTls := sampleConn.streamSend 1 [1, 2, 3]

def samplePeer : Conn Waitless.Tcp.ConstantWindow QuietTls :=
  { sampleConn with keys := AppKeys.rotations samplePrimitives true sampleSecrets 0 }

/-- The first packet, with three octets of stream data. -/
theorem packet_delivered_first : ∃ bytes body,
    (sampleSender.encodeOneRtt 0 samplePrimitives none []).2 = .ok bytes ∧
    (sampleSender.appendFrames 0).2 = .ok body ∧
    processShortHeaderPacket (Conn.recvHooks 0) samplePrimitives samplePeer bytes =
      samplePeer.afterPacket 0 (body.frames.map TxFrame.received) 0 bytes.length := by
  obtain ⟨bytes, hsent, hne⟩ : ∃ bytes,
      (sampleSender.encodeOneRtt 0 samplePrimitives none []).2 = .ok bytes ∧ bytes ≠ [] :=
    ⟨(sampleSender.encodeOneRtt 0 samplePrimitives none []).2.toOption.getD [], by decide +kernel⟩
  obtain ⟨body, hbody, harrived⟩ := Conn.packet_delivered 0 samplePrimitives (c := sampleSender)
    (d := samplePeer) rfl rfl (.inl rfl) nofun rfl (by decide) [] hne hsent rfl rfl rfl (by decide)
    (by decide)
  exact ⟨bytes, body, hsent, hbody, harrived 0⟩

end Waitless.Quic
