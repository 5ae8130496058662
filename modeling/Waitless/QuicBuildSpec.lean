import Waitless.QuicBuild

/-! # What building a 1-RTT packet does

`Outcome.Sat` says of a step what holds whatever the result and what a success adds to it, and
`Outcome.Sat.andThen` puts the steps together.

`sat_appendFrames` describes a whole build, and `Built` what a successful one put into the packet.
-/

namespace Waitless.Quic

open Waitless.AesGcm Body Outcome TxFrame List
open Waitless.Tcp (CongestionControl)

namespace Outcome

variable {σ α β : Type} {s : σ} {E E' : σ → Prop} {Q Q' : σ → α → Prop} {T : σ → β → Prop}
  {x : Outcome σ α}

/-- A failure leaves a state with `E`, a success one with `Q`. -/
structure Sat (x : Outcome σ α) (E : σ → Prop) (Q : σ → α → Prop) : Prop where
  error : ∀ e, x.2 = .error e → E x.1
  ok : ∀ a, x.2 = .ok a → Q x.1 a

theorem sat_ok {a : α} (h : Q s a) : Sat (s, .ok a) E Q := ⟨nofun, fun _ ha => Except.ok.inj ha ▸ h⟩

theorem sat_error {e : ConnError} (h : E s) : Sat (s, .error e) E Q := ⟨fun _ _ => h, nofun⟩

theorem Sat.mono (h : x.Sat E Q) (hE : ∀ s, E s → E' s) (hQ : ∀ s a, Q s a → Q' s a) : x.Sat E' Q' :=
  ⟨fun e he => hE _ (h.error e he), fun a ha => hQ _ a (h.ok a ha)⟩

theorem Sat.andThen {f : σ → α → Outcome σ β} (h : x.Sat E Q) (hf : ∀ s a, Q s a → (f s a).Sat E T) :
    (x.andThen f).Sat E T := by
  obtain ⟨s, e | a⟩ := x
  · exact sat_error (h.error e rfl)
  · exact hf s a (h.ok a rfl)

/-- What failure and success share. -/
theorem Sat.always (h : x.Sat E Q) {R : σ → Prop} (hE : ∀ s, E s → R s) (hQ : ∀ s a, Q s a → R s) :
    R x.1 := by
  obtain ⟨s, e | a⟩ := x
  · exact hE s (h.error e rfl)
  · exact hQ s a (h.ok a rfl)

end Outcome

/-! ### The octets of frames -/

def TxFrame.maxSize : TxFrame → ℕ
  | .ack _ _ _ ranges => 1 + 8 * (4 + 2 * ranges.length)
  | .handshakeDone => 1
  | .ping => 1
  | .pathResponse data => 1 + data.length
  | .stopSending _ _ => 17
  | .resetStream _ _ _ => 25
  | .maxStreamsBidi _ => 9
  | .maxStreamsUni _ => 9
  | .maxData _ => 9
  | .maxStreamData _ _ => 17
  | .crypto _ data => 17 + data.length
  | .stream _ _ _ data => 25 + data.length
  | .closeTransport _ _ reason => 25 + reason.length

variable {bytes : Bytes}

theorem length_writeVarint_le {v : ℕ} (h : writeVarint v = .ok bytes) :
    bytes.length ≤ 8 := by
  have hform : (varintForm v).1 ≤ 8 := by
    unfold varintForm
    split_ifs <;> decide
  unfold writeVarint at h
  split_ifs at h
  dsimp only at h
  have hlen : (beOctets (varintForm v).1 v).length = (varintForm v).1 := by simp [beOctets]
  split at h
  · cases h
    exact Nat.zero_le _
  next b bs heq =>
    cases h
    rw [heq] at hlen
    exact hlen.trans_le hform

theorem length_writeVarints_le {t : UInt8} {values : List ℕ}
    (h : writeVarints t values = .ok bytes) : bytes.length ≤ 1 + 8 * values.length := by
  have hparts : ∀ {values : List ℕ} {parts : List Bytes}, values.mapM writeVarint = .ok parts →
      parts.flatten.length ≤ 8 * values.length := by
    intro values
    induction values with
    | nil =>
      intro parts h
      cases h
      exact le_rfl
    | cons v values ih =>
      intro parts h
      rw [mapM_cons] at h
      cases hv : writeVarint v with
      | error e => rw [hv] at h; cases h
      | ok bytes =>
        cases hvs : values.mapM writeVarint with
        | error e => rw [hv, hvs] at h; cases h
        | ok rest =>
          rw [hv, hvs] at h
          cases h
          have := length_writeVarint_le hv
          have := ih hvs
          simp only [flatten_cons, length_append, length_cons]
          omega
  unfold writeVarints at h
  cases hp : values.mapM writeVarint with
  | error e => rw [hp] at h; cases h
  | ok parts =>
    rw [hp] at h
    cases h
    have := hparts hp
    rw [length_cons]
    omega

theorem TxFrame.length_write_le {f : TxFrame} (h : f.write = .ok bytes) :
    bytes.length ≤ f.maxSize := by
  have hdata : ∀ {t : UInt8} {values : List ℕ} {data : Bytes},
      ((do let header ← writeVarints t values; pure (header ++ data)) : Except FrameError Bytes) =
        .ok bytes → bytes.length ≤ 1 + 8 * values.length + data.length := by
    intro t values data h
    cases hh : writeVarints t values with
    | error e => rw [hh] at h; cases h
    | ok header =>
      rw [hh] at h
      cases h
      rw [length_append]
      exact Nat.add_le_add_right (length_writeVarints_le hh) _
  cases f with
  | ack largest delay first ranges =>
    have hlen := length_writeVarints_le h
    simp only [length_cons, length_flatMap, length_nil, map_const',
      sum_replicate, smul_eq_mul] at hlen
    rw [maxSize]
    omega
  | handshakeDone => cases h; exact le_rfl
  | ping => cases h; exact le_rfl
  | pathResponse data =>
    cases h
    rw [length_cons, maxSize]
    omega
  | crypto offset data => exact hdata h
  | stream sid offset fin data => exact hdata h
  | closeTransport code frameType reason => exact hdata h
  | _ => exact length_writeVarints_le h

def dataLength (fs : List StreamRetx) : ℕ := (fs.map fun f => f.data.length).sum

@[simp] theorem dataLength_cons (f : StreamRetx) (fs : List StreamRetx) :
    dataLength (f :: fs) = f.data.length + dataLength fs := by simp [dataLength]

@[simp] theorem dataLength_append (fs gs : List StreamRetx) :
    dataLength (fs ++ gs) = dataLength fs + dataLength gs := by simp [dataLength]

def TxFrame.isCredit : TxFrame → Bool
  | .maxStreamsBidi _ => true
  | .maxStreamsUni _ => true
  | .maxData _ => true
  | .maxStreamData _ _ => true
  | _ => false

/-- Neither credit nor stream data. -/
def TxFrame.isPlain : TxFrame → Bool
  | .stream _ _ _ _ => false
  | f => !f.isCredit

namespace Body

variable {b b₁ b₂ b' : Body} {f : TxFrame} {p q : TxFrame → Prop}

structure Pushed (b : Body) (f : TxFrame) (b' : Body) : Prop where
  frames : b'.frames = b.frames ++ [f]
  handed : b'.handed = b.handed
  length : b'.bytes.length ≤ b.bytes.length + f.maxSize

theorem pushed_of_push (h : b.push f = .ok b') : Pushed b f b' := by
  unfold push at h
  split at h
  · cases h
  next bytes hw =>
    cases h
    refine ⟨rfl, rfl, ?_⟩
    rw [length_append]
    exact Nat.add_le_add_left (length_write_le hw) _

/-- Further frames of kind `p`, none with fresh data. -/
structure Adds (p : TxFrame → Prop) (b b' : Body) : Prop where
  frames : ∀ f ∈ b'.frames, f ∈ b.frames ∨ p f
  handed : b'.handed = b.handed

theorem Adds.refl (b : Body) : Adds p b b := ⟨fun _ hf => .inl hf, rfl⟩

theorem Adds.trans (h₁ : Adds p b₁ b₂) (h₂ : Adds p b₂ b') : Adds p b₁ b' :=
  ⟨fun f hf => (h₂.frames f hf).elim (h₁.frames f) .inr, h₂.handed.trans h₁.handed⟩

theorem Adds.mono (h : Adds p b b') (hpq : ∀ f, p f → q f) : Adds q b b' :=
  ⟨fun f hf => (h.frames f hf).imp_right (hpq f), h.handed⟩

theorem Pushed.adds (h : Pushed b f b') (hf : p f) : Adds p b b' := by
  refine ⟨fun g hg => ?_, h.handed⟩
  rw [h.frames, mem_append, mem_singleton] at hg
  rcases hg with hg | rfl
  · exact .inl hg
  · exact .inr hf

end Body

/-! ### The receive side -/

namespace RecvSide

/-- The limits fit a frame. -/
structure Limited (r : RecvSide) : Prop where
  maxData : r.maxDataAdvertised ≤ maxVarint
  recvMax : ∀ sid s, r.recvStreams.get? sid = some s → s.recvMax ≤ maxVarint

structure StreamRaised (s s' : RecvStream) : Prop where
  eq : s' = { s with recvMax := s'.recvMax }
  le : s.recvMax ≤ s'.recvMax

structure Raised (r r' : RecvSide) : Prop where
  limited : r'.Limited
  streams : r.recvStreams.Related (fun _ => StreamRaised) r'.recvStreams
  openedStreams : r'.openedStreams = r.openedStreams
  reapedStreams : r'.reapedStreams = r.reapedStreams
  reapedIdx : r'.reapedIdx = r.reapedIdx
  dataConsumed : r'.dataConsumed = r.dataConsumed
  dataReceived : r'.dataReceived = r.dataReceived
  recvBuffered : r'.recvBuffered = r.recvBuffered
  maxData : r.maxDataAdvertised ≤ r'.maxDataAdvertised

theorem StreamRaised.refl (s : RecvStream) : StreamRaised s s := ⟨rfl, le_rfl⟩

theorem StreamRaised.trans {s₁ s₂ s₃ : RecvStream} (h₁ : StreamRaised s₁ s₂)
    (h₂ : StreamRaised s₂ s₃) : StreamRaised s₁ s₃ :=
  ⟨by rw [h₂.eq, h₁.eq], h₁.le.trans h₂.le⟩

theorem Raised.refl {r : RecvSide} (h : r.Limited) : Raised r r :=
  ⟨h, .refl (fun _ => .refl) _, rfl, rfl, rfl, rfl, rfl, rfl, le_rfl⟩

theorem Raised.trans {r₁ r₂ r₃ : RecvSide} (h₁ : Raised r₁ r₂) (h₂ : Raised r₂ r₃) : Raised r₁ r₃ :=
  ⟨h₂.limited, h₁.streams.trans h₂.streams fun _ _ _ _ => .trans,
    h₂.openedStreams.trans h₁.openedStreams, h₂.reapedStreams.trans h₁.reapedStreams,
    h₂.reapedIdx.trans h₁.reapedIdx, h₂.dataConsumed.trans h₁.dataConsumed,
    h₂.dataReceived.trans h₁.dataReceived, h₂.recvBuffered.trans h₁.recvBuffered,
    h₁.maxData.trans h₂.maxData⟩

/-- The limits cover the credit of a frame. -/
def Told (r : RecvSide) : TxFrame → Prop
  | .maxData v => v ≤ r.maxDataAdvertised
  | .maxStreamData sid v => ∃ s, r.recvStreams.get? sid = some s ∧ v ≤ s.recvMax
  | _ => True

/-- Limits were raised, and frames say so. -/
structure Granted (r : RecvSide) (b : Body) (r' : RecvSide) (b' : Body) : Prop where
  raised : r.Limited → Raised r r'
  adds : b.Adds (fun f => f.isCredit) b'
  told : r.Limited → (∀ f ∈ b.frames, r.Told f) → ∀ f ∈ b'.frames, r'.Told f

abbrev Raises (r r' : RecvSide) : Prop := r.Limited → Raised r r'

variable {r r' : RecvSide} {b b' : Body} {headerLen : ℕ}

theorem Raised.told (h : Raised r r') {f : TxFrame} (hf : r.Told f) : r'.Told f := by
  cases f with
  | maxData v => exact le_trans hf h.maxData
  | maxStreamData sid v =>
    obtain ⟨s, hs, hle⟩ := hf
    obtain ⟨s', hs', hraised⟩ := h.streams.to_some hs
    exact ⟨s', hs', hle.trans hraised.le⟩
  | _ => trivial

variable {b₁ : Body} {force : Bool} {r₁ : RecvSide}

theorem replenish_ok {opened advertised : ℕ} {frame : ℕ → TxFrame}
    (h : (replenish opened advertised force frame b).2 = .ok b') :
    b' = b ∨ ∃ n, b.Pushed (frame n) b' := by
  unfold replenish at h
  extract_lets refill limit at h
  split_ifs at h
  · split at h
    · cases h
    next b₁ hpush =>
      cases h
      exact .inr ⟨_, pushed_of_push hpush⟩
  · cases h
    exact .inl rfl

theorem Granted.refl (h : Raises r r') : Granted r b r' b :=
  ⟨h, .refl b, fun hr hb f hf => (h hr).told (hb f hf)⟩

theorem Granted.push {f : TxFrame} (h : Raises r r') (hpushed : b.Pushed f b') (hf : f.isCredit)
    (htold : r'.Told f) : Granted r b r' b' := by
  refine ⟨h, hpushed.adds hf, fun hr hb g hg => ?_⟩
  rw [hpushed.frames, mem_append, mem_singleton] at hg
  rcases hg with hg | rfl
  · exact (h hr).told (hb g hg)
  · exact htold

theorem Granted.trans (h₁ : Granted r b r₁ b₁) (h₂ : Granted r₁ b₁ r' b') :
    Granted r b r' b' :=
  ⟨fun hr => (h₁.raised hr).trans (h₂.raised (h₁.raised hr).limited), h₁.adds.trans h₂.adds,
    fun hr hb => h₂.told (h₁.raised hr).limited (h₁.told hr hb)⟩

/-- With credit frames of `n` octets at most. -/
def GrantedIn (n : ℕ) (r : RecvSide) (b : Body) (r' : RecvSide) (b' : Body) : Prop :=
  Granted r b r' b' ∧ b'.bytes.length ≤ b.bytes.length + n

theorem Granted.raises (h : Granted r b r₁ b₁) (h' : Raises r₁ r') :
    Raises r r' := fun hr => (h.raised hr).trans (h' (h.raised hr).limited)

theorem GrantedIn.sat {m n : ℕ} {x : Outcome RecvSide Body}
    (h : GrantedIn m r b r₁ b₁) (hx : x.Sat (Raises r₁) (GrantedIn n r₁ b₁)) :
    x.Sat (Raises r) (GrantedIn (m + n) r b) := by
  refine hx.mono (fun _ => h.1.raises) fun r2 b₂ h2 => ⟨h.1.trans h2.1, ?_⟩
  have := h.2
  have := h2.2
  omega

theorem sat_of_replenish (frame : ℕ → TxFrame) {x : Outcome RecvSide Body} {opened advertised : ℕ} (hx : Raises r x.1) (heq : x.2 = (replenish opened advertised force frame b).2)
    (hcredit : ∀ n, (frame n).isCredit ∧ x.1.Told (frame n)) (hsize : ∀ n, (frame n).maxSize ≤ 9) :
    x.Sat (Raises r) (GrantedIn 9 r b) := by
  refine ⟨fun _ _ => hx, fun b' hb' => ?_⟩
  rcases replenish_ok (heq ▸ hb') with rfl | ⟨n, hpushed⟩
  · exact ⟨.refl hx, Nat.le_add_right _ _⟩
  · exact ⟨.push hx hpushed (hcredit n).1 (hcredit n).2,
      hpushed.length.trans (Nat.add_le_add_left (hsize n) _)⟩

theorem sat_appendMaxStreamsBidi (r : RecvSide) (b : Body) :
    (r.appendMaxStreamsBidi b).Sat (Raises r) (GrantedIn 9 r b) :=
  sat_of_replenish .maxStreamsBidi (fun h => ⟨⟨h.maxData, h.recvMax⟩, .refl (fun _ => .refl) _, rfl,
    rfl, rfl, rfl, rfl, rfl, le_rfl⟩) rfl (fun _ => ⟨rfl, trivial⟩) fun _ => le_rfl

theorem sat_appendMaxStreamsUni (r : RecvSide) (b : Body) :
    (r.appendMaxStreamsUni b).Sat (Raises r) (GrantedIn 9 r b) :=
  sat_of_replenish .maxStreamsUni (fun h => ⟨⟨h.maxData, h.recvMax⟩, .refl (fun _ => .refl) _, rfl,
    rfl, rfl, rfl, rfl, rfl, le_rfl⟩) rfl (fun _ => ⟨rfl, trivial⟩) fun _ => le_rfl

theorem le_slid (h : r.Limited) (hdue : r.maxDataDue = true) :
    r.maxDataAdvertised ≤ min (r.dataConsumed + initialMaxData) maxVarint := by
  have hmax := h.maxData
  simp only [maxDataDue, Bool.and_eq_true, decide_eq_true_eq] at hdue
  omega

theorem sat_appendMaxData (r : RecvSide) (b : Body) :
    (r.appendMaxData b).Sat (Raises r) (GrantedIn 9 r b) := by
  unfold RecvSide.appendMaxData
  extract_lets slid r₁
  have hr1 : ∀ force, Raises r { r₁ with forceMaxData := force } := by
    intro force h
    by_cases hdue : r.maxDataDue = true
    · rw [show r₁ = _ from if_pos hdue]
      exact ⟨⟨min_le_right _ _, h.recvMax⟩, .refl (fun _ => .refl) _, rfl, rfl, rfl, rfl, rfl, rfl,
        le_slid h hdue⟩
    · rw [show r₁ = r from if_neg hdue]
      exact ⟨⟨h.maxData, h.recvMax⟩, .refl (fun _ => .refl) _, rfl, rfl, rfl, rfl, rfl, rfl, le_rfl⟩
  split_ifs
  · split
    · exact sat_error (hr1 _)
    next b₁ hpush =>
      have hpushed := pushed_of_push hpush
      exact sat_ok ⟨.push (hr1 _) hpushed rfl le_rfl, hpushed.length⟩
  · exact sat_ok ⟨.refl (hr1 _), Nat.le_add_right _ _⟩

theorem sweepStream_spec (force : Bool) (headerLen : ℕ) (acc : Except ConnError (Body × Bool)) (sid : ℕ)
    (s : RecvStream) :
    let out := sweepStream force headerLen acc sid s
    (s.recvMax ≤ maxVarint → StreamRaised s out.2 ∧ out.2.recvMax ≤ maxVarint) ∧
      ∀ b' x, out.1 = .ok (b', x) → ∃ b x₀, acc = .ok (b, x₀) ∧ (b' = b ∨
        headerLen + b.bytes.length ≤ packetBodyBudget ∧
          b.Pushed (.maxStreamData sid out.2.recvMax) b') := by
  intro out
  rcases acc with e | ⟨b, _ | _⟩
  · exact ⟨fun h => ⟨.refl s, h⟩, nofun⟩
  · exact ⟨fun h => ⟨.refl s, h⟩, fun b' x hb' => ⟨b, false, rfl, by cases hb'; exact .inl rfl⟩⟩
  · simp only [out, sweepStream]
    split_ifs with hroom hclosed hdue hslides
    · exact ⟨fun h => ⟨.refl s, h⟩, fun b' x hb' => ⟨b, true, rfl, by cases hb'; exact .inl rfl⟩⟩
    · exact ⟨fun h => ⟨.refl s, h⟩, fun b' x hb' => ⟨b, true, rfl, by cases hb'; exact .inl rfl⟩⟩
    · have hle (h : s.recvMax ≤ maxVarint) :
          s.recvMax ≤ min (s.consumed + initialMaxStreamData) maxVarint := by
        simp only [streamDataDue, decide_eq_true_eq] at hslides
        omega
      split
      · exact ⟨fun h => ⟨⟨rfl, hle h⟩, min_le_right _ _⟩, nofun⟩
      next b₁ hpush =>
        exact ⟨fun h => ⟨⟨rfl, hle h⟩, min_le_right _ _⟩, fun b' x hb' => ⟨b, true, rfl, .inr
          ⟨not_lt.mp hroom, by cases hb'; exact pushed_of_push hpush⟩⟩⟩
    · split
      · exact ⟨fun h => ⟨.refl s, h⟩, nofun⟩
      next b₁ hpush =>
        exact ⟨fun h => ⟨.refl s, h⟩, fun b' x hb' => ⟨b, true, rfl, .inr
          ⟨not_lt.mp hroom, by cases hb'; exact pushed_of_push hpush⟩⟩⟩
    · exact ⟨fun h => ⟨.refl s, h⟩, fun b' x hb' => ⟨b, true, rfl, by cases hb'; exact .inl rfl⟩⟩

theorem sweepStream_mem {x : Bool} {acc : Except ConnError (Body × Bool)} {sid sid' v : ℕ}
    {s : RecvStream} (h : (sweepStream force headerLen acc sid s).1 = .ok (b', x))
    (hv : .maxStreamData sid' v ∈ b'.frames) :
    ∃ b x₀, acc = .ok (b, x₀) ∧ (.maxStreamData sid' v ∈ b.frames ∨
      sid' = sid ∧ v = (sweepStream force headerLen acc sid s).2.recvMax) := by
  obtain ⟨b, x₀, hacc, rfl | ⟨-, hpushed⟩⟩ := (sweepStream_spec force headerLen acc sid s).2 b' x h
  · exact ⟨b', x₀, hacc, .inl hv⟩
  · rw [hpushed.frames, mem_append, mem_singleton] at hv
    exact ⟨b, x₀, hacc, hv.imp_right maxStreamData.inj⟩

theorem sat_appendMaxStreamData (r : RecvSide) (headerLen : ℕ) (b : Body) :
    (r.appendMaxStreamData headerLen b).Sat (Raises r) fun r' b' => Granted r b r' b' ∧
      headerLen + b'.bytes.length ≤ max (headerLen + b.bytes.length) (packetBodyBudget + 17) := by
  unfold RecvSide.appendMaxStreamData
  set step := sweepStream r.forceMaxStreamData headerLen
  obtain ⟨hI, hrel⟩ := SortedMap.mapAccum_rec (m := r.recvStreams) (f := step) (s := .ok (b, true))
    (I := fun acc => ∀ b₁ x, acc = .ok (b₁, x) →
      b.Adds (fun f => ∃ sid v, f = .maxStreamData sid v) b₁ ∧
        headerLen + b₁.bytes.length ≤ max (headerLen + b.bytes.length) (packetBodyBudget + 17))
    (R := fun _ s s' => s.recvMax ≤ maxVarint → StreamRaised s s' ∧ s'.recvMax ≤ maxVarint)
    (fun acc sid s _ hacc => by
      obtain ⟨hraised, hok⟩ := sweepStream_spec r.forceMaxStreamData headerLen acc sid s
      refine ⟨fun b₁ x hb1 => ?_, hraised⟩
      obtain ⟨b0, x0, hacc0, rfl | ⟨hroom, hpushed⟩⟩ := hok b₁ x hb1
      · exact hacc b₁ x0 hacc0
      · have hlen := hpushed.length
        refine ⟨(hacc b0 x0 hacc0).1.trans (hpushed.adds ⟨_, _, rfl⟩), ?_⟩
        rw [maxSize] at hlen
        omega)
    (fun b₁ x hb1 => by cases hb1; exact ⟨.refl _, le_max_left _ _⟩)
  have hraised (force : Bool) : Raises r { r with
      recvStreams := (r.recvStreams.mapAccum step (.ok (b, true))).2, forceMaxStreamData := force } := by
    intro h
    refine ⟨⟨h.maxData, fun sid s' hs' => ?_⟩, ⟨fun hs => ?_, fun hs' => ?_⟩, rfl, rfl, rfl, rfl, rfl,
      rfl, le_rfl⟩
    · obtain ⟨s, hs, hR⟩ := hrel.of_some hs'
      exact (hR (h.recvMax sid s hs)).2
    · obtain ⟨s', hs', hR⟩ := hrel.to_some hs
      exact ⟨s', hs', (hR (h.recvMax _ _ hs)).1⟩
    · obtain ⟨s, hs, hR⟩ := hrel.of_some hs'
      exact ⟨s, hs, (hR (h.recvMax _ _ hs)).1⟩
  -- before its turn no new limit is stated for a stream, from there on it is the stream's
  have hkey (sid : ℕ) := SortedMap.mapAccum_at (m := r.recvStreams) (f := step) (k := sid)
    (s := .ok (b, true))
    (J := fun acc => ∀ b₁ x, acc = .ok (b₁, x) → ∀ v, .maxStreamData sid v ∈ b₁.frames →
      .maxStreamData sid v ∈ b.frames)
    (W := fun s' acc => ∀ b₁ x, acc = .ok (b₁, x) → ∀ v, .maxStreamData sid v ∈ b₁.frames →
      .maxStreamData sid v ∈ b.frames ∨ v ≤ s'.recvMax)
    (fun acc sid' s hne hacc b₁ x hb1 v hv => by
      obtain ⟨b0, x0, hacc0, hv | ⟨heq, -⟩⟩ := sweepStream_mem hb1 hv
      · exact hacc b0 x0 hacc0 v hv
      · exact absurd heq.symm hne)
    (fun acc s hs hacc b₁ x hb1 v hv => by
      obtain ⟨b0, x0, hacc0, hv | ⟨-, heq⟩⟩ := sweepStream_mem hb1 hv
      · exact .inl (hacc b0 x0 hacc0 v hv)
      · exact .inr heq.le)
    (fun s' acc sid' s hne hacc b₁ x hb1 v hv => by
      obtain ⟨b0, x0, hacc0, hv | ⟨heq, -⟩⟩ := sweepStream_mem hb1 hv
      · exact hacc b0 x0 hacc0 v hv
      · exact absurd heq.symm hne)
    (fun b₁ x hb1 v hv => by cases hb1; exact hv)
  dsimp only
  split
  · exact sat_error (hraised _)
  next b₁ complete hacc =>
    obtain ⟨hadds, hlen⟩ := hI b₁ complete hacc
    refine sat_ok ⟨⟨hraised _, hadds.mono ?_, fun hr hb f hf => ?_⟩, hlen⟩
    · rintro f ⟨sid, v, rfl⟩
      rfl
    · rcases hadds.frames f hf with hold | ⟨sid, v, rfl⟩
      · exact ((hraised _) hr).told (hb f hold)
      · have hat := hkey sid
        cases hget : (r.recvStreams.mapAccum step (.ok (b, true))).2.get? sid with
        | none =>
          rw [hget] at hat
          exact ((hraised _) hr).told (hb _ (hat.2 b₁ complete hacc v hf))
        | some s' =>
          rw [hget] at hat
          rcases hat.2 b₁ complete hacc v hf with hold | hv
          · exact ((hraised _) hr).told (hb _ hold)
          · exact ⟨s', hget, hv⟩

theorem sat_appendCredit (r : RecvSide) (headerLen : ℕ) (b : Body) :
    (r.appendCredit headerLen b).Sat (Raises r) fun r' b' => Granted r b r' b' ∧
      headerLen + b'.bytes.length ≤ max (headerLen + b.bytes.length + 27) (packetBodyBudget + 17) := by
  have hfirst : Outcome.Sat _ (Raises r) (GrantedIn 27 r b) :=
    ((sat_appendMaxStreamsBidi r b).andThen fun r₁ b₁ h1 => h1.sat (sat_appendMaxStreamsUni r₁ b₁)).andThen
      fun r2 b₂ h2 => h2.sat (sat_appendMaxData r2 b₂)
  refine hfirst.andThen fun r3 b3 h3 => ?_
  refine (sat_appendMaxStreamData r3 headerLen b3).mono (fun _ => h3.1.raises) ?_
  rintro r4 b4 ⟨h, hlen⟩
  refine ⟨h3.1.trans h, ?_⟩
  have := h3.2
  omega

end RecvSide

/-! ### The send side: abort frames -/

/-- Stream data and its limits. -/
structure DataSide where
  streams : SortedMap ℕ SendStream
  retxQueue : List StreamRetx
  retxBytes : ℕ
  staged : List StreamRetx
  peerMaxData : ℕ
  dataSent : ℕ
  initialBidi : ℕ
  initialUni : ℕ
  applied : Bool

namespace SendSide

def data (s : SendSide) : DataSide :=
  ⟨s.sendStreams, s.retxQueue, s.retxBytes, s.pendingSentStreamFrames, s.peerMaxData, s.dataSent,
    s.peerInitialMaxStreamDataBidi, s.peerInitialMaxStreamDataUni, s.peerFcApplied⟩

variable {s s' : SendSide} {b b' : Body} {headerLen : ℕ}

/-- Abort frames were added while the packet had room. -/
structure Aborted (headerLen : ℕ) (s : SendSide) (b : Body) (s' : SendSide) (b' : Body) : Prop where
  data : s'.data = s.data
  adds : b.Adds (fun f => f.isPlain) b'
  length : headerLen + b'.bytes.length ≤ max (headerLen + b.bytes.length) (packetBodyBudget + 24)

theorem Aborted.refl (hs : s'.data = s.data) : Aborted headerLen s b s' b :=
  ⟨hs, .refl b, le_max_left _ _⟩

theorem Aborted.push {f : TxFrame} {s₁ : SendSide} {b₁ : Body} (h : Aborted headerLen s₁ b₁ s' b')
    (hs : s₁.data = s.data) (hroom : headerLen + b.bytes.length < packetBodyBudget)
    (hpush : b.push f = .ok b₁) (hplain : f.isPlain) (hsize : f.maxSize ≤ 25) :
    Aborted headerLen s b s' b' := by
  have hpushed := pushed_of_push hpush
  refine ⟨h.data.trans hs, (hpushed.adds hplain).trans h.adds, ?_⟩
  have := hpushed.length
  have := h.length
  omega

theorem sat_appendStopSending (q : List (ℕ × ℕ)) (s : SendSide) (b : Body) :
    (appendStopSending headerLen q s b).Sat (fun s' => s'.data = s.data) (Aborted headerLen s b) := by
  induction q generalizing s b with
  | nil => exact sat_ok (.refl rfl)
  | cons e q ih =>
    unfold appendStopSending
    split_ifs with hroom
    · split
      · exact sat_error rfl
      next b₁ hpush =>
        exact (ih _ b₁).mono (fun _ h => h) fun _ _ h => h.push rfl hroom hpush rfl (show 17 ≤ 25 by decide)
    · exact sat_ok (.refl rfl)

theorem sat_appendResetStreams (q : List (ℕ × ℕ × ℕ)) (s : SendSide) (b : Body) :
    (appendResetStreams headerLen q s b).Sat (fun s' => s'.data = s.data) (Aborted headerLen s b) := by
  induction q generalizing s b with
  | nil => exact sat_ok (.refl rfl)
  | cons e q ih =>
    unfold appendResetStreams
    split_ifs with hroom
    · split
      · exact sat_error rfl
      next b₁ hpush =>
        exact (ih _ b₁).mono (fun _ h => h) fun _ _ h => h.push rfl hroom hpush rfl le_rfl
    · exact sat_ok (.refl rfl)

theorem sat_appendAborts (s : SendSide) (b : Body) :
    (appendAborts headerLen s b).Sat (fun s' => s'.data = s.data) (Aborted headerLen s b) := by
  refine (sat_appendStopSending s.pendingStopSending s b).andThen fun s1 b₁ h1 => ?_
  refine (sat_appendResetStreams s1.pendingResetStreams s1 b₁).mono (fun _ h => h.trans h1.data) ?_
  intro s2 b₂ h2
  refine ⟨h2.data.trans h1.data, h1.adds.trans h2.adds, ?_⟩
  have := h1.length
  have := h2.length
  omega

end SendSide

/-! ### The send side: stream data -/

/-- Its limit, unless it is beyond. -/
def SendStream.reach (s : SendStream) : ℕ := max s.sendOffset s.peerMaxStreamData

def SendStream.Advanced (s s' : SendStream) : Prop :=
  s'.sendOffset ≤ s.reach ∧ s'.peerMaxStreamData = s.peerMaxStreamData

theorem SendStream.Advanced.refl (s : SendStream) : Advanced s s := ⟨le_max_left _ _, rfl⟩

structure FreshRun.Advanced (run run' : FreshRun) (fs : List StreamRetx) : Prop where
  frames : run'.body.frames = run.body.frames ++ fs.map StreamRetx.frame
  handed : run'.body.handed = run.body.handed ++ fs
  length : run'.body.bytes.length ≤ max run.body.bytes.length (packetBodyBudget + 24)
  pktFrames : run'.pktFrames = run.pktFrames ++ fs
  ccBudget : run'.ccBudget + dataLength fs = run.ccBudget
  connFcBudget : run'.connFcBudget + dataLength fs = run.connFcBudget
  dataSentDelta : run'.dataSentDelta = run.dataSentDelta + dataLength fs

namespace FreshRun

variable {run run₁ run' : FreshRun} {s : SendStream} {fs gs : List StreamRetx}

theorem Advanced.refl (run : FreshRun) : Advanced run run [] :=
  ⟨by simp, by simp, le_max_left _ _, by simp, rfl, rfl, rfl⟩

theorem Advanced.trans (h₁ : Advanced run run₁ fs) (h₂ : Advanced run₁ run' gs) :
    Advanced run run' (fs ++ gs) := by
  refine ⟨by rw [h₂.frames, h₁.frames, map_append, append_assoc],
    by rw [h₂.handed, h₁.handed, append_assoc],
    by have := h₁.length; have := h₂.length; omega,
    by rw [h₂.pktFrames, h₁.pktFrames, append_assoc], ?_, ?_, ?_⟩
  · rw [dataLength_append, ← h₁.ccBudget, ← h₂.ccBudget]
    omega
  · rw [dataLength_append, ← h₁.connFcBudget, ← h₂.connFcBudget]
    omega
  · rw [dataLength_append, h₂.dataSentDelta, h₁.dataSentDelta, Nat.add_assoc]

theorem maxChunk_le {mc : ℕ} (h : run.maxChunk s = some mc) :
    mc ≤ run.ccBudget ∧ mc ≤ run.connFcBudget ∧ mc ≤ s.peerMaxStreamData - s.sendOffset ∧
      run.body.bytes.length + mc < packetBodyBudget := by
  unfold maxChunk at h
  simp only at h
  split_ifs at h
  · cases h
    omega
  · cases h
    omega

end FreshRun

theorem sat_freshStream (fuel sid : ℕ) (s : SendStream) (run : FreshRun) :
    (freshStream fuel sid s run).Sat s.Advanced fun s' run' => s.Advanced s' ∧
      ∃ fs, run.Advanced run' fs ∧ ∀ f ∈ fs, f.sid = sid ∧ f.offset + f.data.length ≤ s.reach := by
  induction fuel generalizing s run with
  | zero => exact sat_ok ⟨.refl s, [], .refl _, by simp⟩
  | succ fuel ih =>
    unfold freshStream
    split
    · exact sat_ok ⟨.refl s, [], .refl _, by simp⟩
    next mc hmc =>
      obtain ⟨hcc, hfc, hlimit, hroom⟩ := FreshRun.maxChunk_le hmc
      split
      next s1 hpop =>
        rw [SendStream.popChunk_none hpop]
        exact sat_ok ⟨.refl s, [], .refl _, by simp⟩
      next s1 offset data fin hpop =>
        have hpopped := SendStream.popChunk_spec hpop
        have hlen := hpopped.length_le
        have hwithin : offset + data.length ≤ s.reach := by
          rw [hpopped.off_eq, SendStream.reach]
          omega
        have hs1 : s.Advanced s1 := by
          refine ⟨?_, hpopped.peerMax⟩
          rw [hpopped.sendOffset, ← hpopped.off_eq]
          exact hwithin
        have hreach : s1.reach ≤ s.reach := max_le hs1.1 (hs1.2 ▸ le_max_right _ _)
        split
        · exact sat_error hs1
        next body hpush =>
          have hpushed := pushed_of_push hpush
          refine (ih s1 _).mono (fun s' h => ⟨h.1.trans hreach, h.2.trans hs1.2⟩) ?_
          rintro s' run' ⟨hs', fs, hadv, hfs⟩
          refine ⟨⟨hs'.1.trans hreach, hs'.2.trans hs1.2⟩, ⟨sid, offset, fin, data⟩ :: fs, ?_, ?_⟩
          · refine FreshRun.Advanced.trans (?_ : FreshRun.Advanced run _ [⟨sid, offset, fin, data⟩]) hadv
            refine ⟨hpushed.frames, ?_, ?_, rfl, ?_, ?_, rfl⟩
            · rw [← hpushed.handed]
            · have := hpushed.length
              rw [maxSize] at this
              show body.bytes.length ≤ _
              omega
            · show run.ccBudget - data.length + (data.length + 0) = _
              omega
            · show run.connFcBudget - data.length + (data.length + 0) = _
              omega
          · intro f hf
            rcases mem_cons.mp hf with rfl | hf
            · exact ⟨rfl, hwithin⟩
            · exact ⟨(hfs f hf).1, (hfs f hf).2.trans hreach⟩

namespace DataSide

variable {d d₁ d' : DataSide}

abbrev Advanced (m m' : SortedMap ℕ SendStream) : Prop := m.Related (fun _ => SendStream.Advanced) m'

theorem Advanced.refl (m : SortedMap ℕ SendStream) : Advanced m m :=
  ⟨fun ht => ⟨_, ht, .refl _⟩, fun ht => ⟨_, ht, .refl _⟩⟩

/-- Streams advanced, and the queue got shorter. -/
structure Drawn (d d' : DataSide) : Prop where
  streams : Advanced d.streams d'.streams
  retxQueue : d'.retxQueue <:+ d.retxQueue
  eq : d' = { d with streams := d'.streams, retxQueue := d'.retxQueue, retxBytes := d'.retxBytes }

/-- `retx` and `handed` went into a packet. -/
structure Gave (window inFlight : ℕ) (d d' : DataSide) (retx handed : List StreamRetx) : Prop where
  streams : Advanced d.streams d'.streams
  within : ∀ f ∈ handed, ∃ t, d.streams.get? f.sid = some t ∧ f.offset + f.data.length ≤ t.reach
  retxQueue : d.retxQueue = retx ++ d'.retxQueue
  fresh : dataLength handed ≤ d.peerMaxData - d.dataSent
  window : dataLength (retx ++ handed) ≤ window - inFlight ∨
    inFlight = 0 ∧ ∃ f rest, retx = f :: rest ∧ dataLength (rest ++ handed) = 0
  eq : d' = { d with
    streams := d'.streams
    retxQueue := d'.retxQueue
    retxBytes := d'.retxBytes
    dataSent := d.dataSent + dataLength handed
    staged := if retx ++ handed = [] then d.staged else retx ++ handed }

theorem Drawn.refl (d : DataSide) : Drawn d d := ⟨.refl _, suffix_rfl, rfl⟩

end DataSide

theorem freshStep_mapAccum (m : SortedMap ℕ SendStream) (run₀ : FreshRun) :
    DataSide.Advanced m (m.mapAccum freshStep (.ok run₀)).2 ∧
      ∀ run', (m.mapAccum freshStep (.ok run₀)).1 = .ok run' → ∃ fs, run₀.Advanced run' fs ∧
        ∀ f ∈ fs, ∃ t, m.get? f.sid = some t ∧ f.offset + f.data.length ≤ t.reach := by
  refine (SortedMap.mapAccum_rec (m := m) (f := freshStep) (s := .ok run₀)
    (R := fun _ => SendStream.Advanced)
    (I := fun acc => ∀ run, acc = .ok run → ∃ fs, run₀.Advanced run fs ∧
      ∀ f ∈ fs, ∃ t, m.get? f.sid = some t ∧ f.offset + f.data.length ≤ t.reach)
    (fun acc sid s hmem hacc => ?_) (fun run hrun => ⟨[], by cases hrun; exact .refl _, by simp⟩)).symm
  rcases acc with e | run
  · exact ⟨nofun, .refl s⟩
  · have hsat := sat_freshStream (packetBodyBudget + 1) sid s run
    refine ⟨fun run' hrun' => ?_, hsat.always (fun _ h => h) fun _ _ h => h.1⟩
    obtain ⟨-, gs, hadv, hgs⟩ := hsat.ok run' hrun'
    obtain ⟨fs, hfs, hknown⟩ := hacc run rfl
    refine ⟨fs ++ gs, hfs.trans hadv, fun f hf => ?_⟩
    rcases mem_append.mp hf with hf | hf
    · exact hknown f hf
    · exact ⟨s, (hgs f hf).1 ▸ SortedMap.get?_eq_some.2 hmem, (hgs f hf).2⟩

namespace SendSide

variable {s s' : SendSide} {b b' : Body} {window inFlight : ℕ}

theorem sat_appendRetx (inFlight : ℕ) (q : List StreamRetx) (s : SendSide) (run : DataRun) :
    (appendRetx inFlight q s run).Sat
      (fun s' => s'.retxQueue <:+ q ∧ s'.data =
        { s.data with retxQueue := s'.retxQueue, retxBytes := s'.retxBytes })
      fun s' run' => s'.data = { s.data with retxQueue := s'.retxQueue, retxBytes := s'.retxBytes } ∧
        ∃ sent, q = sent ++ s'.retxQueue ∧
          run'.body.frames = run.body.frames ++ sent.map StreamRetx.frame ∧
          run'.body.handed = run.body.handed ∧
          run'.body.bytes.length ≤ max run.body.bytes.length (packetBodyBudget + 24) ∧
          run'.pktFrames = run.pktFrames ++ sent ∧
          (run'.wireBudget + dataLength sent ≤ run.wireBudget ∨ inFlight = 0 ∧ run.pktFrames = [] ∧
            ∃ f rest, sent = f :: rest ∧ dataLength rest = 0 ∧ run'.wireBudget = 0) := by
  induction q generalizing s run with
  | nil => exact sat_ok ⟨rfl, [], rfl, by simp, rfl, le_max_left _ _, by simp, .inl le_rfl⟩
  | cons f q ih =>
    unfold appendRetx
    simp only
    split_ifs with hstop
    · exact sat_ok ⟨rfl, [], rfl, by simp, rfl, le_max_left _ _, by simp, .inl le_rfl⟩
    · split
      · exact sat_error ⟨suffix_cons f q, rfl⟩
      next body hpush =>
        have hpushed := pushed_of_push hpush
        refine (ih _ _).mono (fun s' h => ⟨h.1.trans (suffix_cons f q), h.2⟩) ?_
        rintro s' run' ⟨heq, sent, hq, hframes, hhanded, hlen, hpkt, hwire⟩
        refine ⟨heq, f :: sent, by rw [hq]; rfl, ?_, hhanded.trans hpushed.handed, ?_, ?_, ?_⟩
        · rw [hframes, hpushed.frames, map_cons, append_assoc]
          rfl
        · have := hpushed.length
          simp only [StreamRetx.frame, maxSize] at this
          simp only at hlen
          clear hwire
          omega
        · rw [hpkt, append_assoc]
          rfl
        · simp only [dataLength_cons] at hwire ⊢
          by_cases hfits : f.data.length ≤ run.wireBudget
          · refine .inl ?_
            rcases hwire with hwire | ⟨-, hne, -⟩
            · omega
            · simp at hne
          · have hfirst : inFlight = 0 ∧ run.pktFrames = [] := by
              by_contra hnot
              exact hstop (.inr ⟨not_le.mp hfits, hnot⟩)
            rcases hwire with hwire | ⟨-, hne, -⟩
            · exact .inr ⟨hfirst.1, hfirst.2, f, sent, rfl, by omega, by omega⟩
            · simp at hne

theorem sat_appendFresh (s : SendSide) (window inFlight : ℕ) (run : DataRun) :
    (s.appendFresh window inFlight run).Sat (fun s' => s.data.Drawn s'.data) fun s' b' =>
      ∃ handed, DataSide.Advanced s.data.streams s'.data.streams ∧
        (∀ f ∈ handed, ∃ t, s.data.streams.get? f.sid = some t ∧ f.offset + f.data.length ≤ t.reach) ∧
        dataLength handed ≤ s.peerMaxData - s.dataSent ∧ dataLength handed ≤ run.wireBudget ∧
        b'.frames = run.body.frames ++ handed.map StreamRetx.frame ∧
        b'.handed = run.body.handed ++ handed ∧
        b'.bytes.length ≤ max run.body.bytes.length (packetBodyBudget + 24) ∧
        s'.data = { s.data with
          streams := s'.data.streams
          dataSent := s.dataSent + dataLength handed
          staged := if run.pktFrames ++ handed = [] then s.data.staged else run.pktFrames ++ handed } := by
  unfold appendFresh
  extract_lets cc
  obtain ⟨hstreams, hrun⟩ := freshStep_mapAccum s.sendStreams
    { body := run.body, ccBudget := cc, connFcBudget := s.peerMaxData - s.dataSent,
      pktFrames := run.pktFrames }
  rcases hacc : s.sendStreams.mapAccum freshStep _ with ⟨acc, streams⟩
  rw [hacc] at hstreams hrun
  rcases acc with e | fresh
  · exact sat_error ⟨hstreams, suffix_rfl, rfl⟩
  · obtain ⟨handed, hadv, hwithin⟩ := hrun fresh rfl
    have hcc := hadv.ccBudget
    have hfc := hadv.connFcBudget
    refine sat_ok ⟨handed, hstreams, hwithin, ?_, ?_, hadv.frames, hadv.handed, hadv.length, ?_⟩
    · simp only at hfc
      omega
    · exact (Nat.le.intro ((Nat.add_comm _ _).trans hcc)).trans (min_le_left _ _)
    · rw [hadv.pktFrames, hadv.dataSentDelta]
      simp only [Nat.zero_add]
      rfl

theorem sat_appendData (s : SendSide) (window inFlight : ℕ) (b : Body) :
    (appendData window inFlight s b).Sat (fun s' => s.data.Drawn s'.data) fun s' b' =>
      ∃ retx handed, s.data.Gave window inFlight s'.data retx handed ∧
        b'.frames = b.frames ++ (retx ++ handed).map StreamRetx.frame ∧
        b'.handed = b.handed ++ handed ∧
        b'.bytes.length ≤ max b.bytes.length (packetBodyBudget + 24) := by
  have hretx := sat_appendRetx inFlight s.retxQueue s { body := b, wireBudget := window - inFlight }
  refine (hretx.mono (?_ : ∀ s', _ → s.data.Drawn s'.data) fun _ _ h => h).andThen ?_
  · rintro s1 ⟨hq, heq⟩
    exact ⟨by rw [heq]; exact .refl _, hq, by rw [heq]⟩
  · rintro s1 run ⟨heq, retx, hq, hframes1, hhanded1, hlen1, hpkt, hbudget⟩
    refine (sat_appendFresh s1 window inFlight run).mono ?_ ?_
    · rintro s' ⟨hstreams, hsuffix, heq'⟩
      refine ⟨by rw [heq] at hstreams; exact hstreams, hsuffix.trans ⟨retx, hq.symm⟩, ?_⟩
      rw [heq', heq]
    · rintro s' b' ⟨handed, hstreams, hwithin, hfc, hwire, hframes, hhanded, hlen, heq'⟩
      rw [heq] at hstreams hwithin heq'
      have hmax : s1.peerMaxData = s.peerMaxData := congrArg DataSide.peerMaxData heq
      have hsent : s1.dataSent = s.dataSent := congrArg DataSide.dataSent heq
      rw [hsent] at heq'
      rw [hmax, hsent] at hfc
      refine ⟨retx, handed, ⟨hstreams, hwithin, ?_, hfc, ?_, ?_⟩, ?_, ?_, ?_⟩
      · rw [heq']
        exact hq
      · rcases hbudget with hbudget | ⟨hflight, -, f, rest, hretx, hrest, hspent⟩
        · left
          simp only at hbudget
          rw [dataLength_append]
          omega
        · right
          refine ⟨hflight, f, rest, hretx, ?_⟩
          rw [dataLength_append]
          omega
      · rw [heq', hpkt]
        rfl
      · rw [hframes, hframes1, map_append, append_assoc]
      · rw [hhanded, hhanded1]
      · exact hlen.trans (max_le hlen1 (le_max_right _ _))

end SendSide

/-! ### The connection -/

namespace Conn

variable {κ τ : Type} {c c₁ c' : Conn κ τ} {b b₁ b' : Body}

/-- Recovery, the role and packet numbers. -/
def fixed (c : Conn κ τ) : Recovery κ × Bool × (CryptoLevel → UInt64 × Option UInt64) :=
  (c.rest.recovery, c.isClient, fun l => ((c.space l).nextSendPn, (c.space l).largestAcked))

/-- The steps before the stream data. -/
structure Kept (c c' : Conn κ τ) : Prop where
  fixed : c'.fixed = c.fixed
  data : c'.rest.send.data = c.rest.send.data
  recv : c.rest.recv.Limited → c.rest.recv.Raised c'.rest.recv

structure Controls (c : Conn κ τ) (b : Body) (c' : Conn κ τ) (b' : Body) : Prop extends Kept c c' where
  adds : b.Adds (fun f => f.isPlain ∨ f.isCredit) b'
  told : c.rest.recv.Limited → (∀ f ∈ b.frames, c.rest.recv.Told f) → ∀ f ∈ b'.frames, c'.rest.recv.Told f

theorem Kept.refl (c : Conn κ τ) : Kept c c := ⟨rfl, rfl, .refl⟩

theorem Kept.trans (h₁ : Kept c c₁) (h₂ : Kept c₁ c') : Kept c c' :=
  ⟨h₂.fixed.trans h₁.fixed, h₂.data.trans h₁.data,
    fun hr => (h₁.recv hr).trans (h₂.recv (h₁.recv hr).limited)⟩

theorem kept_setMisc (c : Conn κ τ) (m : Misc τ) : Kept c (c.setMisc m) := ⟨rfl, rfl, .refl⟩

theorem told_of_isPlain {f : TxFrame} (h : f.isPlain) (r : RecvSide) : r.Told f := by
  cases f <;> trivial

theorem Kept.controls (h : Kept c c') (hb : b.Adds (fun f => f.isPlain) b') : Controls c b c' b' := by
  refine ⟨h, hb.mono fun _ => .inl, fun hr htold f hf => ?_⟩
  rcases hb.frames f hf with hf | hplain
  · exact (h.recv hr).told (htold f hf)
  · exact told_of_isPlain hplain _

theorem Controls.sat {x : Outcome (Conn κ τ) Body} (h : Controls c b c₁ b₁)
    (hx : x.Sat (Kept c₁) (Controls c₁ b₁)) : x.Sat (Kept c) (Controls c b) :=
  hx.mono (fun _ => h.toKept.trans) fun _ _ h' => ⟨h.toKept.trans h'.toKept, h.adds.trans h'.adds,
    fun hr htold => h'.told (h.recv hr).limited (h.told hr htold)⟩

theorem sat_onSend {α : Type} {f : SendSide → Outcome SendSide α} {E : SendSide → Prop}
    {Q : SendSide → α → Prop} (h : (f c.rest.send).Sat E Q) :
    (c.onSend f).Sat (fun c' => E c'.rest.send ∧ c' = c.setSend c'.rest.send)
      fun c' a => Q c'.rest.send a ∧ c' = c.setSend c'.rest.send :=
  ⟨fun e he => ⟨h.error e he, rfl⟩, fun a ha => ⟨h.ok a ha, rfl⟩⟩

theorem sat_onRecv {α : Type} {f : RecvSide → Outcome RecvSide α} {E : RecvSide → Prop}
    {Q : RecvSide → α → Prop} (h : (f c.rest.recv).Sat E Q) :
    (c.onRecv f).Sat (fun c' => E c'.rest.recv ∧ c' = c.setRecv c'.rest.recv)
      fun c' a => Q c'.rest.recv a ∧ c' = c.setRecv c'.rest.recv :=
  ⟨fun e he => ⟨h.error e he, rfl⟩, fun a ha => ⟨h.ok a ha, rfl⟩⟩

theorem sat_push {f : TxFrame} (h : Kept c c') (hf : f.isPlain) :
    Outcome.Sat (c', b.push f) (Kept c) (Controls c b) :=
  ⟨fun _ _ => h, fun _ hb => h.controls ((pushed_of_push hb).adds hf)⟩

section

variable (now : ℕ) (c) (b)

theorem controls_appendAck : Controls c b (c.appendAck now b).1 (c.appendAck now b).2 := by
  unfold appendAck
  split_ifs
  · refine Kept.controls ⟨?_, rfl, .refl⟩ ?_
    · unfold fixed
      congr 2
      funext l
      cases l <;> rfl
    · unfold appendAckFrame
      split
      · exact .refl b
      next largest firstRange additional _ =>
        cases hpush : b.push (.ack largest 0 firstRange additional) with
        | error e => exact .refl b
        | ok b' => exact (pushed_of_push hpush).adds rfl
  · exact (Kept.refl c).controls (.refl b)

theorem sat_appendHandshakeDone : (c.appendHandshakeDone b).Sat (Kept c) (Controls c b) := by
  unfold appendHandshakeDone
  split_ifs
  · exact sat_ok ((Kept.refl c).controls (.refl b))
  · exact sat_push (kept_setMisc c _) rfl

theorem sat_appendPathResponse : (c.appendPathResponse b).Sat (Kept c) (Controls c b) := by
  unfold appendPathResponse
  split
  · exact sat_ok ((Kept.refl c).controls (.refl b))
  · exact sat_push (kept_setMisc c _) rfl

theorem sat_appendCrypto [Tls τ] : (c.appendCrypto b).Sat (Kept c) (Controls c b) := by
  unfold appendCrypto
  split_ifs
  · simp only
    split_ifs
    · exact sat_ok ((kept_setMisc c _).controls (.refl b))
    · split
      · exact sat_error (kept_setMisc c _)
      next b₁ hpush =>
        exact sat_ok ((kept_setMisc c _).controls ((pushed_of_push hpush).adds rfl))
  · exact sat_ok ((Kept.refl c).controls (.refl b))

theorem sat_aborts (headerLen : ℕ) :
    (c.onSend fun s => s.appendAborts headerLen b).Sat (Kept c) (Controls c b) := by
  refine (sat_onSend (SendSide.sat_appendAborts c.rest.send b)).mono ?_ ?_
  · rintro c' ⟨hdata, heq⟩
    rw [heq]
    exact ⟨rfl, hdata, .refl⟩
  · rintro c' b' ⟨haborted, heq⟩
    rw [heq]
    exact Kept.controls ⟨rfl, haborted.data, .refl⟩ haborted.adds

theorem sat_credit (headerLen : ℕ) :
    (c.onRecv fun r => r.appendCredit headerLen b).Sat (Kept c) (Controls c b) := by
  refine (sat_onRecv (RecvSide.sat_appendCredit c.rest.recv headerLen b)).mono ?_ ?_
  · rintro c' ⟨hraised, heq⟩
    rw [heq]
    exact ⟨rfl, rfl, hraised⟩
  · rintro c' b' ⟨⟨hgranted, -⟩, heq⟩
    rw [heq]
    exact ⟨⟨rfl, rfl, hgranted.raised⟩, hgranted.adds.mono fun _ => .inr, hgranted.told⟩

def controlFrames [Tls τ] : Outcome (Conn κ τ) Body :=
  let headerLen := c.shortHeaderLen
  let (c, b) := c.appendAck now {}
  Outcome.andThen (Outcome.andThen (Outcome.andThen (Outcome.andThen
    (c.appendHandshakeDone b)
    appendPathResponse)
    fun c b => c.onSend fun s => s.appendAborts headerLen b)
    fun c b => c.onRecv fun r => r.appendCredit headerLen b)
    fun c b => c.appendCrypto b

theorem sat_controlFrames [Tls τ] : (c.controlFrames now).Sat (Kept c) (Controls c {}) :=
  (((((controls_appendAck c {} now).sat (sat_appendHandshakeDone _ _)).andThen
    fun c₁ b₁ h => h.sat (sat_appendPathResponse c₁ b₁)).andThen
    fun c₁ b₁ h => h.sat (sat_aborts c₁ b₁ _)).andThen
    fun c₁ b₁ h => h.sat (sat_credit c₁ b₁ _)).andThen
    fun c₁ b₁ h => h.sat (sat_appendCrypto c₁ b₁)

end

section

variable [CongestionControl κ] [Tls τ] (now : ℕ) (c)

/-- What choosing the frames does in any case. -/
structure Building (c c' : Conn κ τ) : Prop where
  fixed : c'.fixed = c.fixed
  recv : c.rest.recv.Limited → c.rest.recv.Raised c'.rest.recv

/-- A packet was written: control frames, lost frames, fresh frames. -/
structure Built (c c' : Conn κ τ) (body : Body) (retx handed : List StreamRetx) : Prop
    extends Building c c' where
  gave : c.rest.send.data.Gave (windowOf c.rest.recovery.cc) c.rest.recovery.bytesInFlight
    c'.rest.send.data retx handed
  fresh : body.handed = handed
  frames : ∃ pre, body.frames = pre ++ (retx ++ handed).map StreamRetx.frame ∧
    ∀ f ∈ pre, f.isPlain ∨ f.isCredit
  told : c.rest.recv.Limited → ∀ f ∈ body.frames, c'.rest.recv.Told f

theorem sat_appendFrames : (c.appendFrames now).Sat
    (fun c' => Building c c' ∧ c.rest.send.data.Drawn c'.rest.send.data)
    fun c' body => ∃ retx handed, Built c c' body retx handed := by
  refine Outcome.Sat.andThen (Outcome.Sat.andThen ((sat_controlFrames c now).mono ?_ fun _ _ h => h)
    (fun c₁ b₁ h => ?_) (T := fun c' body => ∃ retx handed, Built c c' body retx handed))
    fun c' b h => ?_
  · exact fun c' h => ⟨⟨h.fixed, h.recv⟩, by rw [h.data]; exact .refl _⟩
  · have hrecovery : c₁.rest.recovery = c.rest.recovery := congrArg Prod.fst h.fixed
    have hdata := SendSide.sat_appendData c₁.rest.send (windowOf c.rest.recovery.cc)
      c.rest.recovery.bytesInFlight b₁
    rw [h.data] at hdata
    unfold appendStreams
    rw [hrecovery]
    refine (sat_onSend hdata).mono ?_ ?_
    · rintro c' ⟨hdrawn, heq⟩
      rw [heq]
      exact ⟨⟨h.fixed, h.recv⟩, hdrawn⟩
    · rintro c' b' ⟨⟨retx, handed, hgave, hframes, hhanded, -⟩, heq⟩
      rw [heq]
      refine ⟨retx, handed, ⟨h.fixed, h.recv⟩, hgave, ?_, ⟨b₁.frames, hframes, fun f hf => ?_⟩,
        fun hr f hf => ?_⟩
      · rw [hhanded, h.adds.handed]
        rfl
      · exact (h.adds.frames f hf).resolve_left not_mem_nil
      · rw [hframes, mem_append, mem_map] at hf
        rcases hf with hf | ⟨g, -, rfl⟩
        · exact h.told hr (fun f hf => absurd hf not_mem_nil) f hf
        · trivial
  · obtain ⟨retx, handed, h⟩ := h
    exact sat_ok ⟨retx, handed, ⟨h.fixed, h.recv⟩, h.gave, h.fresh, h.frames, h.told⟩

end

end Conn

end Waitless.Quic
