import Waitless.AesGcm
import Waitless.SortedMap

/-! # QUIC receive streams

The model of `RecvStream` (`streams.rs`).

`Assembled S cov drained s` relates a stream to the byte string `S` it carries and the positions
`cov` its frames have covered: nothing covered is forgotten. `reassembly_exact` is the result over
every sequence of calls whose frames agree with `S`. -/

namespace Waitless.Quic

open Waitless.AesGcm SortedMap List

def initialMaxStreamData : ℕ := 2 <<< 20

/-- What is known of the end of a stream. -/
inductive RecvState where
  /-- No FIN seen. -/
  | opened
  /-- FIN seen, bytes before it still missing. -/
  | finSeen (finOffset : ℕ)
  /-- Every byte before the FIN received. -/
  | closed (finOffset : ℕ)
deriving DecidableEq

/-- The receiving half of a stream. -/
structure RecvStream where
  /-- Contiguous bytes not drained yet. -/
  buffer : Bytes := []
  /-- The end of the contiguous bytes. -/
  offset : ℕ := 0
  /-- Frames past a gap, by start offset. -/
  gapBuffer : SortedMap ℕ Bytes := .empty
  state : RecvState := .opened
  rxUs : ℕ := 0
  /-- The advertised per-stream limit. -/
  recvMax : ℕ := initialMaxStreamData
  /-- The largest offset received. -/
  recvHigh : ℕ := 0
deriving DecidableEq

namespace RecvStream

variable (s : RecvStream)

def finOffset : Option ℕ :=
  match s.state with
  | .opened => none
  | .finSeen f => some f
  | .closed f => some f

def isClosed : Bool :=
  match s.state with
  | .closed _ => true
  | _ => false

def consumed : ℕ := s.offset - s.buffer.length

def recordFin (finEnd : ℕ) : RecvStream :=
  let fin := s.finOffset.elim finEnd (max · finEnd)
  { s with state := if fin ≤ s.offset then .closed fin else .finSeen fin }

def maybeClose : RecvStream :=
  match s.state with
  | .finSeen f => if f ≤ s.offset then { s with state := .closed f } else s
  | _ => s

/-- While the first frame starts no later than the contiguous end. -/
def foldGaps : ℕ → RecvStream → Bool → RecvStream × Bool
  | 0, s, produced => (s, produced)
  | fuel + 1, s, produced =>
    match s.gapBuffer.first? with
    | none => (s, produced)
    | some (nextOff, v) =>
      if nextOff > s.offset then (s, produced)
      else
        let s := { s with gapBuffer := s.gapBuffer.erase nextOff }
        let skip := s.offset - nextOff
        if skip < v.length then
          let tail := v.drop skip
          foldGaps fuel { s with buffer := s.buffer ++ tail, offset := s.offset + tail.length } true
        else foldGaps fuel s produced

def stage (frameOffset : ℕ) (data : Bytes) : RecvStream :=
  if data = [] then s
  else if ((s.gapBuffer.get? frameOffset).elim true fun existing => existing.length < data.length) then
    { s with gapBuffer := s.gapBuffer.insert frameOffset data }
  else s

def ingest (frameOffset : ℕ) (data : Bytes) (fin : Bool) : RecvStream × Bool :=
  if frameOffset + data.length ≤ s.offset then
    (if fin then s.recordFin (frameOffset + data.length) else s, false)
  else
    let skip := s.offset - frameOffset
    let frameOffset := frameOffset + skip
    let data := data.drop skip
    let (s, produced) :=
      if frameOffset = s.offset then
        foldGaps s.gapBuffer.size
          { s with buffer := s.buffer ++ data, offset := s.offset + data.length } (!data.isEmpty)
      else (s.stage frameOffset data, false)
    (if fin then s.recordFin (frameOffset + data.length) else s.maybeClose, produced)

def applyReset (finalSize : ℕ) : RecvStream :=
  { s with
    buffer := []
    gapBuffer := .empty
    offset := finalSize
    recvHigh := finalSize
    state := .closed finalSize }

/-- Drains up to `room` bytes, and says whether the end is reached. -/
def drain (room : ℕ) : RecvStream × Bytes × Bool :=
  let n := min room s.buffer.length
  let s' := { s with buffer := s.buffer.drop n }
  (s', s.buffer.take n, s'.isClosed && s'.buffer.isEmpty)

end RecvStream

namespace RecvStream

variable {S : Bytes} {cov : ℕ → Prop} {drained : Bytes} {s : RecvStream}

def At (S : Bytes) (off : ℕ) (data : Bytes) : Prop := data <+: S.drop off

variable {data : Bytes} {off : ℕ}

theorem At.drop (h : At S off data) (k : ℕ) :
    At S (off + k) (data.drop k) := by
  obtain ⟨rest, hrest⟩ := h
  refine ⟨rest.drop (k - data.length), ?_⟩
  rw [← drop_append, hrest, drop_drop]

theorem At.le_length (h : At S off data) (hne : data ≠ []) :
    off + data.length ≤ S.length := by
  have hlen := h.length_le
  have hpos := length_pos_iff.2 hne
  rw [length_drop] at hlen
  omega

theorem At.take_add (h : At S off data) :
    S.take (off + data.length) = S.take off ++ data := by
  rw [List.take_add, ← List.prefix_iff_eq_take.1 h]

/-- **The invariant**: covered positions are before `offset` or staged. -/
structure Assembled (S : Bytes) (cov : ℕ → Prop) (drained : Bytes) (s : RecvStream) : Prop where
  delivered : drained ++ s.buffer = S.take s.offset
  le_length : s.offset ≤ S.length
  below : ∀ i < s.offset, cov i
  staged : ∀ off v, s.gapBuffer.get? off = some v →
    At S off v ∧ ∀ i, off ≤ i → i < off + v.length → cov i
  kept : ∀ i, cov i → i < s.offset ∨
    ∃ off v, s.gapBuffer.get? off = some v ∧ off ≤ i ∧ i < off + v.length

/-- Every staged frame starts past the contiguous end. -/
def Gapped (s : RecvStream) : Prop := ∀ off v, s.gapBuffer.get? off = some v → s.offset < off

/-- A staged frame that starts no later than `offset` is folded in. -/
def absorb (s : RecvStream) (off : ℕ) (v : Bytes) : RecvStream :=
  { s with
    gapBuffer := s.gapBuffer.erase off
    buffer := s.buffer ++ v.drop (s.offset - off)
    offset := s.offset + (v.drop (s.offset - off)).length }

def Spans (off : ℕ) (data : Bytes) (i : ℕ) : Prop := off ≤ i ∧ i < off + data.length

def withFrame (cov : ℕ → Prop) (off : ℕ) (data : Bytes) (i : ℕ) : Prop := cov i ∨ Spans off data i

theorem Assembled.append (h : Assembled S cov drained s) (hat : At S off data) (hoff : off ≤ s.offset) :
    Assembled S (withFrame cov off data) drained
      { s with buffer := s.buffer ++ data.drop (s.offset - off),
               offset := s.offset + (data.drop (s.offset - off)).length } := by
  set tail := data.drop (s.offset - off) with htail
  have hattail : At S s.offset tail := by
    have := hat.drop (s.offset - off)
    rwa [show off + (s.offset - off) = s.offset by omega] at this
  have hlen : tail.length = data.length - (s.offset - off) := by rw [htail, length_drop]
  refine ⟨?_, ?_, ?_, ?_, ?_⟩
  · rw [hattail.take_add, ← append_assoc, h.delivered]
  · show s.offset + tail.length ≤ S.length
    by_cases hne : tail = []
    · simpa [hne] using h.le_length
    · exact hattail.le_length hne
  · intro i hi
    change i < s.offset + tail.length at hi
    by_cases hlt : i < s.offset
    · exact .inl (h.below i hlt)
    · exact .inr ⟨by omega, by omega⟩
  · intro off' v hget
    obtain ⟨hat', hcov⟩ := h.staged off' v hget
    exact ⟨hat', fun i hlo hhi => .inl (hcov i hlo hhi)⟩
  · rintro i (hi | ⟨hlo, hhi⟩)
    · exact (h.kept i hi).imp_left fun hlt => by show i < s.offset + tail.length; omega
    · exact .inl (by show i < s.offset + tail.length; omega)

theorem Assembled.absorb (h : Assembled S cov drained s) {v : Bytes}
    (hget : s.gapBuffer.get? off = some v) (hle : off ≤ s.offset) :
    Assembled S cov drained (s.absorb off v) := by
  obtain ⟨hat, hcov⟩ := h.staged off v hget
  have happ := h.append hat hle
  refine ⟨happ.delivered, happ.le_length, fun i hi => ?_, ?_, ?_⟩
  · rcases happ.below i hi with hold | ⟨hlo, hhi⟩
    · exact hold
    · exact hcov i hlo hhi
  · intro off' v' hget'
    rw [RecvStream.absorb, SortedMap.get?_erase] at hget'
    split_ifs at hget'
    exact h.staged off' v' hget'
  · intro i hi
    have hlen : (v.drop (s.offset - off)).length = v.length - (s.offset - off) := length_drop
    show i < s.offset + (v.drop (s.offset - off)).length ∨ _
    rcases h.kept i hi with hlt | ⟨off', v', hget', hlo, hhi⟩
    · exact .inl (by omega)
    · by_cases heq : off' = off
      · subst heq
        obtain rfl : v' = v := Option.some.inj (hget'.symm.trans hget)
        exact .inl (by omega)
      · exact .inr ⟨off', v', by simp [RecvStream.absorb, heq, hget'], hlo, hhi⟩

open RecvStream

theorem foldGaps_succ (fuel : ℕ) {v : Bytes} (hfirst : s.gapBuffer.first? = some (off, v))
    (hle : off ≤ s.offset) (produced : Bool) :
    ∃ produced', foldGaps (fuel + 1) s produced = foldGaps fuel (s.absorb off v) produced' := by
  by_cases hskip : s.offset - off < v.length
  · exact ⟨true, by simp [foldGaps, hfirst, hle.not_gt, hskip, absorb]⟩
  · refine ⟨produced, ?_⟩
    have htail : v.drop (s.offset - off) = [] := drop_of_length_le (by omega)
    simp [foldGaps, hfirst, hle.not_gt, hskip, absorb, htail]

theorem foldGaps_rec {I : RecvStream → Prop}
    (habsorb : ∀ s off v, s.gapBuffer.get? off = some v → off ≤ s.offset → I s → I (s.absorb off v))
    (fuel : ℕ) (hfuel : s.gapBuffer.size ≤ fuel) (hs : I s) (produced : Bool) :
    I (foldGaps fuel s produced).1 ∧ (foldGaps fuel s produced).1.Gapped := by
  induction fuel generalizing s produced with
  | zero =>
    have hnone : s.gapBuffer.first? = none := by
      rw [first?, length_eq_zero_iff.1 (Nat.le_zero.1 hfuel)]
      rfl
    refine ⟨hs, fun off v hget => ?_⟩
    simp [foldGaps, first?_eq_none hnone] at hget
  | succ fuel ih =>
    rcases hfirst : s.gapBuffer.first? with _ | ⟨off, v⟩
    · have hstop : foldGaps (fuel + 1) s produced = (s, produced) := by simp [foldGaps, hfirst]
      rw [hstop]
      refine ⟨hs, fun off v hget => ?_⟩
      simp [first?_eq_none hfirst] at hget
    · obtain ⟨hget, hmin⟩ := first?_eq_some hfirst
      by_cases hle : off ≤ s.offset
      · obtain ⟨produced', hstep⟩ := foldGaps_succ fuel hfirst hle produced
        have hsize := size_erase_first hfirst
        rw [hstep]
        refine ih ?_ (habsorb s off v hget hle hs) produced'
        rw [absorb]
        dsimp only at hsize ⊢
        omega
      · have hstop : foldGaps (fuel + 1) s produced = (s, produced) := by
          simp [foldGaps, hfirst, not_le.1 hle]
        rw [hstop]
        exact ⟨hs, fun off' v' hget' => lt_of_lt_of_le (not_le.1 hle) (hmin off' v' hget')⟩

/-- **Folding** keeps the invariant and closes the gap. -/
theorem foldGaps_assembled (fuel : ℕ) (h : Assembled S cov drained s)
    (hfuel : s.gapBuffer.size ≤ fuel) (produced : Bool) :
    let s' := (foldGaps fuel s produced).1
    Assembled S cov drained s' ∧ s'.Gapped ∧ s.offset ≤ s'.offset ∧ s'.state = s.state := by
  obtain ⟨⟨ha, hoff, hst⟩, hg⟩ := foldGaps_rec
    (I := fun t => Assembled S cov drained t ∧ s.offset ≤ t.offset ∧ t.state = s.state)
    (fun t off v hget hle ht => ⟨ht.1.absorb hget hle, ht.2.1.trans (Nat.le_add_right _ _), ht.2.2⟩)
    fuel hfuel ⟨h, le_rfl, rfl⟩ produced
  exact ⟨ha, hg, hoff, hst⟩

theorem Assembled.frame_kept (h : Assembled S cov drained s)
    (hold : ∀ i, Spans off data i → i < s.offset ∨
      ∃ off' v, s.gapBuffer.get? off' = some v ∧ off' ≤ i ∧ i < off' + v.length) :
    Assembled S (withFrame cov off data) drained s := by
  refine ⟨h.delivered, h.le_length, fun i hi => .inl (h.below i hi), fun off' v hget => ?_, ?_⟩
  · obtain ⟨hat, hcov⟩ := h.staged off' v hget
    exact ⟨hat, fun i hlo hhi => .inl (hcov i hlo hhi)⟩
  · rintro i (hi | hi)
    · exact h.kept i hi
    · exact hold i hi

theorem Assembled.congr (h : Assembled S cov drained s) {t : RecvStream} (hb : t.buffer = s.buffer)
    (ho : t.offset = s.offset) (hg : t.gapBuffer = s.gapBuffer) : Assembled S cov drained t := by
  refine ⟨by rw [hb, ho, h.delivered], ho ▸ h.le_length, fun i hi => h.below i (ho ▸ hi),
    fun off v hget => h.staged off v (hg ▸ hget), fun i hi => ?_⟩
  rw [ho, hg]
  exact h.kept i hi

theorem Assembled.stage (h : Assembled S cov drained s) (hg : s.Gapped)
    (hat : At S off data) (hoff : s.offset < off) :
    Assembled S (withFrame cov off data) drained (s.stage off data) ∧ (s.stage off data).Gapped := by
  unfold RecvStream.stage
  split_ifs with hnil hkeep
  · -- an empty frame covers nothing
    refine ⟨h.frame_kept fun i hi => ?_, hg⟩
    rw [Spans, hnil, length_nil] at hi
    omega
  · refine ⟨⟨h.delivered, h.le_length, fun i hi => .inl (h.below i hi), ?_, ?_⟩, ?_⟩
    · intro off' v hget
      rw [get?_insert] at hget
      split_ifs at hget with heq
      · obtain rfl := Option.some.inj hget
        subst heq
        exact ⟨hat, fun i hlo hhi => .inr ⟨hlo, hhi⟩⟩
      · obtain ⟨hat', hcov⟩ := h.staged off' v hget
        exact ⟨hat', fun i hlo hhi => .inl (hcov i hlo hhi)⟩
    · rintro i (hi | ⟨hlo, hhi⟩)
      · rcases h.kept i hi with hlt | ⟨off', v, hget, hlo, hhi⟩
        · exact .inl hlt
        · right
          by_cases heq : off' = off
          · -- the longer frame covers what the shorter one did
            subst heq
            rw [hget] at hkeep
            refine ⟨off', data, by simp, hlo, ?_⟩
            have : v.length < data.length := by simpa using hkeep
            omega
          · exact ⟨off', v, by simp [heq, hget], hlo, hhi⟩
      · exact .inr ⟨off, data, by simp, hlo, hhi⟩
    · intro off' v hget
      rw [get?_insert] at hget
      split_ifs at hget with heq
      · exact heq ▸ hoff
      · exact hg off' v hget
  · -- the frame kept in its place is at least as long
    refine ⟨h.frame_kept fun i hi => .inr ?_, hg⟩
    rcases hget : s.gapBuffer.get? off with _ | v
    · simp [hget] at hkeep
    · rw [hget] at hkeep
      have hlen : data.length ≤ v.length := by simpa using hkeep
      exact ⟨off, v, hget, hi.1, lt_of_lt_of_le hi.2 (by omega)⟩

/-- The lifecycle agrees with whether the FIN has been seen. -/
structure Ended (n : ℕ) (fin : Prop) (s : RecvStream) : Prop where
  finOffset : ∀ f, s.finOffset = some f ↔ fin ∧ f = n
  isClosed : s.isClosed = true ↔ fin ∧ n ≤ s.offset

variable {n : ℕ} {fin : Prop}

theorem Ended.recordFin {fin' : Prop} (h : Ended n fin s) {s' : RecvStream} (hst : s'.state = s.state)
    (hfin' : fin') : Ended n fin' (s'.recordFin n) := by
  have hfin : s'.finOffset.elim n (max · n) = n := by
    rcases hf : s'.finOffset with _ | f
    · rfl
    · have hf' : s.finOffset = some f := by rw [← hf, RecvStream.finOffset, RecvStream.finOffset, hst]
      simp [((h.finOffset f).1 hf').2]
  simp only [RecvStream.recordFin, hfin]
  by_cases hle : n ≤ s'.offset
  · rw [if_pos hle]
    exact ⟨fun f => by simp [RecvStream.finOffset, hfin', eq_comm],
      by simp [RecvStream.isClosed, hfin', hle]⟩
  · rw [if_neg hle]
    exact ⟨fun f => by simp [RecvStream.finOffset, hfin', eq_comm],
      by simp [RecvStream.isClosed, hfin', hle]⟩

theorem Ended.maybeClose (h : Ended n fin s) {s' : RecvStream} (hst : s'.state = s.state)
    (hoff : s.offset ≤ s'.offset) : Ended n fin s'.maybeClose := by
  have hf := h.finOffset
  have hc := h.isClosed
  unfold RecvStream.finOffset at hf
  unfold RecvStream.isClosed at hc
  unfold RecvStream.maybeClose
  rw [hst]
  rcases hstate : s.state with _ | f | f
  · have hnot : ¬ fin := fun hfin => by simpa [hstate] using (hf n).2 ⟨hfin, rfl⟩
    exact ⟨fun f => by simp [RecvStream.finOffset, hst, hstate, hnot],
      by simp [RecvStream.isClosed, hst, hstate, hnot]⟩
  · obtain ⟨hfin, rfl⟩ := (hf f).1 (by rw [hstate])
    dsimp only
    split_ifs with hle
    · exact ⟨fun g => by simp [RecvStream.finOffset, hfin, eq_comm],
        by simp [RecvStream.isClosed, hfin, hle]⟩
    · exact ⟨fun g => by simp [RecvStream.finOffset, hst, hstate, hfin, eq_comm],
        by simp [RecvStream.isClosed, hst, hstate, hfin, hle]⟩
  · obtain ⟨hfin, rfl⟩ := (hf f).1 (by rw [hstate])
    have hle : f ≤ s.offset := (hc.1 (by rw [hstate])).2
    exact ⟨fun g => by simp [RecvStream.finOffset, hst, hstate, hfin, eq_comm],
      by simp [RecvStream.isClosed, hst, hstate, hfin, hle.trans hoff]⟩

/-- Nothing lies past `B`, and what is buffered was counted. -/
structure Within (B : ℕ) (s : RecvStream) : Prop where
  offset_le : s.offset ≤ B
  staged : ∀ off v, s.gapBuffer.get? off = some v → off + v.length ≤ B
  buffer_le : s.buffer.length ≤ s.offset

/-- Bytes before `B` are taken in, nothing is drained, no limit changes. -/
structure Grows (B : ℕ) (s s' : RecvStream) : Prop where
  within : s'.Within B
  offset_le : s.offset ≤ s'.offset
  consumed : s'.consumed = s.consumed
  recvMax : s'.recvMax = s.recvMax
  recvHigh : s'.recvHigh = s.recvHigh

variable {B : ℕ}

theorem Grows.refl (h : s.Within B) : Grows B s s := ⟨h, le_rfl, rfl, rfl, rfl⟩

theorem Grows.trans {s' s'' : RecvStream} (h : Grows B s s') (h' : Grows B s' s'') : Grows B s s'' :=
  ⟨h'.within, h.offset_le.trans h'.offset_le, h'.consumed.trans h.consumed, h'.recvMax.trans h.recvMax,
    h'.recvHigh.trans h.recvHigh⟩

theorem Grows.withState {s' : RecvStream} (h : Grows B s s') (st : RecvState) :
    Grows B s { s' with state := st } :=
  ⟨⟨h.within.offset_le, h.within.staged, h.within.buffer_le⟩, h.offset_le, h.consumed, h.recvMax,
    h.recvHigh⟩

theorem Within.grows_append (h : s.Within B) (tail : Bytes) (hle : s.offset + tail.length ≤ B) :
    Grows B s { s with buffer := s.buffer ++ tail, offset := s.offset + tail.length } := by
  have hbuf := h.buffer_le
  refine ⟨⟨hle, h.staged, ?_⟩, Nat.le_add_right _ _, ?_, rfl, rfl⟩
  · simp only [length_append]
    omega
  · simp only [consumed, length_append]
    omega

variable {data : Bytes} {off : ℕ} {r : Reader}

theorem Within.grows_absorb (h : s.Within B) {v : Bytes} (hget : s.gapBuffer.get? off = some v)
    (hle : off ≤ s.offset) : Grows B s (s.absorb off v) := by
  have hend := h.staged off v hget
  have htail : s.offset + (v.drop (s.offset - off)).length ≤ B := by
    have := h.offset_le
    rw [length_drop]
    omega
  have hg := h.grows_append _ htail
  refine ⟨⟨htail, fun off' v' hget' => ?_, hg.within.buffer_le⟩, hg.offset_le, hg.consumed, rfl, rfl⟩
  rw [absorb, get?_erase] at hget'
  split_ifs at hget'
  exact h.staged off' v' hget'

theorem Within.grows_foldGaps (h : s.Within B) (produced : Bool) :
    let s' := (foldGaps s.gapBuffer.size s produced).1
    Grows B s s' ∧ s'.state = s.state :=
  (foldGaps_rec (I := fun t => Grows B s t ∧ t.state = s.state)
    (fun _ _ _ hget hle ht => ⟨ht.1.trans (ht.1.within.grows_absorb hget hle), ht.2⟩)
    s.gapBuffer.size le_rfl ⟨.refl h, rfl⟩ produced).1

theorem Within.grows_stage (h : s.Within B) (off : ℕ) (data : Bytes) (hle : off + data.length ≤ B) :
    Grows B s (s.stage off data) ∧ (s.stage off data).state = s.state := by
  unfold stage
  split_ifs
  · exact ⟨.refl h, rfl⟩
  · refine ⟨⟨⟨h.offset_le, fun off' v hget => ?_, h.buffer_le⟩, le_rfl, rfl, rfl, rfl⟩, rfl⟩
    rw [get?_insert] at hget
    split_ifs at hget with heq
    · obtain rfl : data = v := Option.some.inj hget
      rw [heq]
      exact hle
    · exact h.staged off' v hget
  · exact ⟨.refl h, rfl⟩

theorem Within.ingest_cases (h : s.Within B) (hle : off + data.length ≤ B)
    (f : Bool) : ∃ s', Grows B s s' ∧ s'.state = s.state ∧
      (f = true ∧ (s.ingest off data f).1 = s'.recordFin (off + data.length) ∨
        f = false ∧ ((s.ingest off data f).1 = s'.maybeClose ∨ (s.ingest off data f).1 = s)) := by
  by_cases hstale : off + data.length ≤ s.offset
  · refine ⟨s, .refl h, rfl, ?_⟩
    cases f with
    | true => exact .inl ⟨rfl, by simp [ingest, hstale]⟩
    | false => exact .inr ⟨rfl, .inr (by simp [ingest, hstale])⟩
  · have hskip : off + (s.offset - off) + (data.drop (s.offset - off)).length = off + data.length := by
      rw [length_drop]
      omega
    suffices hmid : ∃ s' produced, Grows B s s' ∧ s'.state = s.state ∧ s.ingest off data f =
        (if f then s'.recordFin (off + data.length) else s'.maybeClose, produced) by
      obtain ⟨s', produced, hg, hst, heq⟩ := hmid
      refine ⟨s', hg, hst, ?_⟩
      rw [heq]
      cases f with
      | true => exact .inl ⟨rfl, rfl⟩
      | false => exact .inr ⟨rfl, .inl rfl⟩
    simp only [ingest, if_neg hstale, hskip]
    by_cases hcont : off + (s.offset - off) = s.offset
    · rw [if_pos hcont]
      have hg := h.grows_append (data.drop (s.offset - off)) (by omega)
      obtain ⟨hrest, hst⟩ := hg.within.grows_foldGaps (!(data.drop (s.offset - off)).isEmpty)
      exact ⟨_, _, hg.trans hrest, hst, rfl⟩
    · rw [if_neg hcont]
      obtain ⟨hg, hst⟩ := h.grows_stage (off + (s.offset - off)) (data.drop (s.offset - off)) (by omega)
      exact ⟨_, _, hg, hst, rfl⟩

theorem Within.grows_ingest (h : s.Within B) (hle : off + data.length ≤ B)
    (f : Bool) : Grows B s (s.ingest off data f).1 := by
  obtain ⟨s', hg, -, ⟨-, heq⟩ | ⟨-, heq | heq⟩⟩ := h.ingest_cases hle f <;> rw [heq]
  · exact hg.withState _
  · unfold maybeClose
    split
    · split_ifs
      · exact hg.withState _
      · exact hg
    · exact hg
  · exact .refl h

/-- A call on the stream. -/
inductive Call where
  | ingest (offset : ℕ) (data : Bytes) (fin : Bool)
  | drain (room : ℕ)

def Call.Agrees (S : Bytes) : Call → Prop
  | .ingest off data fin => At S off data ∧ (fin = true → off + data.length = S.length)
  | .drain _ => True

structure Reader where
  stream : RecvStream := {}
  drained : Bytes := []

def Reader.step (r : Reader) : Call → Reader
  | .ingest off data fin => { r with stream := (r.stream.ingest off data fin).1 }
  | .drain room =>
    let d := r.stream.drain room
    ⟨d.1, r.drained ++ d.2.1⟩

/-- Some frame among the calls covers position `i`. -/
def Covered (calls : List Call) (i : ℕ) : Prop :=
  ∃ off data fin, Call.ingest off data fin ∈ calls ∧ Spans off data i

/-- Some frame among the calls carries the FIN. -/
def FinIngested (calls : List Call) : Prop := ∃ off data, Call.ingest off data true ∈ calls

/-- What was read is the front of `S`, and what is held is of `S`. -/
structure Good (S : Bytes) (cov : ℕ → Prop) (fin : Prop) (r : Reader) : Prop where
  assembled : Assembled S cov r.drained r.stream
  gapped : r.stream.Gapped
  ended : Ended S.length fin r.stream

theorem Good.ingest (h : Good S cov fin r) {f : Bool}
    (hat : At S off data) (hend : f = true → off + data.length = S.length) :
    Good S (withFrame cov off data) (fin ∨ f = true) (r.step (.ingest off data f)) := by
  obtain ⟨ha, hg, he⟩ := h
  have hfin : ∀ {s' : RecvStream}, s'.state = r.stream.state → r.stream.offset ≤ s'.offset →
      Ended S.length (fin ∨ f = true)
        (if f then s'.recordFin (off + data.length) else s'.maybeClose) := by
    intro s' hst hoff
    cases f with
    | true =>
      rw [if_pos rfl, hend rfl]
      exact he.recordFin hst (.inr rfl)
    | false => simpa using he.maybeClose hst hoff
  by_cases hstale : off + data.length ≤ r.stream.offset
  · -- nothing new but perhaps the FIN
    have hcov : Assembled S (withFrame cov off data) r.drained r.stream :=
      ha.frame_kept fun i hi => .inl (lt_of_lt_of_le hi.2 hstale)
    have hstep : r.step (.ingest off data f) =
        { r with stream := if f then r.stream.recordFin (off + data.length) else r.stream } := by
      simp [Reader.step, RecvStream.ingest, hstale]
    rw [hstep]
    cases f with
    | true =>
      refine ⟨hcov.congr rfl rfl rfl, hg, ?_⟩
      rw [if_pos rfl, hend rfl]
      exact he.recordFin rfl (.inr rfl)
    | false => exact ⟨hcov, hg, by simpa using he⟩
  · have hskip : off + (r.stream.offset - off) + (data.drop (r.stream.offset - off)).length =
        off + data.length := by
      rw [List.length_drop]
      omega
    suffices hmid : ∃ s' : RecvStream, Assembled S (withFrame cov off data) r.drained s' ∧ s'.Gapped ∧
        r.stream.offset ≤ s'.offset ∧ s'.state = r.stream.state ∧
        (r.stream.ingest off data f).1 =
          if f then s'.recordFin (off + data.length) else s'.maybeClose by
      obtain ⟨s', ha', hg', hoff, hst, heq⟩ := hmid
      have hsame : ∀ t : RecvStream, t.buffer = s'.buffer ∧ t.offset = s'.offset ∧
          t.gapBuffer = s'.gapBuffer → Ended S.length (fin ∨ f = true) t →
          Good S (withFrame cov off data) (fin ∨ f = true) { r with stream := t } :=
        fun t ⟨hb, ho, hgap⟩ hend => ⟨ha'.congr hb ho hgap,
          fun o v hget => ho ▸ hg' o v (hgap ▸ hget), hend⟩
      show Good S _ _ { r with stream := (r.stream.ingest off data f).1 }
      rw [heq]
      refine hsame _ ?_ (hfin hst hoff)
      cases f with
      | true => exact ⟨rfl, rfl, rfl⟩
      | false =>
        simp only [Bool.false_eq_true, if_false, RecvStream.maybeClose]
        split
        · split_ifs <;> exact ⟨rfl, rfl, rfl⟩
        · exact ⟨rfl, rfl, rfl⟩
    by_cases hoff : off ≤ r.stream.offset
    · have hcont : off + (r.stream.offset - off) = r.stream.offset := by omega
      have happ := ha.append hat hoff
      obtain ⟨h1, h2, h3, h4⟩ := foldGaps_assembled r.stream.gapBuffer.size happ le_rfl
        (!(data.drop (r.stream.offset - off)).isEmpty)
      refine ⟨_, h1, h2, le_trans (Nat.le_add_right _ _) h3, h4, ?_⟩
      simp only [RecvStream.ingest, if_neg hstale, hskip]
      rw [if_pos hcont]
    · have hz : r.stream.offset - off = 0 := by omega
      obtain ⟨h1, h2⟩ := ha.stage hg hat (not_le.1 hoff)
      have hst : (r.stream.stage off data).state = r.stream.state ∧
          (r.stream.stage off data).offset = r.stream.offset := by
        unfold RecvStream.stage
        split_ifs <;> exact ⟨rfl, rfl⟩
      refine ⟨_, h1, h2, hst.2.ge, hst.1, ?_⟩
      have hne : ¬ off = r.stream.offset := by omega
      simp only [RecvStream.ingest, if_neg hstale, hz, Nat.add_zero, List.drop_zero, if_neg hne]

theorem Good.drain (h : Good S cov fin r) (room : ℕ) :
    Good S cov fin (r.step (.drain room)) := by
  obtain ⟨ha, hg, he⟩ := h
  refine ⟨⟨?_, ha.le_length, ha.below, ha.staged, ha.kept⟩, hg, ⟨he.finOffset, he.isClosed⟩⟩
  show r.drained ++ r.stream.buffer.take _ ++ r.stream.buffer.drop _ = S.take r.stream.offset
  rw [append_assoc, take_append_drop, ha.delivered]

theorem good_init (S : Bytes) : Good S (fun _ => False) False {} where
  assembled := ⟨by simp, Nat.zero_le _, fun i hi => absurd hi (Nat.not_lt_zero i),
    fun off v hget => by simp at hget, fun i hi => hi.elim⟩
  gapped := fun off v hget => by simp at hget
  ended := ⟨fun f => by simp [finOffset], by simp [isClosed]⟩

theorem Good.congr {cov' : ℕ → Prop} {fin' : Prop} (h : Good S cov fin r)
    (hcov : ∀ i, cov i ↔ cov' i) (hfin : fin ↔ fin') : Good S cov' fin' r := by
  obtain rfl : cov = cov' := funext fun i => propext (hcov i)
  obtain rfl : fin = fin' := propext hfin
  exact h

theorem good_run (calls : List Call) (hagree : ∀ c ∈ calls, c.Agrees S) :
    Good S (Covered calls) (FinIngested calls) (calls.foldl Reader.step {}) := by
  induction calls using reverseRecOn with
  | nil => exact (good_init S).congr (by simp [Covered]) (by simp [FinIngested])
  | append_singleton calls c ih =>
    have hrest := ih fun d hd => hagree d (mem_append_left _ hd)
    have hc := hagree c (mem_append_right _ mem_cons_self)
    rw [foldl_append]
    cases c with
    | ingest off data f =>
      refine (hrest.ingest hc.1 hc.2).congr (fun i => ?_) ?_
      · simp only [withFrame, Covered, mem_append, mem_singleton, Call.ingest.injEq]
        constructor
        · rintro (⟨o, d, g, hmem, hspan⟩ | hspan)
          · exact ⟨o, d, g, .inl hmem, hspan⟩
          · exact ⟨off, data, f, .inr ⟨rfl, rfl, rfl⟩, hspan⟩
        · rintro ⟨o, d, g, hmem | ⟨rfl, rfl, rfl⟩, hspan⟩
          · exact .inl ⟨o, d, g, hmem, hspan⟩
          · exact .inr hspan
      · simp only [FinIngested, mem_append, mem_singleton, Call.ingest.injEq]
        constructor
        · rintro (⟨o, d, hmem⟩ | rfl)
          · exact ⟨o, d, .inl hmem⟩
          · exact ⟨off, data, .inr ⟨rfl, rfl, rfl⟩⟩
        · rintro ⟨o, d, hmem | ⟨rfl, rfl, h⟩⟩
          · exact .inl ⟨o, d, hmem⟩
          · exact .inr h.symm
    | drain room =>
      refine (hrest.drain room).congr (fun i => ?_) ?_
      · simp [Covered]
      · simp [FinIngested]

/-- **Reassembly is exact**, and a drain reports the end when all is covered and drained. -/
theorem reassembly_exact (S : Bytes) (calls : List Call) (hagree : ∀ c ∈ calls, c.Agrees S) :
    let r := calls.foldl Reader.step {}
    r.drained ++ r.stream.buffer = S.take r.stream.offset ∧
    IsGreatest {k | k ≤ S.length ∧ ∀ i < k, Covered calls i} r.stream.offset ∧
    ∀ room, (r.stream.drain room).2.2 = true ↔
      FinIngested calls ∧ (∀ i < S.length, Covered calls i) ∧
        (r.step (.drain room)).drained.length = S.length := by
  obtain ⟨ha, hg, he⟩ := good_run calls hagree
  set r := calls.foldl Reader.step {} with hr
  have hnot : ¬ Covered calls r.stream.offset := fun hcov => by
    rcases ha.kept _ hcov with hlt | ⟨off, v, hget, hlo, -⟩
    · exact lt_irrefl _ hlt
    · exact absurd (hg off v hget) (not_lt.2 hlo)
  have hgreatest : IsGreatest {k | k ≤ S.length ∧ ∀ i < k, Covered calls i} r.stream.offset := by
    refine ⟨⟨ha.le_length, ha.below⟩, fun k hk => ?_⟩
    by_contra hlt
    exact hnot (hk.2 _ (not_le.1 hlt))
  refine ⟨ha.delivered, hgreatest, fun room => ?_⟩
  have hlen : r.drained.length + r.stream.buffer.length = r.stream.offset := by
    have := congrArg length ha.delivered
    rw [length_append, length_take, min_eq_left ha.le_length] at this
    exact this
  have heof : (r.stream.drain room).2.2 = true ↔
      r.stream.isClosed = true ∧ r.stream.buffer.drop (min room r.stream.buffer.length) = [] := by
    rw [drain, Bool.and_eq_true, List.isEmpty_iff]
    rfl
  have hdrained : (r.step (.drain room)).drained.length =
      r.drained.length + min room r.stream.buffer.length := by
    simp [Reader.step, drain]
  rw [heof, he.isClosed, drop_eq_nil_iff, hdrained]
  have hle := ha.le_length
  constructor
  · rintro ⟨⟨hfin, hn⟩, hall⟩
    exact ⟨hfin, fun i hi => ha.below i (lt_of_lt_of_le hi hn), by omega⟩
  · rintro ⟨hfin, hcov, hall⟩
    have hn : S.length ≤ r.stream.offset := hgreatest.2 ⟨le_rfl, hcov⟩
    exact ⟨⟨hfin, hn⟩, by omega⟩

/-- Two overlapping frames in reverse order, and the FIN alone. -/
theorem reassembly_exact_reordered :
    let calls := [Call.ingest 2 [3, 4, 5] false, .ingest 2 [3] false, .ingest 5 [] true,
      .ingest 0 [1, 2, 3] false]
    (calls.foldl Reader.step {}).stream.buffer = [1, 2, 3, 4, 5] ∧
      IsGreatest {k | k ≤ 5 ∧ ∀ i < k, Covered calls i} 5 := by
  intro calls
  have h := reassembly_exact [1, 2, 3, 4, 5] calls (by
    simp [calls, Call.Agrees, At])
  exact ⟨by decide, h.2.1⟩

end RecvStream

end Waitless.Quic
