import Waitless.PoolInvariant

/-! # Moves of the pool

Every operation of the engine is a sequence of moves on the pool: a connection method at one slot, a
free, the claim of a taken slot, a failed connect, an accept. `Move` lists them with the facts that
hold when the engine makes them. They keep the invariant of the pool (`Steps.poolInv`), and the
lemmas `..._steps` say that each operation is a sequence of them. -/

namespace Waitless.Tcp

variable {κ : Type} [CongestionControl κ]

namespace Core

/-- One move of the pool. The index counts the slots it frees. -/
inductive Move : ℕ → Core κ → Core κ → Prop
  /-- rings, listener map, buckets and the wire -/
  | house {s s' : Core κ} (slots : s'.slots = s.slots) (segments : s'.segments = s.segments)
      (freeHead : s'.freeHead = s.freeHead) (hash : s'.hash = s.hash)
      (tickHead : s'.tickHead = s.tickHead) : Move 0 s s'
  /-- a change the pool does not see -/
  | quiet {s : Core κ} {i : ℕ} {l' : Local κ} (h : Quiet (s.localAt i) l') : Move 0 s (s.putLocal i l')
  /-- a method that keeps the state -/
  | keep {s : Core κ} {i : ℕ} {l' : Local κ} (hi : i < s.capacity) (hown : (s.slots i).Owned)
      (h : Keep (s.localAt i) l') : Move 0 s (s.putLocal i l')
  /-- the answer to an active open -/
  | synAnswer {s : Core κ} {i : ℕ} {seg : Segment} {now : ℕ} (hi : i < s.capacity)
      (hst : (s.slots i).state = .synSent) :
      Move 0 s (s.putLocal i ((s.localAt i).handleSynSent seg now))
  /-- the FIN of `close` -/
  | fin {s : Core κ} {i : ℕ} {l' : Local κ} {now : ℕ} (hi : i < s.capacity)
      (held : (s.slots i).Held) (h : (s.localAt i).close now = some l') : Move 0 s (s.putLocal i l')
  | free {s : Core κ} {i : ℕ} (hi : i < s.capacity) (hown : (s.slots i).Owned) :
      Move 1 s (s.freeConnection i)
  | failConnect {s : Core κ} {i : ℕ} {failure : ConnectFailure} (hi : i < s.capacity)
      (hst : (s.slots i).state = .synSent) (hf : failure ≠ .none) : Move 0 s (s.failConnect i failure)
  | accept {s : Core κ} {i : ℕ} {port : UInt16} (h : Acceptable (s.slots i) port) :
      Move 0 s (s.setSlot i { s.slots i with accepted := true })
  | grow {s s' : Core κ} {ok : Bool} (h : s.growSegment ok = some s') : Move 0 s s'
  /-- a taken slot becomes a listener -/
  | listen {s : Core κ} {port : UInt16} (h : s.freeHead ≠ nullSlot) :
      Move 0 s (s.take.setSlot s.freeHead
        { s.take.slots s.freeHead with state := .listen, localPort := port })
  /-- a taken slot goes straight back -/
  | giveBack {s : Core κ} (h : s.freeHead ≠ nullSlot) : Move 1 s (s.take.freeConnection s.freeHead)

/-- An inbound segment at the live connection in slot `i`. -/
structure Arrival (s s' : Core κ) (i : ℕ) (seg : Segment) (l' : Local κ) (established : Bool) :
    Prop where
  lt : i < s.capacity
  live : (s.slots i).Live
  arrives : ∃ now reserved, (s.localAt i).segmentArrives seg now reserved = (l', .done established)
  core : s' = s.putLocal i l'

/-- A taken slot becomes a connection in the hash. -/
structure Claim (s s' : Core κ) (c : TcpConnection κ) : Prop where
  head : s.freeHead ≠ nullSlot
  slotLink : c.toSlotLink = (s.take.slots s.freeHead).toSlotLink
  tickLink : c.toTickLink = (s.take.slots s.freeHead).toTickLink
  deadlines : c.toDeadlines = .none
  state : (c.state = .synReceived ∧ c.accepted = false) ∨ (c.state = .synSent ∧ c.accepted = true)
  core : s' = (s.take.setSlot s.freeHead c).tcpHashInsert (keyOf c) s.freeHead

/-- A slot leaves the armed list, or its link changes. -/
structure Relink (s s' : Core κ) (i : ℕ) (tick : TickLink) : Prop where
  stays : tick.tickInList = true → (s.slots i).tickInList = true
  tickNext : i < s.capacity → s.Link tick.tickNext
  slots : s'.slots = Function.update s.slots i { s.slots i with toTickLink := tick }
  tickHead : s.Link s'.tickHead
  segments : s'.segments = s.segments
  freeHead : s'.freeHead = s.freeHead
  hash : s'.hash = s.hash

variable {established : Bool} {i : ℕ} {l' : Local κ} {s s' : Core κ}

omit [CongestionControl κ] in
theorem PoolInv.touch (hs : s.PoolInv none)
    (hi : i < s.capacity) (hown : (s.slots i).Owned) (ht : Touch (s.localAt i) l')
    (hown' : l'.conn.Owned) : (s.putLocal i l').PoolInv none := by
  refine hs.change (i := i) (c := l'.conn) ⟨ht.slotLink, ?_, by simp, by simp, ?_, fun _ => ?_⟩
    rfl rfl rfl hs.hash ?_
  · simp only [reduceCtorEq, or_false]
    exact ⟨fun _ => hown, fun _ => hown'⟩
  · intro _ hno
    exact absurd hown' hno
  · rcases ht.links with ⟨h, -⟩ | ⟨-, h, -⟩
    · rw [congrArg TickLink.tickNext h]
      exact hs.tickNext i hi
    · rw [congrArg TickLink.tickNext h]
      exact hs.tickHead
  · rcases ht.links with ⟨-, h⟩ | ⟨-, -, h⟩
    · rw [putLocal_tickHead, h]
      exact hs.tickHead
    · rw [putLocal_tickHead, h]
      exact .inr (by rw [localAt_conn, hs.slotIndex i hi]; exact hi)

theorem AckStep_ne_closed {st mid st' : TcpState} (hst : st ≠ .closed)
    (h : Local.AckStep established st mid) (h' : st' = mid ∨ st' = Local.finState mid) :
    st' ≠ .closed ∧ (st ≠ .listen → st' ≠ .listen) := by
  have hmid : mid ≠ .closed ∧ (st ≠ .listen → mid ≠ .listen) := by
    unfold Local.AckStep at h
    split at h
    · simp [h.2]
    · rcases h with rfl | ⟨rfl, rfl⟩
      · exact ⟨hst, id⟩
      · simp
  rcases h' with rfl | rfl
  · exact hmid
  · cases mid <;> simp_all [Local.finState]

theorem Move.poolInv {w : ℕ} (h : Move w s s') (hs : s.PoolInv none) :
    s'.PoolInv none := by
  cases h with
  | house slots segments freeHead hash tickHead =>
    have hcap : s'.capacity = s.capacity := by simp [capacity, segments]
    refine ⟨?_, ?_, ?_, ?_, ?_, ?_, ?_, ?_, ?_, ?_⟩
    all_goals simp only [slots, segments, freeHead, hash, tickHead, hcap, Link]
    exacts [hs.freeList, hs.unlinked, hs.transit_lt, hs.outside, hs.slotIndex, hs.clean, hs.tickHead,
      hs.tickNext, hs.hash, hs.segments]
  | @quiet _ i l' h =>
    obtain ⟨hf, hd⟩ := h
    simp only [Local.frame, Frame.mk.injEq, localAt_conn, localAt_tickHead] at hf
    obtain ⟨h1, -, -, h4, h5, h6, h7⟩ := hf
    have hown : l'.conn.Owned ↔ (s.slots i).Owned := by
      unfold TcpConnection.Owned
      rw [h4, h5]
    refine hs.change (i := i) (c := l'.conn) ⟨h1, by simp [hown], by simp, by simp, ?_, ?_⟩
      rfl rfl rfl hs.hash ?_
    · intro hi hno
      rw [hown] at hno
      rw [TcpConnection.Armed, hd, congrArg TickLink.tickInList h6]
      exact hs.clean i hi hno
    · intro hi
      rw [congrArg TickLink.tickNext h6]
      exact hs.tickNext i hi
    · rw [putLocal_tickHead, h7]
      exact hs.tickHead
  | keep hi hown h =>
    refine hs.touch hi hown h.1 ?_
    unfold TcpConnection.Owned at hown ⊢
    rwa [h.2, h.1.connectFailure]
  | @synAnswer _ i seg now hi hst =>
    obtain ⟨ht, hst'⟩ := Local.handleSynSent_touch (s.localAt i) seg now
    refine hs.touch hi (.inl (by simp [hst])) ht (.inl ?_)
    rcases hst' with h | h
    · rw [h, localAt_conn, hst]
      simp
    · rw [h]
      simp
  | fin hi held h =>
    obtain ⟨ht, hst⟩ := Local.close_touch h
    rcases hst with ⟨h1, h2⟩ | ⟨h1, h2⟩
    · exact hs.touch hi (.inl (by rw [← localAt_conn, h1]; simp)) ht (.inl (by simp [h2]))
    · exact hs.touch hi (.inl (by rw [← localAt_conn, h1]; simp)) ht (.inl (by simp [h2]))
  | free hi hown => exact hs.freeConnection hi (.inl ⟨hown, rfl⟩)
  | @failConnect _ i failure hi hst hf =>
    have hown : (s.slots i).Owned := .inl (by simp [hst])
    refine hs.change (i := i) (c := { s.slots i with
        connectFailure := failure, state := .closed, lifecycleDeadlineMs := 0, finRetxCount := 0,
        rttAnchorActive := false, sendWaker := false, recvWaker := false })
      ⟨rfl, ?_, by simp, by simp, ?_, fun hi => hs.tickNext i hi⟩ rfl rfl rfl (hs.hash.remove _)
      hs.tickHead
    · simp only [reduceCtorEq, or_false]
      exact ⟨fun _ => hown, fun _ => .inr hf⟩
    · exact fun _ hno => absurd (.inr hf) hno
  | @accept _ i port h =>
    exact hs.change (i := i) (c := { s.slots i with accepted := true })
      ⟨rfl, .rfl, by simp, by simp, fun hi hno => hs.clean i hi hno, fun hi => hs.tickNext i hi⟩
      rfl rfl rfl hs.hash hs.tickHead
  | grow h => exact hs.growSegment h
  | @listen _ port h =>
    have ht := hs.take h
    refine ht.change (i := s.freeHead)
      (c := { s.take.slots s.freeHead with state := .listen, localPort := port })
      ⟨rfl, ?_, ?_, by simp, ?_, fun hi => ht.tickNext _ hi⟩ rfl rfl rfl ht.hash ht.tickHead
    · simp only [reduceCtorEq, or_false, or_true, iff_true]
      exact .inl (by simp)
    · intro j hj
      simp [Ne.symm hj]
    · exact fun _ hno => absurd (.inl (by simp)) hno
  | giveBack h => exact (hs.take h).freeConnection (hs.head h).1 (.inr rfl)

theorem Arrival.touch {seg : Segment}
    (h : Arrival s s' i seg l' established) : Touch (s.localAt i) l' ∧ ∃ mid,
      Local.AckStep established (s.slots i).state mid ∧
        (l'.conn.state = mid ∨ l'.conn.state = Local.finState mid) := by
  obtain ⟨now, reserved, harr⟩ := h.arrives
  exact Local.segmentArrives_touch harr

theorem Arrival.poolInv {seg : Segment}
    (h : Arrival s s' i seg l' established) (hs : s.PoolInv none) : s'.PoolInv none := by
  obtain ⟨ht, mid, hack, hst⟩ := h.touch
  rw [h.core]
  exact hs.touch h.lt h.live.owned ht (.inl (AckStep_ne_closed h.live.1 hack hst).1)

theorem Claim.poolInv {c : TcpConnection κ} (h : Claim s s' c)
    (hs : s.PoolInv none) : s'.PoolInv none := by
  have ht := hs.take h.head
  have hown : c.Owned := .inl (by rcases h.state with h | h <;> simp [h.1])
  rw [h.core]
  refine ht.change (i := s.freeHead) (c := c) ⟨h.slotLink, ?_, ?_, by simp, ?_, fun hi => ?_⟩
    rfl rfl rfl ?_ ht.tickHead
  · simp [hown]
  · intro j hj
    simp [Ne.symm hj]
  · exact fun _ hno => absurd hown hno
  · rw [congrArg TickLink.tickNext h.tickLink]
    exact ht.tickNext _ hi
  · exact ht.hash.insert (hs.head h.head).1

omit [CongestionControl κ] in
theorem Relink.poolInv {tick : TickLink} (h : Relink s s' i tick)
    (hs : s.PoolInv none) : s'.PoolInv none := by
  refine hs.change (i := i) (c := { s.slots i with toTickLink := tick })
    ⟨rfl, .rfl, by simp, by simp, fun hi hno => ?_, fun hi => ?_⟩ h.slots h.freeHead h.segments
    (h.hash ▸ hs.hash) h.tickHead
  · obtain ⟨ha, hl⟩ := hs.clean i hi hno
    refine ⟨ha, ?_⟩
    by_contra hin
    have := h.stays (by simpa using hin)
    rw [hl] at this
    cases this
  · exact h.tickNext hi

/-- Moves and extra moves `A`; the index counts the slots freed. -/
inductive Steps (A : Core κ → Core κ → Prop) : ℕ → Core κ → Core κ → Prop
  | refl (s : Core κ) : Steps A 0 s s
  | move {n w : ℕ} {s s₁ s₂ : Core κ} : Steps A n s s₁ → Move w s₁ s₂ → Steps A (n + w) s s₂
  | extra {n : ℕ} {s s₁ s₂ : Core κ} : Steps A n s s₁ → A s₁ s₂ → Steps A n s s₂

def NoExtra (_ _ : Core κ) : Prop := False

def Claims (s s' : Core κ) : Prop := ∃ c, Claim s s' c

def Arrivals (s s' : Core κ) : Prop := ∃ i seg l' established, Arrival s s' i seg l' established

def Relinks (s s' : Core κ) : Prop := ∃ i tick, Relink s s' i tick

namespace Steps

variable {A B : Core κ → Core κ → Prop} {n m w : ℕ} {s s₁ s₂ : Core κ}

theorem of_move (h : Move w s s₁) : Steps A w s s₁ := by
  have := (refl (A := A) s).move h
  rwa [Nat.zero_add] at this

theorem trans (h : Steps A n s s₁) (h' : Steps A m s₁ s₂) : Steps A (n + m) s s₂ := by
  induction h' with
  | refl => exact h
  | move _ hm ih => exact Nat.add_assoc _ _ _ ▸ (ih h).move hm
  | extra _ ha ih => exact (ih h).extra ha

theorem mono (hAB : ∀ s s', A s s' → B s s') (h : Steps A n s s₁) : Steps B n s s₁ := by
  induction h with
  | refl => exact .refl _
  | move _ hm ih => exact ih.move hm
  | extra _ ha ih => exact ih.extra (hAB _ _ ha)

theorem of_noExtra (h : Steps NoExtra n s s₁) : Steps A n s s₁ := h.mono fun _ _ ha => ha.elim

theorem invariant {P : Core κ → Prop} (h : Steps A n s s₁)
    (hA : ∀ s s', A s s' → s.PoolInv none → s'.PoolInv none)
    (hmove : ∀ w s s', Move w s s' → s.PoolInv none → P s → P s')
    (hextra : ∀ s s', A s s' → s.PoolInv none → P s → P s')
    (hs : s.PoolInv none) (hp : P s) : s₁.PoolInv none ∧ P s₁ := by
  induction h with
  | refl => exact ⟨hs, hp⟩
  | move _ hm ih =>
    obtain ⟨hi, hp'⟩ := ih hs hp
    exact ⟨hm.poolInv hi, hmove _ _ _ hm hi hp'⟩
  | extra _ ha ih =>
    obtain ⟨hi, hp'⟩ := ih hs hp
    exact ⟨hA _ _ ha hi, hextra _ _ ha hi hp'⟩

theorem poolInv (h : Steps NoExtra n s s₁) (hs : s.PoolInv none) : s₁.PoolInv none :=
  (h.invariant (P := fun _ => True) (fun _ _ ha => ha.elim) (fun _ _ _ _ _ _ => trivial)
    (fun _ _ ha => ha.elim) hs trivial).1

end Steps

end Core

end Waitless.Tcp
