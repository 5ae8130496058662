import Waitless.PoolRuns

/-! # The life of one slot

What any sequence of moves can do to a single slot (`SlotStep`, `SlotArrival`, `Steps.slotPath`):
its generation changes exactly when it is freed, and between two frees the owner, the identity and
the accepted mark change only as the constructors of `SlotStep` say. -/

namespace Waitless.Tcp

variable {κ : Type}

namespace Core

def owner (c : TcpConnection κ) : UInt16 × Endpoints × Bool × ConnectFailure :=
  (c.generation, c.toEndpoints, c.accepted, c.connectFailure)

/-- One move, seen from a slot. The index counts its frees. -/
inductive SlotStep : ℕ → TcpConnection κ → TcpConnection κ → Prop
  | keep {c c' : TcpConnection κ} (owner : owner c' = owner c) (state : c'.state = c.state) :
      SlotStep 0 c c'
  | synAnswer {c c' : TcpConnection κ} (owner : owner c' = owner c) (before : c.state = .synSent)
      (state : c'.state = .synSent ∨ c'.state = .established) : SlotStep 0 c c'
  | fin {c c' : TcpConnection κ} (owner : owner c' = owner c) (held : c.Held)
      (state : (c.state = .established ∧ c'.state = .finWait1) ∨
        (c.state = .closeWait ∧ c'.state = .lastAck)) : SlotStep 0 c c'
  | fail {c c' : TcpConnection κ} (generation : c'.generation = c.generation)
      (endpoints : c'.toEndpoints = c.toEndpoints)
      (accepted : c'.accepted = c.accepted) (before : c.state = .synSent) (state : c'.state = .closed)
      (failure : c'.connectFailure ≠ .none) : SlotStep 0 c c'
  | accept {c c' : TcpConnection κ} {port : UInt16} (acceptable : Acceptable c port)
      (eq : c' = { c with accepted := true }) : SlotStep 0 c c'
  | claim {c c' : TcpConnection κ} (free : ¬c.Owned) (generation : c'.generation = c.generation)
      (state : c'.state = .listen ∨ (c'.state = .synReceived ∧ c'.accepted = false) ∨
        (c'.state = .synSent ∧ c'.accepted = true)) : SlotStep 0 c c'
  | freed {c c' : TcpConnection κ} (generation : c'.generation = c.generation + 1)
      (free : ¬c'.Owned) : SlotStep 1 c c'
  | blank {c c' : TcpConnection κ} (before : ¬c.Owned) (after : ¬c'.Owned)
      (generation : c'.generation = c.generation) : SlotStep 0 c c'

/-- The arrival of a segment, seen from the slot it is for. -/
structure SlotArrival (established : Bool) (c c' : TcpConnection κ) : Prop where
  owner : owner c' = owner c
  live : c.Live
  state : ∃ mid, Local.AckStep established c.state mid ∧
    (c'.state = mid ∨ c'.state = Local.finState mid)

theorem owner_of_touch {l l' : Local κ} (h : Touch l l') : owner l'.conn = owner l.conn := by
  unfold owner
  rw [congrArg SlotLink.generation h.slotLink, h.endpoints, h.accepted, h.connectFailure]

theorem SlotStep.refl (c : TcpConnection κ) : SlotStep 0 c c := .keep rfl rfl

theorem Bridged.slotStep {s s' : Core κ} {i j : ℕ} (h : Bridged s s' i j) :
    SlotStep 0 (s.slots j) (s'.slots j) := by
  rcases h with h | h
  · rw [h]
    exact .keep rfl rfl
  · rw [h]
    exact .keep rfl rfl

theorem slotStep_update {s s' : Core κ} {i : ℕ} {c : TcpConnection κ} {w : ℕ}
    (h : s'.slots = Function.update s.slots i c) (hc : SlotStep w (s.slots i) c) (j : ℕ) :
    ∃ v ≤ w, SlotStep v (s.slots j) (s'.slots j) := by
  rw [h]
  by_cases hj : j = i
  · subst hj
    rw [Function.update_self]
    exact ⟨w, Nat.le_refl w, hc⟩
  · rw [Function.update_of_ne hj]
    exact ⟨0, Nat.zero_le w, .refl _⟩

section

variable [CongestionControl κ]

variable {s s' : Core κ}

theorem freeConnection_slotStep {i : ℕ}
    (h : (s.slots i).state = .closed → (s.slots i).nextFree = nullSlot) (j : ℕ) :
    ∃ v ≤ 1, SlotStep v (s.slots j) ((s.freeConnection i).slots j) := by
  have hf := freeConnection_freed h
  by_cases hj : j = i
  · subst hj
    rw [hf.self]
    exact ⟨1, Nat.le_refl 1, .freed rfl (reset_unowned _ _ _)⟩
  · exact ⟨0, Nat.zero_le 1, (hf.other j hj).slotStep⟩

theorem take_slotStep (hs : s.PoolInv none) (h : s.freeHead ≠ nullSlot)
    {c : TcpConnection κ} {w : ℕ}
    (hc : (s.slots s.freeHead).generation = (s.take.slots s.freeHead).generation →
      ¬(s.slots s.freeHead).Owned → SlotStep w (s.slots s.freeHead) c) (j : ℕ) :
    ∃ v ≤ w, SlotStep v (s.slots j) ((s.take.setSlot s.freeHead c).slots j) := by
  refine slotStep_update (i := s.freeHead) (c := c) ?_ (hc ?_ (hs.head h).2) j
  · simp [setSlot, take]
  · simp [take, TcpConnection.resetPreserving]

theorem Move.slot {w : ℕ} (h : Move w s s') (hs : s.PoolInv none) (j : ℕ) :
    ∃ v ≤ w, SlotStep v (s.slots j) (s'.slots j) := by
  cases h with
  | house slots segments freeHead hash tickHead =>
    rw [slots]
    exact ⟨0, Nat.le_refl 0, .refl _⟩
  | quiet h =>
    have hk := Keep.of_quiet h
    exact slotStep_update rfl (.keep (owner_of_touch hk.1) hk.2) j
  | keep hi hown h => exact slotStep_update rfl (.keep (owner_of_touch h.1) h.2) j
  | @synAnswer _ i seg now hi hst =>
    obtain ⟨ht, hst'⟩ := Local.handleSynSent_touch (s.localAt i) seg now
    refine slotStep_update rfl (.synAnswer (owner_of_touch ht) hst ?_) j
    rwa [localAt_conn, hst] at hst'
  | fin hi held h =>
    obtain ⟨ht, hst⟩ := Local.close_touch h
    exact slotStep_update rfl (.fin (owner_of_touch ht) held hst) j
  | free hi hown => exact freeConnection_slotStep (fun _ => hs.unlinked _ hi (.inl hown)) j
  | failConnect hi hst hf =>
    refine slotStep_update rfl ?_ j
    exact .fail rfl rfl rfl hst rfl hf
  | accept h => exact slotStep_update rfl (.accept h rfl) j
  | grow h =>
    obtain ⟨-, -, -, -, hold, hnew, -⟩ := growSegment_spec hs h
    refine ⟨0, Nat.le_refl 0, ?_⟩
    by_cases hj : j < s.capacity ∨ s'.capacity ≤ j
    · rw [hold j hj]
      exact .refl _
    · -- a slot of the new segment: blank before, blank after
      obtain ⟨n, hn⟩ := hnew j (by omega) (by omega)
      obtain ⟨hno, hg⟩ := hs.outside j (by omega)
      rw [hn]
      exact .blank hno (by simp [TcpConnection.Owned, TcpConnection.new]) hg.symm
  | listen h =>
    refine take_slotStep hs h (fun hg hno => ?_) j
    exact .claim hno hg.symm (.inl rfl)
  | giveBack h =>
    have hf := freeConnection_freed (s := s.take) (i := s.freeHead) fun _ =>
      (hs.take h).unlinked _ (hs.head h).1 (.inr rfl)
    by_cases hjh : j = s.freeHead
    · subst hjh
      rw [hf.self]
      exact ⟨1, Nat.le_refl 1, .freed (by simp [take, TcpConnection.resetPreserving])
        (reset_unowned _ _ _)⟩
    · have hb := (hf.other j hjh).slotStep
      have htake : s.take.slots j = s.slots j := by simp [take, hjh]
      rw [htake] at hb
      exact ⟨0, Nat.zero_le 1, hb⟩

theorem Claims.slot (h : Claims s s') (hs : s.PoolInv none) (j : ℕ) :
    SlotStep 0 (s.slots j) (s'.slots j) := by
  obtain ⟨c, h⟩ := h
  obtain ⟨v, hv, hst⟩ := take_slotStep hs h.head (c := c) (w := 0)
    (fun hg hno => .claim hno (by rw [congrArg SlotLink.generation h.slotLink, hg]) (.inr h.state)) j
  obtain rfl := Nat.le_zero.1 hv
  rw [h.core]
  exact hst

omit [CongestionControl κ] in
theorem Relinks.slot (h : Relinks s s') (j : ℕ) :
    SlotStep 0 (s.slots j) (s'.slots j) := by
  obtain ⟨i, tick, h⟩ := h
  obtain ⟨v, hv, hst⟩ := slotStep_update (w := 0) h.slots (.keep rfl rfl) j
  obtain rfl := Nat.le_zero.1 hv
  exact hst

theorem Arrival.slot {i : ℕ} {seg : Segment} {l' : Local κ} {established : Bool}
    (h : Arrival s s' i seg l' established) (j : ℕ) :
    SlotStep 0 (s.slots j) (s'.slots j) ∨
      j = i ∧ SlotArrival established (s.slots j) (s'.slots j) := by
  obtain ⟨ht, hst⟩ := h.touch
  rw [h.core]
  by_cases hj : j = i
  · subst hj
    rw [putLocal_slots_self]
    exact .inr ⟨rfl, owner_of_touch ht, h.live, hst⟩
  · rw [putLocal_slots s _ _ _ hj]
    exact .inl (.refl _)

/-- A history of a slot; `n` counts how often it was freed. -/
inductive SlotPath (arrivals : Prop) : ℕ → TcpConnection κ → TcpConnection κ → Prop
  | refl (c : TcpConnection κ) : SlotPath arrivals 0 c c
  | tail {n w : ℕ} {c c₁ c₂ : TcpConnection κ} :
      SlotPath arrivals n c c₁ → SlotStep w c₁ c₂ → SlotPath arrivals (n + w) c c₂
  | arrive {n : ℕ} {established : Bool} {c c₁ c₂ : TcpConnection κ} (h : arrivals) :
      SlotPath arrivals n c c₁ → SlotArrival established c₁ c₂ → SlotPath arrivals n c c₂

/-- What an extra move must do to a slot. -/
def Traced (arrivals : Prop) (A : Core κ → Core κ → Prop) : Prop :=
  ∀ s s' : Core κ, A s s' → s.PoolInv none → s'.PoolInv none ∧
    ∀ j, SlotStep 0 (s.slots j) (s'.slots j) ∨
      arrivals ∧ ∃ established, SlotArrival established (s.slots j) (s'.slots j)

omit [CongestionControl κ] in
theorem noExtra_traced : Traced False (NoExtra (κ := κ)) := fun _ _ h => h.elim

theorem claims_traced : Traced False (Claims (κ := κ)) := by
  intro s s' h hs
  obtain ⟨c, hc⟩ := h
  exact ⟨hc.poolInv hs, fun j => .inl (Claims.slot ⟨c, hc⟩ hs j)⟩

omit [CongestionControl κ] in
theorem relinks_traced : Traced False (Relinks (κ := κ)) :=
  fun _ _ h hs => ⟨h.poolInv hs, fun j => .inl (h.slot j)⟩

theorem arrivals_traced : Traced True (Arrivals (κ := κ)) := by
  rintro s s' ⟨i, seg, l', established, h⟩ hs
  exact ⟨h.poolInv hs, fun j => (h.slot j).imp id fun h => ⟨trivial, established, h.2⟩⟩

omit [CongestionControl κ] in
theorem Traced.mono {arrivals : Prop} {A : Core κ → Core κ → Prop} (h : Traced False A) :
    Traced arrivals A :=
  fun s s' ha hs => ⟨(h s s' ha hs).1, fun j => ((h s s' ha hs).2 j).imp id fun h => h.1.elim⟩

theorem extraMoves_traced (op : Op) : Traced True (extraMoves (κ := κ) op) := by
  intro s s' h hs
  cases op with
  | connect => exact claims_traced.mono s s' h hs
  | receive =>
    rcases h with h | h
    · exact claims_traced.mono s s' h hs
    · exact arrivals_traced s s' h hs
  | tick => exact relinks_traced.mono s s' h hs
  | _ => exact h.elim

theorem Steps.slotPath {arrivals : Prop} {A : Core κ → Core κ → Prop} {n : ℕ}
    (h : Steps A n s s') (hA : Traced arrivals A) (hs : s.PoolInv none) (j : ℕ) :
    s'.PoolInv none ∧ ∃ m ≤ n, SlotPath arrivals m (s.slots j) (s'.slots j) := by
  induction h with
  | refl => exact ⟨hs, 0, Nat.le_refl 0, .refl _⟩
  | move _ hm ih =>
    obtain ⟨hs1, m, hm', hp⟩ := ih hs
    obtain ⟨v, hv, hst⟩ := hm.slot hs1 j
    exact ⟨hm.poolInv hs1, m + v, by omega, hp.tail hst⟩
  | extra _ ha ih =>
    obtain ⟨hs1, m, hm', hp⟩ := ih hs
    obtain ⟨hs2, hst⟩ := hA _ _ ha hs1
    rcases hst j with hst | ⟨harr, est, hst⟩
    · exact ⟨hs2, m, hm', hp.tail hst⟩
    · exact ⟨hs2, m, hm', hp.arrive harr hst⟩

end

variable {c c' : TcpConnection κ}

theorem SlotStep.owned (h : SlotStep 0 c c') :
    c'.generation = c.generation ∧ (c.Owned → c'.Owned) := by
  cases h with
  | keep hown hst =>
    refine ⟨congrArg Prod.fst hown, fun h => ?_⟩
    have hf : c'.connectFailure = c.connectFailure := congrArg (·.2.2.2) hown
    unfold TcpConnection.Owned at h ⊢
    rwa [hst, hf]
  | synAnswer hown hb hst =>
    exact ⟨congrArg Prod.fst hown, fun _ => .inl (by rcases hst with h | h <;> simp [h])⟩
  | fin hown _ hst =>
    exact ⟨congrArg Prod.fst hown, fun _ => .inl (by rcases hst with h | h <;> simp [h.2])⟩
  | fail hg he ha hb hst hf => exact ⟨hg, fun _ => .inr hf⟩
  | accept hacc heq =>
    subst heq
    exact ⟨rfl, id⟩
  | claim hno hg hst => exact ⟨hg, fun h => absurd h hno⟩
  | blank hno hno' hg => exact ⟨hg, fun h => absurd h hno⟩

/-- A step without a free keeps a held slot held. -/
theorem SlotStep.held (h : SlotStep 0 c c') (hc : c.Held) : c'.Held := by
  refine ⟨h.owned.2 hc.1, ?_⟩
  have hacc : owner c' = owner c → c.state ≠ .listen → c'.accepted = true ∨ c'.state = .listen :=
    fun ho hl => .inl ((congrArg (·.2.2.1) ho).trans (hc.2.resolve_right hl))
  cases h with
  | keep hown hst =>
    refine hc.2.imp (fun h => ?_) fun h => hst.trans h
    exact (congrArg (·.2.2.1) hown).trans h
  | synAnswer hown hb hst => exact hacc hown (by simp [hb])
  | fin hown _ hst => exact hacc hown (by rcases hst with h | h <;> simp [h.1])
  | fail hg he ha hb hst hf => exact .inl (ha.trans (hc.2.resolve_right (by simp [hb])))
  | accept _ heq =>
    subst heq
    exact .inl rfl
  | claim hno hg hst => exact absurd hc.1 hno
  | blank hno hno' hg => exact absurd hc.1 hno

theorem SlotArrival.owned {established : Bool}
    (h : SlotArrival established c c') : c'.Owned := by
  obtain ⟨mid, hack, hst⟩ := h.state
  exact .inl (AckStep_ne_closed h.live.1 hack hst).1

theorem SlotArrival.held {established : Bool}
    (h : SlotArrival established c c') (hc : c.Held) : c'.Held :=
  ⟨h.owned, .inl ((congrArg (·.2.2.1) h.owner).trans (hc.2.resolve_right h.live.2))⟩

theorem SlotPath.generation {arrivals : Prop} {n : ℕ}
    (h : SlotPath arrivals n c c') :
    c'.generation = c.generation + UInt16.ofNat n ∧
      (n = 0 → (c.Owned → c'.Owned) ∧ (c.Held → c'.Held)) := by
  induction h with
  | refl c => exact ⟨by simp, fun _ => ⟨id, id⟩⟩
  | @tail n w c c1 c2 _ hst ih =>
    obtain ⟨hg, hh⟩ := ih
    cases w with
    | zero =>
      obtain ⟨hg', ho'⟩ := hst.owned
      exact ⟨by rw [hg', hg]; rfl,
        fun h0 => ⟨fun h => ho' ((hh h0).1 h), fun h => hst.held ((hh h0).2 h)⟩⟩
    | succ w =>
      cases hst with
      | freed hg' hno =>
        refine ⟨?_, by simp⟩
        rw [hg', hg, UInt16.add_assoc]
        congr 1
        exact (UInt16.ofNat_add n 1).symm
  | arrive _ _ hst ih =>
    obtain ⟨hg, hh⟩ := ih
    exact ⟨(congrArg Prod.fst hst.owner).trans hg,
      fun h0 => ⟨fun _ => hst.owned, fun h => hst.held ((hh h0).2 h)⟩⟩

variable [CongestionControl κ]

theorem step_slotPath {s : Core κ} (hs : s.PoolInv none) {op : Op} (hop : s.OpOk op) (i : ℕ) :
    ∃ m, SlotPath True m (s.slots i) ((s.step op).slots i) ∧
      (((s.step op).slots i).generation = (s.slots i).generation → m = 0) := by
  obtain ⟨n, hn, hst⟩ := step_steps hs hop
  obtain ⟨-, m, hm, hp⟩ := hst.slotPath (extraMoves_traced op) hs i
  refine ⟨m, hp, fun hg => ?_⟩
  obtain ⟨hg', -⟩ := hp.generation
  rw [hg] at hg'
  have h0 : UInt16.ofNat m = 0 := by simpa using hg'.symm
  have := congrArg UInt16.toNat h0
  simp only [UInt16.toNat_ofNat'] at this
  change m % 65536 = 0 at this
  omega

/-- **A held slot stays held until its generation changes.** -/
theorem held_of_generation {s : Core κ} (hs : s.PoolInv none) {op : Op} (hop : s.OpOk op) {i : ℕ}
    (hheld : (s.slots i).Held)
    (hg : ((s.step op).slots i).generation = (s.slots i).generation) :
    ((s.step op).slots i).Held := by
  obtain ⟨m, hp, h0⟩ := step_slotPath hs hop i
  exact (hp.generation.2 (h0 hg)).2 hheld

end Core

end Waitless.Tcp
