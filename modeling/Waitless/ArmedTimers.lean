import Waitless.Handles

/-! # The armed-timer list

`TickInv`: the list of the timer tick runs through exactly the slots marked as linked, and a slot
with a deadline is one of them. A give-up leaves the loop body without moving the walker on, so the
tick loses the rest of the list (`lost_timer`). -/

namespace Waitless.Tcp

open LinkedChain Local TickLink List Function

variable {κ : Type}

namespace Core

def tickLink (s : Core κ) (i : ℕ) : ℕ := (s.slots i).tickNext

/-- `xs` is the armed list, from `head` on. -/
def TickChain (s : Core κ) (head : ℕ) (xs : List ℕ) : Prop := Chain s.tickLink nullSlot head xs

instance (s : Core κ) (head : ℕ) (xs : List ℕ) : Decidable (s.TickChain head xs) :=
  inferInstanceAs (Decidable (Chain _ _ _ _))

/-- The linked slots; only these have deadlines. -/
def TickInv (s : Core κ) : Prop :=
  ∃ xs, s.TickChain s.tickHead xs ∧ xs.Nodup ∧
    (∀ i, i ∈ xs ↔ i < s.capacity ∧ (s.slots i).tickInList = true) ∧
    ∀ i < s.capacity, (s.slots i).Armed → i ∈ xs

variable {i : ℕ} {s : Core κ}

theorem TickInv.armed (h : s.TickInv) (hi : i < s.capacity)
    (ha : (s.slots i).Armed) : (s.slots i).tickInList = true := by
  obtain ⟨xs, -, -, hmem, harm⟩ := h
  exact ((hmem i).1 (harm i hi ha)).2

/-! ### Moves that leave the list alone -/

theorem TickInv.frame {s' : Core κ} (h : s.TickInv) (hhead : s'.tickHead = s.tickHead)
    (hcap : s.capacity ≤ s'.capacity)
    (hkept : ∀ i < s.capacity, (s.slots i).tickInList = true →
      (s'.slots i).toTickLink = (s.slots i).toTickLink)
    (hlisted : ∀ i < s'.capacity, (s'.slots i).tickInList = true →
      i < s.capacity ∧ (s.slots i).tickInList = true)
    (harmed : ∀ i < s'.capacity, (s'.slots i).Armed → (s'.slots i).tickInList = true) :
    s'.TickInv := by
  obtain ⟨xs, hch, hnd, hmem, -⟩ := h
  have hmem' : ∀ i, i ∈ xs ↔ i < s'.capacity ∧ (s'.slots i).tickInList = true := by
    intro i
    constructor
    · intro hi
      obtain ⟨hlt, hin⟩ := (hmem i).1 hi
      refine ⟨Nat.lt_of_lt_of_le hlt hcap, ?_⟩
      rw [congrArg tickInList (hkept i hlt hin)]
      exact hin
    · rintro ⟨hlt, hin⟩
      exact (hmem i).2 (hlisted i hlt hin)
  refine ⟨xs, ?_, hnd, hmem', fun i hi ha => (hmem' i).2 ⟨hi, harmed i hi ha⟩⟩
  rw [hhead]
  refine hch.congr fun i hi => ?_
  obtain ⟨hlt, hin⟩ := (hmem i).1 hi
  exact congrArg tickNext (hkept i hlt hin)

theorem TickInv.update {s' : Core κ} (h : s.TickInv) {c : TcpConnection κ}
    (hslots : s'.slots = Function.update s.slots i c) (hseg : s'.segments = s.segments)
    (hhead : s'.tickHead = s.tickHead) (hlink : c.toTickLink = (s.slots i).toTickLink)
    (harmed : i < s.capacity → c.Armed → c.tickInList = true) : s'.TickInv := by
  have hcap : s'.capacity = s.capacity := by simp [capacity, hseg]
  have hl : ∀ j, (s'.slots j).toTickLink = (s.slots j).toTickLink := by
    intro j
    by_cases hj : j = i
    · subst hj; simp [hslots, hlink]
    · simp [hslots, hj]
  refine h.frame hhead (Nat.le_of_eq hcap.symm) (fun j _ _ => hl j) (fun j hj hin => ?_)
    fun j hj ha => ?_
  · rw [congrArg tickInList (hl j)] at hin
    exact ⟨hcap ▸ hj, hin⟩
  · by_cases hji : j = i
    · subst hji
      simp only [hslots, update_self] at ha ⊢
      exact harmed (hcap ▸ hj) ha
    · simp only [hslots, update_of_ne hji] at ha ⊢
      exact h.armed (hcap ▸ hj) ha

theorem TickInv.touch (h : s.TickInv) (hs : s.PoolInv none) {l' : Local κ}
    (hi : i < s.capacity) (ht : Touch (s.localAt i) l') : (s.putLocal i l').TickInv := by
  have harm : l'.conn.Armed → l'.conn.tickInList = true := ht.armed fun ha => h.armed hi ha
  rcases ht.links with ⟨hlink, hhead⟩ | ⟨hout, hlink, hhead⟩
  · exact h.update rfl rfl hhead hlink fun _ => harm
  · obtain ⟨xs, hch, hnd, hmem, harmed⟩ := h
    have hnot : i ∉ xs := by
      intro hmem'
      rw [localAt_conn, ((hmem i).1 hmem').2] at hout
      cases hout
    have hother : ∀ j, j ≠ i → (s.putLocal i l').slots j = s.slots j :=
      fun j hj => putLocal_slots s i j l' hj
    have hidx : l'.tickHead = i := by rw [hhead, localAt_conn, hs.slotIndex i hi]
    refine ⟨i :: xs, ?_, nodup_cons.2 ⟨hnot, hnd⟩, fun j => ?_, fun j hj ha => ?_⟩
    · rw [putLocal_tickHead, hidx]
      refine hch.push ?_ (fun j hj => ?_) ?_
      · have := capacity_lt_nullSlot s hs.segments
        omega
      · exact congrArg (·.tickNext) (hother j fun he => hnot (he ▸ hj))
      · unfold tickLink
        rw [putLocal_slots_self, congrArg tickNext hlink]
        rfl
    · by_cases hj : j = i
      · subst hj
        simp [hi, congrArg tickInList hlink]
      · simp [hj, hmem, hother j hj]
    · by_cases hji : j = i
      · simp [hji]
      · rw [hother j hji] at ha
        exact mem_cons_of_mem _ (harmed j hj ha)

/-! ### Freeing unlinks -/

theorem unlinkLoop_eq {slot q : ℕ} {as bs : List ℕ} {prev rounds : ℕ}
    (h : s.TickChain prev (as ++ q :: slot :: bs)) (hr : as.length < rounds) :
    unlinkLoop slot rounds prev s =
      s.setSlot q { s.slots q with tickNext := (s.slots slot).tickNext } := by
  induction as generalizing prev rounds with
  | nil =>
    obtain ⟨rounds, rfl⟩ := Nat.exists_eq_succ_of_ne_zero (Nat.ne_of_gt hr)
    obtain ⟨rfl, -, hnext, -⟩ := h
    exact if_pos hnext
  | cons a as ih =>
    obtain ⟨rounds, rfl⟩ := Nat.exists_eq_succ_of_ne_zero (Nat.ne_of_gt (Nat.zero_lt_of_lt hr))
    obtain ⟨rfl, -, hrest⟩ := h
    have hfirst : (s.slots prev).tickNext ≠ slot ∧ (s.slots prev).tickNext ≠ nullSlot :=
      Chain.head_ne hrest
    unfold unlinkLoop
    rw [if_neg hfirst.1, if_neg hfirst.2]
    exact ih hrest (by simpa using hr)

theorem unlinkTick_chain {slot : ℕ} {xs : List ℕ} (hch : s.TickChain s.tickHead xs)
    (hlen : xs.length ≤ s.capacity) (hmem : (s.slots slot).tickInList = true ↔ slot ∈ xs) :
    (s.unlinkTick slot).TickChain (s.unlinkTick slot).tickHead (xs.erase slot) := by
  unfold unlinkTick
  split
  case isFalse hout => rwa [erase_of_not_mem fun h => hout (hmem.2 h)]
  case isTrue hin =>
    obtain ⟨as, bs, rfl⟩ := append_of_mem (hmem.1 hin)
    have hnd := Chain.nodup hch
    have hnot : slot ∉ as := fun h =>
      (nodup_append.1 hnd).2.2 slot h slot (by simp) rfl
    rw [erase_append_right _ hnot, erase_cons_head]
    rcases eq_nil_or_concat as with rfl | ⟨as, q, rfl⟩
    · -- the slot is the head
      obtain ⟨hhead, -, hrest⟩ := hch
      rw [if_pos hhead]
      exact hrest
    · simp only [concat_eq_append, append_assoc, cons_append, nil_append]
        at hch hlen ⊢
      have hne := Chain.head_ne hch
      rw [if_neg hne.1, if_neg hne.2, unlinkLoop_eq hch (by simp at hlen; omega)]
      refine hch.unlink_next (fun j hjq _ => ?_) ?_
      · exact congrArg (·.tickNext) (setSlot_slots s q j _ hjq)
      · exact congrArg (·.tickNext) (setSlot_slots_self s q _)

section

variable [CongestionControl κ]

variable {i : ℕ} {s s' : Core κ}

theorem freeConnection_links
    (h : (s.slots i).state = .closed → (s.slots i).nextFree = nullSlot) :
    (s.freeConnection i).tickHead = (s.unlinkTick i).tickHead ∧
      ∀ j, j ≠ i → (s.freeConnection i).slots j = (s.unlinkTick i).slots j := by
  have hloop : ∀ (t : OpenAddressing.Table UInt64 ℕ) (rounds prev : ℕ),
      unlinkLoop i rounds prev { s with hash := t } = { unlinkLoop i rounds prev s with hash := t } := by
    intro t rounds
    induction rounds with
    | zero => exact fun _ => rfl
    | succ rounds ih =>
      intro prev
      unfold unlinkLoop
      dsimp only
      split
      · rfl
      · split
        · rfl
        · exact ih _
  have hhash : ∀ t, unlinkTick { s with hash := t } i = { s.unlinkTick i with hash := t } := by
    intro t
    unfold unlinkTick
    split_ifs
    · rfl
    · rfl
    · exact hloop t _ _
    · rfl
  unfold freeConnection
  dsimp only
  rw [if_neg (fun hc => hc.2 (h hc.1))]
  split
  · unfold tcpHashRemove
    rw [hhash]
    exact ⟨rfl, fun j hj => by simp [freeSlot, setSlot, hj]⟩
  · exact ⟨rfl, fun j hj => by simp [freeSlot, setSlot, hj]⟩

theorem TickInv.freeConnection (h : s.TickInv) {transit : Option ℕ}
    (hs : s.PoolInv transit) (hi : i < s.capacity)
    (hown : (s.slots i).Owned ∨ transit = some i) : (s.freeConnection i).TickInv := by
  have hnull : (s.slots i).state = .closed → (s.slots i).nextFree = nullSlot :=
    fun _ => hs.unlinked i hi hown
  have hf := freeConnection_freed hnull
  obtain ⟨hhead, hother⟩ := freeConnection_links hnull
  generalize s.freeConnection i = s' at hf hhead hother ⊢
  have hcap : s'.capacity = s.capacity := by simp [capacity, hf.segments]
  have hb := fun j hj => (hf.other j hj).frame
  obtain ⟨xs, hch, hnd, hmem, harm⟩ := h
  have hlen := Chain.length_le hch fun j hj => ((hmem j).1 hj).1
  have hun := unlinkTick_chain hch hlen
    (show (s.slots i).tickInList = true ↔ i ∈ xs by simp [hmem, hi])
  have hself : ¬(s'.slots i).Armed ∧ (s'.slots i).tickInList = false := by
    rw [hf.self]
    exact ⟨fun h => h rfl, rfl⟩
  refine ⟨xs.erase i, ?_, hnd.erase i, fun j => ?_, fun j hj ha => ?_⟩
  · rw [hhead]
    refine hun.congr fun j hj => ?_
    exact congrArg (·.tickNext) (hother j (hnd.mem_erase_iff.1 hj).1)
  · rw [hnd.mem_erase_iff, hmem, hcap]
    by_cases hj : j = i
    · subst hj
      simp [hself.2]
    · simp [hj, (hb j hj).2.2.2.1]
  · have hji : j ≠ i := fun he => hself.1 (he ▸ ha)
    rw [hnd.mem_erase_iff]
    exact ⟨hji, harm j (hcap ▸ hj) ((hb j hji).2.2.1.1 ha)⟩

/-! ### Every move keeps the list -/

theorem TickInv.take (h : s.TickInv) (hs : s.PoolInv none)
    (hne : s.freeHead ≠ nullSlot) : s.take.TickInv := by
  obtain ⟨hlt, hno⟩ := hs.head hne
  obtain ⟨-, hout⟩ := hs.clean _ hlt hno
  have hself : s.take.slots s.freeHead =
      (s.slots s.freeHead).resetPreserving (s.slots s.freeHead).generation := by simp [Core.take]
  have hother : ∀ j, j ≠ s.freeHead → s.take.slots j = s.slots j := fun j hj => by
    simp [Core.take, hj]
  refine h.frame rfl (Nat.le_refl _) (fun i hi hin => ?_) (fun i hi hin => ?_) fun i hi ha => ?_
  · rw [hother i]
    rintro rfl
    rw [hout] at hin
    cases hin
  · by_cases hj : i = s.freeHead
    · rw [hj, hself] at hin
      cases hin
    · rw [hother i hj] at hin
      exact ⟨hi, hin⟩
  · by_cases hj : i = s.freeHead
    · rw [hj, hself] at ha
      exact absurd rfl ha
    · rw [hother i hj] at ha ⊢
      exact h.armed hi ha

theorem Move.tickInv {w : ℕ} (hm : Move w s s') (hs : s.PoolInv none)
    (h : s.TickInv) : s'.TickInv := by
  cases hm with
  | house slots segments freeHead hash tickHead =>
    have hcap : s'.capacity = s.capacity := by simp [capacity, segments]
    refine h.frame tickHead (Nat.le_of_eq hcap.symm) (fun i _ _ => by rw [slots]) ?_ ?_
    · intro i hi hin
      rw [slots] at hin
      exact ⟨hcap ▸ hi, hin⟩
    · intro i hi ha
      rw [slots] at ha ⊢
      exact h.armed (hcap ▸ hi) ha
  | @quiet _ i l' hq =>
    obtain ⟨hf, hd⟩ := hq
    simp only [frame, Frame.mk.injEq] at hf
    obtain ⟨-, -, -, -, -, hlink, hhead⟩ := hf
    refine h.update rfl rfl hhead hlink fun hi ha => ?_
    rw [TcpConnection.Armed, hd] at ha
    rw [congrArg tickInList hlink]
    exact h.armed hi ha
  | keep hi hown hk => exact h.touch hs hi hk.1
  | @synAnswer _ i seg now hi hst =>
    exact h.touch hs hi (handleSynSent_touch (s.localAt i) seg now).1
  | fin hi _ hc => exact h.touch hs hi (close_touch hc).1
  | free hi hown => exact h.freeConnection hs hi (.inl hown)
  | @failConnect _ i failure hi hst hf =>
    refine h.update (c := { s.slots i with
        connectFailure := failure, state := .closed, lifecycleDeadlineMs := 0, finRetxCount := 0,
        rttAnchorActive := false, sendWaker := false, recvWaker := false }) rfl rfl rfl rfl
      fun _ ha => h.armed hi ?_
    rw [armed_iff] at ha ⊢
    tauto
  | @accept _ i port hacc =>
    exact h.update (c := { s.slots i with accepted := true }) rfl rfl rfl rfl
      fun hi ha => h.armed hi ha
  | grow hg =>
    obtain ⟨hseg, -, hhead, -, hold, hnew, -⟩ := growSegment_spec hs hg
    have hcap : s.capacity ≤ s'.capacity := by simp [capacity, hseg, Nat.add_mul]
    have hfresh : ∀ i, s.capacity ≤ i → i < s'.capacity →
        ¬(s'.slots i).Armed ∧ (s'.slots i).tickInList = false := by
      intro i hi hi'
      obtain ⟨n, hn⟩ := hnew i hi hi'
      rw [hn]
      exact ⟨fun h => h rfl, rfl⟩
    refine h.frame hhead hcap (fun i hi _ => by rw [hold i (.inl hi)]) ?_ ?_
    · intro i hi hin
      have hi' : i < s.capacity := by
        by_contra hge
        rw [(hfresh i (by omega) hi).2] at hin
        cases hin
      rw [hold i (.inl hi')] at hin
      exact ⟨hi', hin⟩
    · intro i hi ha
      have hi' : i < s.capacity := by
        by_contra hge
        exact (hfresh i (by omega) hi).1 ha
      rw [hold i (.inl hi')] at ha ⊢
      exact h.armed hi' ha
  | @listen _ port hne =>
    exact (h.take hs hne).update (i := s.freeHead)
      (c := { s.take.slots s.freeHead with state := .listen, localPort := port }) rfl rfl rfl rfl
      fun hi ha => (h.take hs hne).armed hi ha
  | giveBack hne => exact (h.take hs hne).freeConnection (hs.take hne) (hs.head hne).1 (.inr rfl)

theorem Arrival.tickInv {seg : Segment} {l' : Local κ} {established : Bool}
    (ha : Arrival s s' i seg l' established) (hs : s.PoolInv none) (h : s.TickInv) :
    s'.TickInv := by
  rw [ha.core]
  exact h.touch hs ha.lt ha.touch.1

theorem Claim.tickInv {c : TcpConnection κ} (hc : Claim s s' c)
    (hs : s.PoolInv none) (h : s.TickInv) : s'.TickInv := by
  have ht := h.take hs hc.head
  rw [hc.core]
  exact ht.update (i := s.freeHead) (c := c) rfl rfl rfl hc.tickLink
    fun _ ha => absurd hc.deadlines ha

theorem step_tickInv (hs : s.PoolInv none) (h : s.TickInv) {op : Op}
    (hop : s.OpOk op) (hno : ∀ now, op ≠ .tick now) : (s.step op).TickInv := by
  obtain ⟨n, -, hst⟩ := step_steps hs hop
  have hclaims : ∀ s s' : Core κ, Claims s s' → s.PoolInv none → s.TickInv → s'.TickInv := by
    rintro s s' ⟨c, hc⟩ hs h
    exact hc.tickInv hs h
  refine (hst.invariant (P := TickInv) (fun _ _ => extraMoves_poolInv)
    (fun _ _ _ hm hs => hm.tickInv hs) ?_ hs h).2
  cases op with
  | connect => exact hclaims
  | receive =>
    rintro s s' (hc | ⟨i, seg, l', est, ha⟩) hs h
    · exact hclaims s s' hc hs h
    · exact ha.tickInv hs h
  | tick now => exact absurd rfl (hno now)
  | _ => exact fun _ _ ha => ha.elim

end

/-! ### One visit of the tick -/

/-- Given up at `now`, its budget spent. -/
def GivesUp (c : TcpConnection κ) (now : ℕ) : Prop :=
  (c.rtxDeadlineMs ≠ 0 ∧ c.rtxDeadlineMs ≤ now ∧ rtxMaxRetries ≤ c.rtxBackoff) ∨
    (c.persistDeadlineMs ≠ 0 ∧ c.persistDeadlineMs ≤ now ∧ c.state = .established ∧
      persistMaxProbes ≤ c.persistBackoff)

instance (c : TcpConnection κ) (now : ℕ) : Decidable (GivesUp c now) :=
  inferInstanceAs (Decidable (_ ∨ _))

def persistView (c : TcpConnection κ) : ℕ × ℕ × TcpState :=
  (c.persistDeadlineMs, c.persistBackoff, c.state)

theorem armForTick_persistView (l : Local κ) :
    persistView l.armForTick.conn = persistView l.conn := by
  unfold armForTick
  split <;> rfl

theorem emitRtxEntry_persistView (l : Local κ) (idx now : ℕ) :
    persistView (l.emitRtxEntry idx now).conn = persistView l.conn := by
  unfold emitRtxEntry
  split
  · rfl
  · dsimp only
    split <;> rfl

theorem emitLost_persistView (base : UInt32) (now : ℕ) (is lost : List ℕ) (l : Local κ) :
    persistView (Local.emitLost base now is lost l).conn = persistView l.conn := by
  fun_induction emitLost base now is lost l with
  | case1 => rfl
  | case2 => rfl
  | case3 _ _ _ _ _ _ ih => exact ih.trans (emitRtxEntry_persistView _ _ now)
  | case4 _ _ _ _ _ _ _ _ ih => exact ih
  | case5 _ _ _ _ _ _ ih => exact ih

section

variable [CongestionControl κ]

theorem rackDetect_persistView (l : Local κ) (now : ℕ) :
    persistView (l.rackDetect now).conn = persistView l.conn := by
  have hresend : ∀ (l : Local κ) (lost : List ℕ),
      persistView (l.resendLost lost now).conn = persistView l.conn := by
    intro l lost
    unfold resendLost
    split
    · rfl
    · exact emitLost_persistView _ now _ lost _
  have hrearm : ∀ (l : Local κ) (d : Option ℕ), persistView (l.rearmRack d).conn = persistView l.conn := by
    intro l d
    cases d with
    | none => rfl
    | some d => exact armForTick_persistView _
  unfold rackDetect
  dsimp only
  split
  · rfl
  · split
    · rfl
    · exact (hrearm _ _).trans (hresend _ _)

theorem rtxPhase_persistView {l l' : Local κ} {now : ℕ} (h : rtxPhase l now = some l') :
    persistView l'.conn = persistView l.conn := by
  unfold rtxPhase at h
  dsimp only at h
  split_ifs at h
  · cases h
    unfold retransmitOldest
    split
    · rfl
    · exact (armForTick_persistView _).trans (emitRtxEntry_persistView _ 0 now)
  · cases h
    unfold sendTlpProbe
    split
    · rfl
    · exact (armForTick_persistView _).trans (emitRtxEntry_persistView _ 0 now)
  · cases h
    rfl
  · cases h
    rfl

theorem rackPhase_persistView (l : Local κ) (now : ℕ) :
    persistView (rackPhase l now).conn = persistView l.conn := by
  unfold rackPhase
  split
  · exact rackDetect_persistView l now
  · rfl

theorem givesUp_of_visit {s : Core κ} {i now : ℕ} (h : (s.visit i now).2 = true) :
    GivesUp (s.slots i) now := by
  unfold visit at h
  split at h
  next hrtx =>
    unfold rtxPhase at hrtx
    dsimp only at hrtx
    split_ifs at hrtx with h1 h2
    exact .inl ⟨h1.1, h1.2, h2⟩
  next l hrtx =>
    dsimp only at h
    split at h
    next hper =>
      have hview := (rackPhase_persistView l now).trans (rtxPhase_persistView hrtx)
      simp only [persistView, Prod.mk.injEq, localAt_conn] at hview
      unfold persistPhase at hper
      dsimp only at hper
      rw [hview.1, hview.2.1, hview.2.2] at hper
      split_ifs at hper with h1 h2 h3
      exact .inr ⟨h1.1, h1.2, h2, h3⟩
    · cases h

end

/-- A step that changes slot `i` and not the head. -/
structure Solo (s s' : Core κ) (i : ℕ) : Prop where
  segments : s'.segments = s.segments
  tickHead : s'.tickHead = s.tickHead
  other : ∀ j, j ≠ i → s'.slots j = s.slots j

theorem Solo.trans {s s₁ s₂ : Core κ} {i : ℕ} (h : Solo s s₁ i) (h' : Solo s₁ s₂ i) :
    Solo s s₂ i where
  segments := h'.segments.trans h.segments
  tickHead := h'.tickHead.trans h.tickHead
  other := fun j hj => (h'.other j hj).trans (h.other j hj)

theorem keep_solo {s : Core κ} {i : ℕ} {l' : Local κ} (hin : (s.slots i).tickInList = true)
    (hk : Keep (s.localAt i) l') : Solo s (s.putLocal i l') i ∧ l'.conn.tickInList = true := by
  rcases hk.1.links with ⟨hlink, hhead⟩ | ⟨hout, -⟩
  · exact ⟨⟨rfl, hhead, fun j hj => putLocal_slots s i j l' hj⟩,
      (congrArg tickInList hlink).trans hin⟩
  · rw [localAt_conn, hin] at hout
    cases hout

variable {i : ℕ} {s : Core κ}

theorem unlinkTick_detached (hnull : s.tickHead = nullSlot)
    (hi : i ≠ nullSlot) : s.unlinkTick i = s := by
  unfold unlinkTick
  rw [if_neg (c := s.tickHead = i) (fun h => hi (h.symm.trans hnull)), if_pos hnull]
  exact ite_self s

section

variable [CongestionControl κ]

theorem free_solo (hs : s.PoolInv none) (hi : i < s.capacity)
    (hown : (s.slots i).Owned) (hnull : s.tickHead = nullSlot) :
    Solo s (s.freeConnection i) i ∧ ¬((s.freeConnection i).slots i).Armed ∧
      ((s.freeConnection i).slots i).toTickLink = ⟨nullSlot, false⟩ := by
  have hfree : (s.slots i).state = .closed → (s.slots i).nextFree = nullSlot :=
    fun _ => hs.unlinked i hi (.inl hown)
  have hne : i ≠ nullSlot := Nat.ne_of_lt (Nat.lt_trans hi (capacity_lt_nullSlot s hs.segments))
  have hf := freeConnection_freed hfree
  obtain ⟨hhead, hother⟩ := freeConnection_links hfree
  rw [unlinkTick_detached hnull hne] at hhead hother
  refine ⟨⟨hf.segments, hhead, hother⟩, ?_, ?_⟩
  · rw [hf.self]
    exact fun h => h rfl
  · rw [hf.self]
    rfl

theorem lifecyclePhase_solo (hs : s.PoolInv none) (hi : i < s.capacity)
    (hin : (s.slots i).tickInList = true) (hnull : s.tickHead = nullSlot) (now : ℕ) :
    Solo s (s.lifecyclePhase i now) i ∧ (((s.lifecyclePhase i now).slots i).Armed →
      ((s.lifecyclePhase i now).slots i).tickInList = true) := by
  unfold lifecyclePhase
  dsimp only
  split
  next hdue =>
    have hown : (s.slots i).Owned := hs.owned_of_armed hi
      ((armed_iff _).2 (.inr (.inr (.inr (.inr hdue.1)))))
    obtain ⟨hf, hblank, -⟩ := free_solo hs hi hown hnull
    have hkeep : ∀ {l' : Local κ}, Keep (s.localAt i) l' → Solo s (s.putLocal i l') i ∧
        (((s.putLocal i l').slots i).Armed → ((s.putLocal i l').slots i).tickInList = true) := by
      intro l' hk
      obtain ⟨hsolo, hin'⟩ := keep_solo hin hk
      exact ⟨hsolo, fun _ => by rwa [putLocal_slots_self]⟩
    have hfin : ∀ s' : Core κ, s' = (if finRetxMax ≤ (s.slots i).finRetxCount then
        s.freeConnection i else s.withLocal i fun l => l.retransmitFin now) →
        Solo s s' i ∧ ((s'.slots i).Armed → (s'.slots i).tickInList = true) := by
      rintro s' rfl
      split
      · exact ⟨hf, fun ha => absurd ha hblank⟩
      · exact hkeep (retransmitFin_steady _ now).keep
    split
    · exact hfin _ rfl
    · exact hfin _ rfl
    · exact ⟨hf, fun ha => absurd ha hblank⟩
    · split
      · refine ⟨⟨rfl, rfl, fun j hj => setSlot_slots _ i j _ hj⟩, fun _ => ?_⟩
        unfold failConnect
        rw [setSlot_slots_self]
        exact hin
      · exact hkeep (retransmitSyn_keep _ now)
    · refine ⟨⟨rfl, rfl, fun j hj => setSlot_slots _ i j _ hj⟩, fun _ => ?_⟩
      rw [setSlot_slots_self]
      exact hin
  · exact ⟨⟨rfl, rfl, fun _ _ => rfl⟩, fun _ => hin⟩

theorem visit_solo (hs : s.PoolInv none) (hi : i < s.capacity)
    (hin : (s.slots i).tickInList = true) (hnull : s.tickHead = nullSlot) (now : ℕ) :
    Solo s (s.visit i now).1 i ∧
      (((s.visit i now).1.slots i).Armed → ((s.visit i now).1.slots i).tickInList = true) ∧
      ((s.visit i now).2 = true → ¬((s.visit i now).1.slots i).Armed ∧
        ((s.visit i now).1.slots i).toTickLink = ⟨nullSlot, false⟩) := by
  have hown : (s.slots i).Owned := by
    by_contra hno
    rw [(hs.clean i hi hno).2] at hin
    cases hin
  unfold visit
  split
  · obtain ⟨hf, hblank⟩ := free_solo hs hi hown hnull
    exact ⟨hf, fun ha => absurd ha hblank.1, fun _ => hblank⟩
  next l hrtx =>
    have hk := (rtxPhase_steady hrtx).keep.trans (rackPhase_steady l now).keep
    dsimp only
    split
    next hper =>
      obtain ⟨hsolo, hin'⟩ := keep_solo hin hk
      have hown' : ((s.putLocal i (rackPhase l now)).slots i).Owned := by
        exact .inl (by simp [persistPhase_none hper])
      obtain ⟨hf, hblank⟩ := free_solo (Move.poolInv (.keep hi hown hk) hs) (i := i) hi hown'
        (hsolo.tickHead.trans hnull)
      exact ⟨hsolo.trans hf, fun ha => absurd ha hblank.1, fun _ => hblank⟩
    next l' hper =>
      have hk' := hk.trans (persistPhase_steady hper).keep
      obtain ⟨hsolo, hin'⟩ := keep_solo hin hk'
      obtain ⟨hf, harm⟩ := lifecyclePhase_solo (Move.poolInv (.keep hi hown hk') hs) (i := i) hi
        (by rwa [putLocal_slots_self]) (hsolo.tickHead.trans hnull) now
      exact ⟨hsolo.trans hf, harm, fun h => by cases h⟩

end

/-! ### The walk -/

/-- `rest` is still to be visited, `kept` stays armed. -/
structure Walk (s : Core κ) (walker newHead : ℕ) (rest kept : List ℕ) : Prop where
  pool : s.PoolInv none
  detached : s.tickHead = nullSlot
  restChain : s.TickChain walker rest
  keptChain : s.TickChain newHead kept
  nodup : (rest ++ kept).Nodup
  mem : ∀ i, i ∈ rest ++ kept ↔ i < s.capacity ∧ (s.slots i).tickInList = true
  armed : ∀ i < s.capacity, (s.slots i).Armed → (s.slots i).tickInList = true

section Walk

variable {s s' : Core κ} {w newHead now : ℕ} {rest kept : List ℕ}

theorem TickChain.solo (h : s.TickChain newHead kept) (hsolo : Solo s s' w) (hw : w ∉ kept) :
    s'.TickChain newHead kept :=
  h.congr fun j hj => congrArg (·.tickNext) (hsolo.other j fun he => hw (he ▸ hj))

theorem Solo.capacity (h : Solo s s' w) : s'.capacity = s.capacity := by
  simp [Core.capacity, h.segments]

theorem Walk.drop (hwalk : Walk s w newHead (w :: rest) kept) (hsolo : Solo s s' w)
    (hs' : s'.PoolInv none) (hout : (s'.slots w).tickInList = false) (hun : ¬(s'.slots w).Armed) :
    Walk s' (s.tickLink w) newHead rest kept := by
  have hnd : w ∉ rest ++ kept ∧ (rest ++ kept).Nodup := nodup_cons.1 hwalk.nodup
  obtain ⟨hnot, hnd⟩ := hnd
  rw [mem_append, not_or] at hnot
  have hother := hsolo.other
  refine ⟨hs', hsolo.tickHead.trans hwalk.detached, TickChain.solo hwalk.restChain.2.2 hsolo hnot.1,
    hwalk.keptChain.solo hsolo hnot.2, hnd, fun i => ?_, fun i hi ha => ?_⟩
  · rw [hsolo.capacity]
    by_cases hi : i = w
    · subst hi
      simp [hout, hnot]
    · rw [hother i hi, ← hwalk.mem i]
      simp [hi]
  · by_cases hiw : i = w
    · subst hiw
      exact absurd ha hun
    · rw [hother i hiw] at ha ⊢
      exact hwalk.armed i (hsolo.capacity ▸ hi) ha

theorem Walk.keep (hwalk : Walk s w newHead (w :: rest) kept) (hsolo : Solo s s' w)
    (hs' : s'.PoolInv none) (hlink : (s'.slots w).toTickLink = ⟨newHead, true⟩) :
    Walk s' (s.tickLink w) w rest (w :: kept) := by
  have hperm : (rest ++ w :: kept).Perm (w :: rest ++ kept) := perm_middle
  have hnd : w ∉ rest ++ kept ∧ (rest ++ kept).Nodup := nodup_cons.1 hwalk.nodup
  obtain ⟨hnot, -⟩ := hnd
  rw [mem_append, not_or] at hnot
  have hother := hsolo.other
  have hin : (s'.slots w).tickInList = true := congrArg tickInList hlink
  refine ⟨hs', hsolo.tickHead.trans hwalk.detached, TickChain.solo hwalk.restChain.2.2 hsolo hnot.1, ?_,
    hperm.nodup_iff.2 hwalk.nodup, fun i => ?_, fun i hi ha => ?_⟩
  · refine ⟨rfl, hwalk.restChain.2.1, ?_⟩
    have hnext : s'.tickLink w = newHead := congrArg tickNext hlink
    rw [hnext]
    exact hwalk.keptChain.solo hsolo hnot.2
  · rw [hperm.mem_iff, hwalk.mem, hsolo.capacity]
    by_cases hi : i = w
    · subst hi
      simp [hin, ((hwalk.mem i).1 (by simp)).2]
    · rw [hother i hi]
  · by_cases hiw : i = w
    · rw [hiw]
      exact hin
    · rw [hother i hiw] at ha ⊢
      exact hwalk.armed i (hsolo.capacity ▸ hi) ha

theorem relink_solo (s : Core κ) (i newHead : ℕ) : Solo s (s.relink i newHead).1 i := by
  unfold relink
  split
  · exact ⟨rfl, rfl, fun j hj => setSlot_slots s i j _ hj⟩
  · exact ⟨rfl, rfl, fun j hj => setSlot_slots s i j _ hj⟩

variable [CongestionControl κ]

theorem Walk.round (hwalk : Walk s w newHead (w :: rest) kept) (now : ℕ) :
    ∃ kept', Walk ((s.visit w now).1.relink w newHead).1 (s.tickLink w)
      ((s.visit w now).1.relink w newHead).2 rest kept' := by
  obtain ⟨hw, hin⟩ := (hwalk.mem w).1 (by simp)
  obtain ⟨hsolo, harm, -⟩ := visit_solo hwalk.pool hw hin hwalk.detached now
  obtain ⟨n, -, hst⟩ := visit_steps hwalk.pool hw now
  have hs1 := hst.poolInv hwalk.pool
  generalize (s.visit w now).1 = s1 at hsolo harm hs1 ⊢
  have hlink : s1.Link newHead := by
    have hkept := hwalk.keptChain
    cases kept with
    | nil => exact .inl hkept
    | cons d ds =>
      obtain ⟨rfl, -, -⟩ := hkept
      refine .inr ?_
      rw [hsolo.capacity]
      exact ((hwalk.mem newHead).1 (by simp)).1
  have hs2 := (relink_relinks (i := w) hs1 hlink).poolInv hs1
  have hsolo2 := hsolo.trans (relink_solo s1 w newHead)
  by_cases ha : (s1.slots w).Armed
  · refine ⟨w :: kept, ?_⟩
    have heq : s1.relink w newHead = (s1.setSlot w { s1.slots w with tickNext := newHead }, w) := by
      unfold relink
      rw [if_pos ha]
    rw [heq] at hs2 hsolo2 ⊢
    refine hwalk.keep hsolo2 hs2 ?_
    rw [setSlot_slots_self]
    show (⟨newHead, (s1.slots w).tickInList⟩ : TickLink) = _
    rw [harm ha]
  · refine ⟨kept, ?_⟩
    have heq : s1.relink w newHead = (s1.setSlot w { s1.slots w with tickInList := false }, newHead) := by
      unfold relink
      rw [if_neg ha]
    rw [heq] at hs2 hsolo2 ⊢
    exact hwalk.drop hsolo2 hs2 (by rw [setSlot_slots_self]) (by rwa [setSlot_slots_self])

theorem visit_of_not_armed (h : ¬(s.slots w).Armed) (now : ℕ) : s.visit w now = (s, false) := by
  obtain ⟨h1, h2, h3⟩ := phases_of_not_armed (l := s.localAt w) h now
  have hsame : s.putLocal w (s.localAt w) = s := by
    unfold putLocal setSlot localAt
    rw [update_eq_self]
  unfold visit
  rw [h1]
  dsimp only
  rw [h2, h3]
  dsimp only
  rw [hsame]
  have h5 : (s.slots w).lifecycleDeadlineMs = 0 := by
    rw [armed_iff] at h
    tauto
  unfold lifecyclePhase
  rw [if_neg (by simp [h5])]

theorem Walk.giveUp (hwalk : Walk s w newHead [w] kept) (hv : (s.visit w now).2 = true)
    (rounds : ℕ) :
    let r := tickLoop now (rounds + 1) (s.visit w now).1 w newHead
    Walk r.1 nullSlot r.2.1 [] kept := by
  obtain ⟨hw, hin⟩ := (hwalk.mem w).1 (by simp)
  obtain ⟨hsolo, -, hblank⟩ := visit_solo hwalk.pool hw hin hwalk.detached now
  obtain ⟨hun, hlink⟩ := hblank hv
  obtain ⟨n, -, hst⟩ := visit_steps hwalk.pool hw now
  have hs1 := hst.poolInv hwalk.pool
  generalize (s.visit w now).1 = s1 at hsolo hun hlink hs1 ⊢
  have hout : (s1.slots w).tickInList = false := congrArg tickInList hlink
  have hnext : (s1.slots w).tickNext = nullSlot := congrArg tickNext hlink
  have hre : s1.relink w newHead = (s1, newHead) := by
    have hsame : ({ s1.slots w with tickInList := false } : TcpConnection κ) = s1.slots w := by
      rw [← hout]
    unfold relink
    rw [if_neg hun, hsame]
    unfold setSlot
    rw [update_eq_self]
  have hloop : tickLoop now (rounds + 1) s1 w newHead = (s1, newHead, [w]) := by
    unfold tickLoop
    rw [if_neg hwalk.restChain.2.1, visit_of_not_armed hun]
    dsimp only
    rw [hre, hnext]
    cases rounds with
    | zero => rfl
    | succ rounds => rfl
  rw [hloop]
  have hlast : s.tickLink w = nullSlot := hwalk.restChain.2.2
  have := hwalk.drop hsolo hs1 hout hun
  rwa [hlast] at this

/-- **The walk** visits and rebuilds the rest of the list. -/
theorem tickLoop_walk (rounds : ℕ) (hwalk : Walk s w newHead rest kept)
    (hok : ∀ i ∈ rest, s.tickLink i ≠ nullSlot → ¬GivesUp (s.slots i) now)
    (hr : rest.length < rounds) :
    let r := tickLoop now rounds s w newHead
    (∃ kept', Walk r.1 nullSlot r.2.1 [] kept') ∧ ∀ i ∈ rest, i ∈ r.2.2 := by
  induction rest generalizing s w newHead kept rounds with
  | nil =>
    obtain ⟨rounds, rfl⟩ := Nat.exists_eq_succ_of_ne_zero (Nat.ne_of_gt hr)
    obtain rfl : w = nullSlot := hwalk.restChain
    exact ⟨⟨kept, hwalk⟩, by simp⟩
  | cons i rest ih =>
    obtain ⟨rounds, rfl⟩ := Nat.exists_eq_succ_of_ne_zero (Nat.ne_of_gt (Nat.zero_lt_of_lt hr))
    obtain rfl : w = i := hwalk.restChain.1
    have hr' : rest.length < rounds := by simpa using hr
    obtain ⟨hw, hin⟩ := (hwalk.mem w).1 (by simp)
    unfold tickLoop
    rw [if_neg hwalk.restChain.2.1]
    cases hv : (s.visit w now).2 with
    | true =>
      have hlast : rest = [] := by
        by_contra hne
        refine hok w (by simp) (fun h0 => hne ?_) (givesUp_of_visit hv)
        exact chain_null.1 (h0 ▸ hwalk.restChain.2.2)
      subst hlast
      have hgive := hwalk.giveUp hv (rounds - 1)
      rw [Nat.sub_add_cancel (by omega)] at hgive
      have hpair : s.visit w now = ((s.visit w now).1, true) := by rw [← hv]
      rw [hpair]
      exact ⟨⟨kept, hgive⟩, by simp⟩
    | false =>
      obtain ⟨kept', hround⟩ := hwalk.round now
      have hpair : s.visit w now = ((s.visit w now).1, false) := by rw [← hv]
      rw [hpair]
      have hsolo := (visit_solo hwalk.pool hw hin hwalk.detached now).1.trans
        (relink_solo _ w newHead)
      have hnot : w ∉ rest := fun h => (nodup_cons.1 hwalk.nodup).1 (by simp [h])
      obtain ⟨hend, hvis⟩ := ih rounds hround (by
        intro i hi hne
        have hsame := hsolo.other i fun he => hnot (he ▸ hi)
        unfold tickLink at hne
        rw [hsame] at hne ⊢
        exact hok i (by simp [hi]) hne) hr'
      refine ⟨hend, fun i hi => ?_⟩
      rcases mem_cons.1 hi with rfl | hi
      · simp
      · exact mem_cons_of_mem _ (hvis i hi)

end Walk

variable [CongestionControl κ]

/-- No give-up in front of another linked slot. -/
def NoEarlyGiveUp (s : Core κ) (now : ℕ) : Prop :=
  ∀ i < s.capacity, (s.slots i).tickInList = true → (s.slots i).tickNext ≠ nullSlot →
    ¬GivesUp (s.slots i) now

instance (s : Core κ) (now : ℕ) : Decidable (s.NoEarlyGiveUp now) :=
  inferInstanceAs (Decidable (∀ i < s.capacity, _ → _ → _))

/-- **A tick without an early give-up** visits the whole list. -/
theorem onTcpTick_tickInv {s : Core κ} (hs : s.PoolInv none) (h : s.TickInv) {now : ℕ}
    (hok : s.NoEarlyGiveUp now) : (s.onTcpTick now).TickInv ∧
      ∀ xs, s.TickChain s.tickHead xs → ∀ i ∈ xs, i ∈ (s.tickWalk now).2.2 := by
  have harm : ∀ i < s.capacity, (s.slots i).Armed → (s.slots i).tickInList = true :=
    fun i hi ha => h.armed hi ha
  obtain ⟨xs, hch, hnd, hmem, -⟩ := h
  have hstart : Walk { s with tickHead := nullSlot } s.tickHead nullSlot xs [] :=
    ⟨(Relink.head s hs (.inl rfl)).poolInv hs, rfl, hch, rfl, by simpa using hnd,
      fun i => by rw [append_nil]; exact hmem i, harm⟩
  have hlen := Chain.length_le hch fun i hi => ((hmem i).1 hi).1
  have hcond : ∀ i ∈ xs, tickLink { s with tickHead := nullSlot } i ≠ nullSlot →
      ¬GivesUp (s.slots i) now :=
    fun i hi => hok i ((hmem i).1 hi).1 ((hmem i).1 hi).2
  obtain ⟨⟨kept, hend⟩, hvis⟩ := tickLoop_walk (s.capacity + 2) hstart hcond (by omega)
  refine ⟨?_, fun ys hys i hi => ?_⟩
  · unfold onTcpTick tickWalk
    generalize tickLoop now (s.capacity + 2) { s with tickHead := nullSlot } s.tickHead nullSlot = r
      at hend ⊢
    dsimp only at hend ⊢
    unfold tickHeadPublish
    rw [if_pos hend.detached]
    exact ⟨kept, hend.keptChain, hend.nodup, hend.mem,
      fun i hi ha => (hend.mem i).2 ⟨hi, hend.armed i hi ha⟩⟩
  · obtain rfl := Chain.unique hys hch
    exact hvis i hi

end Core

/-! ### Runs -/

/-- No give-up in front of another listed slot, and `close` gets a known handle. -/
def Audit.TimersKept [CongestionControl κ] (a : Audit κ) (op : Op) : Prop :=
  a.CloseIssued op ∧ ∀ now, op = .tick now → a.core.NoEarlyGiveUp now

/-- **The armed-timer list** is in order, and a tick that gives up none in front visits all of it.
-/
theorem armed_timers [CongestionControl κ] {ops : List Op}
    (h : Runs.Along Audit.step Audit.TimersKept (Audit.init : Audit κ) ops) :
    let s := (ops.foldl Audit.step (Audit.init : Audit κ)).core
    s.TickInv ∧ ∀ now, s.NoEarlyGiveUp now →
      ∀ xs, s.TickChain s.tickHead xs → ∀ i ∈ xs, i ∈ (s.tickWalk now).2.2 := by
  have hinit : (Audit.init : Audit κ).core.TickInv :=
    ⟨[], rfl, List.nodup_nil, by simp [Audit.init, Core.init, Core.capacity],
      by simp [Audit.init, Core.init, Core.capacity]⟩
  have hrun := h.invariant (I := fun a => a.AuditInv ∧ a.core.TickInv) (fun a op hop ha => ?_)
    ⟨Audit.init_auditInv, hinit⟩
  · obtain ⟨ha, htick⟩ := hrun
    exact ⟨htick, fun now hok => (Core.onTcpTick_tickInv ha.pool htick hok).2⟩
  · refine ⟨ha.1.step hop.1, ?_⟩
    by_cases htick : ∃ now, op = .tick now
    · obtain ⟨now, rfl⟩ := htick
      exact (Core.onTcpTick_tickInv ha.1.pool ha.2 (hop.2 now rfl)).1
    · exact Core.step_tickInv ha.1.pool ha.2 (ha.1.opOk hop.1) fun now he => htick ⟨now, he⟩

/-- Two active opens and a tick. -/
theorem armed_timers_two_opens :
    let here : IpAddr := .v4 #v[10, 0, 0, 2]
    let there : IpAddr := .v4 #v[10, 0, 0, 1]
    let place : Core.Placement := ⟨fun _ => true, 0, 0⟩
    let ops : List Op := [.connect here there 80 place (.granting 0),
      .connect here there 80 place (.granting 5), .tick 10]
    let s := (ops.foldl Audit.step (Audit.init : Audit ConstantWindow)).core
    s.TickInv ∧ s.TickChain s.tickHead [0, 1] ∧ ∀ i ∈ [0, 1], i ∈ (s.tickWalk 2000).2.2 := by
  intro here there place ops s
  have hrun : Runs.Along Audit.step Audit.TimersKept (Audit.init : Audit ConstantWindow) ops := by
    refine ⟨⟨trivial, by simp⟩, ⟨trivial, by simp⟩, ⟨trivial, fun now h => ?_⟩, trivial⟩
    cases h
    decide +kernel
  have hch : s.TickChain s.tickHead [0, 1] := by decide +kernel
  have hok : s.NoEarlyGiveUp 2000 := by decide +kernel
  obtain ⟨hinv, hvisit⟩ := armed_timers hrun
  refine ⟨hinv, hch, ?_⟩
  simpa only [s] using hvisit 2000 hok [0, 1] hch

/-! ### The lost timer -/

/-- The tick gives up the first of two active opens. -/
def giveUpRun : List Op :=
  let place : Core.Placement := ⟨fun _ => true, 0, 0⟩
  let synAck : Bytes :=
    [0, 80, 0xC0, 0, 0, 0, 0, 100, 0, 0, 3, 0xE9, 0x50, 0x12, 0xFF, 0xFF, 0, 0, 0, 0]
  [.connect here there 80 place (.granting 0),
    .receive there here [synAck] (.granting 10),
    .sendChain 0 0 [[1, 2, 3]] (.granting 20)] ++
  (List.range 8).map (fun i => .tick (100000 * (i + 1))) ++
  [.connect here there 80 place (.granting 800001), .tick 800002, .tick 900000]

/-- **The tick loses a timer**: the second connection is linked and on no list. -/
theorem lost_timer :
    let s := (giveUpRun.foldl Audit.step (Audit.init : Audit ConstantWindow)).core
    (s.slots 1).state = .synSent ∧ (s.slots 1).lifecycleDeadlineMs ≠ 0 ∧
      (s.slots 1).tickInList = true ∧ s.tickHead = nullSlot ∧ ¬s.TickInv := by
  intro s
  have hstate : (s.slots 1).state = .synSent := by decide +kernel
  have harmed : (s.slots 1).lifecycleDeadlineMs ≠ 0 := by decide +kernel
  have hmark : (s.slots 1).tickInList = true := by decide +kernel
  have hhead : s.tickHead = nullSlot := by decide +kernel
  have hcap : 1 < s.capacity := by decide +kernel
  refine ⟨hstate, harmed, hmark, hhead, ?_⟩
  rintro ⟨xs, hch, -, hmem, -⟩
  unfold Core.TickChain at hch
  rw [hhead, chain_null] at hch
  have := (hmem 1).2 ⟨hcap, hmark⟩
  simp [hch] at this

end Waitless.Tcp
