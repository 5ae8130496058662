import Waitless.TimerWheel

/-! # The timer wheel as a set of deadlines

What the wheel is for: a multiset of timers, of which `advance` takes those that are due
(`wheel_refines`). So pending sleeps are woken in time (`sleep_fires`). -/

namespace Waitless.Timers

open SwapRemove Multiset

namespace Slot

variable {s s' : Slot} {t : Timer} {arg now : ℕ}

/-- The bound of the slot is one. -/
def Low (s : Slot) : Prop := ∀ t ∈ s.timers, s.minDeadline ≤ t.deadline

theorem Low.insert (h : s.Low) (hs : s.insert t true = some s') : s'.Low := by
  have hmin : s'.minDeadline = min s.minDeadline t.deadline := by
    unfold Slot.insert at hs
    split at hs
    · cases hs
      rfl
    · cases hs
      rfl
  intro x hx
  rw [hmin]
  rcases List.mem_cons.1 ((insert_perm hs).mem_iff.1 hx) with rfl | hx
  · exact min_le_right _ _
  · exact (min_le_left _ _).trans (h x hx)

theorem Low.settle (h : s.Low) : s.settle.Low := by
  unfold Slot.settle
  split
  next hempty =>
    simp_all [Slot.isEmpty, Low, timers]
  · exact h

theorem Low.cancel (h : s.Low) (hs : s.cancel arg = some s') : s'.Low := by
  obtain ⟨t, -, hperm⟩ := cancel_perm hs
  have hsub : ∀ x ∈ s'.timers, s.minDeadline ≤ x.deadline := fun x hx =>
    h x (hperm.mem_iff.2 (List.mem_cons_of_mem _ hx))
  unfold Slot.cancel at hs
  split at hs
  · cases hs
    exact Low.settle fun x hx => hsub x (by rwa [timers_settle])
  split at hs
  · cases hs
    exact Low.settle fun x hx => hsub x (by rwa [timers_settle])
  · cases hs

theorem cancel_eq_none (h : s.cancel arg = none) : ∀ t ∈ s.timers, t.arg ≠ arg := by
  unfold Slot.cancel at h
  split at h
  · cases h
  split at h
  · cases h
  rename_i hinline _ hspill
  simpa [timers, or_imp, forall_and] using
    And.intro (List.findIdx?_eq_none_iff.1 hinline) (List.findIdx?_eq_none_iff.1 hspill)

theorem foldl_min_le (l : List Timer) (m : ℕ) :
    l.foldl (fun m t => min m t.deadline) m ≤ m ∧
      ∀ t ∈ l, l.foldl (fun m t => min m t.deadline) m ≤ t.deadline := by
  induction l generalizing m with
  | nil => simp
  | cons a l ih =>
    obtain ⟨hle, hall⟩ := ih (min m a.deadline)
    refine ⟨hle.trans (min_le_left _ _), ?_⟩
    rintro t (_ | ⟨_, ht⟩)
    · exact hle.trans (min_le_right _ _)
    · exact hall t ht

/-- **The expiry of a slot** takes what is due, also where it may skip. -/
theorem Low.expire (h : s.Low) (now : ℕ) :
    (s.expire now).1.Low ∧
      (s.expire now).1.timers.Perm (s.timers.filter fun t => !decide (t.deadline ≤ now)) ∧
      (s.expire now).2.Perm (s.timers.filter (·.deadline ≤ now)) := by
  by_cases hscan : (!s.isEmpty && s.minDeadline ≤ now) = true
  · refine ⟨?_, expire_filter hscan⟩
    unfold Slot.expire
    rw [if_pos hscan]
    exact fun t ht => (foldl_min_le _ _).2 t ht
  · have hlate : ∀ t ∈ s.timers, now < t.deadline := by
      intro t ht
      by_contra hdue
      refine hscan (Bool.and_eq_true_iff.2 ⟨?_, decide_eq_true ((h t ht).trans (not_lt.1 hdue))⟩)
      cases hs : s.isEmpty
      · rfl
      · simp_all [Slot.isEmpty, timers]
    unfold Slot.expire
    rw [if_neg hscan, List.filter_eq_self.2 (by simpa using hlate),
      List.filter_eq_nil_iff.2 (by simpa using hlate)]
    exact ⟨h, .refl _, .refl _⟩

end Slot

def residue (R : Multiset Timer) (i : ℕ) : Multiset Timer :=
  R.filter fun t => t.deadline % wheelSize = i

theorem residue_cons (t : Timer) (R : Multiset Timer) (i : ℕ) :
    residue (t ::ₘ R) i =
      if t.deadline % wheelSize = i then t ::ₘ residue R i else residue R i := by
  unfold residue
  split
  · exact filter_cons_of_pos _ ‹_›
  · exact filter_cons_of_neg _ ‹_›

namespace TimerWheel

/-- The first slot that has an entry with the id. -/
def cancel (w : TimerWheel) (arg : ℕ) : TimerWheel :=
  match (List.range wheelSize).findSome? fun i => ((w.slots i).cancel arg).map (i, ·) with
  | some (i, s) => { w.setSlot i s with total := w.total - 1 }
  | none => w

/-- It holds the timers `R`, due from `since` on. -/
structure Holds (w : TimerWheel) (R : Multiset Timer) (since : ℕ) : Prop where
  slots : ∀ i, i < wheelSize → ((w.slots i).timers : Multiset Timer) = residue R i
  low : ∀ i, (w.slots i).Low
  total : w.total = R.card
  tick : w.currentTick ≤ since
  ahead : ∀ t ∈ R, since ≤ t.deadline

variable {w : TimerWheel} {R R' : Multiset Timer} {s : Slot} {t : Timer} {i arg now since : ℕ}

/-- Only the residents of slot `i` change. -/
theorem Holds.replace (h : w.Holds R since) (hs : (s.timers : Multiset Timer) = residue R' i)
    (hlow : s.Low) (hother : ∀ j, j ≠ i → residue R' j = residue R j) {tick since' : ℕ}
    (htick : tick ≤ since') (hahead : ∀ t ∈ R', since' ≤ t.deadline) :
    Holds ⟨(w.setSlot i s).slots, tick, R'.card⟩ R' since' := by
  refine ⟨fun j hj => ?_, fun j => ?_, rfl, htick, hahead⟩
  · by_cases hji : j = i
    · subst hji
      simpa [setSlot] using hs
    · simpa [setSlot, hji, hother j hji] using h.slots j hj
  · by_cases hji : j = i
    · simpa [setSlot, hji] using hlow
    · simpa [setSlot, hji] using h.low j

theorem Holds.insert (h : w.Holds R since) (ht : since ≤ t.deadline) :
    ((w.insert t true).getD w).Holds (t ::ₘ R) since := by
  have hsome : ∃ s, (w.slots (t.deadline % wheelSize)).insert t true = some s := by
    unfold Slot.insert
    split <;> exact ⟨_, rfl⟩
  obtain ⟨s, hs⟩ := hsome
  have hslot := h.slots _ (Nat.mod_lt t.deadline (by decide : 0 < wheelSize))
  rw [TimerWheel.insert, hs, h.total, ← card_cons t]
  refine h.replace ?_ ((h.low _).insert hs) (fun j hj => ?_) h.tick ?_
  · rw [residue_cons, if_pos rfl, ← hslot]
    exact coe_eq_coe.2 (Slot.insert_perm hs)
  · rw [residue_cons, if_neg hj.symm]
  · intro x hx
    rcases mem_cons.1 hx with rfl | hx
    · exact ht
    · exact h.ahead x hx

theorem Holds.cancel (h : w.Holds R since) (hone : (R.filter (·.arg = arg)).card = 1) :
    (w.cancel arg).Holds (R.filter (·.arg ≠ arg)) since := by
  obtain ⟨x, hx⟩ := card_eq_one.1 hone
  unfold TimerWheel.cancel
  split
  next i s hfind =>
    obtain ⟨j, hj, hmap⟩ := List.exists_of_findSome?_eq_some hfind
    obtain ⟨s', hs, heq⟩ := Option.map_eq_some_iff.1 hmap
    cases heq
    obtain ⟨t, harg, hperm⟩ := Slot.cancel_perm hs
    have hslot : residue R i = t ::ₘ (s.timers : Multiset Timer) :=
      (h.slots i (List.mem_range.1 hj)).symm.trans (coe_eq_coe.2 hperm)
    obtain ⟨ht, hti⟩ := mem_filter.1 (hslot ▸ mem_cons_self t _ : t ∈ residue R i)
    have hsplit : R = t ::ₘ R.filter (·.arg ≠ arg) := by
      have htx : t ∈ R.filter (·.arg = arg) := mem_filter.2 ⟨ht, harg⟩
      rw [hx, mem_singleton] at htx
      conv_lhs => rw [← filter_add_not (·.arg = arg) R, hx, ← htx]
      rfl
    have htotal : w.total - 1 = (R.filter (·.arg ≠ arg)).card := by
      rw [h.total, hsplit, card_cons, Nat.add_sub_cancel, ← hsplit]
    rw [htotal]
    refine h.replace ?_ ((h.low i).cancel hs) (fun k hk => ?_) h.tick fun x hx =>
      h.ahead x (mem_of_mem_filter hx)
    · rw [hsplit, residue_cons, if_pos hti] at hslot
      exact ((cons_inj_right t).1 hslot).symm
    · rw [hsplit, residue_cons, if_neg (hti ▸ hk.symm), ← hsplit]
  next hnone =>
    obtain ⟨hxR, harg⟩ := mem_filter.1 (hx ▸ mem_singleton_self x :
      x ∈ R.filter (·.arg = arg))
    have hi := Nat.mod_lt x.deadline (by decide : 0 < wheelSize)
    have hmem : x ∈ (w.slots (x.deadline % wheelSize)).timers := by
      rw [← mem_coe, h.slots _ hi]
      exact mem_filter.2 ⟨hxR, rfl⟩
    have hscan := List.findSome?_eq_none_iff.1 hnone _ (List.mem_range.2 hi)
    exact absurd harg (Slot.cancel_eq_none (by simpa using hscan) x hmem)

/-- **A visit** fires due entries, and all of its tick. -/
theorem Holds.visit (h : w.Holds R w.currentTick) (hle : w.currentTick ≤ now) :
    ∃ R', (w.visit now).1.Holds R' (w.currentTick + 1) ∧
      R = ((w.visit now).2 : Multiset Timer) + R' ∧ ∀ t ∈ (w.visit now).2, t.deadline ≤ now := by
  have hslot := h.slots _ (Nat.mod_lt w.currentTick (by decide : 0 < wheelSize))
  obtain ⟨hlow, hkept, hfired⟩ := (h.low (w.currentTick % wheelSize)).expire now
  unfold TimerWheel.visit
  dsimp only
  generalize hi : w.currentTick % wheelSize = i at hslot hlow hkept hfired ⊢
  generalize (w.slots i).expire now = r at hlow hkept hfired ⊢
  obtain ⟨s, fired⟩ := r
  have hdue : (fired : Multiset Timer) =
      R.filter fun t => t.deadline ≤ now ∧ t.deadline % wheelSize = i := by
    rw [coe_eq_coe.2 hfired, ← filter_filter]
    exact congrArg (filter _) hslot
  have hsplit := filter_add_not (fun t : Timer => t.deadline ≤ now ∧ t.deadline % wheelSize = i) R
  rw [← hdue] at hsplit
  have htotal : w.total - fired.length =
      (R.filter fun t => ¬(t.deadline ≤ now ∧ t.deadline % wheelSize = i)).card := by
    rw [h.total, ← hsplit, card_add, coe_card, Nat.add_sub_cancel_left, hsplit]
  rw [htotal]
  refine ⟨_, h.replace ?_ hlow (fun j hj => ?_) le_rfl fun t ht => ?_, hsplit.symm, fun t ht => ?_⟩
  · have hlate : (s.timers : Multiset Timer) = (residue R i).filter (¬·.deadline ≤ now) := by
      rw [← hslot, filter_coe, coe_eq_coe]
      simpa only [decide_not] using hkept
    rw [hlate, residue, residue, filter_filter, filter_filter]
    exact filter_congr fun t _ => by tauto
  · rw [residue, filter_filter]
    refine filter_congr fun t _ => and_iff_left_of_imp ?_
    rintro rfl ⟨-, hti⟩
    exact hj hti
  · obtain ⟨htR, hnot⟩ := mem_filter.1 ht
    exact Nat.lt_of_le_of_ne (h.ahead t htR) fun heq => hnot ⟨heq ▸ hle, heq ▸ hi⟩
  · have hmem : t ∈ (fired : Multiset Timer) := ht
    rw [hdue] at hmem
    exact (mem_filter.1 hmem).2.1

theorem Holds.visitAll {ticks : ℕ} (h : w.Holds R w.currentTick)
    (hticks : w.currentTick + ticks = now + 1) :
    ∃ R', (visitAll now ticks w).1.Holds R' (now + 1) ∧
      R = ((visitAll now ticks w).2 : Multiset Timer) + R' ∧
      ∀ t ∈ (visitAll now ticks w).2, t.deadline ≤ now := by
  induction ticks generalizing w R with
  | zero =>
    refine ⟨R, ?_, (zero_add R).symm, nofun⟩
    rw [← hticks]
    exact h
  | succ ticks ih =>
    have hle : w.currentTick ≤ now := by omega
    obtain ⟨R₁, h₁, hsplit₁, hdue₁⟩ := h.visit hle
    obtain ⟨R₂, h₂, hsplit₂, hdue₂⟩ := ih h₁ (by rw [← hticks]; exact Nat.succ_add_eq_add_succ _ _)
    refine ⟨R₂, h₂, ?_, fun t ht => (List.mem_append.1 ht).elim (hdue₁ t) (hdue₂ t)⟩
    rw [hsplit₁, hsplit₂, TimerWheel.visitAll, ← coe_add, add_assoc]

/-- **`advance`** fires exactly the timers that are due. -/
theorem Holds.advance (h : w.Holds R since) (hle : since ≤ now + 1) :
    (w.advance now).1.Holds (R.filter (now < ·.deadline)) (now + 1) ∧
      ((w.advance now).2 : Multiset Timer) = R.filter (·.deadline ≤ now) := by
  unfold TimerWheel.advance
  split
  next hempty =>
    obtain rfl := card_eq_zero.1 (h.total.symm.trans hempty)
    exact ⟨⟨h.slots, h.low, h.total, min_le_left _ _, by simp⟩, rfl⟩
  · have hnow : w.Holds R w.currentTick :=
      { h with tick := le_rfl, ahead := fun t ht => h.tick.trans (h.ahead t ht) }
    obtain ⟨R', h', hsplit, hdue⟩ := hnow.visitAll (Nat.add_sub_cancel' (h.tick.trans hle))
    have hlate : ∀ t ∈ R', now < t.deadline := h'.ahead
    have hkept : R.filter (now < ·.deadline) = R' := by
      rw [hsplit, filter_add, filter_eq_self.2 hlate,
        filter_eq_nil.2 (by simpa using hdue), zero_add]
    have hfired : R.filter (·.deadline ≤ now) =
        (TimerWheel.visitAll now (now + 1 - w.currentTick) w).2 := by
      have hnone : R'.filter (·.deadline ≤ now) = 0 :=
        filter_eq_nil.2 fun t ht => not_le.2 (hlate t ht)
      rw [hsplit, filter_add, hnone, add_zero]
      exact filter_eq_self.2 hdue
    rw [hkept, hfired]
    exact ⟨h', rfl⟩

/-- The loop `while current_tick <= now`, of at most `rounds` rounds. -/
def advanceLoop (now : ℕ) : ℕ → TimerWheel → Option (TimerWheel × List Timer)
  | 0, _ => none
  | rounds + 1, w =>
    if w.currentTick ≤ now then
      let (w, fired) := w.visit now
      (advanceLoop now rounds { w with currentTick := w.currentTick % 2 ^ 64 }).map fun r =>
        (r.1, fired ++ r.2)
    else some (w, [])

theorem advanceLoop_eq {ticks : ℕ} (hnow : now < u64Max) (hticks : w.currentTick + ticks = now + 1) :
    advanceLoop now (ticks + 1) w = some (visitAll now ticks w) := by
  induction ticks generalizing w with
  | zero =>
    rw [advanceLoop, if_neg (by omega)]
    rfl
  | succ ticks ih =>
    have hnext : (w.visit now).1.currentTick + ticks = now + 1 := (Nat.succ_add _ _).trans hticks
    have hwrap : (w.visit now).1.currentTick % 2 ^ 64 = (w.visit now).1.currentTick :=
      Nat.mod_eq_of_lt (by unfold u64Max at hnow; omega)
    rw [advanceLoop, if_pos (by omega)]
    dsimp only
    rw [hwrap, ih hnext]
    rfl

theorem advanceLoop_max (rounds : ℕ) (h : w.currentTick ≤ u64Max) :
    advanceLoop u64Max rounds w = none := by
  induction rounds generalizing w with
  | zero => rfl
  | succ rounds ih =>
    rw [advanceLoop, if_pos h]
    dsimp only
    rw [ih (Nat.le_pred_of_lt (Nat.mod_lt _ (by decide)))]
    rfl

theorem insert_reserved {w' : TimerWheel} {reserved : Bool} (h : w.insert t reserved = some w') :
    w.insert t true = some w' := by
  cases reserved with
  | true => exact h
  | false =>
    unfold TimerWheel.insert Slot.insert at h ⊢
    by_cases hroom : (w.slots (t.deadline % wheelSize)).inline.length < inlinePerSlot <;> simp_all

theorem Holds.cancelAt (h : w.Holds R since) (deadline arg : ℕ) :
    ∃ R', (w.cancelAt deadline arg).Holds R' since := by
  unfold TimerWheel.cancelAt
  dsimp only
  generalize hi : deadline % wheelSize = i
  split
  next s hs =>
    obtain ⟨t, -, hperm⟩ := Slot.cancel_perm hs
    have hslot : residue R i = t ::ₘ (s.timers : Multiset Timer) := by
      rw [← h.slots i (hi ▸ Nat.mod_lt _ (by decide))]
      exact coe_eq_coe.2 hperm
    obtain ⟨ht, hti⟩ := mem_filter.1 (hslot ▸ mem_cons_self t _ : t ∈ residue R i)
    obtain ⟨R', rfl⟩ := exists_cons_of_mem ht
    refine ⟨R', ?_⟩
    rw [h.total, card_cons, Nat.add_sub_cancel]
    refine h.replace ?_ ((h.low i).cancel hs) (fun j hj => ?_) h.tick
      fun x hx => h.ahead x (mem_cons_of_mem hx)
    · rw [residue_cons, if_pos hti] at hslot
      exact ((cons_inj_right t).1 hslot).symm
    · rw [residue_cons, if_neg fun h => hj (h.symm.trans hti)]
  · exact ⟨R, h⟩

end TimerWheel

/-- A call on the wheel. -/
inductive Call where
  | insert (timer : Timer)
  | cancel (arg : ℕ)
  | advance (now : ℕ)

/-- The wheel beside its timers; `advance` has passed the times below `swept`. -/
structure Deadlines where
  wheel : TimerWheel
  residents : Multiset Timer
  swept : ℕ

namespace Deadlines

def init : Deadlines := ⟨.new, 0, 0⟩

def step (d : Deadlines) : Call → Deadlines
  | .insert t => ⟨(d.wheel.insert t true).getD d.wheel, t ::ₘ d.residents, d.swept⟩
  | .cancel arg => ⟨d.wheel.cancel arg, d.residents.filter (·.arg ≠ arg), d.swept⟩
  | .advance now => ⟨(d.wheel.advance now).1, d.residents.filter (now < ·.deadline), now + 1⟩

/-- Deadlines lie ahead, a cancelled id is on one timer, the clock does not go back. -/
def allowed (d : Deadlines) : Call → Bool
  | .insert t => d.swept ≤ t.deadline
  | .cancel arg => (d.residents.filter (·.arg = arg)).card = 1
  | .advance now => d.swept ≤ now + 1 ∧ now < u64Max

theorem step_holds (d : Deadlines) (c : Call) (hc : d.allowed c = true)
    (h : d.wheel.Holds d.residents d.swept) :
    (d.step c).wheel.Holds (d.step c).residents (d.step c).swept := by
  cases c with
  | insert t => exact h.insert (of_decide_eq_true hc)
  | cancel arg => exact h.cancel (of_decide_eq_true hc)
  | advance now => exact (h.advance (of_decide_eq_true hc).1).1

/-- **The wheel refines a set of deadlines**: it holds the timers neither cancelled nor passed, and
the next `advance` fires exactly those that are due. -/
theorem wheel_refines (calls : List Call)
    (hcalls : Runs.Along step (fun d c => d.allowed c = true) init calls) :
    let d := calls.foldl step init
    d.wheel.Holds d.residents d.swept ∧ ∀ now, d.swept ≤ now + 1 → now < u64Max →
      ((d.wheel.advance now).2 : Multiset Timer) = d.residents.filter (·.deadline ≤ now) := by
  intro d
  have hinit : init.wheel.Holds init.residents init.swept :=
    ⟨fun i _ => rfl, fun i => nofun, rfl, le_rfl, by simp [init]⟩
  have hd : d.wheel.Holds d.residents d.swept := hcalls.invariant step_holds hinit
  exact ⟨hd, fun now hle _ => (hd.advance hle).2⟩

def sharedSlot : List Call :=
  [.insert ⟨10, 1⟩, .insert ⟨266, 2⟩, .insert ⟨522, 3⟩, .cancel 3, .advance 12]

theorem wheel_refines_shared_slot :
    (((sharedSlot.foldl step init).wheel.advance 300).2 : Multiset Timer) = {⟨266, 2⟩} :=
  ((wheel_refines sharedSlot (by decide +kernel)).2 300 (by decide +kernel) (by decide)).trans
    (by decide +kernel)

/-- At the last time of the clock the loop never ends. -/
theorem advance_never_ends :
    ¬∃ rounds r, TimerWheel.advanceLoop u64Max rounds (init.step (.insert ⟨10, 1⟩)).wheel = some r := by
  rintro ⟨rounds, r, hr⟩
  rw [TimerWheel.advanceLoop_max rounds (by decide)] at hr
  cases hr

end Deadlines

namespace Worker

/-- The clock is not behind the last `advance`. -/
def onTime (w : Worker) : Event → Bool
  | .poll _ now _ _ => w.swept ≤ now + 1
  | .advance now => w.swept ≤ now + 1
  | _ => true

theorem poll_holds {wheel : TimerWheel} {R : Multiset Timer} {swept now : ℕ}
    (h : wheel.Holds R swept) (hnow : swept ≤ now + 1) (s : Sleep) (packed : ℕ) (reserved : Bool) :
    ∃ R, (s.poll wheel now packed reserved).2.1.Holds R swept := by
  unfold Sleep.poll
  split_ifs with hdue hidle
  · exact ⟨R, h⟩
  · dsimp only
    split
    next hins =>
      have hnew := h.insert (t := ⟨s.deadline, packed⟩) (hnow.trans (not_le.mp hdue))
      rw [TimerWheel.insert_reserved hins] at hnew
      exact ⟨_, hnew⟩
    · exact ⟨R, h⟩
  · exact ⟨R, h⟩

theorem step_holds {w : Worker} {e : Event} (he : w.onTime e = true)
    (h : ∃ R, w.wheel.Holds R w.swept) : ∃ R, (w.step e).wheel.Holds R (w.step e).swept := by
  obtain ⟨R, h⟩ := h
  cases e with
  | create deadline => exact ⟨R, h⟩
  | poll i now packed reserved =>
    simp only [step]
    cases w.sleeps[i]? with
    | none => exact ⟨R, h⟩
    | some s => exact poll_holds h (of_decide_eq_true he) s packed reserved
  | drop i =>
    simp only [step]
    cases w.sleeps[i]? with
    | none => exact ⟨R, h⟩
    | some s =>
      dsimp only [Sleep.drop]
      split_ifs
      · exact h.cancelAt _ _
      · exact ⟨R, h⟩
  | advance now =>
    have hnow : w.swept ≤ now + 1 := of_decide_eq_true he
    have hnew := (h.advance hnow).1
    rw [← max_eq_right hnow] at hnew
    exact ⟨_, hnew⟩

/-- **A pending sleep is woken** by the first `advance` past its deadline, and nobody early. -/
theorem sleep_fires {events : List Event}
    (hrun : Runs.Along step (fun w e => w.Distinct e ∧ w.onTime e = true) init events) (now : ℕ)
    (hnow : (events.foldl step init).swept ≤ now + 1) :
    let w := events.foldl step init
    (∀ s ∈ w.sleeps, s.timerScheduled = true → w.swept ≤ s.deadline → s.deadline ≤ now →
      s.timer ∈ (w.wheel.advance now).2) ∧ ∀ t ∈ (w.wheel.advance now).2, t.deadline ≤ now := by
  intro w
  have htracked : w.Tracked :=
    (hrun.mono fun _ _ h => h.1).invariant step_tracked init_tracked
  obtain ⟨R, h⟩ : ∃ R, w.wheel.Holds R w.swept :=
    (hrun.mono fun _ _ h => h.2).invariant (I := fun w => ∃ R, w.wheel.Holds R w.swept)
      (fun _ _ => step_holds) ⟨0, fun i _ => rfl, fun i => nofun, rfl, le_rfl, nofun⟩
  have hfired := (h.advance hnow).2
  constructor
  · intro s hs hsched hswept hdue
    have hslot := h.slots _ (Nat.mod_lt s.deadline (by decide : 0 < wheelSize))
    have hmem : s.timer ∈ residue R (s.deadline % wheelSize) := by
      rw [← hslot]
      exact htracked.mem hs hsched hswept
    rw [← mem_coe, hfired]
    exact mem_filter.2 ⟨(mem_filter.1 hmem).1, hdue⟩
  · intro t ht
    rw [← mem_coe, hfired] at ht
    exact (mem_filter.1 ht).2

/-- The outer timeout of two, after the inner one was dropped. -/
theorem sleep_fires_nested :
    let w := (nestedTimeouts 10 20).foldl step init
    w.sleeps = [⟨20, true, 0⟩] ∧ (⟨20, 0⟩ : Timer) ∈ (w.wheel.advance 25).2 := by
  have hrun : Runs.Along step (fun w e => w.Distinct e ∧ w.onTime e = true) init (nestedTimeouts 10 20) := by
    decide +kernel
  have hw : ((nestedTimeouts 10 20).foldl step init).sleeps = [⟨20, true, 0⟩] ∧
      ((nestedTimeouts 10 20).foldl step init).swept = 11 := by decide +kernel
  refine ⟨hw.1, (sleep_fires hrun 25 (by rw [hw.2]; decide)).1 ⟨20, true, 0⟩ ?_ rfl ?_ ?_⟩
  · rw [hw.1]
    exact List.mem_cons_self
  · rw [hw.2]
    decide
  · decide

end Worker

end Waitless.Timers
