import Waitless.Runs
import Waitless.SwapRemove

/-! # The timer wheel and its sleeps

`timer.rs` of the worker crate and `sleep.rs` of the executor. Dropping a sleep cancels by slot and
waker id only, so it can remove the entry of another one with a congruent deadline, which then never
fires (`drop_removes_other`). In every run in which no sleep is dropped while another pending one of
its waker id has a different deadline in the slot, every pending sleep keeps an entry of its own
(`sleep_has_timer`). -/

namespace Waitless.Timers

open SwapRemove List
open scoped List

def wheelSize : ℕ := 256

def inlinePerSlot : ℕ := 8

def u64Max : ℕ := 2 ^ 64 - 1

/-- An entry; the function it calls is always `sleep_fire`. -/
structure Timer where
  deadline : ℕ
  arg : ℕ
deriving DecidableEq

/-- The timers of one tick. -/
structure Slot where
  inline : List Timer
  spill : List Timer
  minDeadline : ℕ

namespace Slot

def new : Slot := ⟨[], [], u64Max⟩

def timers (s : Slot) : List Timer := s.inline ++ s.spill

def isEmpty (s : Slot) : Bool := s.inline.isEmpty && s.spill.isEmpty

/-- `reserved` says whether the spill has room or could be grown. -/
def insert (s : Slot) (timer : Timer) (reserved : Bool) : Option Slot :=
  if s.inline.length < inlinePerSlot then
    some { s with
      inline := s.inline ++ [timer]
      minDeadline := min s.minDeadline timer.deadline }
  else if !reserved then none
  else some { s with
    spill := s.spill ++ [timer]
    minDeadline := min s.minDeadline timer.deadline }

/-- The bound is reset when the slot is empty. -/
def settle (s : Slot) : Slot := if s.isEmpty then { s with minDeadline := u64Max } else s

/-- `cancel_in_slot`; `none` when no entry has the id. -/
def cancel (s : Slot) (arg : ℕ) : Option Slot :=
  match s.inline.findIdx? (·.arg = arg) with
  | some i => some { s with inline := swapRemove s.inline i }.settle
  | none =>
    match s.spill.findIdx? (·.arg = arg) with
    | some i => some { s with spill := swapRemove s.spill i }.settle
    | none => none

def expire (s : Slot) (now : ℕ) : Slot × List Timer :=
  if !s.isEmpty && s.minDeadline ≤ now then
    let (inline, fired) := drainWhere (·.deadline ≤ now) s.inline.length s.inline 0
    let (spill, fired') := drainWhere (·.deadline ≤ now) s.spill.length s.spill 0
    (⟨inline, spill, (inline ++ spill).foldl (fun m t => min m t.deadline) u64Max⟩, fired ++ fired')
  else (s, [])

end Slot

/-- The wheel; its slots are those below `wheelSize`. -/
structure TimerWheel where
  slots : ℕ → Slot
  currentTick : ℕ
  total : ℕ

namespace TimerWheel

def new : TimerWheel := ⟨fun _ => .new, 0, 0⟩

def entries (w : TimerWheel) (deadline : ℕ) : List Timer := (w.slots (deadline % wheelSize)).timers

def setSlot (w : TimerWheel) (i : ℕ) (s : Slot) : TimerWheel :=
  { w with slots := Function.update w.slots i s }

def insert (w : TimerWheel) (timer : Timer) (reserved : Bool) : Option TimerWheel :=
  let i := timer.deadline % wheelSize
  match (w.slots i).insert timer reserved with
  | some s => some { w.setSlot i s with total := w.total + 1 }
  | none => none

def cancelAt (w : TimerWheel) (deadline arg : ℕ) : TimerWheel :=
  let i := deadline % wheelSize
  match (w.slots i).cancel arg with
  | some s => { w.setSlot i s with total := w.total - 1 }
  | none => w

def visit (w : TimerWheel) (now : ℕ) : TimerWheel × List Timer :=
  let i := w.currentTick % wheelSize
  let (s, fired) := (w.slots i).expire now
  ({ w.setSlot i s with total := w.total - fired.length, currentTick := w.currentTick + 1 }, fired)

def visitAll (now : ℕ) : ℕ → TimerWheel → TimerWheel × List Timer
  | 0, w => (w, [])
  | ticks + 1, w =>
    let (w, fired) := w.visit now
    let (w, fired') := visitAll now ticks w
    (w, fired ++ fired')

def advance (w : TimerWheel) (now : ℕ) : TimerWheel × List Timer :=
  if w.total = 0 then ({ w with currentTick := min (now + 1) u64Max }, [])
  else visitAll now (now + 1 - w.currentTick) w

end TimerWheel

structure Sleep where
  deadline : ℕ
  timerScheduled : Bool
  wakerPacked : ℕ
deriving DecidableEq

namespace Sleep

def «until» (deadline : ℕ) : Sleep := ⟨deadline, false, 0⟩

def timer (s : Sleep) : Timer := ⟨s.deadline, s.wakerPacked⟩

/-- `poll` at time `now` by the task with waker id `packed`. -/
def poll (s : Sleep) (w : TimerWheel) (now packed : ℕ) (reserved : Bool) :
    Sleep × TimerWheel × Bool :=
  if s.deadline ≤ now then (s, w, true)
  else if !s.timerScheduled then
    let s := { s with wakerPacked := packed }
    match w.insert ⟨s.deadline, packed⟩ reserved with
    | some w => ({ s with timerScheduled := true }, w, false)
    | none => (s, w, true)
  else (s, w, false)

def drop (s : Sleep) (w : TimerWheel) : TimerWheel :=
  if s.timerScheduled then w.cancelAt s.deadline s.wakerPacked else w

end Sleep

/-- The wheel and the sleeps alive; `advance` has passed the times below `swept`. -/
structure Worker where
  wheel : TimerWheel
  sleeps : List Sleep
  swept : ℕ

/-- A step of a task or of the event loop. -/
inductive Event where
  | create (deadline : ℕ)
  | poll (i now packed : ℕ) (reserved : Bool)
  | drop (i : ℕ)
  | advance (now : ℕ)

namespace Worker

def init : Worker := ⟨.new, [], 0⟩

def step (w : Worker) : Event → Worker
  | .create deadline => { w with sleeps := w.sleeps ++ [Sleep.until deadline] }
  | .poll i now packed reserved =>
    match w.sleeps[i]? with
    | some s =>
      let (s, wheel, _) := s.poll w.wheel now packed reserved
      { w with wheel := wheel, sleeps := w.sleeps.set i s }
    | none => w
  | .drop i =>
    match w.sleeps[i]? with
    | some s => { w with wheel := s.drop w.wheel, sleeps := w.sleeps.eraseIdx i }
    | none => w
  | .advance now =>
    { w with wheel := (w.wheel.advance now).1, swept := max w.swept (now + 1) }

end Worker

namespace Slot

variable {s s' : Slot} {t : Timer}

theorem insert_perm {reserved : Bool} (h : s.insert t reserved = some s') :
    s'.timers.Perm (t :: s.timers) := by
  unfold insert at h
  split at h
  · cases h
    unfold timers
    simp only [append_assoc]
    exact perm_middle
  split at h
  · cases h
  · cases h
    unfold timers
    rw [← append_assoc]
    exact perm_append_singleton t _

@[simp] theorem timers_settle (s : Slot) : s.settle.timers = s.timers := by
  unfold settle
  split <;> rfl

theorem cancel_perm {arg : ℕ} (h : s.cancel arg = some s') :
    ∃ t : Timer, t.arg = arg ∧ s.timers.Perm (t :: s'.timers) := by
  unfold cancel at h
  split at h
  next i hi =>
    obtain ⟨hlt, hp, -⟩ := findIdx?_eq_some_iff_getElem.1 hi
    cases h
    refine ⟨s.inline[i], by simpa using hp, ?_⟩
    rw [timers_settle]
    exact (swapRemove_perm hlt).append_right _
  split at h
  next i hi =>
    obtain ⟨hlt, hp, -⟩ := findIdx?_eq_some_iff_getElem.1 hi
    cases h
    refine ⟨s.spill[i], by simpa using hp, ?_⟩
    rw [timers_settle]
    exact ((swapRemove_perm hlt).append_left _).trans perm_middle
  · cases h

/-- A scan keeps what is late and takes what is due. -/
theorem expire_filter {now : ℕ} (h : (!s.isEmpty && s.minDeadline ≤ now) = true) :
    (s.expire now).1.timers ~ s.timers.filter (fun t => !decide (t.deadline ≤ now)) ∧
      (s.expire now).2 ~ s.timers.filter (·.deadline ≤ now) := by
  obtain ⟨hin, hin'⟩ := drainWhere_all (fun t : Timer => decide (t.deadline ≤ now)) s.inline
  obtain ⟨hsp, hsp'⟩ := drainWhere_all (fun t : Timer => decide (t.deadline ≤ now)) s.spill
  unfold expire timers
  rw [if_pos h, filter_append, filter_append]
  exact ⟨hin.append hsp, hin'.append hsp'⟩

theorem expire_perm (s : Slot) (now : ℕ) :
    s.timers.Perm ((s.expire now).1.timers ++ (s.expire now).2) ∧
      ∀ t ∈ (s.expire now).2, t.deadline ≤ now := by
  by_cases h : (!s.isEmpty && s.minDeadline ≤ now) = true
  · obtain ⟨hkept, hfired⟩ := expire_filter h
    refine ⟨?_, fun t ht => ?_⟩
    · exact (((hkept.append hfired).trans perm_append_comm).trans (filter_append_perm _ _)).symm
    · simpa using (mem_filter.1 (hfired.mem_iff.1 ht)).2
  · unfold expire
    rw [if_neg h]
    exact ⟨by simp, by simp⟩

end Slot

namespace TimerWheel

variable {w w' : TimerWheel} {t : Timer} {d : ℕ}

theorem entries_setSlot (w : TimerWheel) (i : ℕ) (s : Slot) (d : ℕ) :
    (w.setSlot i s).entries d = if d % wheelSize = i then s.timers else w.entries d := by
  unfold entries setSlot
  dsimp only
  rw [Function.update_apply]
  split <;> rfl

theorem insert_perm {reserved : Bool} (h : w.insert t reserved = some w') (d : ℕ) :
    w'.entries d ~ if d % wheelSize = t.deadline % wheelSize then t :: w.entries d
      else w.entries d := by
  unfold insert at h
  dsimp only at h
  split at h
  next s hs =>
    cases h
    change (w.setSlot (t.deadline % wheelSize) s).entries d ~ _
    rw [entries_setSlot]
    split
    next heq =>
      unfold entries
      rw [heq]
      exact Slot.insert_perm hs
    · exact .refl _
  · cases h

theorem cancelAt_perm (w : TimerWheel) (deadline arg : ℕ) :
    w.cancelAt deadline arg = w ∨ ∃ t : Timer, t.arg = arg ∧ ∀ d,
      w.entries d ~ if d % wheelSize = deadline % wheelSize then
        t :: (w.cancelAt deadline arg).entries d else (w.cancelAt deadline arg).entries d := by
  unfold cancelAt
  dsimp only
  split
  next s hs =>
    obtain ⟨t, harg, hperm⟩ := Slot.cancel_perm hs
    refine .inr ⟨t, harg, fun d => ?_⟩
    change _ ~ if _ then t :: (w.setSlot (deadline % wheelSize) s).entries d
      else (w.setSlot (deadline % wheelSize) s).entries d
    rw [entries_setSlot]
    split
    next heq =>
      unfold entries
      rw [heq]
      exact hperm
    · exact .refl _
  · exact .inl rfl

variable {now : ℕ}

theorem visit_count (hdue : now < t.deadline) (w : TimerWheel) :
    ((w.visit now).1.entries t.deadline).count t = (w.entries t.deadline).count t := by
  obtain ⟨hperm, hfired⟩ := (w.slots (w.currentTick % wheelSize)).expire_perm now
  unfold visit
  dsimp only
  generalize (w.slots (w.currentTick % wheelSize)).expire now = r at hperm hfired ⊢
  obtain ⟨s, fired⟩ := r
  change ((w.setSlot (w.currentTick % wheelSize) s).entries t.deadline).count t = _
  rw [entries_setSlot]
  split
  next heq =>
    have hnot : t ∉ fired := fun ht => absurd (hfired t ht) (Nat.not_le_of_lt hdue)
    unfold entries
    rw [heq, hperm.count_eq, count_append, count_eq_zero_of_not_mem hnot]
    rfl
  · rfl

theorem visitAll_count (hdue : now < t.deadline) (ticks : ℕ) (w : TimerWheel) :
    ((visitAll now ticks w).1.entries t.deadline).count t = (w.entries t.deadline).count t := by
  induction ticks generalizing w with
  | zero => rfl
  | succ ticks ih => exact (ih (w.visit now).1).trans (visit_count hdue w)

theorem advance_count (hdue : now < t.deadline) (w : TimerWheel) :
    ((w.advance now).1.entries t.deadline).count t = (w.entries t.deadline).count t := by
  unfold advance
  split
  · rfl
  · exact visitAll_count hdue _ w

end TimerWheel

/-- The entries some sleeps rely on. -/
def awaited (sleeps : List Sleep) : List Timer :=
  (sleeps.filter (·.timerScheduled)).map Sleep.timer

theorem awaited_perm {l l' : List Sleep} (h : l ~ l') : awaited l ~ awaited l' :=
  (h.filter _).map _

/-- The entry one sleep relies on, if it has been scheduled. -/
def Sleep.own (s : Sleep) : List Timer := if s.timerScheduled then [s.timer] else []

open Sleep

theorem awaited_cons (s : Sleep) (l : List Sleep) : awaited (s :: l) = s.own ++ awaited l := by
  unfold awaited own
  rw [filter_cons]
  split <;> rfl

namespace Worker

variable {w : Worker}

/-- A pending sleep not yet due has an entry of its own. -/
def Tracked (w : Worker) : Prop :=
  ∀ t : Timer, w.swept ≤ t.deadline →
    (awaited w.sleeps).count t ≤ (w.wheel.entries t.deadline).count t

theorem Tracked.mem (h : w.Tracked) {s : Sleep} (hs : s ∈ w.sleeps) (hsched : s.timerScheduled = true)
    (hswept : w.swept ≤ s.deadline) : s.timer ∈ w.wheel.entries s.deadline := by
  have hmem : s.timer ∈ awaited w.sleeps :=
    mem_map.2 ⟨s, mem_filter.2 ⟨hs, hsched⟩, rfl⟩
  have hpos := count_pos_iff.2 hmem
  exact count_pos_iff.1 (lt_of_lt_of_le hpos (h s.timer hswept))

theorem init_tracked : init.Tracked := by
  intro t _
  simp [init, awaited]

variable {i : ℕ}

theorem awaited_get {l : List Sleep} {s : Sleep} (h : l[i]? = some s) (t : Timer) :
    (awaited l).count t = s.own.count t + (awaited (l.eraseIdx i)).count t := by
  obtain ⟨hlt, rfl⟩ := List.getElem?_eq_some_iff.1 h
  rw [← (awaited_perm (getElem_cons_eraseIdx_perm hlt)).count_eq, awaited_cons,
    count_append]

theorem awaited_set {l : List Sleep} (h : i < l.length) (s : Sleep) (t : Timer) :
    (awaited (l.set i s)).count t = s.own.count t + (awaited (l.eraseIdx i)).count t := by
  rw [(awaited_perm (set_perm_cons_eraseIdx h s)).count_eq, awaited_cons, count_append]

theorem poll_tracked (h : w.Tracked) (i now packed : ℕ) (reserved : Bool) :
    (w.step (.poll i now packed reserved)).Tracked := by
  dsimp only [step]
  split
  case h_2 => exact h
  rename_i s hs
  have hlt : i < w.sleeps.length := (List.getElem?_eq_some_iff.1 hs).1
  have hsame : ∀ s' : Sleep, s'.own = s.own →
      Tracked { w with sleeps := w.sleeps.set i s' } := by
    intro s' hown t ht
    have hle := h t ht
    rw [awaited_get hs] at hle
    rw [awaited_set hlt, hown]
    exact hle
  unfold poll
  split
  · exact hsame s rfl
  split
  next hidle =>
    have hnone : s.own = [] := if_neg (by simpa using hidle)
    dsimp only
    split
    next wheel hins =>
      intro t ht
      have hle := h t ht
      rw [awaited_get hs, hnone] at hle
      have hperm := TimerWheel.insert_perm hins t.deadline
      rw [awaited_set hlt, hperm.count_eq]
      by_cases heq : (⟨s.deadline, packed⟩ : Timer) = t
      · subst heq
        rw [if_pos rfl]
        simp only [own, timer, if_true, count_cons_self, count_nil] at hle ⊢
        omega
      · have hcount : (own { s with wakerPacked := packed, timerScheduled := true }).count t =
            0 := by
          simp [own, timer, heq]
        rw [hcount]
        refine le_trans hle ?_
        split
        · exact count_le_count_cons
        · exact le_refl _
    · refine hsame _ ?_
      simp only [own, Bool.not_eq_true'] at hidle ⊢
      simp [hidle]
  · exact hsame s rfl

/-- No pending sleep of the waker has another deadline in the slot. -/
def Distinct (w : Worker) : Event → Prop
  | .drop i =>
    match w.sleeps[i]? with
    | some s => s.timerScheduled = true → ∀ s' ∈ w.sleeps.eraseIdx i, s'.timerScheduled = true →
        w.swept ≤ s'.deadline → s'.wakerPacked = s.wakerPacked →
        s'.deadline % wheelSize = s.deadline % wheelSize → s'.deadline = s.deadline
    | none => True
  | _ => True

instance (w : Worker) (e : Event) : Decidable (w.Distinct e) := by
  unfold Distinct
  split
  · split <;> infer_instance
  · infer_instance

theorem drop_tracked (h : w.Tracked) (hd : w.Distinct (.drop i)) :
    (w.step (.drop i)).Tracked := by
  dsimp only [step]
  split
  case h_2 => exact h
  rename_i s hs
  simp only [Distinct, hs] at hd
  intro t ht
  have hle := h t ht
  rw [awaited_get hs] at hle
  dsimp only
  unfold Sleep.drop
  split
  case isFalse => omega
  rename_i hsched
  rcases w.wheel.cancelAt_perm s.deadline s.wakerPacked with heq | ⟨e, harg, hperm⟩
  · rw [heq]
    omega
  rw [(hperm t.deadline).count_eq] at hle
  split at hle
  case isFalse => omega
  rename_i hres
  -- the entry taken is in the slot of `t`: it is another one, the sleep's own, or not awaited
  by_cases het : e = t
  · subst het
    rw [count_cons_self] at hle
    by_cases hdl : e.deadline = s.deadline
    · have hown : s.own.count e = 1 := by
        have : s.timer = e := by
          cases e
          simp_all [timer]
        simp [own, hsched, this]
      omega
    · have hnone : (awaited (w.sleeps.eraseIdx i)).count e = 0 := by
        rw [count_eq_zero]
        intro hmem
        obtain ⟨s', hs', rfl⟩ := mem_map.1 hmem
        obtain ⟨hs', hsched'⟩ := mem_filter.1 hs'
        exact hdl (hd hsched s' hs' hsched' ht harg hres)
      omega
  · rw [count_cons_of_ne het] at hle
    omega

theorem step_tracked (w : Worker) (e : Event) (hd : w.Distinct e) (h : w.Tracked) :
    (w.step e).Tracked := by
  cases e with
  | create deadline =>
    intro t ht
    have hnew : awaited (w.sleeps ++ [Sleep.until deadline]) = awaited w.sleeps := by
      simp [awaited, Sleep.until]
    dsimp only [step]
    rw [hnew]
    exact h t ht
  | poll i now packed reserved => exact poll_tracked h i now packed reserved
  | drop i => exact drop_tracked h hd
  | advance now =>
    intro t ht
    have hlt : now < t.deadline := lt_of_lt_of_le (Nat.lt_succ_self now) (le_of_max_le_right ht)
    dsimp only [step]
    rw [TimerWheel.advance_count hlt]
    exact h t (le_of_max_le_left ht)

end Worker

open Worker

/-- **A pending sleep has its timer** where no drop meets one of its waker and residue. -/
theorem sleep_has_timer {events : List Event}
    (hrun : Runs.Along Worker.step Worker.Distinct Worker.init events) :
    let w := events.foldl step init
    (∀ s ∈ w.sleeps, s.timerScheduled = true → w.swept ≤ s.deadline →
      s.timer ∈ w.wheel.entries s.deadline) ∧
    ∀ t : Timer, w.swept ≤ t.deadline →
      (awaited w.sleeps).count t ≤ (w.wheel.entries t.deadline).count t := by
  intro w
  have h : w.Tracked := hrun.invariant step_tracked init_tracked
  exact ⟨fun s hs hsched hswept => h.mem hs hsched hswept, h⟩

def nestedTimeouts (inner outer : ℕ) : List Event :=
  [.create inner, .create outer, .poll 0 0 0 true, .poll 1 0 0 true, .advance inner,
    .poll 0 inner 0 true, .drop 0]

/-- The outer timeout of the two is still in the wheel. -/
theorem sleep_has_timer_nested :
    ((nestedTimeouts 10 20).foldl Worker.step Worker.init).sleeps = [⟨20, true, 0⟩] ∧
      ∀ s ∈ ((nestedTimeouts 10 20).foldl Worker.step Worker.init).sleeps,
        s.timerScheduled = true →
        ((nestedTimeouts 10 20).foldl Worker.step Worker.init).swept ≤ s.deadline →
        s.timer ∈ ((nestedTimeouts 10 20).foldl Worker.step Worker.init).wheel.entries
          s.deadline := by
  have hrun : Runs.Along step Worker.Distinct init (nestedTimeouts 10 20) := by
    decide +kernel
  exact ⟨by decide +kernel, (sleep_has_timer hrun).1⟩

/-- **A timeout is lost**: the drop of a fired sleep removes another one's entry from the slot. -/
theorem drop_removes_other :
    let w := (nestedTimeouts 10 266).foldl step init
    w.sleeps = [⟨266, true, 0⟩] ∧ w.swept = 11 ∧ (⟨266, 0⟩ : Timer) ∉ w.wheel.entries 266 ∧
      (w.wheel.advance 266).2 = [] := by
  decide +kernel

end Waitless.Timers
