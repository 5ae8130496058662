import Waitless.TaskArena

/-! # Waking a worker

`waker_wake_by_ref` of `task.rs` sets a bit and, on another worker, calls `wake_worker` if the word
was zero; the event loop asks `has_pending` before it idles, one word at a time, and sets a timer if
a word is not zero.

`TaskHandle::abort` wakes nobody. On a sleeping worker its bit stays, and keeps the wakers of the
same word from waking it (`abort_unseen`). -/

namespace Waitless.Executor

/-- Whether a word of the ready bitmap is not zero. -/
def TaskArena.anyReady (a : TaskArena) (word : ℕ) : Bool := a.readyBits.any (· / 64 = word)

/-- Steps that run beside the owner, on whatever worker. -/
def World.Action.beside : World.Action → Bool
  | .tick => false
  | .spawn => false
  | .owner _ => false
  | _ => true

/-- The slot whose ready bit such a step sets. -/
def World.marks (w : World) : World.Action → Option ℕ
  | .wake i => if i < tasksPerWorker then some i else none
  | .call j =>
    match w.calls[j]? with
    | some ⟨h, .markReady⟩ => some h.slotIdx
    | _ => none
  | _ => none

/-- `check` comes before the load of a word; `asleep` says whether the timer is set. -/
inductive Phase where
  | running
  | check (word : ℕ)
  | asleep (timed : Bool)
deriving DecidableEq

/-- The worker comes to the word, or back to it by its timer. -/
def Phase.willCheck : Phase → ℕ → Bool
  | .running, _ => true
  | .check word, k => decide (word ≤ k)
  | .asleep timed, _ => timed

/-- `wakers` are words about to be woken for, `issued` those that were. -/
structure Worker where
  world : World
  phase : Phase
  wakers : List ℕ
  issued : List ℕ
  pending : Bool

namespace Worker

def init : Worker := ⟨.init, .running, [], [], false⟩

/-- Code on this worker or on another, `wake_worker`, the idle path, an interrupt. -/
inductive Action where
  | own (a : World.Action)
  | foreign (a : World.Action)
  | wakeWorker (word : ℕ)
  | idle (timers : Bool)
  | hasPending
  | interrupt

def run (s : Worker) (a : World.Action) : Worker :=
  { s with world := s.world.step a, issued := s.issued.filter s.world.arena.anyReady }

/-- The word whose waker has still to call `wake_worker`. -/
def toWake (s : Worker) : World.Action → List ℕ
  | .wake i => if i < tasksPerWorker ∧ s.world.arena.anyReady (i / 64) = false then [i / 64] else []
  | _ => []

/-- One load of `has_pending`. -/
def loadWord (s : Worker) : Phase :=
  match s.phase with
  | .check k =>
    if k < tasksBitmapWords then
      if s.world.arena.anyReady k then .asleep true else .check (k + 1)
    else .asleep false
  | phase => phase

def step (s : Worker) : Action → Worker
  | .own a => if s.phase = .running then s.run a else s
  | .foreign a => if a.beside then { s.run a with wakers := s.toWake a ++ s.wakers } else s
  | .wakeWorker k =>
    if k ∈ s.wakers then
      { s with wakers := s.wakers.erase k, issued := k :: s.issued, pending := true }
    else s
  | .idle timers =>
    if s.phase = .running ∧ s.world.tick = .idle ∧ s.world.spawn = none then
      { s with phase := if timers then .asleep true else .check 0 }
    else s
  | .hasPending => { s with phase := s.loadWord }
  | .interrupt =>
    match s.phase with
    | .asleep _ => { s with phase := .running, pending := false }
    | _ => s

def abortSeen (s : Worker) : Action → Bool
  | .foreign (.call j) => (s.world.marks (.call j)).all fun i =>
      s.world.arena.anyReady (i / 64) || s.phase.willCheck (i / 64)
  | _ => true

/-- A non-zero word is still looked at, or a wake for it is under way. -/
def Attended (s : Worker) (k : ℕ) : Prop :=
  s.phase.willCheck k = true ∨ k ∈ s.wakers ∨ k ∈ s.issued ∧ s.pending = true

/-- Asleep without a timer, and nobody is about to wake it. -/
def stranded (s : Worker) : Bool := s.phase = .asleep false ∧ s.wakers = [] ∧ s.pending = false

def Inv (s : Worker) : Prop :=
  ∀ k < tasksBitmapWords, s.world.arena.anyReady k = true → s.Attended k

end Worker

theorem TaskArena.anyReady_markReady (a : TaskArena) (i k : ℕ) :
    (a.markReady i).anyReady k = true ↔ i / 64 = k ∨ a.anyReady k = true := by
  simp [anyReady, markReady]

theorem World.anyReady_of_step {w : World} {a : World.Action} {k : ℕ} (ha : a.beside = true)
    (h : (w.step a).arena.anyReady k = true) :
    (∃ i, w.marks a = some i ∧ i / 64 = k) ∨ w.arena.anyReady k = true := by
  have hmark (i : ℕ) (h : (w.arena.markReady i).anyReady k = true) :
      (∃ i', some i = some i' ∧ i' / 64 = k) ∨ w.arena.anyReady k = true :=
    ((w.arena.anyReady_markReady i k).1 h).imp_left fun hk => ⟨i, rfl, hk⟩
  cases a with
  | wake i =>
    simp only [World.step] at h
    simp only [World.marks]
    split at h
    next hi =>
      simpa only [if_pos hi] using hmark i h
    · exact .inr h
  | call j =>
    simp only [World.step] at h
    simp only [World.marks]
    split at h
    next c hc =>
      obtain ⟨hd, pc⟩ := c
      rw [hc]
      cases pc with
      | markReady => exact hmark hd.slotIdx h
      | _ =>
        simp only [World.callStep] at h
        (repeat' split at h) <;> exact .inr h
    · exact .inr h
  | abort j =>
    simp only [World.step] at h
    split at h <;> exact .inr h
  | isFinished j =>
    simp only [World.step] at h
    split at h <;> exact .inr h
  | _ => cases ha

namespace Worker

variable {s : Worker} {k : ℕ}

/-- **A step on another worker** leaves a waker, or was an abort. -/
theorem Inv.foreign {a : World.Action} (h : s.Inv) (hseen : s.abortSeen (.foreign a) = true) :
    (s.step (.foreign a)).Inv := by
  intro k hk hready
  unfold Worker.step at hready ⊢
  dsimp only at hready ⊢
  split at hready
  next ha =>
    rw [if_pos ha]
    by_cases hold : s.world.arena.anyReady k = true
    · rcases h k hk hold with hcheck | hwaker | ⟨hissued, hpending⟩
      · exact .inl hcheck
      · exact .inr (.inl (List.mem_append_right _ hwaker))
      · exact .inr (.inr ⟨List.mem_filter.2 ⟨hissued, hold⟩, hpending⟩)
    · obtain ⟨i, hi, rfl⟩ := (World.anyReady_of_step ha hready).resolve_right hold
      cases a with
      | wake j =>
        have hj : j < tasksPerWorker ∧ j = i := by simpa [World.marks] using hi
        obtain ⟨hlt, rfl⟩ := hj
        refine .inr (.inl (List.mem_append_left _ ?_))
        simp [toWake, hlt, hold]
      | call j =>
        have hcheck : s.phase.willCheck (i / 64) = true := by
          simpa [abortSeen, hi, hold] using hseen
        exact .inl hcheck
      | _ => cases hi
  next ha =>
    rw [if_neg ha]
    exact h k hk hready

/-- **The idle check** goes past a word only if it is zero. -/
theorem willCheck_loadWord (hk : k < tasksBitmapWords) (hready : s.world.arena.anyReady k = true)
    (h : s.phase.willCheck k = true) : s.loadWord.willCheck k = true := by
  unfold loadWord
  cases hphase : s.phase with
  | check word =>
    have hle : word ≤ k := by simpa [hphase, Phase.willCheck] using h
    dsimp only
    rw [if_pos (hle.trans_lt hk)]
    split
    · rfl
    next hzero =>
      have hne : word ≠ k := by
        rintro rfl
        exact hzero hready
      exact decide_eq_true (Nat.lt_of_le_of_ne hle hne)
  | _ => rwa [hphase] at h

theorem Inv.step {a : Action} (hseen : s.abortSeen a = true) (h : s.Inv) : (s.step a).Inv := by
  cases a with
  | foreign a => exact h.foreign hseen
  | hasPending =>
    intro k hk hready
    exact (h k hk hready).imp_left (willCheck_loadWord hk hready)
  | own a =>
    unfold Worker.step
    dsimp only
    split
    next hrunning =>
      intro k _ _
      exact .inl (by rw [run, hrunning]; rfl)
    · exact h
  | wakeWorker word =>
    unfold Worker.step
    dsimp only
    split
    · intro k hk hready
      by_cases hkw : k = word
      · exact .inr (.inr ⟨hkw ▸ List.mem_cons_self, rfl⟩)
      · rcases h k hk hready with hcheck | hwaker | ⟨hissued, -⟩
        · exact .inl hcheck
        · exact .inr (.inl ((List.mem_erase_of_ne hkw).2 hwaker))
        · exact .inr (.inr ⟨List.mem_cons_of_mem _ hissued, rfl⟩)
    · exact h
  | idle timers =>
    unfold Worker.step
    dsimp only
    split
    · intro k _ _
      refine .inl ?_
      cases timers
      · exact decide_eq_true (Nat.zero_le k)
      · rfl
    · exact h
  | interrupt =>
    unfold Worker.step
    dsimp only
    split
    · exact fun k _ _ => .inl rfl
    · exact h

/-- **Wakes across workers**: where aborts are seen, a word that is not zero is attended to. -/
theorem no_lost_wake (as : List Action)
    (hseen : Runs.Along step (fun s a => s.abortSeen a = true) init as) :
    let s := as.foldl step init
    ∀ word < tasksBitmapWords, s.world.arena.anyReady word = true →
      s.Attended word ∧ s.stranded = false := by
  intro s word hword hready
  have hinv : s.Inv := hseen.invariant (fun _ _ ha h => h.step ha) nofun
  have hs := hinv word hword hready
  refine ⟨hs, decide_eq_false ?_⟩
  rintro ⟨hasleep, hwakers, hpending⟩
  rcases hs with hcheck | hwaker | ⟨-, hp⟩
  · simp [hasleep, Phase.willCheck] at hcheck
  · simp [hwakers] at hwaker
  · simp [hpending] at hp

/-- The worker idles with no timer. -/
def fallAsleep : List Action := .idle false :: List.replicate 513 .hasPending

def wakeSleeper : List Action := fallAsleep ++ [.foreign (.wake 70), .wakeWorker 1]

theorem no_lost_wake_sleeper :
    let s := wakeSleeper.foldl step init
    s.phase = .asleep false ∧ s.stranded = false :=
  ⟨by decide +kernel, (no_lost_wake wakeSleeper (by decide +kernel) 1 (by decide)
    (by decide +kernel)).2⟩

/-- A sleeper's task is aborted, and the next one woken. -/
def lonelyAbort : List Action :=
  .own .spawn :: List.replicate 6 (.own (.owner false)) ++
  .own .tick :: List.replicate 1030 (.own (.owner false)) ++
  .own .tick :: List.replicate 513 (.own (.owner false)) ++ fallAsleep ++
  .foreign (.abort 0) :: List.replicate 3 (.foreign (.call 0)) ++ [.foreign (.wake 1)]

theorem abort_unseen :
    let s := lonelyAbort.foldl step init
    s.world.arena.readyBits = [0, 1] ∧ s.stranded = true := by
  have hwalk : Runs.walk step (fun s => s.phase = .running ∧ s.world.tick = .idle)
      (fun s => s.world.arena.readyBits = [0, 1] ∧ s.stranded = true) init lonelyAbort = true := by
    decide +kernel
  rw [Runs.walk_eq] at hwalk
  exact of_decide_eq_true hwalk

end Worker

end Waitless.Executor
