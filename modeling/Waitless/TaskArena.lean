import Mathlib
import Waitless.Runs

/-! # The task arena

`task.rs` of the executor: the slots of one worker, `spawn_boxed`, `tick`, and the calls on task
handles from anywhere.

The epoch check of `abort` and its store of the flag are two steps. When another task takes the slot
in between, the flag lands on the stranger (`abort_hits_stranger`). In every run in which no spawn
resets the flag between the two, `tick` aborts a future only if its own handle was aborted
(`abort_only_own`). -/

namespace Waitless.Executor

open Function List

def tasksPerWorker : ℕ := 32768

def tasksBitmapWords : ℕ := tasksPerWorker / 64

/-- The future in a slot goes by the number of its spawn. -/
structure TaskSlot where
  abort : Bool
  epoch : UInt32
  future : Option ℕ

/-- Bitmaps are the ascending lists of their set bits. -/
structure TaskArena where
  slots : ℕ → TaskSlot
  usedBits : List ℕ
  readyBits : List ℕ

def setBit (bits : List ℕ) (i : ℕ) : List ℕ :=
  if i ∈ bits then bits else bits.orderedInsert (· ≤ ·) i

@[simp] theorem mem_setBit {bits : List ℕ} {i j : ℕ} : j ∈ setBit bits i ↔ j = i ∨ j ∈ bits := by
  unfold setBit
  split
  next hi =>
    constructor
    · exact .inr
    · rintro (rfl | hj)
      · exact hi
      · exact hj
  · exact mem_orderedInsert _

namespace TaskArena

def new : TaskArena := ⟨fun _ => ⟨false, 0, none⟩, [], []⟩

def isUsed (a : TaskArena) (i : ℕ) : Bool := decide (i ∈ a.usedBits)

def clearUsed (a : TaskArena) (i : ℕ) : TaskArena :=
  { a with usedBits := a.usedBits.filter (· ≠ i) }

def markReady (a : TaskArena) (i : ℕ) : TaskArena := { a with readyBits := setBit a.readyBits i }

def freeBit (a : TaskArena) (word : ℕ) : Option ℕ :=
  (List.range 64).find? fun bit => !a.isUsed (64 * word + bit)

/-- The set bits of a word of the ready bitmap. -/
def readyIn (a : TaskArena) (word : ℕ) : List ℕ := a.readyBits.filter (· / 64 = word)

def takeReady (a : TaskArena) (word : ℕ) : TaskArena :=
  { a with readyBits := a.readyBits.filter (· / 64 ≠ word) }

def setSlot (a : TaskArena) (i : ℕ) (s : TaskSlot) : TaskArena :=
  { a with slots := Function.update a.slots i s }

end TaskArena

structure TaskHandle where
  slotIdx : ℕ
  epoch : UInt32

/-! ### The owner -/

/-- Where `spawn_boxed` stands: its next atomic operation. -/
inductive SpawnPc where
  | load (fut word : ℕ)
  | claim (fut word bit : ℕ)
  | populate (fut idx : ℕ)
  | resetAbort (fut idx : ℕ)
  | loadEpoch (fut idx : ℕ)
  | publish (fut idx : ℕ) (epoch : UInt32)

/-- What `tick` does at a slot. -/
inductive Stage where
  | swapAbort
  | dropAborted
  | poll
  | dropDone
  | bumpEpoch
  | clearUsed
deriving DecidableEq

/-- `scan` is the search for a ready word, `visit` has bits left. -/
inductive TickPc where
  | idle
  | scan (word : ℕ)
  | sweep (word : ℕ)
  | visit (word : ℕ) (ready : List ℕ)
  | slot (stage : Stage) (word : ℕ) (rest : List ℕ) (idx : ℕ)
deriving DecidableEq

/-- `spawn_boxed` is called between ticks, in a poll and in a drop. -/
def TickPc.maySpawn : TickPc → Bool
  | .idle => true
  | .slot .poll _ _ _ => true
  | .slot .dropAborted _ _ _ => true
  | .slot .dropDone _ _ _ => true
  | _ => false

/-! ### Calls on handles -/

/-- A handle, its spawn and how often its slot had been freed before. -/
structure Issued extends TaskHandle where
  spawn : ℕ
  frees : ℕ

/-- `store` remembers how often the flag had been reset at the check. -/
inductive CallPc where
  | check
  | store (resets : ℕ)
  | markReady
  | finishedEpoch
  | finishedUsed

structure Call where
  handle : Issued
  pc : CallPc

/-- Handles, aborted spawns, dropped futures, frees and resets. -/
structure History where
  issued : List Issued
  aborted : List ℕ
  cancelled : List ℕ
  frees : ℕ → ℕ
  resets : ℕ → ℕ
  latest : ℕ → Option ℕ

namespace History

def reset (t : History) (fut idx : ℕ) : History :=
  { t with
    resets := Function.update t.resets idx (t.resets idx + 1)
    latest := Function.update t.latest idx (some fut) }

def free (t : History) (idx : ℕ) : History :=
  { t with frees := Function.update t.frees idx (t.frees idx + 1) }

end History

/-- The arena with what runs on it; `spawned` numbers the futures. -/
structure World where
  arena : TaskArena
  tick : TickPc
  spawn : Option SpawnPc
  calls : List Call
  spawned : ℕ
  hist : History

namespace World

def init : World :=
  ⟨.new, .idle, none, [], 0, ⟨[], [], [], fun _ => 0, fun _ => 0, fun _ => none⟩⟩

def slot (w : World) (i : ℕ) : TaskSlot := w.arena.slots i

def spawnStep (w : World) : SpawnPc → World
  | .load fut word =>
    if word < tasksBitmapWords then
      match w.arena.freeBit word with
      | none => { w with spawn := some (.load fut (word + 1)) }
      | some bit => { w with spawn := some (.claim fut word bit) }
    else { w with spawn := none }
  | .claim fut word bit =>
    let idx := 64 * word + bit
    if w.arena.isUsed idx then { w with spawn := some (.load fut word) }
    else
      { w with
        arena := { w.arena with usedBits := setBit w.arena.usedBits idx }
        spawn := some (.populate fut idx) }
  | .populate fut idx =>
    { w with
      arena := w.arena.setSlot idx { w.slot idx with future := some fut }
      spawn := some (.resetAbort fut idx) }
  | .resetAbort fut idx =>
    { w with
      arena := w.arena.setSlot idx { w.slot idx with abort := false }
      spawn := some (.loadEpoch fut idx)
      hist := w.hist.reset fut idx }
  | .loadEpoch fut idx => { w with spawn := some (.publish fut idx (w.slot idx).epoch) }
  | .publish fut idx epoch =>
    { w with
      arena := w.arena.markReady idx
      spawn := none
      hist := { w.hist with
        issued := ⟨⟨idx, epoch⟩, fut, w.hist.frees idx⟩ :: w.hist.issued } }

/-- What a poll returns is `ready`. -/
def slotStep (w : World) (ready : Bool) (word : ℕ) (rest : List ℕ) (idx : ℕ) : Stage → World
  | .swapAbort =>
    { w with
      arena := w.arena.setSlot idx { w.slot idx with abort := false }
      tick := .slot (if (w.slot idx).abort then .dropAborted else .poll) word rest idx }
  | .dropAborted =>
    { w with
      arena := w.arena.setSlot idx { w.slot idx with future := none }
      tick := .slot .bumpEpoch word rest idx
      hist := { w.hist with cancelled := (w.slot idx).future.toList ++ w.hist.cancelled } }
  | .poll =>
    if (w.slot idx).future.isSome && ready then { w with tick := .slot .dropDone word rest idx }
    else { w with tick := .visit word rest }
  | .dropDone =>
    { w with
      arena := w.arena.setSlot idx { w.slot idx with future := none }
      tick := .slot .bumpEpoch word rest idx }
  | .bumpEpoch =>
    { w with
      arena := w.arena.setSlot idx { w.slot idx with epoch := (w.slot idx).epoch + 1 }
      tick := .slot .clearUsed word rest idx
      hist := w.hist.free idx }
  | .clearUsed => { w with arena := w.arena.clearUsed idx, tick := .visit word rest }

def tickStep (w : World) (ready : Bool) : TickPc → World
  | .idle => w
  | .scan word =>
    if word < tasksBitmapWords then
      if (w.arena.readyIn word).isEmpty then { w with tick := .scan (word + 1) }
      else { w with tick := .sweep 0 }
    else { w with tick := .idle }
  | .sweep word =>
    if word < tasksBitmapWords then
      { w with arena := w.arena.takeReady word, tick := .visit word (w.arena.readyIn word) }
    else { w with tick := .idle }
  | .visit word [] => { w with tick := .sweep (word + 1) }
  | .visit word (idx :: rest) =>
    if w.arena.isUsed idx then { w with tick := .slot .swapAbort word rest idx }
    else { w with tick := .visit word rest }
  | .slot stage word rest idx => w.slotStep ready word rest idx stage

def callStep (w : World) (j : ℕ) (c : Call) : World :=
  let i := c.handle.slotIdx
  let goOn (pc : CallPc) : List Call := w.calls.set j { c with pc := pc }
  match c.pc with
  | .check =>
    if (w.slot i).epoch ≠ c.handle.epoch then { w with calls := w.calls.eraseIdx j }
    else { w with calls := goOn (.store (w.hist.resets i)) }
  | .store _ =>
    { w with
      arena := w.arena.setSlot i { w.slot i with abort := true }
      calls := goOn .markReady }
  | .markReady => { w with arena := w.arena.markReady i, calls := w.calls.eraseIdx j }
  | .finishedEpoch =>
    if (w.slot i).epoch ≠ c.handle.epoch then { w with calls := w.calls.eraseIdx j }
    else { w with calls := goOn .finishedUsed }
  | .finishedUsed => { w with calls := w.calls.eraseIdx j }

/-- Who moves next; `k` counts handles and `j` outstanding calls. -/
inductive Action where
  | tick
  | spawn
  | owner (ready : Bool)
  | abort (k : ℕ)
  | isFinished (k : ℕ)
  | call (j : ℕ)
  | wake (slot : ℕ)

def step (w : World) : Action → World
  | .tick => if w.tick = .idle ∧ w.spawn = none then { w with tick := .scan 0 } else w
  | .spawn =>
    if w.tick.maySpawn ∧ w.spawn = none then
      { w with spawn := some (.load w.spawned 0), spawned := w.spawned + 1 }
    else w
  | .owner ready =>
    match w.spawn with
    | some pc => w.spawnStep pc
    | none => w.tickStep ready w.tick
  | .abort k =>
    match w.hist.issued[k]? with
    | some h =>
      { w with
        calls := w.calls ++ [⟨h, .check⟩]
        hist := { w.hist with aborted := h.spawn :: w.hist.aborted } }
    | none => w
  | .isFinished k =>
    match w.hist.issued[k]? with
    | some h => { w with calls := w.calls ++ [⟨h, .finishedEpoch⟩] }
    | none => w
  | .call j =>
    match w.calls[j]? with
    | some c => w.callStep j c
    | none => w
  | .wake i => if i < tasksPerWorker then { w with arena := w.arena.markReady i } else w

end World

/-! ### What holds in between

A slot is live from the reset of its flag by a spawn to the next bump of its epoch: then it was
reset once more than freed. -/

namespace History

def Live (t : History) (i : ℕ) : Prop := t.frees i < t.resets i

/-- The flag is its last spawn's own, or no spawn is left. -/
def Own (t : History) (i : ℕ) : Prop :=
  (∃ id ∈ t.aborted, t.latest i = some id) ∨ 2 ^ 32 ≤ t.frees i

/-- A handle names the spawn it was made for. -/
structure IssuedOk (t : History) (h : Issued) : Prop where
  epoch : h.epoch = UInt32.ofNat h.frees
  le : h.frees ≤ t.frees h.slotIdx
  lt : h.frees < t.resets h.slotIdx
  latest : h.frees = t.frees h.slotIdx → t.latest h.slotIdx = some h.spawn

/-- What an outstanding call may rely on. -/
def CallOk (t : History) (c : Call) : Prop :=
  c.handle ∈ t.issued ∧
    match c.pc with
    | .check => c.handle.spawn ∈ t.aborted
    | .store seen => seen ≤ t.resets c.handle.slotIdx ∧
        (seen = t.resets c.handle.slotIdx → t.Own c.handle.slotIdx)
    | _ => True

/-- The part of the invariant that is about the past only. -/
structure Ok (t : History) : Prop where
  counts : ∀ i, t.frees i ≤ t.resets i ∧ t.resets i ≤ t.frees i + 1
  bound : ∀ i, t.resets i ≤ 2 ^ 32
  issued : ∀ h ∈ t.issued, t.IssuedOk h
  cancelled : ∀ id ∈ t.cancelled, id ∈ t.aborted

variable {t : History} {fut idx i : ℕ}

theorem Ok.not_live (h : t.Ok) (hdead : ¬ t.Live i) : t.frees i = t.resets i :=
  Nat.le_antisymm (h.counts i).1 (Nat.le_of_not_lt hdead)

theorem reset_resets_le (t : History) (fut idx i : ℕ) : t.resets i ≤ (t.reset fut idx).resets i := by
  unfold reset
  dsimp only
  rw [update_apply]
  split
  next heq =>
    rw [heq]
    exact Nat.le_succ _
  · exact le_refl _

theorem Live.reset (h : t.Live i) (fut idx : ℕ) : (t.reset fut idx).Live i :=
  Nat.lt_of_lt_of_le h (t.reset_resets_le fut idx i)

theorem Ok.reset_live (h : t.Ok) (fut idx : ℕ) : (t.reset fut idx).Live idx := by
  have := (h.counts idx).1
  unfold Live History.reset
  dsimp only
  rw [update_self]
  omega

theorem live_of_reset (hne : i ≠ idx) (h : (t.reset fut idx).Live i) : t.Live i := by
  unfold Live reset at *
  dsimp only at h
  rwa [update_of_ne hne] at h

theorem reset_latest_ne (hne : i ≠ idx) : (t.reset fut idx).latest i = t.latest i :=
  update_of_ne hne _ _

theorem reset_latest (t : History) (fut idx : ℕ) : (t.reset fut idx).latest idx = some fut :=
  update_self _ _ _

theorem Own.reset (h : t.Own i) (hne : i ≠ idx) : (t.reset fut idx).Own i := by
  rcases h with ⟨id, hid, hl⟩ | hfull
  · exact .inl ⟨id, hid, (reset_latest_ne hne).trans hl⟩
  · exact .inr hfull

theorem Ok.reset (h : t.Ok) (hdead : ¬ t.Live idx) (hbound : t.resets idx + 1 ≤ 2 ^ 32) :
    (t.reset fut idx).Ok := by
  have hcount := h.not_live hdead
  refine ⟨?_, ?_, ?_, h.cancelled⟩
  · intro i
    have hi := h.counts i
    unfold History.reset
    dsimp only
    rw [update_apply]
    split
    next heq =>
      subst heq
      omega
    · exact hi
  · intro i
    unfold History.reset
    dsimp only
    rw [update_apply]
    split
    · exact hbound
    · exact h.bound i
  · intro k hk
    obtain ⟨hepoch, hle, hlt, hlatest⟩ := h.issued k hk
    refine ⟨hepoch, hle, Nat.lt_of_lt_of_le hlt (t.reset_resets_le fut idx _), fun hsame => ?_⟩
    have hsame' : k.frees = t.frees k.slotIdx := hsame
    have hne : k.slotIdx ≠ idx := by
      intro heq
      rw [heq] at hsame' hlt
      omega
    exact (reset_latest_ne hne).trans (hlatest hsame')

theorem CallOk.mono {t t' : History} {c : Call} (h : t.CallOk c)
    (hissued : ∀ k ∈ t.issued, k ∈ t'.issued) (haborted : ∀ id ∈ t.aborted, id ∈ t'.aborted)
    (hle : t.resets c.handle.slotIdx ≤ t'.resets c.handle.slotIdx)
    (hown : t.resets c.handle.slotIdx = t'.resets c.handle.slotIdx → t.Own c.handle.slotIdx →
      t'.Own c.handle.slotIdx) : t'.CallOk c := by
  obtain ⟨hmem, hpc⟩ := h
  refine ⟨hissued _ hmem, ?_⟩
  cases hcpc : c.pc with
  | check =>
    rw [hcpc] at hpc
    exact haborted _ hpc
  | store seen =>
    rw [hcpc] at hpc
    obtain ⟨hseen, hsame⟩ := hpc
    exact ⟨hseen.trans hle, fun heq => hown (by omega) (hsame (by omega))⟩
  | _ => trivial

theorem CallOk.reset {c : Call} (h : t.CallOk c) (fut idx : ℕ) : (t.reset fut idx).CallOk c := by
  refine h.mono (fun _ => id) (fun _ => id) (t.reset_resets_le fut idx _) fun heq hown => hown.reset ?_
  intro hidx
  simp [History.reset, hidx] at heq

theorem free_frees_le (t : History) (idx i : ℕ) : t.frees i ≤ (t.free idx).frees i := by
  unfold free
  dsimp only
  rw [update_apply]
  split
  next heq =>
    rw [heq]
    exact Nat.le_succ _
  · exact le_refl _

theorem Live.of_free (h : (t.free idx).Live i) : t.Live i :=
  Nat.lt_of_le_of_lt (t.free_frees_le idx i) h

theorem Live.free (h : t.Live i) (hne : i ≠ idx) : (t.free idx).Live i := by
  unfold Live History.free at *
  dsimp only
  rwa [update_of_ne hne]

theorem Ok.free_not_live (h : t.Ok) (idx : ℕ) : ¬ (t.free idx).Live idx := by
  have := (h.counts idx).2
  unfold Live History.free
  dsimp only
  rw [update_self]
  omega

theorem Own.free (h : t.Own i) (idx : ℕ) : (t.free idx).Own i := by
  rcases h with ⟨id, hid, hl⟩ | hfull
  · exact .inl ⟨id, hid, hl⟩
  · exact .inr (le_trans hfull (t.free_frees_le idx i))

theorem Ok.free (h : t.Ok) (hlive : t.Live idx) : (t.free idx).Ok := by
  refine ⟨?_, h.bound, ?_, h.cancelled⟩
  · intro i
    have hi := h.counts i
    unfold Live at hlive
    unfold History.free
    dsimp only
    rw [update_apply]
    split
    next heq =>
      subst heq
      omega
    · exact hi
  · intro k hk
    obtain ⟨hepoch, hle, hlt, hlatest⟩ := h.issued k hk
    refine ⟨hepoch, le_trans hle (t.free_frees_le idx _), hlt, fun hsame => hlatest ?_⟩
    have := t.free_frees_le idx k.slotIdx
    omega

theorem CallOk.free {c : Call} (h : t.CallOk c) (idx : ℕ) : (t.free idx).CallOk c :=
  h.mono (fun _ => id) (fun _ => id) le_rfl fun _ hown => hown.free idx

end History

def Claiming (pc : Option SpawnPc) (i : ℕ) : Prop :=
  ∃ fut, pc = some (.populate fut i) ∨ pc = some (.resetAbort fut i)

/-- What `spawn_boxed` knows of its slot. -/
def SpawnOk (t : History) (usedBits : List ℕ) : Option SpawnPc → Prop
  | some (.populate _ i) | some (.resetAbort _ i) => ¬ t.Live i ∧ i ∈ usedBits
  | some (.loadEpoch fut i) => t.Live i ∧ t.latest i = some fut
  | some (.publish fut i e) =>
    t.Live i ∧ t.latest i = some fut ∧ e = UInt32.ofNat (t.frees i)
  | _ => True

def TickOk (t : History) (slots : ℕ → TaskSlot) : TickPc → Prop
  | .slot .clearUsed _ _ i => ¬ t.Live i
  | .slot .dropAborted _ _ i => t.Live i ∧ ∀ id, (slots i).future = some id → id ∈ t.aborted
  | .slot _ _ _ i => t.Live i
  | _ => True

theorem TickOk.mono {t t' : History} {s s' : ℕ → TaskSlot} {pc : TickPc} (h : TickOk t s pc)
    (hlive : ∀ i, t.Live i ↔ t'.Live i) (haborted : ∀ id ∈ t.aborted, id ∈ t'.aborted)
    (hfuture : ∀ i id, t.Live i → (s' i).future = some id → (s i).future = some id) :
    TickOk t' s' pc := by
  cases pc with
  | slot stage word rest i =>
    cases stage with
    | dropAborted =>
      exact ⟨(hlive i).1 h.1, fun id hid => haborted id (h.2 id (hfuture i id h.1 hid))⟩
    | clearUsed => exact fun hi => h ((hlive i).2 hi)
    | _ => exact (hlive i).1 h
  | _ => trivial

namespace World

/-- The invariant of the arena in every interleaving. -/
structure Inv (w : World) : Prop where
  hist : w.hist.Ok
  used : ∀ i, w.hist.Live i → i ∈ w.arena.usedBits
  live : ∀ i ∈ w.arena.usedBits, w.hist.Live i ∨ Claiming w.spawn i ∨
    ∃ word rest, w.tick = .slot .clearUsed word rest i
  tick : TickOk w.hist w.arena.slots w.tick
  spawn : SpawnOk w.hist w.arena.usedBits w.spawn
  nested : w.spawn ≠ none → w.tick.maySpawn = true
  epoch : ∀ i, (w.slot i).epoch = UInt32.ofNat (w.hist.frees i)
  calls : ∀ c ∈ w.calls, w.hist.CallOk c
  flag : ∀ i, (w.slot i).abort = true → w.hist.Own i
  occupant : ∀ i id, (w.slot i).future = some id → w.spawn = some (.resetAbort id i) ∨
    w.hist.latest i = some id ∧ ∀ fut, w.spawn ≠ some (.resetAbort fut i)

variable {w : World}

def Searching : Option SpawnPc → Prop
  | none | some (.load ..) | some (.claim ..) => True
  | _ => False

variable {fut i id idx word : ℕ} {pc : Option SpawnPc} {rest : List ℕ}

theorem Searching.not_claiming (h : Searching pc) (i : ℕ) :
    ¬ Claiming pc i := by
  rintro ⟨fut, rfl | rfl⟩
  · exact h
  · exact h

theorem Searching.ne_reset (h : Searching pc) (fut i : ℕ) :
    pc ≠ some (.resetAbort fut i) := by
  rintro rfl
  exact h

theorem Inv.occupant_latest (h : Inv w) (hpc : ∀ fut, w.spawn ≠ some (.resetAbort fut i))
    (hf : (w.slot i).future = some id) : w.hist.latest i = some id := by
  rcases h.occupant i id hf with hs | ⟨hl, -⟩
  · exact absurd hs (hpc id)
  · exact hl

theorem Inv.live_unclaimed (h : Inv w) (hpc : ∀ i, ¬ Claiming w.spawn i) (pc : Option SpawnPc)
    (i : ℕ) (hi : i ∈ w.arena.usedBits) : w.hist.Live i ∨ Claiming pc i ∨
      ∃ word rest, w.tick = .slot .clearUsed word rest i :=
  (h.live i hi).imp_right fun hrest => .inr (hrest.resolve_left (hpc i))

theorem Inv.search (h : Inv w) (hold : Searching w.spawn)
    (hnew : Searching pc) (hnest : pc ≠ none → w.tick.maySpawn = true) :
    Inv { w with spawn := pc } := by
  refine { h with
    live := h.live_unclaimed hold.not_claiming pc, spawn := ?_, nested := hnest, occupant := ?_ }
  · unfold Searching at hnew
    unfold SpawnOk
    split at hnew <;> simp_all
  · intro i id hf
    exact .inr ⟨h.occupant_latest (hold.ne_reset · i) hf, (hnew.ne_reset · i)⟩

theorem Inv.ready (h : Inv w) (bits : List ℕ) :
    Inv { w with arena := { w.arena with readyBits := bits } } := { h with }

@[simp] theorem slots_setSlot (a : TaskArena) (i : ℕ) (s : TaskSlot) (j : ℕ) :
    (a.setSlot i s).slots j = if j = i then s else a.slots j := update_apply _ _ _ _

theorem field_setSlot {β : Type} (f : TaskSlot → β) {a : TaskArena} {s : TaskSlot}
    (h : f s = f (a.slots i)) (j : ℕ) : f ((a.setSlot i s).slots j) = f (a.slots j) := by
  rw [slots_setSlot]
  split
  next heq =>
    rw [heq, h]
  · rfl

/-! ### The steps of `spawn_boxed` -/

variable (h : Inv w)
include h

theorem claim_inv {bit : ℕ} (hs : w.spawn = some (.claim fut word bit)) :
    Inv (w.spawnStep (.claim fut word bit)) := by
  have hsearch : Searching w.spawn := by rw [hs]; trivial
  have hnest := h.nested (by simp [hs])
  unfold spawnStep
  dsimp only
  split
  · exact h.search hsearch trivial fun _ => hnest
  rename_i hfree
  have hfree' : 64 * word + bit ∉ w.arena.usedBits := by simpa [TaskArena.isUsed] using hfree
  refine { h with used := ?_, live := ?_, spawn := ?_, nested := fun _ => hnest, occupant := ?_ }
  · intro i hi
    exact mem_setBit.2 (.inr (h.used i hi))
  · intro i hi
    rcases mem_setBit.1 hi with rfl | hi
    · exact .inr (.inl ⟨fut, .inl rfl⟩)
    · exact h.live_unclaimed hsearch.not_claiming _ i hi
  · exact ⟨fun hl => hfree' (h.used _ hl), mem_setBit.2 (.inl rfl)⟩
  · intro i id hf
    exact .inr ⟨h.occupant_latest (hsearch.ne_reset · i) hf, by simp⟩

theorem populate_inv (hs : w.spawn = some (.populate fut idx)) :
    Inv (w.spawnStep (.populate fut idx)) := by
  obtain ⟨hdead, hused⟩ := hs ▸ h.spawn
  have hnest := h.nested (by simp [hs])
  dsimp only [spawnStep]
  refine { h with
    live := ?_, tick := ?_, spawn := ⟨hdead, hused⟩, nested := fun _ => hnest, epoch := ?_,
    flag := ?_, occupant := ?_ }
  · intro i hi
    rcases h.live i hi with hl | ⟨fut', hc | hc⟩ | ht
    · exact .inl hl
    · obtain ⟨rfl, rfl⟩ : fut = fut' ∧ idx = i := by simpa [hs] using hc
      exact .inr (.inl ⟨fut, .inr rfl⟩)
    · simp [hs] at hc
    · exact .inr (.inr ht)
  · refine h.tick.mono (fun _ => .rfl) (fun _ => id) fun i id hi hid => ?_
    have hne : i ≠ idx := by
      rintro rfl
      exact hdead hi
    simpa [hne] using hid
  · intro i
    exact (field_setSlot TaskSlot.epoch (by rfl) i).trans (h.epoch i)
  · intro i hi
    exact h.flag i ((field_setSlot TaskSlot.abort (by rfl) i).symm.trans hi)
  · intro i id hf
    simp only [slot, slots_setSlot] at hf
    split at hf
    next heq =>
      subst heq
      cases hf
      exact .inl rfl
    next hne =>
      refine .inr ⟨h.occupant_latest (by simp [hs]) hf, ?_⟩
      intro fut' heq
      cases heq
      exact hne rfl

theorem resetAbort_inv (hs : w.spawn = some (.resetAbort fut idx))
    (hbound : w.hist.resets idx + 1 ≤ 2 ^ 32) : Inv (w.spawnStep (.resetAbort fut idx)) := by
  obtain ⟨hdead, hused⟩ := hs ▸ h.spawn
  have hnest := h.nested (by simp [hs])
  dsimp only [spawnStep]
  refine ⟨h.hist.reset hdead hbound, ?_, ?_, ?_, ⟨h.hist.reset_live fut idx, w.hist.reset_latest fut
    idx⟩, fun _ => hnest, ?_, fun c hc => (h.calls c hc).reset fut idx, ?_, ?_⟩
  · intro i hi
    by_cases heq : i = idx
    · exact heq ▸ hused
    · exact h.used i (History.live_of_reset heq hi)
  · intro i hi
    by_cases heq : i = idx
    · exact .inl (heq ▸ h.hist.reset_live fut idx)
    · rcases h.live i hi with hl | ⟨fut', hc | hc⟩ | ht
      · exact .inl (hl.reset fut idx)
      · simp [hs] at hc
      · exact absurd (by simpa [hs] using hc : fut = fut' ∧ idx = i).2.symm heq
      · exact .inr (.inr ht)
  · have htick := h.tick
    generalize w.tick = t at htick hnest ⊢
    cases t with
    | slot stage word rest i =>
      cases stage with
      | dropAborted =>
        refine ⟨History.Live.reset htick.1 fut idx, fun id hid => htick.2 id ?_⟩
        exact (field_setSlot TaskSlot.future (by rfl) i).symm.trans hid
      | clearUsed => cases hnest
      | _ => exact History.Live.reset htick fut idx
    | _ => trivial
  · intro i
    exact (field_setSlot TaskSlot.epoch (by rfl) i).trans (h.epoch i)
  · intro i hi
    by_cases heq : i = idx
    · simp [slot, heq] at hi
    · exact (h.flag i (by simpa [slot, heq] using hi)).reset heq
  · intro i id hf
    have hf' : (w.slot i).future = some id :=
      (field_setSlot TaskSlot.future (by rfl) i).symm.trans hf
    refine .inr ⟨?_, by simp⟩
    by_cases heq : i = idx
    · rw [heq] at hf' ⊢
      rw [w.hist.reset_latest]
      rcases h.occupant idx id hf' with hr | ⟨-, hr⟩
      · rw [hs] at hr
        cases hr
        rfl
      · exact absurd hs (hr fut)
    · refine (History.reset_latest_ne heq).trans (h.occupant_latest (fun fut' hr => heq ?_) hf')
      rw [hs] at hr
      cases hr
      rfl

theorem loadEpoch_inv (hs : w.spawn = some (.loadEpoch fut idx)) :
    Inv (w.spawnStep (.loadEpoch fut idx)) := by
  have hspawn := hs ▸ h.spawn
  have hnest := h.nested (by simp [hs])
  dsimp only [spawnStep]
  refine { h with
    live := h.live_unclaimed (by simp [Claiming, hs]) _,
    spawn := ⟨hspawn.1, hspawn.2, h.epoch idx⟩, nested := fun _ => hnest, occupant := ?_ }
  · intro i id hf
    exact .inr ⟨h.occupant_latest (by simp [hs]) hf, by simp⟩

theorem publish_inv {epoch : UInt32}
    (hs : w.spawn = some (.publish fut idx epoch)) : Inv (w.spawnStep (.publish fut idx epoch)) := by
  obtain ⟨hlive, hlatest, hepoch⟩ := hs ▸ h.spawn
  dsimp only [spawnStep]
  refine { h with
    hist := { h.hist with issued := ?_ }, live := h.live_unclaimed (by simp [Claiming, hs]) _,
    tick := ?_, spawn := trivial, nested := fun hn => absurd rfl hn, calls := ?_, occupant := ?_ }
  · intro k hk
    rcases mem_cons.1 hk with rfl | hk
    · exact ⟨hepoch, le_refl _, hlive, fun _ => hlatest⟩
    · obtain ⟨h1, h2, h3, h4⟩ := h.hist.issued k hk
      exact ⟨h1, h2, h3, h4⟩
  · exact h.tick.mono (fun _ => .rfl) (fun _ => id) fun _ _ _ => id
  · intro c hc
    obtain ⟨hmem, hpc⟩ := h.calls c hc
    exact ⟨mem_cons_of_mem _ hmem, hpc⟩
  · intro i id hf
    exact .inr ⟨h.occupant_latest (by simp [hs]) hf, by simp⟩

theorem spawnStep_inv {pc : SpawnPc} (hs : w.spawn = some pc)
    (hbound : ∀ i, (w.spawnStep pc).hist.resets i ≤ 2 ^ 32) : Inv (w.spawnStep pc) := by
  cases pc with
  | load fut word =>
    have hsearch : Searching w.spawn := by rw [hs]; trivial
    have hnest := h.nested (by simp [hs])
    dsimp only [spawnStep]
    split
    · split
      · exact h.search hsearch trivial fun _ => hnest
      · exact h.search hsearch trivial fun _ => hnest
    · exact h.search hsearch trivial fun hn => absurd rfl hn
  | claim fut word bit => exact claim_inv h hs
  | populate fut idx => exact populate_inv h hs
  | resetAbort fut idx =>
    have hb := hbound idx
    simp only [spawnStep, History.reset, update_self] at hb
    exact resetAbort_inv h hs hb
  | loadEpoch fut idx => exact loadEpoch_inv h hs
  | publish fut idx epoch => exact publish_inv h hs

/-! ### The steps of `tick` -/

theorem Inv.walk {pc : TickPc} (hs : w.spawn = none)
    (hold : ∀ word rest i, w.tick ≠ .slot .clearUsed word rest i)
    (hnew : TickOk w.hist w.arena.slots pc) : Inv { w with tick := pc } := by
  refine { h with live := ?_, tick := hnew, nested := fun hn => absurd hs hn }
  intro i hi
  rcases h.live i hi with hl | hc | ⟨word, rest, ht⟩
  · exact .inl hl
  · exact .inr (.inl hc)
  · exact absurd ht (hold word rest i)

theorem Inv.live_of_used (hs : w.spawn = none) (hi : i ∈ w.arena.usedBits)
    (hold : ∀ word rest i, w.tick ≠ .slot .clearUsed word rest i) : w.hist.Live i := by
  rcases h.live i hi with hl | ⟨fut, hc | hc⟩ | ⟨word, rest, ht⟩
  · exact hl
  · simp [hs] at hc
  · simp [hs] at hc
  · exact absurd ht (hold word rest i)

theorem Inv.latest_of_live (hlive : w.hist.Live i)
    (hf : (w.slot i).future = some id) : w.hist.latest i = some id := by
  refine h.occupant_latest (fun fut hs => ?_) hf
  have hspawn := hs ▸ h.spawn
  exact hspawn.1 hlive

/-- **A flag on a live slot was set through the handle of the task in it.** -/
theorem Inv.flag_own (hlive : w.hist.Live i)
    (hflag : (w.slot i).abort = true) (hf : (w.slot i).future = some id) : id ∈ w.hist.aborted := by
  have hid := h.latest_of_live hlive hf
  rcases h.flag i hflag with ⟨id', hid', hl⟩ | hfull
  · rw [hl] at hid
    cases hid
    exact hid'
  · have := h.hist.bound i
    unfold History.Live at hlive
    omega

theorem Inv.setSlot {s : TaskSlot} {pc : TickPc} (hs : w.spawn = none)
    (hold : ∀ word rest i, w.tick ≠ .slot .clearUsed word rest i)
    (hepoch : s.epoch = (w.slot idx).epoch) (habort : s.abort = true → (w.slot idx).abort = true)
    (hfuture : ∀ id, s.future = some id → (w.slot idx).future = some id)
    (hnew : TickOk w.hist (w.arena.setSlot idx s).slots pc) :
    Inv { w with arena := w.arena.setSlot idx s, tick := pc } := by
  refine { h with
    live := ?_, tick := hnew, nested := fun hn => absurd hs hn, epoch := ?_, flag := ?_,
    occupant := ?_ }
  · intro i hi
    exact .inl (h.live_of_used hs hi hold)
  · intro i
    exact (field_setSlot TaskSlot.epoch hepoch i).trans (h.epoch i)
  · intro i hi
    simp only [slot, slots_setSlot] at hi
    split at hi
    next heq =>
      rw [heq]
      exact h.flag idx (habort hi)
    · exact h.flag i hi
  · intro i id hf
    refine .inr ⟨?_, by simp [hs]⟩
    simp only [slot, slots_setSlot] at hf
    split at hf
    next heq =>
      rw [heq]
      exact h.occupant_latest (by simp [hs]) (hfuture id hf)
    · exact h.occupant_latest (by simp [hs]) hf

theorem Inv.cancel {ids : List ℕ} (hids : ∀ id ∈ ids, id ∈ w.hist.aborted) :
    Inv { w with hist := { w.hist with cancelled := ids ++ w.hist.cancelled } } := by
  have hpast : History.Ok { w.hist with cancelled := ids ++ w.hist.cancelled } := by
    refine ⟨h.hist.counts, h.hist.bound, ?_, ?_⟩
    · intro k hk
      obtain ⟨h1, h2, h3, h4⟩ := h.hist.issued k hk
      exact ⟨h1, h2, h3, h4⟩
    · intro id hid
      rcases mem_append.1 hid with hid | hid
      · exact hids id hid
      · exact h.hist.cancelled id hid
  exact ⟨hpast, h.used, h.live, h.tick, h.spawn, h.nested, h.epoch, h.calls, h.flag, h.occupant⟩

theorem bumpEpoch_inv {ready : Bool}
    (hs : w.spawn = none) (ht : w.tick = .slot .bumpEpoch word rest idx) :
    Inv (w.slotStep ready word rest idx .bumpEpoch) := by
  have htick := h.tick
  rw [ht] at htick
  have hlive : w.hist.Live idx := htick
  dsimp only [slotStep]
  refine ⟨h.hist.free hlive, fun i hi => h.used i hi.of_free, ?_, h.hist.free_not_live idx, ?_,
    fun hn => absurd hs hn, ?_, fun c hc => (h.calls c hc).free idx, ?_, ?_⟩
  · intro i hi
    by_cases heq : i = idx
    · exact .inr (.inr ⟨word, rest, by rw [heq]⟩)
    · exact .inl ((h.live_of_used hs hi (by simp [ht])).free heq)
  · rw [hs]
    trivial
  · intro i
    have hi := h.epoch i
    simp only [slot, slots_setSlot, History.free, update_apply] at hi ⊢
    split
    next heq =>
      rw [← heq, hi, UInt32.ofNat_add]
      rfl
    · exact hi
  · intro i hi
    exact (h.flag i ((field_setSlot TaskSlot.abort (by rfl) i).symm.trans hi)).free idx
  · intro i id hf
    exact .inr ⟨h.occupant_latest (by simp [hs])
      ((field_setSlot TaskSlot.future (by rfl) i).symm.trans hf), by simp [hs]⟩

theorem clearUsed_inv {ready : Bool}
    (hs : w.spawn = none) (ht : w.tick = .slot .clearUsed word rest idx) :
    Inv (w.slotStep ready word rest idx .clearUsed) := by
  have htick := h.tick
  rw [ht] at htick
  have hdead : ¬ w.hist.Live idx := htick
  dsimp only [slotStep, TaskArena.clearUsed]
  refine { h with
    used := ?_, live := ?_, tick := trivial, spawn := ?_, nested := fun hn => absurd hs hn }
  · intro i hi
    have hne : i ≠ idx := by
      rintro rfl
      exact hdead hi
    simpa [hne] using h.used i hi
  · intro i hi
    obtain ⟨hused, hne⟩ : i ∈ w.arena.usedBits ∧ i ≠ idx := by simpa using hi
    rcases h.live i hused with hl | hc | ⟨word', rest', ht'⟩
    · exact .inl hl
    · exact .inr (.inl hc)
    · rw [ht] at ht'
      cases ht'
      exact absurd rfl hne
  · rw [hs]
    trivial

theorem slotStep_inv (ready : Bool) {stage : Stage}
    (hs : w.spawn = none) (ht : w.tick = .slot stage word rest idx) :
    Inv (w.slotStep ready word rest idx stage) := by
  have htick := h.tick
  rw [ht] at htick
  cases stage with
  | swapAbort =>
    have hlive : w.hist.Live idx := htick
    refine h.setSlot hs (by simp [ht]) rfl (by simp) (fun id hid => hid) ?_
    split
    next hflag =>
      refine ⟨hlive, fun id hid => h.flag_own hlive hflag ?_⟩
      simpa [slot] using hid
    · exact hlive
  | dropAborted =>
    have hids : ∀ id ∈ (w.slot idx).future.toList, id ∈ w.hist.aborted := by
      intro id hid
      exact htick.2 id (Option.mem_toList.1 hid)
    have hdrop : Inv { w with
        arena := w.arena.setSlot idx { w.slot idx with future := none }
        tick := .slot .bumpEpoch word rest idx } :=
      h.setSlot hs (by simp [ht]) rfl id (by simp) htick.1
    exact hdrop.cancel hids
  | poll =>
    have hlive : w.hist.Live idx := htick
    dsimp only [slotStep]
    split
    · exact h.walk hs (by simp [ht]) hlive
    · exact h.walk hs (by simp [ht]) trivial
  | dropDone =>
    have hlive : w.hist.Live idx := htick
    exact h.setSlot hs (by simp [ht]) rfl id (by simp) hlive
  | bumpEpoch => exact bumpEpoch_inv h hs ht
  | clearUsed => exact clearUsed_inv h hs ht

theorem tickStep_inv (ready : Bool) (hs : w.spawn = none) :
    Inv (w.tickStep ready w.tick) := by
  cases ht : w.tick with
  | idle => exact h
  | scan word =>
    dsimp only [tickStep]
    split
    · split
      · exact h.walk hs (by simp [ht]) trivial
      · exact h.walk hs (by simp [ht]) trivial
    · exact h.walk hs (by simp [ht]) trivial
  | sweep word =>
    dsimp only [tickStep]
    split
    · have hvisit : Inv { w with tick := .visit word (w.arena.readyIn word) } :=
        h.walk hs (by simp [ht]) trivial
      exact hvisit.ready _
    · exact h.walk hs (by simp [ht]) trivial
  | visit word bits =>
    cases bits with
    | nil => exact h.walk hs (by simp [ht]) trivial
    | cons idx rest =>
      dsimp only [tickStep]
      split
      next hused =>
        have hused' : idx ∈ w.arena.usedBits := by simpa [TaskArena.isUsed] using hused
        exact h.walk hs (by simp [ht]) (h.live_of_used hs hused' (by simp [ht]))
      · exact h.walk hs (by simp [ht]) trivial
  | slot stage word rest idx => exact slotStep_inv h ready hs ht

/-! ### The steps of a call -/

theorem Inv.withCalls {calls : List Call} (hcalls : ∀ c ∈ calls, w.hist.CallOk c) :
    Inv { w with calls := calls } := { h with calls := hcalls }

theorem Inv.eraseCall (j : ℕ) : Inv { w with calls := w.calls.eraseIdx j } :=
  h.withCalls fun c hc => h.calls c (mem_of_mem_eraseIdx hc)

theorem Inv.setCall {j : ℕ} {c : Call} (hc : w.hist.CallOk c) :
    Inv { w with calls := w.calls.set j c } := by
  refine h.withCalls fun c' hc' => ?_
  rcases mem_or_eq_of_mem_set hc' with hmem | rfl
  · exact h.calls c' hmem
  · exact hc

/-- **The epoch check**: who passes it is the last spawn of the slot. -/
theorem Inv.check {k : Issued} (hk : k ∈ w.hist.issued)
    (hepoch : (w.slot k.slotIdx).epoch = k.epoch) :
    w.hist.latest k.slotIdx = some k.spawn ∨ 2 ^ 32 ≤ w.hist.frees k.slotIdx := by
  obtain ⟨hk1, hk2, -, hk4⟩ := h.hist.issued k hk
  by_cases hfull : 2 ^ 32 ≤ w.hist.frees k.slotIdx
  · exact .inr hfull
  · refine .inl (hk4 ?_)
    rw [h.epoch, hk1] at hepoch
    have hmod := congrArg UInt32.toNat hepoch
    simp only [UInt32.toNat_ofNat'] at hmod
    omega

theorem Inv.setFlag (hown : w.hist.Own i) :
    Inv { w with arena := w.arena.setSlot i { w.slot i with abort := true } } := by
  refine { h with tick := ?_, epoch := ?_, flag := ?_, occupant := ?_ }
  · exact h.tick.mono (fun _ => .rfl) (fun _ => id) fun j _ _ hid =>
      (field_setSlot TaskSlot.future (by rfl) j).symm.trans hid
  · intro j
    exact (field_setSlot TaskSlot.epoch (by rfl) j).trans (h.epoch j)
  · intro j hj
    by_cases heq : j = i
    · exact heq ▸ hown
    · exact h.flag j (by simpa [slot, heq] using hj)
  · intro j id hf
    exact h.occupant j id ((field_setSlot TaskSlot.future (by rfl) j).symm.trans hf)

theorem callStep_inv {j : ℕ} {c : Call} (hc : w.calls[j]? = some c)
    (hundisturbed : ∀ seen, c.pc = .store seen → w.hist.resets c.handle.slotIdx = seen) :
    Inv (w.callStep j c) := by
  obtain ⟨hmem, hpc⟩ := h.calls c (mem_of_getElem? hc)
  unfold callStep
  cases hcpc : c.pc with
  | check =>
    rw [hcpc] at hpc
    have haborted : c.handle.spawn ∈ w.hist.aborted := hpc
    dsimp only
    split
    · exact h.eraseCall j
    next hepoch =>
      refine h.setCall ⟨hmem, le_refl _, fun _ => ?_⟩
      rcases h.check hmem (not_not.1 hepoch) with hl | hfull
      · exact .inl ⟨_, haborted, hl⟩
      · exact .inr hfull
  | store seen =>
    rw [hcpc] at hpc
    have hown := hpc.2 (hundisturbed seen hcpc).symm
    exact (h.setFlag hown).setCall ⟨hmem, trivial⟩
  | markReady => exact (h.eraseCall j).ready _
  | finishedEpoch =>
    dsimp only
    split
    · exact h.eraseCall j
    · exact h.setCall ⟨hmem, trivial⟩
  | finishedUsed => exact h.eraseCall j

omit h

/-! ### Runs -/

/-- No spawn resets a flag between its check and its store. -/
def FlagFresh (w : World) : Action → Prop
  | .call j =>
    match w.calls[j]? with
    | some ⟨h, .store seen⟩ => w.hist.resets h.slotIdx = seen
    | _ => True
  | _ => True

instance (w : World) (a : Action) : Decidable (FlagFresh w a) := by
  unfold FlagFresh
  split
  · split <;> infer_instance
  · infer_instance

/-- Flags are fresh, and slots below `2 ^ 32` reuses. -/
def Undisturbed (w : World) (a : Action) : Prop :=
  FlagFresh w a ∧ ∀ i, (w.step a).hist.resets i ≤ 2 ^ 32

theorem init_inv : Inv init := by
  refine ⟨⟨?_, ?_, ?_, ?_⟩, ?_, ?_, trivial, trivial, fun hn => absurd rfl hn, ?_, ?_, ?_, ?_⟩
  · intro i
    exact ⟨le_refl _, Nat.zero_le _⟩
  · intro i
    exact Nat.zero_le _
  · simp [init]
  · simp [init]
  · intro i hi
    exact absurd hi (lt_irrefl _)
  · simp [init, TaskArena.new]
  · intro i
    rfl
  · simp [init]
  · simp [init, slot, TaskArena.new]
  · simp [init, slot, TaskArena.new]

theorem Inv.abort (h : Inv w) {k : Issued} (hk : k ∈ w.hist.issued) :
    Inv { w with
      calls := w.calls ++ [⟨k, .check⟩]
      hist := { w.hist with aborted := k.spawn :: w.hist.aborted } } := by
  have hgrow : ∀ {id}, id ∈ w.hist.aborted → id ∈ k.spawn :: w.hist.aborted :=
    fun hid => mem_cons_of_mem _ hid
  have hown : ∀ {i}, w.hist.Own i →
      History.Own { w.hist with aborted := k.spawn :: w.hist.aborted } i := by
    rintro i (⟨id, hid, hl⟩ | hfull)
    · exact .inl ⟨id, hgrow hid, hl⟩
    · exact .inr hfull
  refine ⟨⟨h.hist.counts, h.hist.bound, ?_, fun id hid => hgrow (h.hist.cancelled id hid)⟩, h.used,
    h.live, ?_, h.spawn, h.nested, h.epoch, ?_, fun i hi => hown (h.flag i hi), h.occupant⟩
  · intro k' hk'
    obtain ⟨h1, h2, h3, h4⟩ := h.hist.issued k' hk'
    exact ⟨h1, h2, h3, h4⟩
  · exact h.tick.mono (fun _ => .rfl) (fun _ hid => hgrow hid) fun _ _ _ => id
  · intro c hc
    rcases mem_append.1 hc with hc | hc
    · exact (h.calls c hc).mono (fun _ => id) (fun _ => hgrow) le_rfl fun _ => hown
    · obtain rfl := mem_singleton.1 hc
      exact ⟨hk, mem_cons_self⟩

theorem step_inv (w : World) (a : Action) (hu : Undisturbed w a) (h : Inv w) : Inv (w.step a) := by
  obtain ⟨hfresh, hbound⟩ := hu
  cases a with
  | tick =>
    dsimp only [step]
    split
    next hidle =>
      exact h.walk hidle.2 (by simp [hidle.1]) trivial
    · exact h
  | spawn =>
    dsimp only [step]
    split
    next hmay =>
      have hs : Inv { w with spawn := some (.load w.spawned 0) } :=
        h.search (by rw [hmay.2]; trivial) trivial fun _ => hmay.1
      exact { hs with }
    · exact h
  | owner ready =>
    dsimp only [step] at hbound ⊢
    cases hs : w.spawn with
    | some pc =>
      rw [hs] at hbound
      exact spawnStep_inv h hs hbound
    | none => exact tickStep_inv h ready hs
  | abort k =>
    dsimp only [step]
    split
    next hk =>
      exact h.abort (mem_of_getElem? hk)
    · exact h
  | isFinished k =>
    dsimp only [step]
    split
    next hk =>
      refine h.withCalls fun c hc => ?_
      rcases mem_append.1 hc with hc | hc
      · exact h.calls c hc
      · obtain rfl := mem_singleton.1 hc
        exact ⟨mem_of_getElem? hk, trivial⟩
    · exact h
  | call j =>
    dsimp only [step]
    split
    next c hc =>
      refine callStep_inv h hc fun seen hpc => ?_
      obtain ⟨k, pc⟩ := c
      cases hpc
      simpa only [FlagFresh, hc] using hfresh
    · exact h
  | wake i =>
    dsimp only [step]
    split
    · exact h.ready _
    · exact h

theorem step_resets_le (w : World) (a : Action) (i : ℕ) :
    (w.step a).hist.resets i ≤ w.hist.resets i + 1 := by
  have hreset : ∀ fut idx, (w.hist.reset fut idx).resets i ≤ w.hist.resets i + 1 := by
    intro fut idx
    unfold History.reset
    dsimp only
    rw [update_apply]
    split
    next heq =>
      rw [heq]
    · exact Nat.le_succ _
  cases a with
  | owner ready =>
    dsimp only [step]
    split
    next pc _ =>
      cases pc with
      | resetAbort fut idx => exact hreset fut idx
      | _ =>
        dsimp only [spawnStep]
        (repeat' split) <;> exact Nat.le_succ _
    · unfold tickStep slotStep
      (repeat' split) <;> exact Nat.le_succ _
  | call j =>
    dsimp only [step, callStep]
    (repeat' split) <;> exact Nat.le_succ _
  | _ =>
    dsimp only [step]
    split <;> exact Nat.le_succ _

theorem undisturbed_of_short {as : List Action} (hshort : as.length ≤ 2 ^ 32)
    (h : Runs.Along step FlagFresh init as) : Runs.Along step Undisturbed init as := by
  have hrun : ∀ (as : List Action) (w : World) (n : ℕ), (∀ i, w.hist.resets i ≤ n) →
      n + as.length ≤ 2 ^ 32 → Runs.Along step FlagFresh w as →
      Runs.Along step Undisturbed w as := by
    intro as
    induction as with
    | nil =>
      intro w n _ _ _
      trivial
    | cons a as ih =>
      intro w n hn hlen hfresh
      rw [length_cons] at hlen
      have hnext : ∀ i, (w.step a).hist.resets i ≤ n + 1 := fun i =>
        le_trans (w.step_resets_le a i) (Nat.succ_le_succ (hn i))
      exact ⟨⟨hfresh.1, fun i => le_trans (hnext i) (by omega)⟩,
        ih (w.step a) (n + 1) hnext (by omega) hfresh.2⟩
  exact hrun as init 0 (fun _ => le_refl _) (by omega) h

end World

open World

/-- **No stranger is cancelled** where no spawn resets a flag between check and store. -/
theorem abort_only_own {actions : List Action}
    (hrun : Runs.Along World.step Undisturbed World.init actions) :
    let w := actions.foldl World.step World.init
    (∀ id ∈ w.hist.cancelled, id ∈ w.hist.aborted) ∧
    (∀ i id, w.hist.Live i → (w.slot i).future = some id → (w.slot i).abort = true →
      id ∈ w.hist.aborted) ∧
    ∀ j c id, w.calls[j]? = some c → c.pc = .check → w.hist.Live c.handle.slotIdx →
      (w.slot c.handle.slotIdx).future = some id → id ≠ c.handle.spawn →
      w.step (.call j) = { w with calls := w.calls.eraseIdx j } := by
  intro w
  have h : Inv w := hrun.invariant step_inv init_inv
  refine ⟨h.hist.cancelled, ?_, ?_⟩
  · intro i id hlive hf hflag
    exact h.flag_own hlive hflag hf
  · intro j c id hc hpc hlive hf hne
    have hepoch : (w.slot c.handle.slotIdx).epoch ≠ c.handle.epoch := by
      intro heq
      have hid := h.latest_of_live hlive hf
      rcases h.check (h.calls c (mem_of_getElem? hc)).1 heq with hl | hfull
      · rw [hl] at hid
        cases hid
        exact hne rfl
      · have := h.hist.bound c.handle.slotIdx
        unfold History.Live at hlive
        omega
    simp only [World.step, hc, World.callStep, hpc, if_pos hepoch]

def ownerSteps (n : ℕ) : List Action := List.replicate n (.owner false)

/-- Six steps of `spawn_boxed` at a free first slot. -/
def spawnFirst : List Action := .spawn :: ownerSteps 6

def promptAbort : List Action :=
  spawnFirst ++ [.abort 0, .call 0, .call 0, .call 0, .tick] ++ ownerSteps 5

/-- The task that was dropped had its own handle aborted. -/
theorem abort_only_own_first :
    (promptAbort.foldl World.step World.init).hist.cancelled = [0] ∧
      ∀ id ∈ (promptAbort.foldl World.step World.init).hist.cancelled,
        id ∈ (promptAbort.foldl World.step World.init).hist.aborted := by
  have hrun : Runs.Along World.step Undisturbed World.init promptAbort :=
    undisturbed_of_short (by decide) (by decide +kernel)
  exact ⟨by decide +kernel, (abort_only_own hrun).1⟩

def lateAbort : List Action :=
  spawnFirst ++ [.abort 0, .call 0] ++ (.tick :: ownerSteps 4) ++ [.owner true] ++
    ownerSteps 1027 ++ spawnFirst ++ [.call 0, .call 0] ++ (.tick :: ownerSteps 5)

/-- **A stranger is cancelled**: task `1` is dropped, and only task `0` was aborted. -/
theorem abort_hits_stranger :
    (lateAbort.foldl World.step World.init).hist.aborted = [0] ∧
      (lateAbort.foldl World.step World.init).hist.cancelled = [1] ∧
      (lateAbort.foldl World.step World.init).hist.resets 0 = 2 := by
  decide +kernel

end Waitless.Executor
