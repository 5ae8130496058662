import Mathlib

/-! # Rings of numbered slots with holes

Items are kept by number in a queue of slots, the first of which has number `base`. An insertion
past the end pads with holes; a removal leaves a hole, and holes at the front are reclaimed, so
that `base` is the number of the oldest item left. -/

/-- Items numbered from `base` on, with holes. -/
structure HoleRing (α : Type*) where
  base : ℕ
  slots : List (Option α)
  live : ℕ
  front : slots.head? ≠ some none
  live_eq : live = slots.countP Option.isSome

namespace HoleRing

open List

variable {α : Type*}

def entriesFrom : ℕ → List (Option α) → List (ℕ × α)
  | _, [] => []
  | base, none :: slots => entriesFrom (base + 1) slots
  | base, some x :: slots => (base, x) :: entriesFrom (base + 1) slots

def dropHoles : ℕ → List (Option α) → ℕ × List (Option α)
  | base, none :: slots => dropHoles (base + 1) slots
  | base, slots => (base, slots)

theorem length_entriesFrom (base : ℕ) (slots : List (Option α)) :
    (entriesFrom base slots).length = slots.countP Option.isSome := by
  induction slots generalizing base with
  | nil => rfl
  | cons o slots ih => cases o <;> simp [entriesFrom, ih]

theorem entriesFrom_dropHoles (base : ℕ) (slots : List (Option α)) :
    entriesFrom (dropHoles base slots).1 (dropHoles base slots).2 = entriesFrom base slots := by
  induction slots generalizing base with
  | nil => rfl
  | cons o slots ih =>
    cases o with
    | none => exact ih (base + 1)
    | some x => rfl

theorem head?_dropHoles (base : ℕ) (slots : List (Option α)) :
    (dropHoles base slots).2.head? ≠ some none := by
  induction slots generalizing base with
  | nil => simp [dropHoles]
  | cons o slots ih =>
    cases o with
    | none => exact ih (base + 1)
    | some x => simp [dropHoles]

variable (r : HoleRing α)

def empty : HoleRing α := ⟨0, [], 0, by simp, rfl⟩

def entries : List (ℕ × α) := entriesFrom r.base r.slots

def isEmpty : Bool := r.live == 0

def padded (slots : List (Option α)) (i : ℕ) : List (Option α) :=
  slots ++ List.replicate (i + 1 - slots.length) none

theorem lt_length_padded (slots : List (Option α)) (i : ℕ) : i < (padded slots i).length := by
  simp only [padded, length_append, length_replicate]
  omega

theorem countP_padded (slots : List (Option α)) (i : ℕ) :
    (padded slots i).countP Option.isSome = slots.countP Option.isSome := by
  simp [padded, countP_replicate]

theorem countP_set_isSome {slots : List (Option α)} {i : ℕ} (hi : i < slots.length) (o : Option α) :
    (slots.set i o).countP Option.isSome + (if (slots[i]?.join).isSome then 1 else 0) =
      slots.countP Option.isSome + if o.isSome then 1 else 0 := by
  have hget : slots[i]?.join = slots[i] := by simp [hi]
  rw [countP_set hi, hget]
  have hpos : slots[i].isSome = true → 0 < slots.countP Option.isSome := fun h =>
    countP_pos_iff.2 ⟨_, getElem_mem hi, h⟩
  split_ifs with h1 h2 h2 <;> first | omega | (have hp := hpos h1; omega)

theorem head?_set_some {slots : List (Option α)} (h : slots.head? ≠ some none) (i : ℕ) (x : α) :
    (slots.set i (some x)).head? ≠ some none := by
  cases slots with
  | nil => simp
  | cons o slots =>
    cases i with
    | zero => simp
    | succ i => simpa using h

def insert (n : ℕ) (x : α) : HoleRing α :=
  if h : r.slots = [] then ⟨n, [some x], 1, by simp, by simp⟩
  else if n < r.base then r
  else
    let slots := padded r.slots (n - r.base)
    { base := r.base
      slots := slots.set (n - r.base) (some x)
      live := if (slots[n - r.base]?.join).isSome then r.live else r.live + 1
      front := by
        refine head?_set_some ?_ _ _
        obtain ⟨o, os, ho⟩ := List.exists_cons_of_ne_nil h
        have := r.front
        simp only [slots, padded, ho, List.cons_append, List.head?_cons] at this ⊢
        exact this
      live_eq := by
        have := countP_set_isSome (lt_length_padded r.slots (n - r.base)) (some x)
        rw [countP_padded, ← r.live_eq] at this
        simp only [slots, Option.isSome_some, if_true] at this ⊢
        split_ifs at this ⊢ with hs <;> omega }

def remove (n : ℕ) : Option α × HoleRing α :=
  if n < r.base then (none, r)
  else
    let taken := r.slots[n - r.base]?.join
    let d := dropHoles r.base (r.slots.set (n - r.base) none)
    (taken,
      { base := d.1
        slots := d.2
        live := if taken.isSome then r.live - 1 else r.live
        front := head?_dropHoles _ _
        live_eq := by
          rw [← length_entriesFrom d.1, entriesFrom_dropHoles, length_entriesFrom, r.live_eq]
          by_cases hi : n - r.base < r.slots.length
          · have := countP_set_isSome hi none
            simp only [Option.isSome_none, Bool.false_eq_true, if_false] at this
            simp only [taken]
            split_ifs at this ⊢ <;> omega
          · have hnone : r.slots[n - r.base]? = none := List.getElem?_eq_none (not_lt.1 hi)
            rw [List.set_eq_of_length_le (not_lt.1 hi)]
            simp [taken, hnone] })

def Holds (x : α) : Prop := some x ∈ r.slots

variable {r}

variable {n : ℕ} {x : α}

theorem holds_insert {y : α} (h : (r.insert n x).Holds y) : y = x ∨ r.Holds y := by
  unfold Holds insert at h
  split_ifs at h with hempty hbase
  · exact .inl (by simpa using h)
  · exact .inr h
  · rcases mem_or_eq_of_mem_set h with h | h
    · exact .inr (by simpa [padded, Holds] using h)
    · exact .inl (Option.some.inj h)

theorem mem_of_mem_dropHoles {base : ℕ} {slots : List (Option α)}
    (h : some x ∈ (dropHoles base slots).2) : some x ∈ slots := by
  induction slots generalizing base with
  | nil => exact h
  | cons o slots ih =>
    cases o with
    | none => exact mem_cons_of_mem _ (ih h)
    | some y => exact h

theorem holds_remove (h : (r.remove n).2.Holds x) : r.Holds x := by
  unfold Holds remove at h
  split_ifs at h
  · exact h
  · exact (mem_or_eq_of_mem_set (mem_of_mem_dropHoles h)).resolve_right nofun

theorem holds_of_remove (h : (r.remove n).1 = some x) : r.Holds x := by
  unfold remove at h
  split_ifs at h
  exact mem_of_getElem? (Option.join_eq_some_iff.1 h)

variable (r)

def sum {M : Type*} [AddCommMonoid M] (f : α → M) (r : HoleRing α) : M :=
  (r.entries.map fun e => f e.2).sum

end HoleRing
