import Mathlib

/-! # Rings that remember the latest items

A ring of cells with a cursor: each item overwrites the cell under the cursor, which moves on.
`Remembers cells idx log` says that the cells hold the latest items of `log`, which lists
everything written, latest first. -/

namespace RecentRing

variable {α : Type*}

/-- The cells hold the latest items of `log`. -/
structure Remembers (cells : List α) (idx : ℕ) (log : List α) : Prop where
  idx_lt : idx < cells.length
  cell : ∀ j < cells.length, ∀ x, log[j]? = some x →
    cells[(idx + cells.length - 1 - j) % cells.length]? = some x

variable {cells log : List α} {idx : ℕ}

theorem remembers_nil (h : idx < cells.length) : Remembers cells idx [] := ⟨h, by simp⟩

theorem Remembers.push (h : Remembers cells idx log) (x : α) :
    Remembers (cells.set idx x) ((idx + 1) % cells.length) (x :: log) := by
  have hidx := h.idx_lt
  have hpos : 0 < cells.length := by omega
  refine ⟨by rw [List.length_set]; exact Nat.mod_lt _ hpos, fun j hj y hy => ?_⟩
  rw [List.length_set] at hj ⊢
  have hback : ((idx + 1) % cells.length + cells.length - 1 - j) % cells.length =
      (idx + cells.length - j) % cells.length := by
    by_cases hwrap : idx + 1 = cells.length
    · rw [hwrap, Nat.mod_self]
      rw [show idx + cells.length - j = 0 + cells.length - 1 - j + cells.length by omega,
        Nat.add_mod_right]
    · rw [Nat.mod_eq_of_lt (show idx + 1 < cells.length by omega)]
      congr 1
      omega
  rw [hback]
  cases j with
  | zero =>
    obtain rfl : x = y := by simpa using hy
    rw [Nat.sub_zero, Nat.add_mod_right, Nat.mod_eq_of_lt hidx]
    exact List.getElem?_set_self hidx
  | succ j =>
    have hold := h.cell j (by omega) y (by simpa using hy)
    rw [show idx + cells.length - (j + 1) = idx + cells.length - 1 - j by omega]
    rwa [List.getElem?_set_ne]
    intro heq
    by_cases hlt : idx + cells.length - 1 - j < cells.length
    · rw [Nat.mod_eq_of_lt hlt] at heq
      omega
    · rw [show idx + cells.length - 1 - j = idx - 1 - j + cells.length by omega,
        Nat.add_mod_right, Nat.mod_eq_of_lt (by omega)] at heq
      omega

theorem Remembers.mem (h : Remembers cells idx log) {x : α} (hx : x ∈ log.take cells.length) :
    x ∈ cells := by
  obtain ⟨j, hj⟩ := List.mem_iff_getElem?.1 hx
  rw [List.getElem?_take] at hj
  split_ifs at hj with hlt
  exact List.mem_of_getElem? (h.cell j hlt x hj)

end RecentRing
