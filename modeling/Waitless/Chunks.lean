import Mathlib.Data.List.Basic

/-! # Cutting a list into exact chunks

`chunksExact n l` is the list of the consecutive length-`n` pieces of `l` and
`remainder n l` the shorter rest, so that the pieces followed by the rest are `l`
(`flatten_chunksExact_append_remainder`). -/

namespace Chunks

open List

variable {α : Type*}

def pieces (n : ℕ) : ℕ → List α → List (List α)
  | 0, _ => []
  | k + 1, l => l.take n :: pieces n k (l.drop n)

def chunksExact (n : ℕ) (l : List α) : List (List α) := pieces n (l.length / n) l

def remainder (n : ℕ) (l : List α) : List α := l.drop (n * (l.length / n))

variable {n : ℕ}

theorem length_of_mem_pieces :
    ∀ {k : ℕ} {l c : List α}, n * k ≤ l.length → c ∈ pieces n k l → c.length = n
  | 0, _, _, _, h => by simp [pieces] at h
  | k + 1, l, c, hl, h => by
      rw [Nat.mul_succ] at hl
      rcases mem_cons.1 h with rfl | h
      · simp; omega
      · exact length_of_mem_pieces (by rw [length_drop]; omega) h

theorem flatten_pieces : ∀ (k : ℕ) (l : List α), (pieces n k l).flatten = l.take (n * k)
  | 0, l => by simp [pieces]
  | k + 1, l => by
      rw [pieces, flatten_cons, flatten_pieces k, Nat.mul_succ, Nat.add_comm, take_add]

theorem length_of_mem_chunksExact {l c : List α} (h : c ∈ chunksExact n l) :
    c.length = n :=
  length_of_mem_pieces (Nat.mul_div_le _ _) h

@[simp] theorem flatten_chunksExact_append_remainder (n : ℕ) (l : List α) :
    (chunksExact n l).flatten ++ remainder n l = l := by
  rw [chunksExact, remainder, flatten_pieces, take_append_drop]

theorem length_remainder (n : ℕ) (l : List α) : (remainder n l).length = l.length % n := by
  rw [remainder, length_drop, Nat.mod_def]

theorem length_remainder_lt (hn : 0 < n) (l : List α) : (remainder n l).length < n := by
  rw [length_remainder]
  exact Nat.mod_lt _ hn

theorem pieces_flatten_append (r : List α) :
    ∀ cs : List (List α), (∀ c ∈ cs, c.length = n) →
      pieces n cs.length (cs.flatten ++ r) = cs ∧ (cs.flatten ++ r).drop (n * cs.length) = r
  | [], _ => by simp [pieces]
  | c :: cs, h => by
      have hc : c.length = n := h c (by simp)
      obtain ⟨ih₁, ih₂⟩ := pieces_flatten_append r cs fun d hd => h d (by simp [hd])
      refine ⟨?_, ?_⟩
      · rw [length_cons, pieces, flatten_cons, append_assoc, take_left' hc,
          drop_left' hc, ih₁]
      · rw [length_cons, Nat.mul_succ, Nat.add_comm, ← drop_drop, flatten_cons,
          append_assoc, drop_left' hc, ih₂]

theorem length_flatten_append_div {cs : List (List α)} {r : List α}
    (h : ∀ c ∈ cs, c.length = n) (hr : r.length < n) :
    (cs.flatten ++ r).length / n = cs.length := by
  have hlen : cs.flatten.length = n * cs.length := by
    rw [length_flatten, map_congr_left h, map_const',
      sum_replicate_nat, Nat.mul_comm]
  rw [length_append, hlen, Nat.mul_add_div (by omega), Nat.div_eq_of_lt hr, Nat.add_zero]

theorem chunksExact_flatten_append {cs : List (List α)} {r : List α}
    (h : ∀ c ∈ cs, c.length = n) (hr : r.length < n) :
    chunksExact n (cs.flatten ++ r) = cs ∧ remainder n (cs.flatten ++ r) = r := by
  rw [chunksExact, remainder, length_flatten_append_div h hr]
  exact pieces_flatten_append r cs h

theorem chunksExact_mul (hn : 0 < n) (k : ℕ) (l : List α) :
    chunksExact n l = (chunksExact (n * k) l).flatMap (chunksExact n) ++
        chunksExact n (remainder (n * k) l) ∧
      remainder n l = remainder n (remainder (n * k) l) := by
  have hwhole : ∀ c ∈ chunksExact (n * k) l, (chunksExact n c).flatten = c := by
    intro c hc
    have hrest : remainder n c = [] := by
      rw [← length_eq_zero_iff, length_remainder, length_of_mem_chunksExact hc,
        Nat.mul_mod_right]
    simpa [hrest] using flatten_chunksExact_append_remainder n c
  have hmap : (chunksExact (n * k) l).map (flatten ∘ chunksExact n) = chunksExact (n * k) l :=
    (map_congr_left hwhole).trans (map_id _)
  generalize hcs : (chunksExact (n * k) l).flatMap (chunksExact n) ++
    chunksExact n (remainder (n * k) l) = cs
  have hl : cs.flatten ++ remainder n (remainder (n * k) l) = l := by
    rw [← hcs, flatten_append, append_assoc, flatten_chunksExact_append_remainder,
      flatMap_def, flatten_flatten, map_map, hmap,
      flatten_chunksExact_append_remainder]
  have hlen : ∀ c ∈ cs, c.length = n := by
    intro c hc
    rw [← hcs] at hc
    rcases mem_append.1 hc with hc | hc
    · obtain ⟨d, -, hc⟩ := mem_flatMap.1 hc
      exact length_of_mem_chunksExact hc
    · exact length_of_mem_chunksExact hc
  have hcut := chunksExact_flatten_append hlen (length_remainder_lt hn (remainder (n * k) l))
  rwa [hl] at hcut

end Chunks
