import Mathlib.Data.List.Basic
import Mathlib.Data.Nat.Notation

/-! # Circular buffers over a flat memory

A memory is a function of the index. `writeWrapped` and `readWrapped` copy a block in one or two
pieces, the way ring buffers are coded; `contents` is the list such a buffer stands for. -/

namespace RingBuffer

open List

variable {α : Type*}

def write (mem : ℕ → α) (start : ℕ) (xs : List α) : ℕ → α := fun i =>
  if start ≤ i then xs[i - start]?.getD (mem i) else mem i

/-- The `n` cells from `start` on. -/
def read (mem : ℕ → α) (start n : ℕ) : List α := (List.range n).map fun i => mem (start + i)

def writeWrapped (cap : ℕ) (mem : ℕ → α) (tail : ℕ) (xs : List α) : ℕ → α :=
  if tail + xs.length ≤ cap then write mem tail xs
  else write (write mem tail (xs.take (cap - tail))) 0 (xs.drop (cap - tail))

def readWrapped (cap : ℕ) (mem : ℕ → α) (head n : ℕ) : List α :=
  if head + n ≤ cap then read mem head n
  else read mem head (cap - head) ++ read mem 0 (n - (cap - head))

def contents (cap : ℕ) (mem : ℕ → α) (head used : ℕ) : List α :=
  (List.range used).map fun i => mem ((head + i) % cap)

variable {cap : ℕ} {mem : ℕ → α} {head tail used : ℕ}

@[simp] theorem length_contents : (contents cap mem head used).length = used := by
  simp [contents]

variable {i n start : ℕ} {xs : List α}

theorem getElem?_contents (h : i < used) :
    (contents cap mem head used)[i]? = some (mem ((head + i) % cap)) := by
  simp [contents, h]

@[simp] theorem length_read : (read mem start n).length = n := by
  simp [read]

theorem getElem?_read (h : i < n) :
    (read mem start n)[i]? = some (mem (start + i)) := by
  simp [read, h]

theorem write_of_lt (h : i < start) : write mem start xs i = mem i := by
  simp [write, Nat.not_le.2 h]

theorem write_of_ge (h : start + xs.length ≤ i) :
    write mem start xs i = mem i := by
  unfold write
  split
  · rw [getElem?_eq_none (by omega)]
    rfl
  · rfl

theorem write_add (h : i < xs.length) :
    write mem start xs (start + i) = xs[i] := by
  simp [write, h]

private theorem wrap_index (i : ℕ) (hi : i < 2 * cap - head) :
    (head + i) % cap = if head + i < cap then head + i else head + i - cap := by
  split
  · exact Nat.mod_eq_of_lt ‹_›
  · rw [Nat.mod_eq_sub_mod (by omega), Nat.mod_eq_of_lt (by omega)]

theorem writeWrapped_tail (hcap : tail < cap) (hlen : xs.length ≤ cap)
    (hi : i < xs.length) : writeWrapped cap mem tail xs ((tail + i) % cap) = xs[i] := by
  rw [wrap_index i (by omega)]
  unfold writeWrapped
  split_ifs with hfit hlt hlt
  · exact write_add hi
  · omega
  · have hi' : i < (xs.take (cap - tail)).length := by simp; omega
    rw [write_of_ge (by simp; omega), write_add hi', getElem_take]
  · have hi' : tail + i - cap < (xs.drop (cap - tail)).length := by simp; omega
    have hhead : write (write mem tail (xs.take (cap - tail))) 0 (xs.drop (cap - tail))
        (0 + (tail + i - cap)) = _ := write_add hi'
    rw [Nat.zero_add] at hhead
    rw [hhead, getElem_drop]
    congr 1
    omega

theorem writeWrapped_other (hcap : head < cap) (hlen : used + xs.length ≤ cap)
    (htail : tail = (head + used) % cap) (hi : i < used) :
    writeWrapped cap mem tail xs ((head + i) % cap) = mem ((head + i) % cap) := by
  rw [wrap_index used (by omega)] at htail
  rw [wrap_index i (by omega)]
  unfold writeWrapped
  split_ifs at htail ⊢
  all_goals
    first
    | exact write_of_lt (by omega)
    | exact write_of_ge (by omega)
    | rw [write_of_ge (by simp; omega), write_of_lt (by omega)]

theorem contents_writeWrapped (mem : ℕ → α) (hcap : head < cap) (hlen : used + xs.length ≤ cap)
    (htail : tail = (head + used) % cap) :
    contents cap (writeWrapped cap mem tail xs) head (used + xs.length) =
      contents cap mem head used ++ xs := by
  apply ext_getElem?
  intro i
  by_cases hi : i < used
  · rw [getElem?_contents (by omega), writeWrapped_other hcap hlen htail hi,
      getElem?_append_left (by simpa using hi), getElem?_contents hi]
  by_cases hi' : i < used + xs.length
  · have hcell : (head + i) % cap = (tail + (i - used)) % cap := by
      rw [htail, Nat.mod_add_mod]
      congr 1
      omega
    have htl : tail < cap := by rw [htail]; exact Nat.mod_lt _ (by omega)
    rw [getElem?_contents hi', hcell, writeWrapped_tail htl (by omega) (by omega),
      getElem?_append_right (by simpa using hi)]
    simp
  · rw [getElem?_eq_none (by simpa using hi'), getElem?_eq_none (by simpa using hi')]

theorem readWrapped_eq_contents (mem : ℕ → α) (hcap : head < cap) (hn : n ≤ used) (hused : used ≤ cap) :
    readWrapped cap mem head n = (contents cap mem head used).take n := by
  apply ext_getElem?
  intro i
  by_cases hi : i < n
  · rw [getElem?_take_of_lt hi, getElem?_contents (by omega), wrap_index i (by omega)]
    unfold readWrapped
    split_ifs
    · exact getElem?_read hi
    · omega
    · rw [getElem?_append_left (by simp; omega), getElem?_read (by omega)]
    · rw [getElem?_append_right (by simp; omega), length_read, getElem?_read (by omega)]
      congr 2
      omega
  · have hl : (readWrapped cap mem head n).length = n := by
      unfold readWrapped
      split_ifs <;> simp
      omega
    rw [getElem?_eq_none (by omega), getElem?_eq_none (by simp; omega)]

theorem contents_advance (hn : n ≤ used) :
    contents cap mem ((head + n) % cap) (used - n) = (contents cap mem head used).drop n := by
  apply ext_getElem?
  intro i
  rw [getElem?_drop]
  by_cases hi : i < used - n
  · rw [getElem?_contents hi, getElem?_contents (by omega), Nat.mod_add_mod, Nat.add_assoc]
  · rw [getElem?_eq_none (by simpa using hi), getElem?_eq_none (by simp; omega)]

end RingBuffer
