import Mathlib

/-! # Scanners fed in chunks

A scanner reads its input symbol by symbol until it ends, behind a symbol or before one. `scan`
runs it over some input, `within` does so for a limited number of symbols. Both go on behind an
input as they would have inside one (`scan_append`, `within_append`), so how an input is cut into
chunks does not matter. -/

namespace Scanner

open List

/-- What a scanner makes of a symbol. -/
inductive Step (σ : Type) where
  | more (s : σ)
  | behind (s : σ)
  | before (s : σ)

/-- What a scan over a limited number of symbols comes to. -/
inductive Outcome (σ β : Type) where
  | more (s : σ)
  | ended (s : σ) (rest : List β)
  | overflow

variable {σ β : Type} (step : σ → β → Step σ)

/-- The state behind the input, and the rest if the scanner has ended. -/
def scan : σ → List β → σ × Option (List β)
  | s, [] => (s, none)
  | s, b :: bs =>
    match step s b with
    | .more s' => scan s' bs
    | .behind s' => (s', some bs)
    | .before s' => (s', some (b :: bs))

def within (limit : ℕ) (s : σ) (input : List β) : Outcome σ β :=
  match scan step s (input.take limit) with
  | (s', some rest) => .ended s' (rest ++ input.drop limit)
  | (s', none) => if limit < input.length then .overflow else .more s'

variable {b : β} {s t : σ}

theorem scan_more {step : σ → β → Step σ} (h : step s b = .more t)
    (bs : List β) : scan step s (b :: bs) = scan step t bs := by
  rw [scan, h]

theorem scan_behind {step : σ → β → Step σ} (h : step s b = .behind t)
    (bs : List β) : scan step s (b :: bs) = (t, some bs) := by
  rw [scan, h]

/-- Two states that make the same of the first symbol. -/
theorem scan_congr {step : σ → β → Step σ} (h : step s b = step t b)
    (bs : List β) : scan step s (b :: bs) = scan step t (b :: bs) := by
  rw [scan, scan, h]

theorem scan_append (s : σ) (a b : List β) :
    scan step s (a ++ b) =
      match scan step s a with
      | (s', none) => scan step s' b
      | (s', some rest) => (s', some (rest ++ b)) := by
  induction a generalizing s with
  | nil => rfl
  | cons x a ih =>
    rw [cons_append, scan, scan]
    cases step s x with
    | more s' => exact ih s'
    | behind s' => rfl
    | before s' => rfl

theorem within_append (limit : ℕ) (s : σ) (a b : List β) :
    within step limit s (a ++ b) =
      match within step limit s a with
      | .more s' => within step (limit - a.length) s' b
      | .ended s' rest => .ended s' (rest ++ b)
      | .overflow => .overflow := by
  rw [within, within, take_append, drop_append, scan_append]
  by_cases hlimit : a.length ≤ limit
  · rw [take_of_length_le hlimit, drop_of_length_le hlimit]
    rcases scan step s a with ⟨s', _ | rest⟩
    · simp only [if_neg (Nat.not_lt.mpr hlimit), within, nil_append]
      rcases scan step s' (b.take (limit - a.length)) with ⟨s'', _ | rest⟩
      · have hlen : limit < (a ++ b).length ↔ limit - a.length < b.length := by
          rw [length_append]
          omega
        simp only [hlen]
      · rfl
    · simp
  · have hzero : limit - a.length = 0 := by omega
    rw [hzero, take_zero, drop_zero]
    rcases scan step s (a.take limit) with ⟨s', _ | rest⟩
    · have hlen : limit < a.length + b.length := by omega
      simp [scan, hlen, not_le.mp hlimit]
    · simp

theorem scan_of_within {limit : ℕ} {s' : σ} {input rest : List β}
    (h : within step limit s input = .ended s' rest) : scan step s input = (s', some rest) := by
  rw [← take_append_drop limit input, scan_append]
  rw [within] at h
  generalize scan step s (input.take limit) = res at h ⊢
  rcases res with ⟨t, _ | rest'⟩
  · simp only at h
    split_ifs at h
  · cases h
    rfl

theorem suffix_of_scan {s' : σ} {input rest : List β}
    (h : scan step s input = (s', some rest)) : rest <:+ input := by
  induction input generalizing s with
  | nil => simp [scan] at h
  | cons b bs ih =>
    rw [scan] at h
    cases hres : step s b with
    | more s'' =>
      rw [hres] at h
      exact (ih h).trans (suffix_cons b bs)
    | behind s'' =>
      simp only [hres, Prod.mk.injEq, Option.some.injEq] at h
      rw [← h.2]
      exact suffix_cons b bs
    | before s'' =>
      simp only [hres, Prod.mk.injEq, Option.some.injEq] at h
      rw [← h.2]

/-- Passes over symbols that are only collected. -/
theorem scan_token {P : σ → Prop} {C : β → Prop} {f : σ → List β → σ}
    (hnil : ∀ s, f s [] = s) (hcons : ∀ s b tok, f s (b :: tok) = f (f s [b]) tok)
    (hkeep : ∀ s b, P s → P (f s [b])) (hstep : ∀ s b, P s → C b → step s b = .more (f s [b])) (hs : P s) {tok : List β} (htok : ∀ b ∈ tok, C b) (rest : List β) :
    scan step s (tok ++ rest) = scan step (f s tok) rest := by
  induction tok generalizing s with
  | nil => rw [nil_append, hnil]
  | cons b tok ih =>
    have hb := htok b (mem_cons_self ..)
    rw [cons_append, scan, hstep s b hs hb, hcons s b tok]
    exact ih (hkeep s b hs) fun x hx => htok x (mem_cons_of_mem b hx)

end Scanner
