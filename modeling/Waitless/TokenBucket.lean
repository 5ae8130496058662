import Mathlib

/-! # Token buckets

A bucket is refilled lazily, when a token is asked for: the time since the last refill is worth
`gain` tokens, and the reference time moves only when that is one token at least. `grants_window`
bounds the tokens given within any window of time, however the requests are spaced. -/

namespace TokenBucket

open List

/-- How tokens are earned. -/
structure Policy where
  /-- The capacity. -/
  burst : ℕ
  period : ℕ
  /-- The tokens that a time is worth. -/
  gain : ℕ → ℕ
  period_pos : 0 < period
  gain_mul_le : ∀ e, gain e * period ≤ e
  lt_of_gain_eq_zero : ∀ e, gain e = 0 → e < period

structure Bucket where
  tokens : ℕ
  /-- The time of the last refill. -/
  last : ℕ

variable (p : Policy)

namespace Bucket

def refill (b : Bucket) (now : ℕ) : Bucket :=
  if b.last < now ∧ 0 < p.gain (now - b.last) then
    ⟨min (b.tokens + p.gain (now - b.last)) p.burst, now⟩
  else b

/-- The answer to one request, and the bucket behind it. -/
def take (b : Bucket) (now : ℕ) : Bool × Bucket :=
  let b := b.refill p now
  if 0 < b.tokens then (true, { b with tokens := b.tokens - 1 }) else (false, b)

/-- No fuller than it may be, and the reference not ahead of `now`. -/
structure Ok (b : Bucket) (now : ℕ) : Prop where
  tokens_le : b.tokens ≤ p.burst
  last_le : b.last ≤ now

variable {p} {b : Bucket} {now : ℕ}

theorem refill_paid (h : b.last ≤ now) :
    p.period * (b.refill p now).tokens + b.last ≤ p.period * b.tokens + (b.refill p now).last ∧
      b.last ≤ (b.refill p now).last := by
  unfold refill
  split_ifs with hdue
  · have hpaid := p.gain_mul_le (now - b.last)
    have hmin : p.period * min (b.tokens + p.gain (now - b.last)) p.burst ≤
        p.period * (b.tokens + p.gain (now - b.last)) := Nat.mul_le_mul_left _ (min_le_left _ _)
    rw [Nat.mul_add, Nat.mul_comm p.period (p.gain _)] at hmin
    exact ⟨by dsimp only; omega, h⟩
  · exact ⟨le_rfl, le_rfl⟩

theorem Ok.refill (h : b.Ok p now) : (b.refill p now).Ok p now := by
  unfold Bucket.refill
  split_ifs
  · exact ⟨min_le_right _ _, le_rfl⟩
  · exact h

theorem Ok.lt_refill_last (h : b.Ok p now) : now < (b.refill p now).last + p.period := by
  have hpos := p.period_pos
  unfold Bucket.refill
  split_ifs with hdue
  · dsimp only
    omega
  · rcases h.last_le.eq_or_lt with heq | hlt
    · omega
    · have hgain : p.gain (now - b.last) = 0 := by
        by_contra hne
        exact hdue ⟨hlt, Nat.pos_of_ne_zero hne⟩
      have := p.lt_of_gain_eq_zero _ hgain
      omega

theorem refill_refill : (b.refill p now).refill p now = b.refill p now := by
  by_cases hdue : b.last < now ∧ 0 < p.gain (now - b.last)
  · have hfull : b.refill p now = ⟨min (b.tokens + p.gain (now - b.last)) p.burst, now⟩ := if_pos hdue
    rw [hfull, refill, if_neg]
    exact fun h => lt_irrefl _ h.1
  · have hsame : b.refill p now = b := if_neg hdue
    rw [hsame, hsame]

theorem take_refill : (b.refill p now).take p now = b.take p now := by
  unfold take
  rw [refill_refill]

theorem Ok.take (h : b.Ok p now) : (b.take p now).2.Ok p now := by
  have hr := h.refill
  unfold Bucket.take
  dsimp only
  split_ifs
  · exact ⟨(Nat.sub_le _ _).trans hr.tokens_le, hr.last_le⟩
  · exact hr

end Bucket

def grants (b : Bucket) : List ℕ → List ℕ
  | [] => []
  | now :: nows =>
    if (b.take p now).1 then now :: grants (b.take p now).2 nows
    else grants (b.take p now).2 nows

variable {p} {b : Bucket} {nows : List ℕ}

theorem mem_of_mem_grants {t : ℕ} (h : t ∈ grants p b nows) : t ∈ nows := by
  induction nows generalizing b with
  | nil => simp [grants] at h
  | cons now nows ih =>
    rw [grants] at h
    split_ifs at h
    · rcases mem_cons.mp h with rfl | h
      · exact mem_cons_self
      · exact mem_cons_of_mem _ (ih h)
    · exact mem_cons_of_mem _ (ih h)

theorem le_of_mem_grants {now t : ℕ} (hsorted : (now :: nows).Pairwise (· ≤ ·))
    (h : t ∈ grants p b (now :: nows)) : now ≤ t := by
  rcases mem_cons.mp (mem_of_mem_grants h) with rfl | h
  · exact le_rfl
  · exact (pairwise_cons.mp hsorted).1 t h

theorem grants_filter_nil {now e : ℕ} (hsorted : (now :: nows).Pairwise (· ≤ ·)) (hlate : e < now) :
    (grants p b (now :: nows)).filter (· ≤ e) = [] := by
  rw [filter_eq_nil_iff]
  exact fun t ht => by simpa using hlate.trans_le (le_of_mem_grants hsorted ht)

theorem grants_paid {e : ℕ} (hsorted : nows.Pairwise (· ≤ ·)) (hlast : ∀ now ∈ nows, b.last ≤ now)
    (he : b.last ≤ e) :
    p.period * ((grants p b nows).filter (· ≤ e)).length + b.last ≤ p.period * b.tokens + e := by
  induction nows generalizing b with
  | nil =>
    simp only [grants, filter_nil, length_nil, Nat.mul_zero]
    omega
  | cons now nows ih =>
    have hnow := hlast now mem_cons_self
    have hbehind : ∀ now' ∈ nows, now ≤ now' := (pairwise_cons.mp hsorted).1
    by_cases hlate : e < now
    · rw [grants_filter_nil hsorted hlate, length_nil]
      omega
    · obtain ⟨hpaid, hgrow⟩ := Bucket.refill_paid (p := p) hnow
      have hle : (b.refill p now).last ≤ now := by
        unfold Bucket.refill
        split_ifs
        · exact le_rfl
        · exact hnow
      have hrest : ∀ b' : Bucket, b'.last = (b.refill p now).last →
          p.period * ((grants p b' nows).filter (· ≤ e)).length + b'.last ≤
            p.period * b'.tokens + e := fun b' hb' =>
        ih (pairwise_cons.mp hsorted).2
          (fun now' h => (hb'.trans_le hle).trans (hbehind now' h))
          ((hb'.trans_le hle).trans (not_lt.mp hlate))
      rw [grants, Bucket.take]
      by_cases htoken : 0 < (b.refill p now).tokens
      · have hk := hrest ⟨(b.refill p now).tokens - 1, (b.refill p now).last⟩ rfl
        simp only [if_pos htoken, if_true]
        rw [filter_cons_of_pos (by simpa using hlate), length_cons, Nat.mul_add]
        obtain ⟨k, hk'⟩ : ∃ k, (b.refill p now).tokens = k + 1 :=
          ⟨_, (Nat.succ_pred_eq_of_pos htoken).symm⟩
        simp only [hk', Nat.add_sub_cancel] at hk ⊢
        rw [hk', Nat.mul_add] at hpaid
        omega
      · have hk := hrest (b.refill p now) rfl
        simp only [if_neg htoken, Bool.false_eq_true, if_false]
        omega

/-- **The rate bound**: at most `burst + T / period + 1` tokens within any `T` ticks. -/
theorem grants_window (hsorted : nows.Pairwise (· ≤ ·)) (htokens : b.tokens ≤ p.burst)
    (hlast : ∀ now ∈ nows, b.last ≤ now) (t T : ℕ) :
    ((grants p b nows).filter fun now => t ≤ now ∧ now ≤ t + T).length ≤
      p.burst + T / p.period + 1 := by
  induction nows generalizing b with
  | nil => simp [grants]
  | cons now nows ih =>
    have hok : b.Ok p now := ⟨htokens, hlast now mem_cons_self⟩
    have hbehind : ∀ now' ∈ nows, now ≤ now' := (pairwise_cons.mp hsorted).1
    by_cases hearly : now < t
    · -- a request before the window only changes the bucket
      have hrest := ih (b := (b.take p now).2) (pairwise_cons.mp hsorted).2
        hok.take.tokens_le fun now' h => hok.take.last_le.trans (hbehind now' h)
      rw [grants]
      split_ifs
      · rw [filter_cons_of_neg (by simp [hearly])]
        exact hrest
      · exact hrest
    · -- the first request of the window: from here on all of them are inside it or behind it
      have hr := hok.refill
      have hsame : grants p b (now :: nows) = grants p (b.refill p now) (now :: nows) := by
        rw [grants, grants, Bucket.take_refill]
      have hwindow : ((grants p b (now :: nows)).filter fun now => t ≤ now ∧ now ≤ t + T) =
          (grants p b (now :: nows)).filter (· ≤ t + T) := by
        refine filter_congr fun s hs => ?_
        simp [(not_lt.mp hearly).trans (le_of_mem_grants hsorted hs)]
      rw [hwindow]
      by_cases hlate : t + T < now
      · simp [grants_filter_nil hsorted hlate]
      · have hpaid := grants_paid (p := p) (e := t + T) hsorted
          (forall_mem_cons.mpr ⟨hr.last_le, fun s h => hr.last_le.trans (hbehind s h)⟩)
          (hr.last_le.trans (not_lt.mp hlate))
        rw [← hsame] at hpaid
        have hfull := Nat.mul_le_mul_left p.period hr.tokens_le
        have hgap := hok.lt_refill_last
        have hT := Nat.lt_mul_div_succ T p.period_pos
        refine Nat.le_of_lt_succ (Nat.lt_of_mul_lt_mul_left (a := p.period) ?_)
        have hsplit : p.period * (p.burst + T / p.period + 1 + 1) =
            p.period * p.burst + p.period * (T / p.period + 1) + p.period := by ring
        rw [Nat.succ_eq_add_one, hsplit]
        omega

end TokenBucket
