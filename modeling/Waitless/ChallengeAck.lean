import Waitless.TcpEngine
import Waitless.TokenBucket

/-! # The rate of challenge ACKs

`challenge_ack_allowed` keeps one token bucket for each of the first `MAX_CORES` cores and lets
every other core send. `challenge_ack_rate` bounds the answers `true` of one core within any window
of time. -/

namespace Waitless.Tcp

open TokenBucket List

namespace ChallengeAcks

def init : ChallengeAcks := ⟨fun _ => challengeAckBurst, fun _ => 0⟩

structure Call where
  core : ℕ
  now : ℕ

def allowed (s : ChallengeAcks) : List Call → List Call
  | [] => []
  | c :: cs =>
    if (s.challengeAckAllowed c.core c.now).1 then
      c :: allowed (s.challengeAckAllowed c.core c.now).2 cs
    else allowed (s.challengeAckAllowed c.core c.now).2 cs

/-- Ten milliseconds for a token, and a hundred tokens at most. -/
def policy : Policy where
  burst := challengeAckBurst
  period := 10
  gain := refillFor
  period_pos := by decide
  gain_mul_le e := by
    unfold refillFor challengeAckRate
    omega
  lt_of_gain_eq_zero e h := by
    unfold refillFor challengeAckRate at h
    omega

@[simp] theorem policy_burst : policy.burst = challengeAckBurst := rfl

@[simp] theorem policy_gain : policy.gain = refillFor := rfl

def bucket (s : ChallengeAcks) (core : ℕ) : Bucket :=
  ⟨s.challengeTokens core, s.challengeLastMs core⟩

variable {s : ChallengeAcks} {core now : ℕ}

theorem challengeAckAllowed_eq (hcore : core < maxCores) :
    (s.challengeAckAllowed core now).1 = ((s.bucket core).take policy now).1 ∧
      (s.challengeAckAllowed core now).2.bucket core = ((s.bucket core).take policy now).2 := by
  unfold challengeAckAllowed Bucket.take Bucket.refill
  rw [if_neg (not_le.mpr hcore)]
  by_cases hlast : s.challengeLastMs core < now
  · by_cases hrefill : 0 < refillFor (now - s.challengeLastMs core)
    · have hdue : (s.bucket core).last < now ∧ 0 < policy.gain (now - (s.bucket core).last) :=
        ⟨hlast, hrefill⟩
      rw [if_pos hdue]
      simp only [if_pos hlast, if_pos hrefill, Function.update_self]
      constructor
      · split_ifs <;> simp_all [bucket]
      · split_ifs <;> simp_all [bucket]
    · have hdue : ¬((s.bucket core).last < now ∧ 0 < policy.gain (now - (s.bucket core).last)) :=
        fun h => hrefill h.2
      rw [if_neg hdue]
      simp only [if_pos hlast, if_neg hrefill]
      constructor
      · split_ifs <;> simp_all [bucket]
      · split_ifs <;> simp_all [bucket]
  · have hdue : ¬((s.bucket core).last < now ∧ 0 < policy.gain (now - (s.bucket core).last)) :=
      fun h => hlast h.1
    rw [if_neg hdue]
    simp only [if_neg hlast]
    constructor
    · split_ifs <;> simp_all [bucket]
    · split_ifs <;> simp_all [bucket]

theorem challengeAckAllowed_bucket_of_ne {core' : ℕ} (hne : core' ≠ core) :
    (s.challengeAckAllowed core now).2.bucket core' = s.bucket core' := by
  unfold challengeAckAllowed
  dsimp only
  split_ifs <;> simp [bucket, hne]

theorem allowed_core (hcore : core < maxCores) (cs : List Call) :
    ((s.allowed cs).filter (·.core = core)).map (·.now) =
      grants policy (s.bucket core) ((cs.filter (·.core = core)).map (·.now)) := by
  induction cs generalizing s with
  | nil => rfl
  | cons c cs ih =>
    rw [allowed]
    by_cases hc : c.core = core
    · obtain ⟨hok, hbehind⟩ := @challengeAckAllowed_eq s c.core c.now (hc ▸ hcore)
      rw [hc] at hok hbehind ⊢
      rw [filter_cons_of_pos (a := c) (l := cs) (by simpa using hc), map_cons, grants,
        ← hok, ← hbehind, ← ih]
      split_ifs
      · rw [filter_cons_of_pos (by simpa using hc), map_cons]
      · rfl
    · rw [filter_cons_of_neg (a := c) (l := cs) (by simpa using hc),
        ← @challengeAckAllowed_bucket_of_ne s c.core c.now _ (Ne.symm hc), ← ih]
      split_ifs
      · rw [filter_cons_of_neg (by simpa using hc)]
      · rfl

/-- **The rate of challenge ACKs**: at most `100 + T / 10 + 1` within any `T` milliseconds. -/
theorem challenge_ack_rate (cs : List Call) (hclock : cs.Pairwise (·.now ≤ ·.now)) (core : ℕ)
    (hcore : core < maxCores) (t T : ℕ) :
    ((init.allowed cs).filter fun c => c.core = core ∧ t ≤ c.now ∧ c.now ≤ t + T).length ≤
      100 + T / 10 + 1 := by
  have hsorted : ((cs.filter (·.core = core)).map (·.now)).Pairwise (· ≤ ·) :=
    pairwise_map.mpr (hclock.sublist filter_sublist)
  have hbound := grants_window (p := policy) (b := init.bucket core) hsorted le_rfl
    (fun now _ => Nat.zero_le now) t T
  rw [← allowed_core hcore, filter_map, length_map, filter_filter] at hbound
  have hsame : ((init.allowed cs).filter fun c => c.core = core ∧ t ≤ c.now ∧ c.now ≤ t + T) =
      (init.allowed cs).filter fun c =>
        ((fun now => decide (t ≤ now ∧ now ≤ t + T)) ∘ Call.now) c && decide (c.core = core) := by
    refine filter_congr fun c _ => ?_
    simp [Bool.and_comm]
  rw [hsame]
  exact hbound

/-- A hundred tokens at once, then one every ten milliseconds. -/
theorem challenge_ack_rate_flood :
    ((init.allowed (List.replicate 150 ⟨3, 1005⟩ ++ List.replicate 5 ⟨3, 1010⟩)).filter
        fun c => c.core = 3 ∧ 1000 ≤ c.now ∧ c.now ≤ 1000 + 20).length ≤ 100 + 20 / 10 + 1 :=
  challenge_ack_rate _ (by decide +kernel) 3 (by decide) 1000 20

/-- A core beyond the array of buckets is allowed every challenge ACK. -/
theorem challenge_ack_unlimited :
    (List.replicate 102 (⟨22, 0⟩ : Call)).Pairwise (·.now ≤ ·.now) ∧
      ¬((init.allowed (List.replicate 102 ⟨22, 0⟩)).filter
        fun c => c.core = 22 ∧ 0 ≤ c.now ∧ c.now ≤ 0 + 0).length ≤ 100 + 0 / 10 + 1 := by
  decide +kernel

end ChallengeAcks

end Waitless.Tcp
