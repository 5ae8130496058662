import Mathlib

/-! # Pacing

The model of the egress token bucket (`pace_gate`, `pace_consume` in `conn/tx.rs`) at a constant
rate. Each call adds the whole bytes earned since the call before it and forgets the rest of a
byte: `credit_eq` counts what is forgotten, and `refill_within_one_iff` says when that is less than
two bytes over a whole sequence of calls. -/

namespace Waitless.Quic

def maxQuicDatagram : ℕ := 1400

def maxPaceBurst : ℤ := 16 * maxQuicDatagram

/-- The fields `pace_budget` and `pace_last_us` of a connection. -/
structure Pacer where
  budget : ℤ := 0
  lastUs : ℕ := 0

namespace Pacer

variable (rate : ℕ)

/-- What `elapsed` microseconds add. -/
def earned (elapsed : ℕ) : ℕ := min (rate * elapsed) (2 ^ 64 - 1) / 1000000

/-- The bucket afterwards, and whether a packet may go out. -/
def gate (p : Pacer) (now : ℕ) : Pacer × Bool :=
  let added := min (p.budget + earned rate (now - p.lastUs)) (2 ^ 63 - 1)
  let budget := min added maxPaceBurst
  (⟨budget, now⟩, 0 < budget)

def consume (p : Pacer) (n : ℕ) : Pacer := { p with budget := max (p.budget - n) (-2 ^ 63) }

def poll (p : Pacer) (times : List ℕ) : Pacer := times.foldl (fun p now => (p.gate rate now).1) p

/-- From each call to the next, the first from `t`. -/
def waits : ℕ → List ℕ → List ℕ
  | _, [] => []
  | t, now :: times => (now - t) :: waits now times

/-- What the calls forget, in millionths of a byte. -/
def forgotten (t : ℕ) (times : List ℕ) : ℕ := ((waits t times).map fun d => rate * d % 1000000).sum

/-- The bucket stays below its cap. -/
def BelowCap (p : Pacer) : List ℕ → Prop
  | [] => True
  | now :: times => (p.gate rate now).1.budget < maxPaceBurst ∧ BelowCap (p.gate rate now).1 times

variable {rate}

theorem budget_gate {p : Pacer} {now : ℕ} (hcap : (p.gate rate now).1.budget < maxPaceBurst)
    (hfit : rate * (now - p.lastUs) < 2 ^ 64) :
    (p.gate rate now).1.budget = p.budget + (rate * (now - p.lastUs) / 1000000 : ℕ) := by
  have hearned : earned rate (now - p.lastUs) = rate * (now - p.lastUs) / 1000000 := by
    rw [earned, Nat.min_eq_left (by omega)]
  simp only [gate, hearned, maxPaceBurst, maxQuicDatagram] at hcap ⊢
  omega

/-- **What a sequence of calls adds**: every byte earned but for the fractions forgotten. -/
theorem credit_eq {p : Pacer} {times : List ℕ} (hsorted : (p.lastUs :: times).Pairwise (· ≤ ·))
    (hcap : p.BelowCap rate times)
    (hfit : rate * ((p.poll rate times).lastUs - p.lastUs) < 2 ^ 64) :
    p.lastUs ≤ (p.poll rate times).lastUs ∧
      1000000 * ((p.poll rate times).budget - p.budget) + forgotten rate p.lastUs times =
        rate * ((p.poll rate times).lastUs - p.lastUs : ℕ) := by
  induction times generalizing p with
  | nil => simp [poll, forgotten, waits]
  | cons now times ih =>
    obtain ⟨hcap, hrest⟩ := hcap
    have hle : p.lastUs ≤ now := List.rel_of_pairwise_cons hsorted List.mem_cons_self
    have hend : p.poll rate (now :: times) = (p.gate rate now).1.poll rate times := rfl
    have hstart : (p.gate rate now).1.lastUs = now := rfl
    rw [hend] at hfit ⊢
    generalize hq : (p.gate rate now).1.poll rate times = q at hfit ⊢
    have htail : rate * (q.lastUs - now) < 2 ^ 64 :=
      lt_of_le_of_lt (Nat.mul_le_mul_left _ (Nat.sub_le_sub_left hle _)) hfit
    obtain ⟨hmono, heq⟩ := ih (List.pairwise_cons.1 hsorted).2 hrest (by rwa [hq])
    rw [hq, hstart] at hmono heq
    have hgate := budget_gate hcap
      (lt_of_le_of_lt (Nat.mul_le_mul_left _ (Nat.sub_le_sub_right hmono _)) hfit)
    have hforgot : forgotten rate p.lastUs (now :: times) =
        rate * (now - p.lastUs) % 1000000 + forgotten rate now times := rfl
    have hsplit : rate * (q.lastUs - p.lastUs) =
        rate * (now - p.lastUs) + rate * (q.lastUs - now) := by
      rw [← Nat.mul_add]
      congr 1
      omega
    refine ⟨hle.trans hmono, ?_⟩
    rw [hforgot]
    have hcast : ∀ d : ℕ, (rate : ℤ) * d = (rate * d : ℕ) := fun d => by push_cast; rfl
    rw [hcast] at heq ⊢
    rw [hsplit]
    omega

/-- **Polling and credit**: at most one byte is lost iff the fractions forgotten are under two. -/
theorem refill_within_one_iff {p : Pacer} {times : List ℕ}
    (hsorted : (p.lastUs :: times).Pairwise (· ≤ ·)) (hcap : p.BelowCap rate times)
    (hfit : rate * ((p.poll rate times).lastUs - p.lastUs) < 2 ^ 64) :
    |(p.poll rate times).budget - p.budget -
        (rate * ((p.poll rate times).lastUs - p.lastUs) / 1000000 : ℕ)| ≤ 1 ↔
      forgotten rate p.lastUs times < 2000000 := by
  obtain ⟨-, heq⟩ := credit_eq hsorted hcap hfit
  generalize (p.poll rate times).lastUs - p.lastUs = elapsed at heq ⊢
  have hcast : (rate : ℤ) * elapsed = (rate * elapsed : ℕ) := by push_cast; rfl
  rw [hcast] at heq
  rw [abs_le]
  omega

theorem refill_within_one_steady :
    |((⟨-700, 0⟩ : Pacer).poll 1000 [1500, 2500]).budget - -700 - 2| ≤ 1 :=
  (refill_within_one_iff (by decide) (by exact ⟨by decide, by decide, trivial⟩) (by decide)).2
    (by decide)

/-- Six calls half a byte apart add nothing where three bytes are due. -/
theorem polls_starve : let p := (⟨-700, 0⟩ : Pacer).poll 1000 [500, 1000, 1500, 2000, 2500, 3000]
    p.budget = -700 ∧ 1000 * (p.lastUs - 0) / 1000000 = 3 := by
  decide

end Pacer

end Waitless.Quic
