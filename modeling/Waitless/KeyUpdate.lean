import Waitless.TrialDecryption

/-! # Key-update generations

`AtGeneration P rx tx n k` is the key state RFC 9001 section 6 asks for after `n` accepted peer key
updates. The first key update is accepted; from the first rotation on, the pre-derived keys are one
generation behind (`rotations_correct_iff`). -/

namespace Waitless.Quic

open StreamCipher Waitless.Ghash Waitless.AesGcm AppKeys

/-- The key state prescribed after `n` accepted peer key updates. -/
structure AtGeneration (P : Primitives) (rx tx : Secret) (n : ℕ) (k : AppKeys) : Prop where
  recv : k.applicationRecv = some (keysAt P rx n)
  next : k.applicationRecvNext = some (keysAt P rx (n + 1))
  prev : k.applicationRecvPrev = if n = 0 then none else some (keysAt P rx (n - 1))
  recvPhase : k.recvKeyPhase = UInt8.ofNat (n % 2)
  send : k.applicationSend = some (keysAt P tx n)
  sendPhase : k.sendKeyPhase = UInt8.ofNat (n % 2)

/-- Genuine packets of the generations `n` and `n + 1` are opened. -/
def PeerOpened (P : Primitives) (rx : Secret) (n : ℕ) (k : AppKeys) : Prop :=
  ∀ (σ : Type) (c : Connection σ) (g : ℕ) (pkt : PeerPacket), c.keys = k → g = n ∨ g = n + 1 →
    pkt.Genuine c (UInt8.ofNat (g % 2)) →
    (openShortHeader P c (pkt.bytes P (keysAt P rx g))).2 = .ok (pkt.pn, pkt.payload)

section

variable {P : Primitives} {rx tx : Secret} {n : ℕ} {k : AppKeys}

theorem phase_ne_succ (n : ℕ) : UInt8.ofNat ((n + 1) % 2) ≠ UInt8.ofNat (n % 2) := by
  rcases Nat.mod_two_eq_zero_or_one n with h | h
  · rw [show (n + 1) % 2 = 1 by omega, h]
    decide
  · rw [show (n + 1) % 2 = 0 by omega, h]
    decide

theorem AtGeneration.peerOpened (h : AtGeneration P rx tx n k) : PeerOpened P rx n k := by
  intro σ c g pkt hk hgen hg
  have hrecv : c.keys.applicationRecv = some (keysAt P rx n) := by rw [hk, h.recv]
  have hhp : (keysAt P rx n).hpCipher = (keysAt P rx g).hpCipher := rfl
  rw [openShortHeader_bytes P hrecv hhp hg]
  rcases hgen with rfl | rfl
  · have ht : trialOpen P c.keys (keysAt P rx g) (UInt8.ofNat (g % 2)) pkt.pn pkt.header
        (pkt.sealed P (keysAt P rx g)).1 (pkt.sealed P (keysAt P rx g)).2 =
        (c.keys, (pkt.payload, true)) := by
      rw [trialOpen, if_pos (hk ▸ h.recvPhase.symm), aeadOpen_sealed]
    rw [ht]
    rfl
  · have ht : trialOpen P c.keys (keysAt P rx n) (UInt8.ofNat ((n + 1) % 2)) pkt.pn pkt.header
        (pkt.sealed P (keysAt P rx (n + 1))).1 (pkt.sealed P (keysAt P rx (n + 1))).2 =
        (c.keys.rotateRecvKeys P, (pkt.payload, true)) := by
      have hphase : UInt8.ofNat ((n + 1) % 2) ≠ c.keys.recvKeyPhase := by
        rw [hk, h.recvPhase]
        exact phase_ne_succ n
      have hnext : c.keys.applicationRecvNext = some (keysAt P rx (n + 1)) := by rw [hk, h.next]
      simp only [trialOpen, if_neg hphase, hnext, aeadOpen_sealed]
    rw [ht]
    rfl

theorem atGeneration_zero (P : Primitives) (rx tx : Secret) :
    AtGeneration P rx tx 0 (rotated P rx tx 0) :=
  ⟨rfl, rfl, rfl, rfl, rfl, rfl⟩

/-- **The key state is the prescribed one before the first key update, and never after.** -/
theorem rotations_correct_iff (P : Primitives) (isClient : Bool) (ap : ApplicationSecrets)
    (hdistinct : ∀ m, keysAt P (ap.rxSecret isClient) (m + 1) ≠ keysAt P (ap.rxSecret isClient) m)
    (n : ℕ) :
    (AtGeneration P (ap.rxSecret isClient) (ap.txSecret isClient) n (rotations P isClient ap n) ∧
      PeerOpened P (ap.rxSecret isClient) n (rotations P isClient ap n)) ↔ n = 0 := by
  rw [rotations_eq_rotated]
  constructor
  · rintro ⟨h, -⟩
    cases n with
    | zero => rfl
    | succ m =>
      have hnext : keysAt P (ap.rxSecret isClient) (m + 1) =
          keysAt P (ap.rxSecret isClient) (m + 1 + 1) := Option.some.inj h.next
      exact absurd hnext.symm (hdistinct (m + 1))
  · rintro rfl
    exact ⟨atGeneration_zero P _ _, (atGeneration_zero P _ (ap.txSecret isClient)).peerOpened⟩

end

theorem sample_keysAt_ne (s : Secret) (m : ℕ) :
    keysAt samplePrimitives s (m + 1) ≠ keysAt samplePrimitives s m := by
  intro h
  rw [keysAt, secretAt_succ] at h
  have hiv := congrArg (fun k : DirKeys => k.iv[0]) h
  simp [keysAt, DirKeys.fromAes128ReuseHp, deriveAes128Keys, nextTrafficSecret,
    samplePrimitives] at hiv

theorem rotations_correct_iff_sample :
    (AtGeneration samplePrimitives (sampleSecrets.rxSecret false) (sampleSecrets.txSecret false) 0
        (rotations samplePrimitives false sampleSecrets 0) ∧
      PeerOpened samplePrimitives (sampleSecrets.rxSecret false) 0
        (rotations samplePrimitives false sampleSecrets 0)) :=
  (rotations_correct_iff samplePrimitives false sampleSecrets (sample_keysAt_ne _) 0).2 rfl

/-- A genuine packet of the peer's second update is rejected. -/
theorem second_update_rejected :
    (rotations samplePrimitives false sampleSecrets 1).applicationRecvNext =
      some (samplePeerKeys 1) ∧
    samplePeerKeys 1 ≠ samplePeerKeys 2 ∧
    (samplePacket 0).Genuine (sampleConnection 1) (UInt8.ofNat (2 % 2)) ∧
    (openShortHeader samplePrimitives (sampleConnection 1)
      ((samplePacket 0).bytes samplePrimitives (samplePeerKeys 2))).2 = .error .decrypt := by
  decide +kernel

end Waitless.Quic
