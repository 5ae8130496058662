import Mathlib
import Waitless.AesGcm

/-! # QUIC send streams

The model of `SendStream` (`streams.rs`): a queue of chunks with a cursor into the first one, the
offset of the next byte, and the lifecycle of the send side. `popChunk` cuts the next STREAM frame
off the queue. -/

namespace Waitless.Quic

open Waitless.AesGcm

/-- How far a stream is in its close. -/
inductive SendState where
  | opened
  /-- `close` was called; the FIN goes out behind the queued bytes. -/
  | closing
  | finSent
  | resetSent
deriving DecidableEq

/-- The sending half of a stream. -/
structure SendStream where
  /-- Queued chunks, none of them empty. -/
  outbound : List Bytes := []
  /-- The bytes of the first chunk already handed out. -/
  headConsumed : ℕ := 0
  /-- The offset of the next byte to send. -/
  sendOffset : ℕ := 0
  state : SendState := .opened
  rxUs : ℕ := 0
  /-- The peer's limit on `sendOffset`. -/
  peerMaxStreamData : ℕ := 0

namespace SendStream

variable (s : SendStream)

def finSent : Bool := s.state = .finSent ∨ s.state = .resetSent

/-- The final size is what was sent. -/
def abort : SendStream × ℕ :=
  ({ s with outbound := [], headConsumed := 0, state := .resetSent, rxUs := 0 }, s.sendOffset)

def enterFinSent : SendStream := { s with state := .finSent, rxUs := 0 }

def writeIobuf (data : Bytes) : SendStream :=
  if s.finSent ∨ data = [] then s else { s with outbound := s.outbound ++ [data] }

def bufferedLen : ℕ := (s.outbound.map List.length).sum - s.headConsumed

def close : SendStream := if s.state = .opened then { s with state := .closing } else s

def headRemainingLen : ℕ := s.outbound.head?.elim 0 fun b => b.length - s.headConsumed

def advanceHead (n : ℕ) : SendStream :=
  match s.outbound with
  | [] => { s with headConsumed := s.headConsumed + n }
  | head :: rest =>
    if s.headConsumed + n = head.length then { s with outbound := rest, headConsumed := 0 }
    else { s with headConsumed := s.headConsumed + n }

/-- Cut up to `maxBytes` off the first chunk. -/
def popChunk (maxBytes : ℕ) : SendStream × Option (ℕ × Bytes × Bool) :=
  if s.finSent ∨ (s.state = .opened ∧ s.outbound = []) then (s, none)
  else
    match s.outbound with
    | [] => (s.enterFinSent, some (s.sendOffset, [], true))
    | head :: _ =>
      let n := min s.headRemainingLen maxBytes
      let view := (head.drop s.headConsumed).take n
      let t := s.advanceHead n
      let t := { t with sendOffset := t.sendOffset + n }
      let fin := t.state = .closing ∧ t.outbound = []
      (if fin then t.enterFinSent else t, some (s.sendOffset, view, fin))

variable {s}

structure Popped (s : SendStream) (maxBytes : ℕ) (s' : SendStream) (off : ℕ) (data : Bytes)
    (fin : Bool) : Prop where
  live : s.finSent = false
  off_eq : off = s.sendOffset
  sendOffset : s'.sendOffset = s.sendOffset + data.length
  length_le : data.length ≤ maxBytes
  state : s'.state = if fin then .finSent else s.state
  peerMax : s'.peerMaxStreamData = s.peerMaxStreamData

theorem advanceHead_fields (n : ℕ) :
    (s.advanceHead n).sendOffset = s.sendOffset ∧ (s.advanceHead n).state = s.state ∧
      (s.advanceHead n).peerMaxStreamData = s.peerMaxStreamData := by
  unfold advanceHead
  split
  · exact ⟨rfl, rfl, rfl⟩
  · split_ifs <;> exact ⟨rfl, rfl, rfl⟩

theorem popChunk_none {m : ℕ} {s' : SendStream} (h : s.popChunk m = (s', none)) : s' = s := by
  unfold popChunk at h
  split_ifs at h with hend
  · exact (congrArg Prod.fst h).symm
  · split at h <;> cases h

theorem popChunk_spec {m off : ℕ} {s' : SendStream} {data : Bytes} {fin : Bool}
    (h : s.popChunk m = (s', some (off, data, fin))) : Popped s m s' off data fin := by
  unfold popChunk at h
  by_cases hend : s.finSent = true ∨ (s.state = .opened ∧ s.outbound = [])
  · rw [if_pos hend] at h
    cases h
  rw [if_neg hend] at h
  have hlive : s.finSent = false := Bool.eq_false_iff.2 fun hf => hend (.inl hf)
  split at h
  · cases h
    exact ⟨hlive, rfl, rfl, Nat.zero_le _, rfl, rfl⟩
  next head rest hout =>
    obtain ⟨hoff, hstate, hmax⟩ := advanceHead_fields (s := s) (min s.headRemainingLen m)
    simp only [Prod.mk.injEq, Option.some.injEq] at h
    obtain ⟨rfl, rfl, rfl, rfl⟩ := h
    have hlen : ((head.drop s.headConsumed).take (min s.headRemainingLen m)).length =
        min s.headRemainingLen m := by
      simp only [headRemainingLen, hout, List.head?_cons, Option.elim_some, List.length_take,
        List.length_drop]
      omega
    refine ⟨hlive, rfl, ?_, ?_, ?_, ?_⟩
    · rw [hlen]
      split_ifs <;> simp [enterFinSent, hoff]
    · rw [hlen]
      exact min_le_right _ _
    · simp only [hstate, decide_eq_true_eq]
      split_ifs <;> rfl
    · split_ifs <;> simp [enterFinSent, hmax]

end SendStream

end Waitless.Quic
