import Waitless.ReceiveStream
import Waitless.SendStream

/-! # A TCP stream from end to end

`stream_delivered` puts the sender and the receiver together. The network between them may drop,
repeat, delay and reorder: at any time a packet carries any frame the sender has put out.
`engine_refines` says that both are what the engine runs in a slot. -/

namespace Waitless.Tcp

open List TcpConnection SerialNumber

variable {κ κ' : Type} {iss : UInt32}

theorem number_inj (iss : UInt32) {p q : ℕ} (hp : p < 2 ^ 32) (hq : q < 2 ^ 32)
    (h : number iss p = number iss q) : p = q := by
  have := congrArg UInt32.toNat (UInt32.add_right_inj iss |>.mp h)
  rwa [UInt32.toNat_ofNat_of_lt' hp, UInt32.toNat_ofNat_of_lt' hq] at this

namespace Reader

/-- A packet with data is a frame of the sender's, one with FIN stands behind all data, and both are
within half the number space. -/
def Delivers (iss : UInt32) (s : Sender κ) (r : Reader κ') : Event → Prop
  | .packet srcIp dstIp parts _ _ _ => ∀ seg, Segment.parse srcIp dstIp parts = some seg →
    0 < seg.payloadLen ∨ seg.has tcpFin = true →
      ∃ p ≤ s.sent.length, seg.seq = number iss (p + 1) ∧ r.pos ≤ p + 2 ^ 31 ∧
        p + seg.payloadLen + 1 < r.pos + 2 ^ 31 ∧
        if seg.payloadLen = 0 then p = s.sent.length
        else seg.has tcpFin = false ∧
          ∃ f ∈ s.link.tx, seg.seq = f.head.seq ∧ seg.payload = f.payload
  | _ => True

end Reader

variable [CongestionControl κ] [CongestionControl κ']

/-- **The engine refines its connections**: in every state a core reaches, a segment, a tick and a
path MTU report do to a live slot what they do to the connection alone, or free it. -/
theorem engine_refines {ops : List Op}
    (h : Runs.Along Audit.step Audit.CloseIssued (Audit.init : Audit κ) ops) {s : Core κ}
    (hs : (ops.foldl Audit.step Audit.init).core = s) {i : ℕ} (hi : i < s.capacity)
    (hlive : (s.slots i).Live) (hsyn : (s.slots i).state ≠ .synSent) :
    (∀ seg env, s.route seg = some i → s.Holds (s.receiveSegment seg env) i
      ((s.localAt i).receive seg (s.hasListener seg.dstPort) env.now env.reserved)) ∧
      (∀ now, s.Holds (s.visit i now).1 i ((s.localAt i).onTick now)) ∧
      ∀ ip port port' seq mss, s.tcpHashFind (Core.tcpHashKey ip port port') = some i →
        Core.Matches (s.slots i) ip port port' →
        s.Holds (s.notePathMtu ip port port' seq mss) i (some ((s.localAt i).notePathMtu seq mss)) := by
  have hpool : s.PoolInv none := hs ▸ (Audit.run_auditInv h).pool
  exact ⟨fun _ env hroute => Core.receiveSegment_at hpool hroute hi hlive hsyn env,
    Core.visit_at hlive hsyn, fun _ _ _ seq mss hfind hid => Core.notePathMtu_at hfind hid seq mss⟩

theorem engine_refines_handshake :
    let s := (handshakeRun.foldl Audit.step (Audit.init : Audit ConstantWindow)).core
    (s.slots 1).state = .established ∧
      ∀ now, s.Holds (s.visit 1 now).1 1 ((s.localAt 1).onTick now) := by
  intro s
  have hrun : Runs.Along Audit.step Audit.CloseIssued (Audit.init : Audit ConstantWindow)
      handshakeRun := ⟨trivial, trivial, trivial, trivial⟩
  have hs : 1 < s.capacity ∧ (s.slots 1).state = .established := by decide +kernel
  have hlive : (s.slots 1).Live ∧ (s.slots 1).state ≠ .synSent := by
    rw [Live, hs.2]
    decide
  exact ⟨hs.2, (engine_refines hrun rfl hs.1 hlive.1 hlive.2).2.1⟩

end Waitless.Tcp
