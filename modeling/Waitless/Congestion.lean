import Waitless.TcpTypes

/-! # Congestion control

The model of `net/cc`: `NewReno`, `Cubic` and the `Controller` that is one of them.

A `View` is what the two have in common (`mss`, `cwnd`, the recovery episode and `max_window`), and
every event of either takes a `View.Step` (`Controller.step_view`), from which `controller_safety`
follows. -/

namespace Waitless.Cc

open Option

def u32Max : ℕ := 2 ^ 32 - 1

def satAdd (a b : ℕ) : ℕ := min (a + b) u32Max

def satMul (a b : ℕ) : ℕ := min (a * b) u32Max

def divide (a b : ℕ) : Option ℕ := if b = 0 then none else some (a / b)

theorem divide_eq {a b : ℕ} (hb : b ≠ 0) : divide a b = some (a / b) := if_neg hb

def defaultMss : ℕ := 1200

def initialWindow (mss : ℕ) : ℕ := min (satMul mss 10) (max (satMul mss 2) 14600)

def minimumWindow (mss : ℕ) : ℕ := satMul mss 2

def defaultMaxWindow : ℕ := 2 * 2 ^ 20

theorem minimumWindow_le_initialWindow (mss : ℕ) : minimumWindow mss ≤ initialWindow mss := by
  unfold minimumWindow initialWindow satMul
  omega

theorem minimumWindow_pos {mss : ℕ} (h : 0 < mss) : 0 < minimumWindow mss := by
  unfold minimumWindow satMul u32Max
  omega

/-- While active, growth waits for `remBytes` to be acknowledged. -/
structure RecoveryEpisode where
  active : Bool
  remBytes : ℕ

namespace RecoveryEpisode

def idle : RecoveryEpisode := ⟨false, 0⟩

def begin (windowBytes : ℕ) : RecoveryEpisode := ⟨true, windowBytes⟩

/-- Folds an acknowledgement into the episode. -/
def absorbAck (r : RecoveryEpisode) (bytesAcked : ℕ) : Bool × RecoveryEpisode :=
  if !r.active then (false, r)
  else
    let rem := r.remBytes - bytesAcked
    (true, ⟨if rem = 0 then false else r.active, rem⟩)

end RecoveryEpisode

structure Rtt where
  smoothedUs : ℕ
  minUs : ℕ

structure NewReno where
  mss : ℕ
  cwnd : ℕ
  ssthresh : ℕ
  recovery : RecoveryEpisode
  srttUs : ℕ
  maxWindow : ℕ
  slowStartCap : ℕ

def pacingRateOf (window srttUs : ℕ) (inSlowStart : Bool) : Option ℕ :=
  if srttUs = 0 then some 0
  else
    let nNum := if inSlowStart then 2 else 5
    let nDen := if inSlowStart then 1 else 4
    divide (min (min (window * 1000000) (2 ^ 64 - 1) * nNum) (2 ^ 64 - 1)) (srttUs * nDen)

def slowStartInc (ssthresh cwnd slowStartCap bytesAcked : ℕ) : ℕ :=
  let inc := min bytesAcked (ssthresh - cwnd)
  if slowStartCap ≠ 0 then min inc slowStartCap else inc

namespace NewReno

def new (mss : ℕ) : NewReno :=
  let mss := if mss = 0 then defaultMss else mss
  { mss
    cwnd := initialWindow mss
    ssthresh := u32Max
    recovery := .idle
    srttUs := 0
    maxWindow := max defaultMaxWindow (initialWindow mss)
    slowStartCap := 0 }

def setMaxWindow (c : NewReno) (m : ℕ) : NewReno :=
  { c with maxWindow := max m (initialWindow c.mss) }

def setSlowStartCap (c : NewReno) (cap : ℕ) : NewReno := { c with slowStartCap := cap }

def inSlowStart (c : NewReno) : Bool := c.cwnd < c.ssthresh

def enterRecovery (c : NewReno) : NewReno :=
  let recovery := .begin (max c.cwnd (minimumWindow c.mss))
  let ssthresh := max (c.cwnd / 2) (minimumWindow c.mss)
  { c with recovery, ssthresh, cwnd := ssthresh }

def observe (c : NewReno) (rtt : Rtt) : NewReno :=
  if rtt.smoothedUs ≠ 0 then { c with srttUs := rtt.smoothedUs } else c

def grow (c : NewReno) (bytesAcked : ℕ) : Option NewReno := do
  let cwnd ←
    if c.inSlowStart then
      some (satAdd c.cwnd (slowStartInc c.ssthresh c.cwnd c.slowStartCap bytesAcked))
    else
      (divide (c.mss * bytesAcked) c.cwnd).map fun inc => satAdd c.cwnd (max (inc % 2 ^ 32) 1)
  some { c with cwnd := min cwnd c.maxWindow }

def onAck (c : NewReno) (bytesAcked : ℕ) (rtt : Rtt) : Option NewReno :=
  let c := c.observe rtt
  if bytesAcked = 0 then some c
  else
    let (held, recovery) := c.recovery.absorbAck bytesAcked
    let c := { c with recovery }
    if held then some c else c.grow bytesAcked

def onLoss (c : NewReno) (persistent : Bool) : NewReno :=
  if persistent then
    { c with
      ssthresh := max (c.cwnd / 2) (minimumWindow c.mss)
      cwnd := minimumWindow c.mss
      recovery := .begin (minimumWindow c.mss) }
  else if c.recovery.active then c
  else c.enterRecovery

def onRto (c : NewReno) : NewReno := c.onLoss true

def window (c : NewReno) : ℕ := min (max c.cwnd (minimumWindow c.mss)) c.maxWindow

def pacingRate (c : NewReno) : Option ℕ := pacingRateOf c.window c.srttUs c.inSlowStart

end NewReno

/-- More than 128 bits is larger than any `x`. -/
def cubeLe (x c : ℕ) : Bool := c * c < 2 ^ 128 && c * c * c < 2 ^ 128 && c * c * c ≤ x

/-- Newton's iteration from above, which `fuel` bounds. -/
def newton (x : ℕ) : ℕ → ℕ → Option ℕ
  | 0, _ => none
  | fuel + 1, y => do
    let q ← divide x (y * y)
    let next := (2 * y + q) / 3
    if y ≤ next then some y else newton x fuel next

/-- Down to the first cube not above `x`. -/
def lower (x : ℕ) : ℕ → ℕ
  | 0 => 0
  | y + 1 => if cubeLe x (y + 1) then y + 1 else lower x y

/-- Up to the last cube not above `x`. -/
def raise (x : ℕ) : ℕ → ℕ → Option ℕ
  | 0, _ => none
  | fuel + 1, y => if cubeLe x (y + 1) then raise x fuel (y + 1) else some y

def icbrtU128 (x : ℕ) : Option ℕ :=
  if x < 8 then some (if 0 < x then 1 else 0)
  else do
    let y := 2 ^ ((Nat.size x + 2) / 3)
    let y ← newton x y y
    raise x (x + 1) (lower x y)

def betaNum : ℕ := 717
def betaDen : ℕ := 1024

structure Cubic where
  mss : ℕ
  cwnd : ℕ
  ssthresh : ℕ
  wMax : ℕ
  wLastMax : ℕ
  originPoint : ℕ
  kMs : ℕ
  /-- The start of the epoch; 0 when it is not set. -/
  epochStartMs : ℕ
  srttUs : ℕ
  minRttUs : ℕ
  recovery : RecoveryEpisode
  maxWindow : ℕ
  slowStartCap : ℕ

/-- `i128`, as a release build computes in it. -/
def i128 (x : ℤ) : ℤ := x.bmod (2 ^ 128)

namespace Cubic

def new (mss : ℕ) : Cubic :=
  let mss := if mss = 0 then defaultMss else mss
  { mss
    cwnd := initialWindow mss
    ssthresh := u32Max
    wMax := 0
    wLastMax := 0
    originPoint := 0
    kMs := 0
    epochStartMs := 0
    srttUs := 0
    minRttUs := 0
    recovery := .idle
    maxWindow := max defaultMaxWindow (initialWindow mss)
    slowStartCap := 0 }

def setMaxWindow (c : Cubic) (m : ℕ) : Cubic :=
  { c with maxWindow := max m (initialWindow c.mss) }

def setSlowStartCap (c : Cubic) (cap : ℕ) : Cubic := { c with slowStartCap := cap }

def inSlowStart (c : Cubic) : Bool := c.cwnd < c.ssthresh

def rttMs (c : Cubic) : ℕ := max ((if c.minRttUs ≠ 0 then c.minRttUs else c.srttUs) / 1000) 1

def wCubic (c : Cubic) (tMs : ℕ) : Option ℕ :=
  let dt : ℤ := i128 (tMs - c.kMs)
  let cube := i128 (i128 (dt * dt) * dt)
  let delta := (i128 (i128 (c.mss * cube) * 4)).tdiv 10000000000
  let w := i128 (c.originPoint + delta)
  let lo : ℤ := minimumWindow c.mss
  let hi : ℤ := c.maxWindow
  if lo ≤ hi then some ((max lo (min w hi)).toNat % 2 ^ 32) else none

def wEst (c : Cubic) (tMs rttMs : ℕ) : Option ℕ := do
  let base := c.wMax * betaNum / betaDen
  let grow ← divide (921 * tMs * c.mss % 2 ^ 64) (1741 * rttMs)
  some (min (min (base + grow) (2 ^ 64 - 1)) c.maxWindow % 2 ^ 32)

def regainMs (c : Cubic) : Option ℕ := do
  let num ← divide ((c.wMax - c.cwnd) * 2500000000) c.mss
  let k ← icbrtU128 num
  some (k % 2 ^ 64)

/-- On the first acknowledgement of congestion avoidance. -/
def startEpoch (c : Cubic) (nowMs : ℕ) : Option Cubic :=
  if c.epochStartMs ≠ 0 then some c
  else
    let epochStartMs := max nowMs 1
    if c.wMax ≤ c.cwnd then some { c with epochStartMs, kMs := 0, originPoint := c.cwnd }
    else c.regainMs.map fun kMs => { c with epochStartMs, kMs, originPoint := c.wMax }

def cubicAvoid (c : Cubic) (bytesAcked nowMs : ℕ) : Option Cubic := do
  let c ← c.startEpoch nowMs
  let t := nowMs - c.epochStartMs
  let rttMs := c.rttMs
  let w ← c.wCubic ((t + rttMs) % 2 ^ 64)
  let est ← c.wEst t rttMs
  let target := max w est
  if c.cwnd < target then
    let inc ← divide ((target - c.cwnd) * bytesAcked) c.cwnd
    let inc := max (min (inc % 2 ^ 32) bytesAcked) 1
    some { c with cwnd := min (satAdd c.cwnd inc) target }
  else
    let inc ← divide (c.mss * bytesAcked) (100 * c.cwnd)
    some { c with cwnd := satAdd c.cwnd (inc % 2 ^ 32) }

def observe (c : Cubic) (rtt : Rtt) : Cubic :=
  let c := if rtt.smoothedUs ≠ 0 then { c with srttUs := rtt.smoothedUs } else c
  if rtt.minUs ≠ 0 then { c with minRttUs := rtt.minUs } else c

def grow (c : Cubic) (bytesAcked nowMs : ℕ) : Option Cubic := do
  let c ←
    if c.inSlowStart then
      some { c with
        cwnd := satAdd c.cwnd (slowStartInc c.ssthresh c.cwnd c.slowStartCap bytesAcked) }
    else c.cubicAvoid bytesAcked nowMs
  some { c with cwnd := min c.cwnd c.maxWindow }

def onAck (c : Cubic) (bytesAcked : ℕ) (rtt : Rtt) (nowMs : ℕ) : Option Cubic :=
  let c := c.observe rtt
  if bytesAcked = 0 then some c
  else
    let (held, recovery) := c.recovery.absorbAck bytesAcked
    let c := { c with recovery }
    if held then some c else c.grow bytesAcked nowMs

def onLoss (c : Cubic) (persistent : Bool) : Cubic :=
  let ssthresh := max (c.cwnd * betaNum / betaDen) (minimumWindow c.mss)
  if persistent then
    { c with
      ssthresh
      wMax := c.cwnd
      wLastMax := 0
      cwnd := minimumWindow c.mss
      epochStartMs := 0
      recovery := .begin (minimumWindow c.mss) }
  else if c.recovery.active then c
  else
    let wMax := if c.cwnd < c.wLastMax then c.cwnd * (betaDen + betaNum) / (2 * betaDen) else c.cwnd
    { c with
      wMax
      wLastMax := c.cwnd
      ssthresh
      cwnd := ssthresh
      epochStartMs := 0
      recovery := .begin (max c.cwnd (minimumWindow c.mss)) }

def onRto (c : Cubic) : Cubic := c.onLoss true

def window (c : Cubic) : ℕ := min (max c.cwnd (minimumWindow c.mss)) c.maxWindow

def pacingRate (c : Cubic) : Option ℕ := pacingRateOf c.window c.srttUs c.inSlowStart

end Cubic

/-- Which controller a connection gets. -/
inductive Algorithm where
  | reno
  | cubic
deriving DecidableEq

/-- The controller chosen at run time. -/
inductive Controller where
  | reno (c : NewReno)
  | cubic (c : Cubic)

/-- A call of the transport. -/
inductive Event where
  | setMaxWindow (m : ℕ)
  | setSlowStartCap (cap : ℕ)
  | onAck (bytesAcked : ℕ) (rtt : Rtt) (nowMs : ℕ)
  | onLoss (bytesLost : ℕ) (persistent : Bool)
  | onRto

namespace Controller

def withAlgorithm (mss : ℕ) : Algorithm → Controller
  | .reno => .reno (.new mss)
  | .cubic => .cubic (.new mss)

def new (mss : ℕ) : Controller := withAlgorithm mss .reno

def step : Controller → Event → Option Controller
  | .reno c, .setMaxWindow m => some (.reno (c.setMaxWindow m))
  | .reno c, .setSlowStartCap cap => some (.reno (c.setSlowStartCap cap))
  | .reno c, .onAck bytesAcked rtt _ => (c.onAck bytesAcked rtt).map .reno
  | .reno c, .onLoss _ persistent => some (.reno (c.onLoss persistent))
  | .reno c, .onRto => some (.reno c.onRto)
  | .cubic c, .setMaxWindow m => some (.cubic (c.setMaxWindow m))
  | .cubic c, .setSlowStartCap cap => some (.cubic (c.setSlowStartCap cap))
  | .cubic c, .onAck bytesAcked rtt nowMs => (c.onAck bytesAcked rtt nowMs).map .cubic
  | .cubic c, .onLoss _ persistent => some (.cubic (c.onLoss persistent))
  | .cubic c, .onRto => some (.cubic c.onRto)

def run (c : Controller) (evs : List Event) : Option Controller := evs.foldlM step c

def window : Controller → ℕ
  | .reno c => c.window
  | .cubic c => c.window

def pacingRate : Controller → Option ℕ
  | .reno c => c.pacingRate
  | .cubic c => c.pacingRate

end Controller

/-- The controller as the TCP engine calls it. -/
instance : Tcp.CongestionControl Controller where
  new := Controller.new
  withDefaultMss := Controller.new defaultMss
  setSlowStartCap c cap := (c.step (.setSlowStartCap cap)).getD c
  onAck c bytesAcked _ smoothedUs minUs nowMs :=
    (c.step (.onAck bytesAcked ⟨smoothedUs, minUs⟩ nowMs)).getD c
  onLoss c bytesLost persistent := (c.step (.onLoss bytesLost persistent)).getD c
  onRto c := (c.step .onRto).getD c
  window := Controller.window

theorem newton_isSome {x : ℕ} (hx : 0 < x) {fuel y : ℕ} (hy : 0 < y) (hfuel : y ≤ fuel) :
    ∃ r, newton x fuel y = some r := by
  induction fuel generalizing y with
  | zero => omega
  | succ fuel ih =>
    rw [newton, divide_eq (Nat.mul_pos hy hy).ne']
    simp only [bind_eq_bind, bind_some]
    split_ifs with hstop
    · exact ⟨y, rfl⟩
    · have hq : 1 < y ∨ 1 ≤ x / (y * y) := by
        rcases Nat.lt_or_ge 1 y with h | h
        · exact .inl h
        · right
          obtain rfl : y = 1 := by omega
          simp only [Nat.mul_one, Nat.div_one]
          exact hx
      generalize x / (y * y) = q at hq hstop ⊢
      exact ih (by omega) (by omega)

theorem lower_spec (x y : ℕ) : cubeLe x (lower x y) = true := by
  induction y with
  | zero => simp [lower, cubeLe]
  | succ y ih =>
    rw [lower]
    split_ifs with h
    · exact h
    · exact ih

theorem raise_spec {x fuel y : ℕ} (hy : cubeLe x y = true) (hfuel : x < fuel + y) :
    ∃ c, raise x fuel y = some c ∧ cubeLe x c = true ∧ cubeLe x (c + 1) = false := by
  induction fuel generalizing y with
  | zero =>
    simp only [cubeLe, Bool.and_eq_true, decide_eq_true_eq] at hy
    have hcube : y ≤ y * y * y := by
      rcases Nat.eq_zero_or_pos y with rfl | hpos
      · exact Nat.zero_le _
      · exact (Nat.le_mul_of_pos_right y hpos).trans (Nat.le_mul_of_pos_right _ hpos)
    omega
  | succ fuel ih =>
    rw [raise]
    split_ifs with h
    · exact ih h (by omega)
    · exact ⟨y, rfl, hy, by simpa using h⟩

theorem icbrtU128_spec (x : ℕ) :
    ∃ c, icbrtU128 x = some c ∧ cubeLe x c = true ∧ cubeLe x (c + 1) = false := by
  rw [icbrtU128]
  split_ifs with hsmall hpos
  · exact ⟨1, rfl, by simp [cubeLe]; omega, by simp [cubeLe]; omega⟩
  · exact ⟨0, rfl, by simp [cubeLe], by simpa [cubeLe] using hpos⟩
  · obtain ⟨y, hy⟩ := newton_isSome (x := x) (by omega) (Nat.two_pow_pos ((Nat.size x + 2) / 3)) le_rfl
    simp only [hy, bind_eq_bind, bind_some]
    exact raise_spec (lower_spec x y) (by omega)

/-- What the bounds on the window depend on. -/
structure View where
  mss : ℕ
  cwnd : ℕ
  recovery : RecoveryEpisode
  maxWindow : ℕ

def NewReno.view (c : NewReno) : View := ⟨c.mss, c.cwnd, c.recovery, c.maxWindow⟩

def Cubic.view (c : Cubic) : View := ⟨c.mss, c.cwnd, c.recovery, c.maxWindow⟩

def Controller.view : Controller → View
  | .reno c => c.view
  | .cubic c => c.view

namespace View

def collapse (v : View) : View :=
  { v with cwnd := minimumWindow v.mss, recovery := .begin (minimumWindow v.mss) }

def Step (v : View) : Event → View → Prop
  | .setMaxWindow m, v' => v' = { v with maxWindow := max m (initialWindow v.mss) }
  | .setSlowStartCap _, v' => v' = v
  | .onAck bytesAcked _ _, v' =>
    if bytesAcked = 0 then v' = v
    else if v.recovery.active then v' = { v with recovery := (v.recovery.absorbAck bytesAcked).2 }
    else ∃ cwnd, min v.cwnd v.maxWindow ≤ cwnd ∧ cwnd ≤ u32Max ∧ v' = { v with cwnd }
  | .onLoss _ persistent, v' =>
    if persistent then v' = v.collapse
    else if v.recovery.active then v' = v
    else ∃ cwnd, minimumWindow v.mss ≤ cwnd ∧ cwnd ≤ u32Max ∧
      v' = { v with cwnd, recovery := .begin (max v.cwnd (minimumWindow v.mss)) }
  | .onRto, v' => v' = v.collapse

/-- The window is between its bounds, but for the clamp. -/
structure Sound (v : View) : Prop where
  mss : 0 < v.mss
  cwnd : minimumWindow v.mss ≤ v.cwnd
  cwnd_le : v.cwnd ≤ u32Max
  maxWindow : initialWindow v.mss ≤ v.maxWindow

variable {v : View}

theorem Sound.maxWindow_ge (h : v.Sound) : minimumWindow v.mss ≤ v.maxWindow :=
  (minimumWindow_le_initialWindow v.mss).trans h.maxWindow

theorem Sound.cwnd_pos (h : v.Sound) : 0 < v.cwnd :=
  (minimumWindow_pos h.mss).trans_le h.cwnd

theorem Sound.collapse (h : v.Sound) : v.collapse.Sound :=
  ⟨h.mss, le_rfl, Nat.min_le_right .., h.maxWindow⟩

theorem Step.sound {v' : View} {ev : Event} (h : v.Sound) (hst : v.Step ev v') :
    v'.Sound ∧ v'.mss = v.mss := by
  have hmax := h.maxWindow_ge
  cases ev with
  | setMaxWindow m =>
    obtain rfl : v' = _ := hst
    exact ⟨⟨h.mss, h.cwnd, h.cwnd_le, Nat.le_max_right ..⟩, rfl⟩
  | setSlowStartCap cap =>
    obtain rfl : v' = v := hst
    exact ⟨h, rfl⟩
  | onAck bytesAcked rtt nowMs =>
    rw [Step] at hst
    split_ifs at hst
    · subst hst
      exact ⟨h, rfl⟩
    · subst hst
      exact ⟨⟨h.mss, h.cwnd, h.cwnd_le, h.maxWindow⟩, rfl⟩
    · obtain ⟨cwnd, hcwnd, hle, rfl⟩ := hst
      exact ⟨⟨h.mss, (le_min h.cwnd hmax).trans hcwnd, hle, h.maxWindow⟩, rfl⟩
  | onLoss bytesLost persistent =>
    rw [Step] at hst
    split_ifs at hst
    · subst hst
      exact ⟨h.collapse, rfl⟩
    · subst hst
      exact ⟨h, rfl⟩
    · obtain ⟨cwnd, hcwnd, hle, rfl⟩ := hst
      exact ⟨⟨h.mss, hcwnd, hle, h.maxWindow⟩, rfl⟩
  | onRto =>
    obtain rfl : v' = v.collapse := hst
    exact ⟨h.collapse, rfl⟩

end View

/-- Acknowledgements, and losses that are not persistent. -/
def Event.InEpisode : Event → Prop
  | .onAck .. | .onLoss _ false => True
  | _ => False

def Event.ackedBytes : Event → ℕ
  | .onAck bytesAcked .. => bytesAcked
  | _ => 0

open RecoveryEpisode

theorem View.Step.episode {v v' : View} {ev : Event} (hst : v.Step ev v') (hev : ev.InEpisode)
    (hactive : v.recovery.active = true) (hacked : ev.ackedBytes < v.recovery.remBytes) :
    v'.recovery.active = true ∧ v'.cwnd = v.cwnd ∧
      v.recovery.remBytes ≤ v'.recovery.remBytes + ev.ackedBytes := by
  cases ev with
  | onAck bytesAcked rtt nowMs =>
    have hrem : v.recovery.remBytes - bytesAcked ≠ 0 := by
      rw [Event.ackedBytes] at hacked
      omega
    rw [View.Step, if_pos hactive] at hst
    split_ifs at hst
    · subst hst
      exact ⟨hactive, rfl, Nat.le_add_right ..⟩
    · subst hst
      simp only [absorbAck, hactive, Bool.not_true, Bool.false_eq_true, if_false,
        hrem, Event.ackedBytes]
      exact ⟨trivial, trivial, by omega⟩
  | onLoss bytesLost persistent =>
    cases persistent with
    | true => exact hev.elim
    | false =>
      rw [View.Step, if_neg (by simp), if_pos hactive] at hst
      subst hst
      exact ⟨hactive, rfl, Nat.le_add_right ..⟩
  | setMaxWindow m => exact hev.elim
  | setSlowStartCap cap => exact hev.elim
  | onRto => exact hev.elim

theorem le_satAdd {a : ℕ} (h : a ≤ u32Max) (b : ℕ) : a ≤ satAdd a b := by
  unfold satAdd
  omega

theorem satAdd_le (a b : ℕ) : satAdd a b ≤ u32Max := Nat.min_le_right ..

theorem minimumWindow_le_u32Max (mss : ℕ) : minimumWindow mss ≤ u32Max := Nat.min_le_right ..

theorem RecoveryEpisode.absorbAck_fst (r : RecoveryEpisode) (bytesAcked : ℕ) :
    (r.absorbAck bytesAcked).1 = r.active := by
  unfold absorbAck
  cases r.active <;> rfl

theorem RecoveryEpisode.absorbAck_idle {r : RecoveryEpisode} (h : r.active = false) (bytesAcked : ℕ) :
    r.absorbAck bytesAcked = (false, r) := by
  simp [absorbAck, h]

def View.Grown (v v' : View) : Prop :=
  ∃ cwnd, min v.cwnd v.maxWindow ≤ cwnd ∧ cwnd ≤ u32Max ∧ v' = { v with cwnd }

theorem View.grown_of_le {v : View} {cwnd : ℕ} (hle : v.cwnd ≤ cwnd) (hmax : cwnd ≤ u32Max) :
    v.Grown { v with cwnd := min cwnd v.maxWindow } :=
  ⟨_, min_le_min_right _ hle, (Nat.min_le_left ..).trans hmax, rfl⟩

namespace View.Step

variable {v v' : View} {bytesAcked nowMs : ℕ} {rtt : Rtt}

theorem ack_nothing (v : View) : v.Step (.onAck 0 rtt nowMs) v := rfl

theorem ack_held (hacked : bytesAcked ≠ 0) (hactive : v.recovery.active = true) :
    v.Step (.onAck bytesAcked rtt nowMs)
      { v with recovery := (v.recovery.absorbAck bytesAcked).2 } := by
  rw [Step, if_neg hacked, if_pos hactive]

theorem ack_grown (hacked : bytesAcked ≠ 0) (hidle : v.recovery.active = false) (h : v.Grown v') :
    v.Step (.onAck bytesAcked rtt nowMs) v' := by
  rw [Step, if_neg hacked, if_neg (by simp [hidle])]
  exact h

end View.Step

namespace NewReno

variable {c : NewReno}

theorem observe_view (c : NewReno) (rtt : Rtt) : (c.observe rtt).view = c.view := by
  unfold observe
  split_ifs <;> rfl

theorem grow_view (h : c.view.Sound) (bytesAcked : ℕ) :
    ∃ c', c.grow bytesAcked = some c' ∧ c.view.Grown c'.view := by
  have hpos : 0 < c.cwnd := h.cwnd_pos
  rw [grow, divide_eq hpos.ne']
  split_ifs with hslow
  · exact ⟨_, rfl, View.grown_of_le (le_satAdd h.cwnd_le _) (satAdd_le ..)⟩
  · exact ⟨_, rfl, View.grown_of_le (le_satAdd h.cwnd_le _) (satAdd_le ..)⟩

theorem onAck_view (h : c.view.Sound) (bytesAcked : ℕ) (rtt : Rtt) (nowMs : ℕ) :
    ∃ c', c.onAck bytesAcked rtt = some c' ∧
      c.view.Step (.onAck bytesAcked rtt nowMs) c'.view := by
  rw [onAck]
  have hview := c.observe_view rtt
  generalize c.observe rtt = c1 at hview
  rw [← hview] at h ⊢
  by_cases hzero : bytesAcked = 0
  · subst hzero
    exact ⟨c1, rfl, .ack_nothing _⟩
  · cases hactive : c1.recovery.active with
    | true =>
      simp only [hzero, if_false, absorbAck_fst, hactive, if_true]
      exact ⟨_, rfl, .ack_held hzero hactive⟩
    | false =>
      obtain ⟨c', hgrow, hgrown⟩ := grow_view h bytesAcked
      simp only [hzero, if_false, absorbAck_idle hactive, Bool.false_eq_true]
      exact ⟨c', hgrow, .ack_grown hzero hactive hgrown⟩

end NewReno

namespace Cubic

variable {c : Cubic}

theorem observe_view (c : Cubic) (rtt : Rtt) : (c.observe rtt).view = c.view := by
  unfold observe
  split_ifs <;> rfl

theorem regainMs_isSome (h : c.view.Sound) : ∃ k, c.regainMs = some k := by
  have hmss : c.mss ≠ 0 := h.mss.ne'
  obtain ⟨k, hk, -⟩ := icbrtU128_spec ((c.wMax - c.cwnd) * 2500000000 / c.mss)
  rw [regainMs, divide_eq hmss, bind_eq_bind, bind_some, hk]
  exact ⟨_, rfl⟩

theorem startEpoch_view (h : c.view.Sound) (nowMs : ℕ) :
    ∃ c', c.startEpoch nowMs = some c' ∧ c'.view = c.view := by
  obtain ⟨k, hk⟩ := regainMs_isSome h
  rw [startEpoch, hk]
  split_ifs
  · exact ⟨_, rfl, rfl⟩
  · exact ⟨_, rfl, rfl⟩
  · exact ⟨_, rfl, rfl⟩

theorem wCubic_isSome (h : c.view.Sound) (tMs : ℕ) : ∃ w, c.wCubic tMs = some w := by
  rw [wCubic]
  exact ⟨_, if_pos (Int.ofNat_le.mpr h.maxWindow_ge)⟩

theorem wEst_isSome (c : Cubic) (tMs : ℕ) : ∃ w, c.wEst tMs c.rttMs = some w := by
  have hrtt : 1741 * c.rttMs ≠ 0 := by
    have : 1 ≤ c.rttMs := Nat.le_max_right ..
    omega
  rw [wEst, divide_eq hrtt]
  exact ⟨_, rfl⟩

theorem cubicAvoid_view (h : c.view.Sound) (bytesAcked nowMs : ℕ) :
    ∃ c' cwnd, c.cubicAvoid bytesAcked nowMs = some c' ∧ c'.view = { c.view with cwnd } ∧
      c.cwnd ≤ cwnd ∧ cwnd ≤ u32Max := by
  obtain ⟨c1, hepoch, hview⟩ := startEpoch_view h nowMs
  rw [← hview] at h ⊢
  have hcwnd : c1.cwnd = c.cwnd := congrArg View.cwnd hview
  obtain ⟨w, hw⟩ := wCubic_isSome h ((nowMs - c1.epochStartMs + c1.rttMs) % 2 ^ 64)
  obtain ⟨est, hest⟩ := c1.wEst_isSome (nowMs - c1.epochStartMs)
  have hpos : 0 < c1.cwnd := h.cwnd_pos
  have hle : c1.cwnd ≤ u32Max := h.cwnd_le
  rw [cubicAvoid, ← hcwnd]
  simp only [hepoch, bind_eq_bind, bind_some, hw, hest, divide_eq hpos.ne',
    divide_eq (Nat.mul_ne_zero (by decide : 100 ≠ 0) hpos.ne')]
  split_ifs with htarget
  · exact ⟨_, _, rfl, rfl, le_min (le_satAdd hle _) htarget.le,
      (Nat.min_le_left ..).trans (satAdd_le ..)⟩
  · exact ⟨_, _, rfl, rfl, le_satAdd hle _, satAdd_le ..⟩

theorem grow_view (h : c.view.Sound) (bytesAcked nowMs : ℕ) :
    ∃ c', c.grow bytesAcked nowMs = some c' ∧ c.view.Grown c'.view := by
  rw [grow]
  split_ifs with hslow
  · exact ⟨_, rfl, View.grown_of_le (le_satAdd h.cwnd_le _) (satAdd_le ..)⟩
  · obtain ⟨c', cwnd, havoid, hview, hle, hmax⟩ := cubicAvoid_view h bytesAcked nowMs
    rw [havoid]
    refine ⟨_, rfl, ?_⟩
    have hgrown := View.grown_of_le (v := c.view) hle hmax
    have hcapped : ({ c' with cwnd := min c'.cwnd c'.maxWindow } : Cubic).view =
        { c.view with cwnd := min cwnd c.view.maxWindow } := by
      simp only [view, View.mk.injEq] at hview ⊢
      obtain ⟨h1, h2, h3, h4⟩ := hview
      exact ⟨h1, by rw [h2, h4], h3, h4⟩
    rw [← hcapped] at hgrown
    exact hgrown

theorem onAck_view (h : c.view.Sound) (bytesAcked : ℕ) (rtt : Rtt) (nowMs : ℕ) :
    ∃ c', c.onAck bytesAcked rtt nowMs = some c' ∧
      c.view.Step (.onAck bytesAcked rtt nowMs) c'.view := by
  rw [onAck]
  have hview := c.observe_view rtt
  generalize c.observe rtt = c1 at hview
  rw [← hview] at h ⊢
  by_cases hzero : bytesAcked = 0
  · subst hzero
    exact ⟨c1, rfl, .ack_nothing _⟩
  · cases hactive : c1.recovery.active with
    | true =>
      simp only [hzero, if_false, absorbAck_fst, hactive, if_true]
      exact ⟨_, rfl, .ack_held hzero hactive⟩
    | false =>
      obtain ⟨c', hgrow, hgrown⟩ := grow_view h bytesAcked nowMs
      simp only [hzero, if_false, absorbAck_idle hactive, Bool.false_eq_true]
      exact ⟨c', hgrow, .ack_grown hzero hactive hgrown⟩

end Cubic

namespace Controller

theorem onLoss_reno_view {c : NewReno} (h : c.view.Sound) (bytesLost : ℕ) (persistent : Bool) :
    c.view.Step (.onLoss bytesLost persistent) (c.onLoss persistent).view := by
  have hle : max (c.cwnd / 2) (minimumWindow c.mss) ≤ u32Max :=
    max_le ((Nat.div_le_self ..).trans h.cwnd_le) (minimumWindow_le_u32Max _)
  cases persistent with
  | true => rfl
  | false =>
    simp only [View.Step, NewReno.onLoss, Bool.false_eq_true, if_false]
    cases hactive : c.recovery.active with
    | true => simp [NewReno.view, hactive]
    | false =>
      simp only [NewReno.view, hactive, Bool.false_eq_true, if_false]
      exact ⟨_, Nat.le_max_right .., hle, rfl⟩

theorem onLoss_cubic_view {c : Cubic} (h : c.view.Sound) (bytesLost : ℕ) (persistent : Bool) :
    c.view.Step (.onLoss bytesLost persistent) (c.onLoss persistent).view := by
  have hbeta : c.cwnd * betaNum / betaDen ≤ c.cwnd := by
    unfold betaNum betaDen
    omega
  have hle : max (c.cwnd * betaNum / betaDen) (minimumWindow c.mss) ≤ u32Max :=
    max_le (hbeta.trans h.cwnd_le) (minimumWindow_le_u32Max _)
  cases persistent with
  | true => rfl
  | false =>
    simp only [View.Step, Cubic.onLoss, Bool.false_eq_true, if_false]
    cases hactive : c.recovery.active with
    | true => simp [Cubic.view, hactive]
    | false =>
      simp only [Cubic.view, hactive, Bool.false_eq_true, if_false]
      exact ⟨_, Nat.le_max_right .., hle, rfl⟩

variable {c : Controller}

/-- **Every event** ends, and does what `View.Step` says. -/
theorem step_view (h : c.view.Sound) (ev : Event) :
    ∃ c', c.step ev = some c' ∧ c.view.Step ev c'.view := by
  cases c with
  | reno c =>
    cases ev with
    | setMaxWindow m => exact ⟨_, rfl, rfl⟩
    | setSlowStartCap cap => exact ⟨_, rfl, rfl⟩
    | onAck bytesAcked rtt nowMs =>
      obtain ⟨c', hack, hst⟩ := NewReno.onAck_view h bytesAcked rtt nowMs
      exact ⟨.reno c', by rw [step, hack]; rfl, hst⟩
    | onLoss bytesLost persistent => exact ⟨_, rfl, onLoss_reno_view h bytesLost persistent⟩
    | onRto => exact ⟨_, rfl, rfl⟩
  | cubic c =>
    cases ev with
    | setMaxWindow m => exact ⟨_, rfl, rfl⟩
    | setSlowStartCap cap => exact ⟨_, rfl, rfl⟩
    | onAck bytesAcked rtt nowMs =>
      obtain ⟨c', hack, hst⟩ := Cubic.onAck_view h bytesAcked rtt nowMs
      exact ⟨.cubic c', by rw [step, hack]; rfl, hst⟩
    | onLoss bytesLost persistent => exact ⟨_, rfl, onLoss_cubic_view h bytesLost persistent⟩
    | onRto => exact ⟨_, rfl, rfl⟩

theorem sound_withAlgorithm (mss : ℕ) (a : Algorithm) : (withAlgorithm mss a).view.Sound ∧
    (withAlgorithm mss a).view.mss = if mss = 0 then defaultMss else mss := by
  have hmss : 0 < if mss = 0 then defaultMss else mss := by
    unfold defaultMss
    split_ifs <;> omega
  have hsound : (View.mk (if mss = 0 then defaultMss else mss)
      (initialWindow (if mss = 0 then defaultMss else mss)) .idle
      (max defaultMaxWindow (initialWindow (if mss = 0 then defaultMss else mss)))).Sound :=
    ⟨hmss, minimumWindow_le_initialWindow _, (Nat.min_le_left ..).trans (Nat.min_le_right ..),
      Nat.le_max_right ..⟩
  cases a with
  | reno => exact ⟨hsound, rfl⟩
  | cubic => exact ⟨hsound, rfl⟩

theorem run_cons (c : Controller) (ev : Event) (evs : List Event) :
    c.run (ev :: evs) = (c.step ev).bind fun c' => c'.run evs := rfl

theorem run_sound (h : c.view.Sound) (evs : List Event) :
    ∃ c', c.run evs = some c' ∧ c'.view.Sound ∧ c'.view.mss = c.view.mss := by
  induction evs generalizing c with
  | nil => exact ⟨c, rfl, h, rfl⟩
  | cons ev evs ih =>
    obtain ⟨c1, hstep, hst⟩ := step_view h ev
    obtain ⟨hsound, hmss⟩ := hst.sound h
    obtain ⟨c', hrun, hsound', hmss'⟩ := ih hsound
    exact ⟨c', by rw [run_cons, hstep]; exact hrun, hsound', hmss'.trans hmss⟩

theorem window_view (c : Controller) :
    c.window = min (max c.view.cwnd (minimumWindow c.view.mss)) c.view.maxWindow := by
  cases c <;> rfl

theorem pacingRateOf_isSome (window srttUs : ℕ) (inSlowStart : Bool) :
    (pacingRateOf window srttUs inSlowStart).isSome = true := by
  rw [pacingRateOf]
  by_cases hzero : srttUs = 0
  · rw [if_pos hzero]
    rfl
  · rw [if_neg hzero, divide_eq (Nat.mul_ne_zero hzero (by split_ifs <;> decide))]
    rfl

theorem pacingRate_isSome (c : Controller) : c.pacingRate.isSome = true := by
  cases c <;> exact pacingRateOf_isSome ..

theorem run_episode (h : c.view.Sound) (hactive : c.view.recovery.active = true)
    (evs : List Event) (hevs : ∀ ev ∈ evs, ev.InEpisode)
    (hacked : (evs.map Event.ackedBytes).sum < c.view.recovery.remBytes) :
    ∃ c', c.run evs = some c' ∧ c'.view.cwnd = c.view.cwnd := by
  induction evs generalizing c with
  | nil => exact ⟨c, rfl, rfl⟩
  | cons ev evs ih =>
    obtain ⟨c1, hstep, hst⟩ := step_view h ev
    obtain ⟨hsound, -⟩ := hst.sound h
    rw [List.map_cons, List.sum_cons] at hacked
    obtain ⟨hactive', hcwnd, hrem⟩ :=
      hst.episode (hevs ev (List.mem_cons_self ..)) hactive (by omega)
    obtain ⟨c', hrun, hcwnd'⟩ := ih hsound hactive' (fun ev hev => hevs ev (by simp [hev])) (by omega)
    exact ⟨c', by rw [run_cons, hstep]; exact hrun, hcwnd'.trans hcwnd⟩

/-- **The congestion controllers are safe**: no division by zero, bounded windows, one cut per
flight. -/
theorem controller_safety (a : Algorithm) (mss : ℕ) (evs : List Event) :
    ∃ c, (withAlgorithm mss a).run evs = some c ∧ c.pacingRate.isSome = true ∧
      min (2 * mss) u32Max ≤ c.window ∧ c.window ≤ c.view.maxWindow ∧ 0 < c.view.cwnd ∧
      ∀ bytesLost, c.view.recovery.active = false →
        ∃ c₁, c.step (.onLoss bytesLost false) = some c₁ ∧
          ∀ evs', (∀ ev ∈ evs', ev.InEpisode) → (evs'.map Event.ackedBytes).sum < c.window →
            ∃ c', c₁.run evs' = some c' ∧ c'.view.cwnd = c₁.view.cwnd := by
  obtain ⟨hsound0, hmss0⟩ := sound_withAlgorithm mss a
  obtain ⟨c, hrun, hsound, hmss⟩ := run_sound hsound0 evs
  have hwindow := c.window_view
  rw [Nat.max_eq_left hsound.cwnd] at hwindow
  refine ⟨c, hrun, c.pacingRate_isSome, ?_, ?_, hsound.cwnd_pos, fun bytesLost hidle => ?_⟩
  · rw [hwindow]
    refine le_trans ?_ (le_min hsound.cwnd hsound.maxWindow_ge)
    rw [hmss, hmss0, minimumWindow, satMul]
    split_ifs <;> omega
  · rw [hwindow]
    exact Nat.min_le_right ..
  · obtain ⟨c₁, hstep, hst⟩ := step_view hsound (.onLoss bytesLost false)
    obtain ⟨hsound1, -⟩ := hst.sound hsound
    rw [View.Step, if_neg (by simp), if_neg (by simp [hidle])] at hst
    obtain ⟨cwnd, -, -, hview⟩ := hst
    refine ⟨c₁, hstep, fun evs' hevs hacked => run_episode hsound1 (by rw [hview]; rfl) evs' hevs ?_⟩
    refine hacked.trans_le ?_
    rw [hview, hwindow]
    exact (Nat.min_le_left ..).trans (Nat.le_max_left ..)

/-- Twice a segment size of 31 bits is more than a window can be. -/
theorem window_below_two_mss :
    (withAlgorithm (2 ^ 31) .reno).window < 2 * 2 ^ 31 ∧
      (withAlgorithm (2 ^ 31) .cubic).window < 2 * 2 ^ 31 := by
  decide +kernel

end Controller

end Waitless.Cc
