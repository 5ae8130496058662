import Waitless.AesGcm

/-! # QUIC 1-RTT keys and key updates

The model of `conn/keys.rs`: the keys of each direction, their installation with the application
secrets of the TLS handshake, and the rotations of a key update.

On the receive side the stored secret lags the pre-derived keys by one: after `n ≥ 1` rotations the
next keys are those of generation `n`, not `n + 1`. -/

namespace Waitless.Quic

open Waitless.Ghash Waitless.AesGcm

abbrev Secret := Vector UInt8 32

def tagLen : ℕ := 16
def hpSampleLen : ℕ := 16
def hpMaskLen : ℕ := 5

/-- AES-128 as a keyed function, and HKDF-Expand-Label without a context. -/
structure Primitives where
  aes : Key → Block → Block
  hkdfExpandLabel : Secret → String → (n : ℕ) → Vector UInt8 n

structure InitialKeys where
  key : Key
  iv : Nonce
  hp : Key

/-- Packet protection of one direction. -/
structure DirKeys where
  aeadCipher : Aes128GcmFast
  iv : Nonce
  hpCipher : Key
deriving DecidableEq

section derivation

variable (P : Primitives)

def deriveAes128Keys (secret : Secret) : InitialKeys where
  key := P.hkdfExpandLabel secret "quic key" 16
  iv := P.hkdfExpandLabel secret "quic iv" 12
  hp := P.hkdfExpandLabel secret "quic hp" 16

def nextTrafficSecret (current : Secret) : Secret := P.hkdfExpandLabel current "quic ku" 32

namespace DirKeys

def fromAes128 (k : InitialKeys) : DirKeys := ⟨Aes128GcmFast.new P.aes k.key, k.iv, k.hp⟩

def fromAes128ReuseHp (k : InitialKeys) (prev : DirKeys) : DirKeys :=
  ⟨Aes128GcmFast.new P.aes k.key, k.iv, prev.hpCipher⟩

variable (k : DirKeys)

def aeadSeal (nonce : Nonce) (aad data : Bytes) : Bytes × Tag :=
  k.aeadCipher.sealInPlace P.aes nonce aad data

/-- The data left, and whether the tag matched. -/
def aeadOpen (nonce : Nonce) (aad data : Bytes) (tag : Tag) : Bytes × Bool :=
  k.aeadCipher.openInPlace P.aes nonce aad data tag

/-- The first octets of AES on the sample. -/
def hpMask (sample : Block) : Bytes := (P.aes k.hpCipher sample).toList.take hpMaskLen

end DirKeys

end derivation

def packetNonce (iv : Nonce) (pn : UInt64) : Nonce :=
  Vector.ofFn fun i => if i.val < 4 then iv.get i else iv.get i ^^^ (beBytes64 pn).getD (i.val - 4) 0

structure ApplicationSecrets where
  clientAp : Secret
  serverAp : Secret

/-- The 1-RTT key fields; `clientAppSecret` is the peer's in either role. -/
structure AppKeys where
  applicationSend : Option DirKeys := none
  applicationRecv : Option DirKeys := none
  applicationRecvPrev : Option DirKeys := none
  applicationRecvNext : Option DirKeys := none
  clientAppSecret : Option Secret := none
  serverAppSecret : Option Secret := none
  recvKeyPhase : UInt8 := 0
  sendKeyPhase : UInt8 := 0

namespace ApplicationSecrets

variable (ap : ApplicationSecrets) (isClient : Bool)

def txSecret : Secret := if isClient then ap.clientAp else ap.serverAp

def rxSecret : Secret := if isClient then ap.serverAp else ap.clientAp

end ApplicationSecrets

namespace AppKeys

variable (P : Primitives)

def advanceTls (isClient : Bool) (secrets : Option ApplicationSecrets) (k : AppKeys) : AppKeys :=
  match secrets with
  | none => k
  | some ap =>
    if k.applicationSend.isNone then
      let txSecret := ap.txSecret isClient
      let rxSecret := ap.rxSecret isClient
      let curRecv := DirKeys.fromAes128 P (deriveAes128Keys P rxSecret)
      let nextSecret := nextTrafficSecret P rxSecret
      { k with
        applicationSend := some (DirKeys.fromAes128 P (deriveAes128Keys P txSecret))
        applicationRecv := some curRecv
        clientAppSecret := some rxSecret
        applicationRecvNext :=
          some (DirKeys.fromAes128ReuseHp P (deriveAes128Keys P nextSecret) curRecv)
        serverAppSecret := some txSecret }
    else k

def rotateSendKeys (k : AppKeys) : AppKeys :=
  match k.serverAppSecret with
  | none => k
  | some secret =>
    let nextSecret := nextTrafficSecret P secret
    let k := { k with serverAppSecret := some nextSecret }
    match k.applicationSend with
    | none => k
    | some cur =>
      { k with
        applicationSend :=
          some (DirKeys.fromAes128ReuseHp P (deriveAes128Keys P nextSecret) cur)
        sendKeyPhase := k.sendKeyPhase ^^^ 1 }

def deriveRecvNext (k : AppKeys) : AppKeys :=
  match k.clientAppSecret with
  | none => k
  | some secret =>
    let nextSecret := nextTrafficSecret P secret
    let k := { k with clientAppSecret := some nextSecret }
    match k.applicationRecv with
    | none => k
    | some cur =>
      { k with
        applicationRecvNext :=
          some (DirKeys.fromAes128ReuseHp P (deriveAes128Keys P nextSecret) cur) }

def rotateRecvKeys (k : AppKeys) : AppKeys :=
  rotateSendKeys P (deriveRecvNext P
    { k with
      applicationRecvPrev := k.applicationRecv
      applicationRecv := k.applicationRecvNext
      applicationRecvNext := none
      recvKeyPhase := k.recvKeyPhase ^^^ 1 })

def secretAt (s : Secret) (n : ℕ) : Secret := (nextTrafficSecret P)^[n] s

/-- The keys of generation `n` of a traffic secret. -/
def keysAt (s : Secret) (n : ℕ) : DirKeys :=
  DirKeys.fromAes128ReuseHp P (deriveAes128Keys P (secretAt P s n))
    (DirKeys.fromAes128 P (deriveAes128Keys P s))

theorem secretAt_succ (s : Secret) (n : ℕ) :
    secretAt P s (n + 1) = nextTrafficSecret P (secretAt P s n) :=
  Function.iterate_succ_apply' _ _ _

theorem fromAes128ReuseHp_keysAt (s : Secret) (m n : ℕ) :
    DirKeys.fromAes128ReuseHp P (deriveAes128Keys P (secretAt P s n)) (keysAt P s m) =
      keysAt P s n := rfl

/-- After the handshake and `n` accepted peer key updates. -/
def rotations (isClient : Bool) (ap : ApplicationSecrets) (n : ℕ) : AppKeys :=
  (rotateRecvKeys P)^[n] (advanceTls P isClient (some ap) {})

def recvGen : ℕ → ℕ
  | 0 => 0
  | 1 => 1
  | n + 2 => n + 1

def nextGen : ℕ → ℕ
  | 0 => 1
  | n + 1 => n + 1

def prevGen : ℕ → Option ℕ
  | 0 => none
  | n + 1 => some (recvGen n)

def rotated (rx tx : Secret) (n : ℕ) : AppKeys where
  applicationSend := some (keysAt P tx n)
  applicationRecv := some (keysAt P rx (recvGen n))
  applicationRecvPrev := (prevGen n).map (keysAt P rx)
  applicationRecvNext := some (keysAt P rx (nextGen n))
  clientAppSecret := some (secretAt P rx n)
  serverAppSecret := some (secretAt P tx n)
  recvKeyPhase := UInt8.ofNat (n % 2)
  sendKeyPhase := UInt8.ofNat (n % 2)

theorem phase_succ (n : ℕ) : UInt8.ofNat (n % 2) ^^^ 1 = UInt8.ofNat ((n + 1) % 2) := by
  rcases Nat.mod_two_eq_zero_or_one n with h | h
  · rw [show (n + 1) % 2 = 1 by omega, h]
    decide
  · rw [show (n + 1) % 2 = 0 by omega, h]
    decide

theorem recvGen_succ (n : ℕ) : recvGen (n + 1) = nextGen n := by
  cases n <;> rfl

theorem rotateRecvKeys_rotated (rx tx : Secret) (n : ℕ) :
    rotateRecvKeys P (rotated P rx tx n) = rotated P rx tx (n + 1) := by
  simp only [rotateRecvKeys, deriveRecvNext, rotateSendKeys, rotated, ← secretAt_succ,
    fromAes128ReuseHp_keysAt, phase_succ, recvGen_succ]
  rfl

theorem rotations_eq_rotated (isClient : Bool) (ap : ApplicationSecrets) (n : ℕ) :
    rotations P isClient ap n = rotated P (ap.rxSecret isClient) (ap.txSecret isClient) n := by
  induction n with
  | zero => rfl
  | succ n ih =>
    rw [rotations, Function.iterate_succ_apply', ← rotations, ih, rotateRecvKeys_rotated]

end AppKeys

def samplePrimitives : Primitives where
  aes k b := Vector.ofFn fun i => k.get i + b.get i + 1
  hkdfExpandLabel s label n := Vector.replicate n (s[0] + if label = "quic ku" then 1 else 0)

def sampleSecrets : ApplicationSecrets := ⟨Vector.replicate 32 0, Vector.replicate 32 0x40⟩

end Waitless.Quic
