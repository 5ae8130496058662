import Mathlib.Logic.Function.Iterate
import Mathlib.Data.List.GetD

/-! # Additive stream ciphers

`xorStream ks d` XORs octet `i` of the text `d` with octet `i` of the keystream `ks`, and
`blockStream f next b₀` is the keystream of a counter mode: octet `i` is octet `i % n` of `f`
applied to the `i / n`-th counter block. -/

namespace StreamCipher

open List

abbrev Octets := List UInt8

/-- XOR octet `i` of the text with octet `i` of the keystream. -/
def xorStream (ks : ℕ → UInt8) (d : Octets) : Octets :=
  d.mapIdx fun i b => b ^^^ ks i

variable (ks : ℕ → UInt8) (d : Octets)

@[simp] theorem xorStream_nil : xorStream ks [] = [] := rfl

@[simp] theorem length_xorStream :
    (xorStream ks d).length = d.length := by
  simp [xorStream]

theorem xorStream_append (e : Octets) :
    xorStream ks (d ++ e) = xorStream ks d ++ xorStream (fun i => ks (d.length + i)) e := by
  simp [xorStream, mapIdx_append, Nat.add_comm]

@[simp] theorem xorStream_xorStream :
    xorStream ks (xorStream ks d) = d := by
  apply ext_getElem (by simp)
  intro i h1 h2
  simp only [xorStream, getElem_mapIdx]
  rw [UInt8.xor_assoc, UInt8.xor_self, UInt8.xor_zero]

theorem xorStream_comm (ks' : ℕ → UInt8) (d : Octets) :
    xorStream ks (xorStream ks' d) = xorStream ks' (xorStream ks d) := by
  apply ext_getElem (by simp)
  intro i h1 h2
  simp only [xorStream, getElem_mapIdx]
  rw [UInt8.xor_assoc, UInt8.xor_assoc, UInt8.xor_comm (ks' i)]

/-- A text survives iff the keystream is zero over its length. -/
theorem xorStream_eq_self_iff :
    xorStream ks d = d ↔ ∀ i, i < d.length → ks i = 0 := by
  constructor
  · intro h i hi
    have hget : (xorStream ks d)[i]? = d[i]? := by rw [h]
    simp only [xorStream, getElem?_mapIdx, getElem?_eq_getElem hi, Option.map_some,
      Option.some.injEq] at hget
    have hxor := congrArg (d[i] ^^^ ·) hget
    simpa [← UInt8.xor_assoc] using hxor
  · intro h
    apply ext_getElem (by simp)
    intro i h1 h2
    simp [xorStream, h i h2]

theorem zipWith_eq_xorStream {d k : Octets} (hlen : d.length ≤ k.length)
    (h : ∀ i (hi : i < k.length), i < d.length → k.get ⟨i, hi⟩ = ks i) :
    List.zipWith (· ^^^ ·) d k = xorStream ks d := by
  apply ext_getElem (by simp [hlen])
  intro i h1 h2
  simp only [length_xorStream] at h2
  have := h i (by omega) h2
  simp only [get_eq_getElem] at this
  simp [xorStream, this]

def maskAt (off : ℕ) (mask : Octets) (i : ℕ) : UInt8 := if i < off then 0 else mask.getD (i - off) 0

/-- XOR `mask` into the text at position `off`. -/
def xorAt (off : ℕ) (mask d : Octets) : Octets := xorStream (maskAt off mask) d

@[simp] theorem length_xorAt (off : ℕ) (mask d : Octets) : (xorAt off mask d).length = d.length :=
  length_xorStream _ _

@[simp] theorem xorAt_xorAt (off : ℕ) (mask d : Octets) : xorAt off mask (xorAt off mask d) = d :=
  xorStream_xorStream _ _

theorem xorAt_comm (off off' : ℕ) (mask mask' d : Octets) :
    xorAt off mask (xorAt off' mask' d) = xorAt off' mask' (xorAt off mask d) :=
  xorStream_comm _ _ _

variable {i n off : ℕ} {mask : Octets}

theorem maskAt_eq_zero (h : i < off ∨ off + mask.length ≤ i) :
    maskAt off mask i = 0 := by
  unfold maskAt
  split
  · rfl
  · rw [getD_eq_default _ _ (by omega)]

theorem getElem?_xorAt_of_outside {d : Octets}
    (h : i < off ∨ off + mask.length ≤ i) : (xorAt off mask d)[i]? = d[i]? := by
  simp [xorAt, xorStream, getElem?_mapIdx, maskAt_eq_zero h]

theorem xorAt_append_right (e : Octets) (off : ℕ) (mask d : Octets) :
    xorAt (e.length + off) mask (e ++ d) = e ++ xorAt off mask d := by
  have hzero : xorStream (maskAt (e.length + off) mask) e = e :=
    (xorStream_eq_self_iff _ _).2 fun i hi => maskAt_eq_zero (Or.inl (by omega))
  rw [xorAt, xorStream_append, hzero, xorAt]
  congr 2
  funext i
  simp [maskAt, Nat.add_sub_add_left]

theorem drop_xorAt (h : off + mask.length ≤ n) :
    (xorAt off mask d).drop n = d.drop n := by
  apply ext_getElem?
  intro i
  rw [getElem?_drop, getElem?_drop, getElem?_xorAt_of_outside (by omega)]

def blockStream {β : Type*} (n : ℕ) (f : β → ℕ → UInt8) (next : β → β) (b₀ : β) (i : ℕ) : UInt8 :=
  f (next^[i / n] b₀) (i % n)

theorem blockStream_add {β : Type*} (hn : 0 < n) (f : β → ℕ → UInt8) (next : β → β)
    (b₀ : β) (k i : ℕ) :
    blockStream n f next b₀ (n * k + i) = blockStream n f next (next^[k] b₀) i := by
  have hdiv : (n * k + i) / n = i / n + k := by
    rw [Nat.add_comm, Nat.add_mul_div_left _ _ hn]
  rw [blockStream, blockStream, hdiv, Nat.mul_add_mod, Function.iterate_add_apply]

theorem blockStream_of_lt {β : Type*} (hi : i < n) (f : β → ℕ → UInt8) (next : β → β)
    (b₀ : β) : blockStream n f next b₀ i = f b₀ i := by
  simp [blockStream, Nat.div_eq_of_lt hi, Nat.mod_eq_of_lt hi]

end StreamCipher
