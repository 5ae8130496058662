import Waitless.AesGcm
import Waitless.CodeTree

/-! # The Huffman code of header strings

HPACK and QPACK share one static code for octet strings. The decoder walks a binary tree built from
the code book `hc`, one input bit at a time; what is left at the end has to be at most seven one
bits. It accepts exactly the encodings of strings (`decodeIntoSlice_exact`). -/

namespace Waitless.FieldHuffman

open Waitless.AesGcm CodeTree.Tree List

/-- Why a string is refused. -/
inductive HuffmanError where
  | badPadding
  | eosInString
  | trailingTooLong
deriving DecidableEq

/-- Code word, its length in bits, and the symbol; 256 ends the string. -/
def hc : List (ℕ × ℕ × ℕ) := [
    (0x1ff8, 13, 0), (0x7fffd8, 23, 1), (0xfffffe2, 28, 2), (0xfffffe3, 28, 3),
    (0xfffffe4, 28, 4), (0xfffffe5, 28, 5), (0xfffffe6, 28, 6), (0xfffffe7, 28, 7),
    (0xfffffe8, 28, 8), (0xffffea, 24, 9), (0x3ffffffc, 30, 10), (0xfffffe9, 28, 11),
    (0xfffffea, 28, 12), (0x3ffffffd, 30, 13), (0xfffffeb, 28, 14), (0xfffffec, 28, 15),
    (0xfffffed, 28, 16), (0xfffffee, 28, 17), (0xfffffef, 28, 18), (0xffffff0, 28, 19),
    (0xffffff1, 28, 20), (0xffffff2, 28, 21), (0x3ffffffe, 30, 22), (0xffffff3, 28, 23),
    (0xffffff4, 28, 24), (0xffffff5, 28, 25), (0xffffff6, 28, 26), (0xffffff7, 28, 27),
    (0xffffff8, 28, 28), (0xffffff9, 28, 29), (0xffffffa, 28, 30), (0xffffffb, 28, 31),
    (0x14, 6, 32), (0x3f8, 10, 33), (0x3f9, 10, 34), (0xffa, 12, 35), (0x1ff9, 13, 36),
    (0x15, 6, 37), (0xf8, 8, 38), (0x7fa, 11, 39), (0x3fa, 10, 40), (0x3fb, 10, 41),
    (0xf9, 8, 42), (0x7fb, 11, 43), (0xfa, 8, 44), (0x16, 6, 45), (0x17, 6, 46), (0x18, 6, 47),
    (0x0, 5, 48), (0x1, 5, 49), (0x2, 5, 50), (0x19, 6, 51), (0x1a, 6, 52), (0x1b, 6, 53),
    (0x1c, 6, 54), (0x1d, 6, 55), (0x1e, 6, 56), (0x1f, 6, 57), (0x5c, 7, 58), (0xfb, 8, 59),
    (0x7ffc, 15, 60), (0x20, 6, 61), (0xffb, 12, 62), (0x3fc, 10, 63), (0x1ffa, 13, 64),
    (0x21, 6, 65), (0x5d, 7, 66), (0x5e, 7, 67), (0x5f, 7, 68), (0x60, 7, 69), (0x61, 7, 70),
    (0x62, 7, 71), (0x63, 7, 72), (0x64, 7, 73), (0x65, 7, 74), (0x66, 7, 75), (0x67, 7, 76),
    (0x68, 7, 77), (0x69, 7, 78), (0x6a, 7, 79), (0x6b, 7, 80), (0x6c, 7, 81), (0x6d, 7, 82),
    (0x6e, 7, 83), (0x6f, 7, 84), (0x70, 7, 85), (0x71, 7, 86), (0x72, 7, 87), (0xfc, 8, 88),
    (0x73, 7, 89), (0xfd, 8, 90), (0x1ffb, 13, 91), (0x7fff0, 19, 92), (0x1ffc, 13, 93),
    (0x3ffc, 14, 94), (0x22, 6, 95), (0x7ffd, 15, 96), (0x3, 5, 97), (0x23, 6, 98), (0x4, 5, 99),
    (0x24, 6, 100), (0x5, 5, 101), (0x25, 6, 102), (0x26, 6, 103), (0x27, 6, 104), (0x6, 5, 105),
    (0x74, 7, 106), (0x75, 7, 107), (0x28, 6, 108), (0x29, 6, 109), (0x2a, 6, 110), (0x7, 5, 111),
    (0x2b, 6, 112), (0x76, 7, 113), (0x2c, 6, 114), (0x8, 5, 115), (0x9, 5, 116), (0x2d, 6, 117),
    (0x77, 7, 118), (0x78, 7, 119), (0x79, 7, 120), (0x7a, 7, 121), (0x7b, 7, 122),
    (0x7ffe, 15, 123), (0x7fc, 11, 124), (0x3ffd, 14, 125), (0x1ffd, 13, 126),
    (0xffffffc, 28, 127), (0xfffe6, 20, 128), (0x3fffd2, 22, 129), (0xfffe7, 20, 130),
    (0xfffe8, 20, 131), (0x3fffd3, 22, 132), (0x3fffd4, 22, 133), (0x3fffd5, 22, 134),
    (0x7fffd9, 23, 135), (0x3fffd6, 22, 136), (0x7fffda, 23, 137), (0x7fffdb, 23, 138),
    (0x7fffdc, 23, 139), (0x7fffdd, 23, 140), (0x7fffde, 23, 141), (0xffffeb, 24, 142),
    (0x7fffdf, 23, 143), (0xffffec, 24, 144), (0xffffed, 24, 145), (0x3fffd7, 22, 146),
    (0x7fffe0, 23, 147), (0xffffee, 24, 148), (0x7fffe1, 23, 149), (0x7fffe2, 23, 150),
    (0x7fffe3, 23, 151), (0x7fffe4, 23, 152), (0x1fffdc, 21, 153), (0x3fffd8, 22, 154),
    (0x7fffe5, 23, 155), (0x3fffd9, 22, 156), (0x7fffe6, 23, 157), (0x7fffe7, 23, 158),
    (0xffffef, 24, 159), (0x3fffda, 22, 160), (0x1fffdd, 21, 161), (0xfffe9, 20, 162),
    (0x3fffdb, 22, 163), (0x3fffdc, 22, 164), (0x7fffe8, 23, 165), (0x7fffe9, 23, 166),
    (0x1fffde, 21, 167), (0x7fffea, 23, 168), (0x3fffdd, 22, 169), (0x3fffde, 22, 170),
    (0xfffff0, 24, 171), (0x1fffdf, 21, 172), (0x3fffdf, 22, 173), (0x7fffeb, 23, 174),
    (0x7fffec, 23, 175), (0x1fffe0, 21, 176), (0x1fffe1, 21, 177), (0x3fffe0, 22, 178),
    (0x1fffe2, 21, 179), (0x7fffed, 23, 180), (0x3fffe1, 22, 181), (0x7fffee, 23, 182),
    (0x7fffef, 23, 183), (0xfffea, 20, 184), (0x3fffe2, 22, 185), (0x3fffe3, 22, 186),
    (0x3fffe4, 22, 187), (0x7ffff0, 23, 188), (0x3fffe5, 22, 189), (0x3fffe6, 22, 190),
    (0x7ffff1, 23, 191), (0x3ffffe0, 26, 192), (0x3ffffe1, 26, 193), (0xfffeb, 20, 194),
    (0x7fff1, 19, 195), (0x3fffe7, 22, 196), (0x7ffff2, 23, 197), (0x3fffe8, 22, 198),
    (0x1ffffec, 25, 199), (0x3ffffe2, 26, 200), (0x3ffffe3, 26, 201), (0x3ffffe4, 26, 202),
    (0x7ffffde, 27, 203), (0x7ffffdf, 27, 204), (0x3ffffe5, 26, 205), (0xfffff1, 24, 206),
    (0x1ffffed, 25, 207), (0x7fff2, 19, 208), (0x1fffe3, 21, 209), (0x3ffffe6, 26, 210),
    (0x7ffffe0, 27, 211), (0x7ffffe1, 27, 212), (0x3ffffe7, 26, 213), (0x7ffffe2, 27, 214),
    (0xfffff2, 24, 215), (0x1fffe4, 21, 216), (0x1fffe5, 21, 217), (0x3ffffe8, 26, 218),
    (0x3ffffe9, 26, 219), (0xffffffd, 28, 220), (0x7ffffe3, 27, 221), (0x7ffffe4, 27, 222),
    (0x7ffffe5, 27, 223), (0xfffec, 20, 224), (0xfffff3, 24, 225), (0xfffed, 20, 226),
    (0x1fffe6, 21, 227), (0x3fffe9, 22, 228), (0x1fffe7, 21, 229), (0x1fffe8, 21, 230),
    (0x7ffff3, 23, 231), (0x3fffea, 22, 232), (0x3fffeb, 22, 233), (0x1ffffee, 25, 234),
    (0x1ffffef, 25, 235), (0xfffff4, 24, 236), (0xfffff5, 24, 237), (0x3ffffea, 26, 238),
    (0x7ffff4, 23, 239), (0x3ffffeb, 26, 240), (0x7ffffe6, 27, 241), (0x3ffffec, 26, 242),
    (0x3ffffed, 26, 243), (0x7ffffe7, 27, 244), (0x7ffffe8, 27, 245), (0x7ffffe9, 27, 246),
    (0x7ffffea, 27, 247), (0x7ffffeb, 27, 248), (0xffffffe, 28, 249), (0x7ffffec, 27, 250),
    (0x7ffffed, 27, 251), (0x7ffffee, 27, 252), (0x7ffffef, 27, 253), (0x7fffff0, 27, 254),
    (0x3ffffee, 26, 255), (0x3fffffff, 30, 256)]

def word (code : ℕ) : ℕ → List Bool
  | 0 => []
  | n + 1 => code.testBit n :: word code n

/-- The words of the symbols. -/
def book : List (List Bool × UInt8) :=
  (hc.filter fun e => e.2.2 ≠ 256).map fun (code, bits, sym) => (word code bits, UInt8.ofNat sym)

def tree : CodeTree.Tree UInt8 := (CodeTree.Tree.build book).getD []

def value : List Bool → ℕ
  | [] => 0
  | bit :: w => bit.toNat * 2 ^ w.length + value w

theorem value_append (w v : List Bool) : value (w ++ v) = value w * 2 ^ v.length + value v := by
  induction w with
  | nil => simp [value]
  | cons bit w ih =>
    rw [cons_append, value, value, ih, length_append, pow_add]
    ring

theorem value_lt (w : List Bool) : value w < 2 ^ w.length := by
  induction w with
  | nil => simp [value]
  | cons bit w ih =>
    have hbit : bit.toNat * 2 ^ w.length ≤ 2 ^ w.length := by cases bit <;> simp
    rw [value, length_cons, pow_succ]
    omega

@[simp] theorem length_word (code n : ℕ) : (word code n).length = n := by
  induction n with
  | zero => rfl
  | succ n ih => rw [word, length_cons, ih]

theorem value_word (code n : ℕ) : value (word code n) = code % 2 ^ n := by
  induction n with
  | zero => rw [word, value, pow_zero, Nat.mod_one]
  | succ n ih =>
    rw [word, value, ih, length_word, Nat.mod_pow_succ, Nat.toNat_testBit, mul_comm, add_comm]

theorem value_of_shorter {w v : List Bool} (h : w <+: v) (hv : v.length ≤ 30) :
    value w * 2 ^ (30 - w.length) ≤ value v * 2 ^ (30 - v.length) ∧
      (value v + 1) * 2 ^ (30 - v.length) ≤ (value w + 1) * 2 ^ (30 - w.length) := by
  obtain ⟨r, rfl⟩ := h
  rw [length_append] at hv ⊢
  have hpow : 2 ^ (30 - w.length) = 2 ^ r.length * 2 ^ (30 - (w.length + r.length)) := by
    rw [← pow_add]
    congr 1
    omega
  have hr := value_lt r
  rw [value_append, hpow, ← mul_assoc, ← mul_assoc]
  refine ⟨Nat.mul_le_mul_right _ (Nat.le_add_right ..), Nat.mul_le_mul_right _ ?_⟩
  rw [Nat.succ_mul]
  omega

/-- Its strings of 30 bits come before another's. -/
def Before (e f : ℕ × ℕ × ℕ) : Prop :=
  e.1 < 2 ^ e.2.1 ∧ f.1 < 2 ^ f.2.1 ∧ e.2.1 ≤ 30 ∧ f.2.1 ≤ 30 ∧
    (e.1 + 1) * 2 ^ (30 - e.2.1) ≤ f.1 * 2 ^ (30 - f.2.1)

instance (e f : ℕ × ℕ × ℕ) : Decidable (Before e f) := inferInstanceAs (Decidable (_ ∧ _))

instance : IsTrans (ℕ × ℕ × ℕ) Before where
  trans := by
    rintro e f g ⟨he, -, hbe, -, hef⟩ ⟨-, hg, -, hbg, hfg⟩
    exact ⟨he, hg, hbe, hbg, hef.trans ((Nat.mul_le_mul_right _ (Nat.le_succ _)).trans hfg)⟩

/-- Neither word is the beginning of the other. -/
def Apart (w v : List Bool) : Prop := ¬ w <+: v ∧ ¬ v <+: w

theorem apart_of_before {e f : ℕ × ℕ × ℕ} (h : Before e f) :
    Apart (word e.1 e.2.1) (word f.1 f.2.1) := by
  obtain ⟨he, hf, hbe, hbf, hlt⟩ := h
  have hpos : 0 < 2 ^ (30 - e.2.1) := Nat.two_pow_pos _
  refine ⟨fun hpre => ?_, fun hpre => ?_⟩
  · have hspan := (value_of_shorter hpre (by rwa [length_word])).2
    simp only [length_word, value_word, Nat.mod_eq_of_lt he, Nat.mod_eq_of_lt hf] at hspan
    have hpos' : 0 < 2 ^ (30 - f.2.1) := Nat.two_pow_pos _
    rw [Nat.succ_mul f.1] at hspan
    omega
  · have hspan := (value_of_shorter hpre (by rwa [length_word])).1
    simp only [length_word, value_word, Nat.mod_eq_of_lt he, Nat.mod_eq_of_lt hf] at hspan
    rw [Nat.succ_mul] at hlt
    omega

/-- By length, then by symbol. -/
def canonical : List (ℕ × ℕ × ℕ) :=
  (List.range 31).flatMap fun n => hc.filter fun e => e.2.1 = n

theorem canonical_chain : canonical.IsChain Before := by decide +kernel

theorem hc_syms : hc.map (fun e => e.2.2) = List.range 257 := by decide +kernel

theorem hc_bits : ∀ e ∈ hc, e.2.1 ∈ List.range 31 ∧ 0 < e.2.1 := by decide +kernel

theorem hc_apart : hc.Pairwise fun e f => Apart (word e.1 e.2.1) (word f.1 f.2.1) := by
  have hsorted : canonical.Pairwise fun e f => Apart (word e.1 e.2.1) (word f.1 f.2.1) :=
    (isChain_iff_pairwise.mp canonical_chain).imp apart_of_before
  have hmem {e : ℕ × ℕ × ℕ} (he : e ∈ hc) : e ∈ canonical :=
    mem_flatMap.mpr ⟨e.2.1, (hc_bits e he).1, mem_filter.mpr ⟨he, by simp⟩⟩
  have hnodup : hc.Nodup := List.Nodup.of_map (fun e => e.2.2) (by
    rw [hc_syms]
    exact nodup_range)
  refine hnodup.pairwise_of_forall_ne fun e he f hf hne => ?_
  have hsymm : Std.Symm fun e f : ℕ × ℕ × ℕ => Apart (word e.1 e.2.1) (word f.1 f.2.1) :=
    ⟨fun _ _ h => ⟨h.2, h.1⟩⟩
  exact hsorted.forall (hmem he) (hmem hf) hne

theorem tree_sound : tree.Sound book.reverse book.reverse := by
  have hne : ∀ e ∈ book, e.1 ≠ [] := by
    intro e he
    obtain ⟨⟨code, bits, sym⟩, hf, rfl⟩ := mem_map.mp he
    have hpos : 0 < bits := (hc_bits _ (mem_of_mem_filter hf)).2
    intro hnil
    have hlen : bits = 0 := by simpa using congrArg length hnil
    omega
  have hapart : book.Pairwise fun e f => ¬ e.1 <+: f.1 ∧ ¬ f.1 <+: e.1 :=
    pairwise_map.mpr (hc_apart.filter _)
  obtain ⟨t, hbuild, ht⟩ := build_sound hne hapart
  rwa [tree, hbuild]

def code (sym : UInt8) : List Bool :=
  match hc[sym.toNat]? with
  | some (code, bits, _) => word code bits
  | none => []

theorem hc_sym {i : ℕ} {e : ℕ × ℕ × ℕ} (h : hc[i]? = some e) : i < 257 ∧ e.2.2 = i := by
  have hsym := congrArg (fun l => l[i]?) hc_syms
  simp only [getElem?_map, h, Option.map_some] at hsym
  obtain ⟨hlt, hi⟩ := List.getElem?_eq_some_iff.mp hsym.symm
  rw [length_range] at hlt
  rw [getElem_range] at hi
  exact ⟨hlt, hi.symm⟩

theorem mem_book {w : List Bool} {sym : UInt8} : (w, sym) ∈ book ↔ code sym = w := by
  constructor
  · intro h
    obtain ⟨⟨c, n, i⟩, he, heq⟩ := mem_map.mp h
    obtain ⟨hmem, hne⟩ := mem_filter.mp he
    obtain ⟨j, hj⟩ := mem_iff_getElem?.mp hmem
    obtain ⟨hlt, rfl⟩ := hc_sym hj
    cases heq
    have hsym : i < 256 := Nat.lt_of_le_of_ne (Nat.lt_succ_iff.mp hlt) (by simpa using hne)
    rw [code, UInt8.toNat_ofNat_of_lt' hsym, hj]
  · rintro rfl
    have hlen : sym.toNat < hc.length := by
      have := sym.toNat_lt
      have : hc.length = 257 := by simpa using congrArg length hc_syms
      omega
    obtain ⟨e, he⟩ : ∃ e, hc[sym.toNat]? = some e := ⟨_, getElem?_eq_getElem hlen⟩
    have hsym := (hc_sym he).2
    have hne : sym.toNat ≠ 256 := sym.toNat_lt.ne
    refine mem_map.mpr ⟨e, mem_filter.mpr ⟨mem_of_getElem? he, ?_⟩, ?_⟩
    · simpa [hsym] using hne
    · simp only [code, he, hsym, UInt8.ofNat_toNat]

theorem code_leads (sym : UInt8) : tree.Leads (code sym) sym :=
  tree_sound.word (code sym, sym) (mem_reverse.mpr (mem_book.mpr rfl))

/-- The place in a code word, and the output. -/
structure Walk where
  node : ℕ := 0
  bitsSinceRoot : ℕ := 0
  lastWasOne : Bool := true
  out : Bytes := []

/-- One bit; the caller's buffer has room for `cap`. -/
def Walk.step (t : CodeTree.Tree UInt8) (cap : ℕ) (s : Walk) (bit : Bool) :
    Except HuffmanError Walk :=
  let s := if s.node = 0 then { s with lastWasOne := true, bitsSinceRoot := 0 } else s
  let s := { s with bitsSinceRoot := s.bitsSinceRoot + 1, lastWasOne := bit && s.lastWasOne }
  match t.child s.node bit with
  | .leaf sym =>
    if cap ≤ s.out.length then .error .badPadding
    else .ok { node := 0, bitsSinceRoot := 0, lastWasOne := true, out := s.out ++ [sym] }
  | .inner next => .ok { s with node := next }
  | .none => .error .badPadding

def bits (input : Bytes) : List Bool := input.flatMap fun byte => word byte.toNat 8

def decodeIntoSlice (input : Bytes) (cap : ℕ) : Except HuffmanError Bytes := do
  let s ← (bits input).foldlM (Walk.step tree cap) {}
  if s.node = 0 then .ok s.out
  else if 7 < s.bitsSinceRoot then .error .trailingTooLong
  else if !s.lastWasOne then .error .badPadding
  else .ok s.out

section

variable {t : CodeTree.Tree UInt8} {s : Walk}

theorem step_inner {bit : Bool} {next : ℕ} (cap : ℕ)
    (h : t.child s.node bit = .inner next) :
    ∃ s', s.step t cap bit = .ok s' ∧ s'.node = next ∧ s'.out = s.out := by
  rw [Walk.step]
  by_cases hroot : s.node = 0
  · rw [hroot] at h
    simp [hroot, h]
  · simp [hroot, h]

theorem step_leaf {bit : Bool} {sym : UInt8} (cap : ℕ)
    (h : t.child s.node bit = .leaf sym) :
    s.step t cap bit =
      if s.out.length < cap then .ok { out := s.out ++ [sym] } else .error .badPadding := by
  rw [Walk.step]
  by_cases hroot : s.node = 0
  · rw [hroot] at h
    by_cases hcap : s.out.length < cap <;> simp [hroot, h, hcap, Nat.not_le.mpr, Nat.not_lt.mp]
  · by_cases hcap : s.out.length < cap <;> simp [hroot, h, hcap, Nat.not_le.mpr, Nat.not_lt.mp]

theorem foldlM_append_of_ok {α β ε : Type*} {f : β → α → Except ε β} {p q : List α} {s s' : β}
    (h : p.foldlM f s = .ok s') : (p ++ q).foldlM f s = q.foldlM f s' := by
  rw [foldlM_append, h]
  rfl

theorem foldlM_append_of_error {α β ε : Type*} {f : β → α → Except ε β} {p q : List α} {s : β}
    {e : ε} (h : p.foldlM f s = .error e) : (p ++ q).foldlM f s = .error e := by
  rw [foldlM_append, h]
  rfl

theorem foldlM_go {p : List Bool} {n : ℕ} (cap : ℕ) (h : t.go s.node p = some n) :
    ∃ s', p.foldlM (Walk.step t cap) s = .ok s' ∧ s'.node = n ∧ s'.out = s.out := by
  induction p generalizing s with
  | nil => exact ⟨s, rfl, Option.some.inj h, rfl⟩
  | cons bit p ih =>
    rw [go] at h
    cases hchild : t.child s.node bit with
    | none => rw [hchild] at h; cases h
    | leaf sym => rw [hchild] at h; cases h
    | inner next =>
      rw [hchild] at h
      obtain ⟨s1, hstep, hnode, hout⟩ := step_inner cap hchild
      obtain ⟨s', hrun, hnode', hout'⟩ := ih (s := s1) (by rw [hnode]; exact h)
      refine ⟨s', ?_, hnode', hout'.trans hout⟩
      rw [foldlM_cons, hstep]
      exact hrun

theorem foldlM_leads {w : List Bool} {sym : UInt8} (h : t.Leads w sym) (cap : ℕ)
    (hs : s.node = 0) :
    w.foldlM (Walk.step t cap) s =
      if s.out.length < cap then .ok { out := s.out ++ [sym] } else .error .badPadding := by
  obtain ⟨p, bit, n, rfl, hgo, hleaf⟩ := h
  obtain ⟨s', hrun, rfl, hout⟩ := foldlM_go cap (s := s) (by rw [hs]; exact hgo)
  have hlast : [bit].foldlM (Walk.step t cap) s' = s'.step t cap bit := by
    rw [foldlM_cons]
    simp only [foldlM_nil, bind_pure]
  rw [foldlM_append_of_ok hrun, hlast, step_leaf cap hleaf, hout]

end

theorem foldlM_codes {str out : Bytes} {cap : ℕ} (hcap : out.length + str.length ≤ cap) :
    (str.flatMap code).foldlM (Walk.step tree cap) { out := out } =
      .ok { out := out ++ str } := by
  induction str generalizing out with
  | nil => rw [append_nil]; rfl
  | cons sym str ih =>
    rw [length_cons] at hcap
    have hsym := foldlM_leads (s := { out := out }) (code_leads sym) cap rfl
    rw [if_pos (show out.length < cap by omega)] at hsym
    rw [flatMap_cons, foldlM_append_of_ok hsym, ih (by simp; omega), append_assoc,
      singleton_append]

theorem go_ones {k : ℕ} (hk : k < 8) : ∃ n, tree.go 0 (List.replicate k true) = some n := by
  obtain ⟨p, bit, n, hword, hgo, -⟩ := code_leads 10
  have hcode : code 10 = (replicate 28 true ++ [false]) ++ [false] := by decide +kernel
  obtain ⟨rfl, -⟩ := append_inj' (hcode.symm.trans hword) rfl
  have hsplit : replicate 28 true ++ [false] =
      replicate k true ++ (replicate (28 - k) true ++ [false]) := by
    rw [← append_assoc, replicate_append_replicate, show k + (28 - k) = 28 by omega]
  rw [hsplit, go_append, Option.bind_eq_some_iff] at hgo
  exact ⟨_, hgo.choose_spec.1⟩

/-- Its words, and less than a byte of ones. -/
def Encodes (str input : Bytes) : Prop :=
  ∃ k < 8, bits input = str.flatMap code ++ List.replicate k true

variable {t : CodeTree.Tree UInt8} {cap : ℕ} {s : Walk}

/-- It has read what it has written, then a way down. -/
structure Walk.Follows (t : CodeTree.Tree UInt8) (cap : ℕ) (s : Walk) (read : List Bool) :
    Prop where
  room : s.out.length ≤ cap
  path : ∃ q, read = s.out.flatMap code ++ q ∧ t.go 0 q = some s.node ∧
    s.bitsSinceRoot = q.length ∧ (s.lastWasOne = true ↔ ∀ bit ∈ q, bit = true)

theorem Walk.Follows.step {s' : Walk} {read : List Bool} {bit : Bool}
    (ht : t.Sound book.reverse book.reverse) (h : s.Follows t cap read)
    (hs : s.step t cap bit = .ok s') : s'.Follows t cap (read ++ [bit]) := by
  obtain ⟨hroom, q, rfl, hgo, hbits, hones⟩ := h
  obtain ⟨s0, hs0, hnode, hout, hbits0, hones0⟩ : ∃ s0 : Walk,
      (if s.node = 0 then { s with lastWasOne := true, bitsSinceRoot := 0 } else s) = s0 ∧
      s0.node = s.node ∧ s0.out = s.out ∧ s0.bitsSinceRoot = q.length ∧
      (s0.lastWasOne = true ↔ ∀ bit ∈ q, bit = true) := by
    split_ifs with hroot
    · rw [hroot] at hgo
      rw [ht.go_root hgo]
      exact ⟨_, rfl, rfl, rfl, rfl, by simp⟩
    · exact ⟨s, rfl, rfl, rfl, hbits, hones⟩
  rw [Walk.step, hs0] at hs
  dsimp only at hs
  rw [hnode] at hs
  cases hchild : t.child s.node bit with
  | none => rw [hchild] at hs; cases hs
  | leaf sym =>
    rw [hchild] at hs
    dsimp only at hs
    split_ifs at hs with hcap
    cases hs
    rw [hout] at hcap ⊢
    have hword : code sym = q ++ [bit] :=
      mem_book.mp (mem_reverse.mp (ht.leaf hgo hchild))
    refine ⟨by simpa using Nat.not_le.mp hcap, [], ?_, rfl, rfl, by simp⟩
    simp [hword]
  | inner next =>
    rw [hchild] at hs
    cases hs
    rw [← hout]
    refine ⟨hout ▸ hroom, q ++ [bit], append_assoc .., ?_, by simp [hbits0], ?_⟩
    · exact go_concat_iff.mpr ⟨_, hgo, hchild⟩
    · rw [forall_mem_append, forall_mem_singleton, Bool.and_eq_true, hones0, and_comm]

theorem foldlM_follows {read : List Bool} (ht : t.Sound book.reverse book.reverse)
    (h : read.foldlM (Walk.step t cap) {} = .ok s) : s.Follows t cap read := by
  induction read using reverseRecOn generalizing s with
  | nil =>
    cases h
    exact ⟨Nat.zero_le _, [], rfl, rfl, rfl, by simp⟩
  | append_singleton read bit ih =>
    cases hs : read.foldlM (Walk.step t cap) {} with
    | error e => rw [foldlM_append_of_error hs] at h; cases h
    | ok s1 =>
      rw [foldlM_append_of_ok hs, foldlM_cons] at h
      simp only [foldlM_nil, bind_pure] at h
      exact (ih hs).step ht h

theorem encodes_of_ok {str input : Bytes} (h : decodeIntoSlice input cap = .ok str) :
    str.length ≤ cap ∧ Encodes str input := by
  rw [decodeIntoSlice] at h
  cases hs : (bits input).foldlM (Walk.step tree cap) {} with
  | error e => rw [hs] at h; cases h
  | ok s =>
    rw [hs] at h
    simp only [bind, Except.bind] at h
    obtain ⟨hroom, q, hq, hgo, hbits, hones⟩ := foldlM_follows tree_sound hs
    split_ifs at h with hnode hshort hlast
    · cases h
      rw [hnode] at hgo
      rw [tree_sound.go_root hgo] at hq
      exact ⟨hroom, 0, by decide, hq⟩
    · cases h
      refine ⟨hroom, q.length, by omega, ?_⟩
      rw [hq, eq_replicate_of_mem (hones.mp (by simpa using hlast)), length_replicate]

theorem Encodes.decode {str input : Bytes} (h : Encodes str input) (hcap : str.length ≤ cap) :
    decodeIntoSlice input cap = .ok str := by
  obtain ⟨k, hk, hbits⟩ := h
  obtain ⟨n, hgo⟩ := go_ones hk
  obtain ⟨s, hrun, -, hout⟩ := foldlM_go (s := { out := str }) cap hgo
  have hall : (bits input).foldlM (Walk.step tree cap) {} = .ok s := by
    have hcodes : (str.flatMap code).foldlM (Walk.step tree cap) {} = .ok { out := str } :=
      foldlM_codes (by simpa using hcap)
    rw [hbits, foldlM_append_of_ok hcodes, hrun]
  obtain ⟨-, q, hq, -, hlen, hones⟩ := foldlM_follows tree_sound hall
  rw [hbits, hout] at hq
  rw [← append_cancel_left hq] at hlen hones
  have hshort : ¬ 7 < s.bitsSinceRoot := by
    rw [hlen, length_replicate]
    omega
  have hlast : s.lastWasOne = true := hones.mpr fun _ hb => eq_of_mem_replicate hb
  rw [decodeIntoSlice, hall]
  simp [bind, Except.bind, hout, hshort, hlast]

theorem Encodes.unique {str str' input : Bytes} (h : Encodes str input)
    (h' : Encodes str' input) : str = str' :=
  Except.ok.inj ((h.decode (le_max_left ..)).symm.trans
    (h'.decode (le_max_right str.length str'.length)))

theorem value_injective {w v : List Bool} (hlen : w.length = v.length) (h : value w = value v) :
    w = v := by
  induction w generalizing v with
  | nil => exact (length_eq_zero_iff.mp hlen.symm).symm
  | cons bit w ih =>
    cases v with
    | nil => cases hlen
    | cons bit' v =>
      have hlen' : w.length = v.length := Nat.succ.inj hlen
      have hw := value_lt w
      have hv := value_lt v
      rw [value, value, hlen'] at h
      rw [hlen'] at hw
      have hbit : bit = bit' := by
        cases bit <;> cases bit' <;> simp at h ⊢ <;> omega
      subst hbit
      rw [ih hlen' (Nat.add_left_cancel h)]

theorem word_injective {a b : UInt8} (h : word a.toNat 8 = word b.toNat 8) : a = b := by
  have hv := congrArg value h
  rw [value_word, value_word, Nat.mod_eq_of_lt a.toNat_lt, Nat.mod_eq_of_lt b.toNat_lt] at hv
  exact UInt8.toNat_inj.mp hv

@[simp] theorem length_bits (input : Bytes) : (bits input).length = 8 * input.length := by
  simp [bits, length_flatMap, mul_comm]

theorem bits_injective {a b : Bytes} (h : bits a = bits b) : a = b := by
  induction a generalizing b with
  | nil =>
    have hlen := congrArg length h
    simpa [eq_comm] using hlen
  | cons x a ih =>
    cases b with
    | nil =>
      have hlen := congrArg length h
      simp at hlen
    | cons y b =>
      rw [bits, bits, flatMap_cons, flatMap_cons] at h
      obtain ⟨hx, hrest⟩ := append_inj h (by simp)
      rw [word_injective hx, ih hrest]

theorem exists_bits {n : ℕ} {w : List Bool} (h : w.length = 8 * n) : ∃ input, bits input = w := by
  induction n generalizing w with
  | zero => exact ⟨[], (length_eq_zero_iff.mp h).symm⟩
  | succ n ih =>
    obtain ⟨input, hin⟩ := ih (w := w.drop 8) (by rw [length_drop]; omega)
    have hlen : (w.take 8).length = 8 := by rw [length_take]; omega
    have hlt : value (w.take 8) < 256 := by simpa [hlen] using value_lt (w.take 8)
    have hbyte : word (UInt8.ofNat (value (w.take 8))).toNat 8 = w.take 8 := by
      apply value_injective (by rw [length_word, hlen])
      rw [value_word, UInt8.toNat_ofNat_of_lt' hlt]
      exact Nat.mod_eq_of_lt hlt
    refine ⟨.ofNat (value (w.take 8)) :: input, ?_⟩
    rw [bits, flatMap_cons, hbyte, ← bits, hin, take_append_drop]

theorem existsUnique_encodes (str : Bytes) : ∃! input, Encodes str input := by
  obtain ⟨n, k, hk, hn⟩ : ∃ n k, k < 8 ∧ (str.flatMap code).length + k = 8 * n :=
    ⟨((str.flatMap code).length + 7) / 8, 7 - ((str.flatMap code).length + 7) % 8, by omega, by omega⟩
  obtain ⟨input, hin⟩ := exists_bits (n := n) (w := str.flatMap code ++ replicate k true)
    (by rw [length_append, length_replicate, hn])
  refine ⟨input, ⟨k, hk, hin⟩, ?_⟩
  rintro other ⟨k', hk', ho⟩
  have hlen := congrArg length hin
  have hlen' := congrArg length ho
  simp only [length_bits, length_append, length_replicate] at hlen hlen'
  have hkk : k = k' := by omega
  rw [← hkk] at ho
  exact bits_injective (ho.trans hin.symm)

/-- **The decoder accepts exactly the encodings**, and a slice that is too short makes it fail. -/
theorem decodeIntoSlice_exact :
    (∀ input cap str, decodeIntoSlice input cap = .ok str ↔
      str.length ≤ cap ∧ Encodes str input) ∧
    (∀ input str str', Encodes str input → Encodes str' input → str = str') ∧
    (∀ str, ∃! input, Encodes str input) ∧
    ∀ input cap str, Encodes str input → cap < str.length →
      (∃ e, decodeIntoSlice input cap = .error e) ∧
      ∀ read s, read <+: bits input → read.foldlM (Walk.step tree cap) {} = .ok s →
        s.out.length ≤ cap := by
  refine ⟨fun input cap str => ⟨encodes_of_ok, fun h => h.2.decode h.1⟩,
    fun input str str' => Encodes.unique, existsUnique_encodes, fun input cap str h hcap => ?_⟩
  constructor
  · cases hdec : decodeIntoSlice input cap with
    | error e => exact ⟨e, rfl⟩
    | ok str' =>
      obtain ⟨hroom, henc⟩ := encodes_of_ok hdec
      rw [henc.unique h] at hroom
      exact absurd hroom (Nat.not_le.mpr hcap)
  · exact fun read s _ hs => (foldlM_follows tree_sound hs).room

end Waitless.FieldHuffman
