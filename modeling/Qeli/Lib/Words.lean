import Mathlib.Data.Vector.Basic

/-!
# Bit arrays in 64-bit words

`Words n` is a bit array of `64 * n` bits, least significant bit first.
`overwriteDown f k bits` is the loop `for i in (0..k).rev() { bits[i] = f(bits, i) }`;
if `f` reads no word above the one it writes, every word is written from the old
array (`word_overwriteDown`). `testBit_of_shifted` says which bits a multi-word
left shift moves where.
-/

namespace Qeli.Lib

abbrev Words (n : Nat) := Vector (BitVec 64) n

namespace Words

variable {n : Nat}

def word (bits : Words n) (i : Nat) : BitVec 64 := bits[i]?.getD 0

def testBit (bits : Words n) (d : Nat) : Bool := (bits.word (d / 64)).getLsbD (d % 64)

theorem word_setIfInBounds (bits : Words n) {i : Nat} (hi : i < n) (v : BitVec 64) (j : Nat) :
    word (bits.setIfInBounds i v) j = if j = i then v else bits.word j := by
  unfold word
  rw [Vector.getElem?_setIfInBounds]
  by_cases hj : i = j
  · subst hj
    simp [hi]
  · simp [hj, Ne.symm hj]

theorem testBit_replicate (d : Nat) : testBit (.replicate n 0 : Words n) d = false := by
  unfold testBit word
  rw [Vector.getElem?_replicate]
  split <;> simp

theorem testBit_setBit (bits : Words n) {d : Nat} (hd : d < 64 * n) (e : Nat) :
    testBit (bits.setIfInBounds (d / 64) (bits.word (d / 64) ||| 1#64 <<< (d % 64))) e =
      (e == d || bits.testBit e) := by
  have hi : d / 64 < n := by omega
  have hone : (1#64 <<< (d % 64)).getLsbD (e % 64) = decide (e % 64 = d % 64) := by
    rw [BitVec.getLsbD_shiftLeft, BitVec.getLsbD_one]
    have h1 := Nat.mod_lt d (show 0 < 64 by omega)
    have h2 := Nat.mod_lt e (show 0 < 64 by omega)
    by_cases he : e % 64 = d % 64
    · simp [he, h1]
    · by_cases hlt : e % 64 < d % 64
      · simp [he, hlt]
      · have : e % 64 - d % 64 ≠ 0 := by omega
        simp [he, this]
  unfold testBit
  rw [word_setIfInBounds bits hi]
  by_cases hw : e / 64 = d / 64
  · rw [if_pos hw, BitVec.getLsbD_or, hone, hw, Bool.or_comm]
    congr 1
    rw [Bool.eq_iff_iff]
    simp only [decide_eq_true_eq, beq_iff_eq]
    omega
  · have hne : e ≠ d := by rintro rfl; exact hw rfl
    rw [if_neg hw]
    simp [hne]

/-! ## Descending loops -/

def overwriteDown (f : Words n → Nat → BitVec 64) : Nat → Words n → Words n
  | 0, bits => bits
  | i + 1, bits => overwriteDown f i (bits.setIfInBounds i (f bits i))

/-- **A descending loop that reads downwards** writes every word from the old ones. -/
theorem word_overwriteDown {f : Words n → Nat → BitVec 64}
    (hf : ∀ {bits bits' : Words n} {i : Nat}, (∀ j ≤ i, bits.word j = bits'.word j) →
      f bits i = f bits' i) :
    ∀ {k : Nat} (bits : Words n), k ≤ n → ∀ i,
      (overwriteDown f k bits).word i = if i < k then f bits i else bits.word i
  | 0, _, _, _ => rfl
  | k + 1, bits, hk, i => by
    have hset := word_setIfInBounds bits (show k < n by omega) (f bits k)
    rw [overwriteDown, word_overwriteDown hf _ (by omega)]
    by_cases hlt : i < k
    · -- the words below are still the old ones
      rw [if_pos hlt, if_pos (by omega)]
      refine hf fun j hj => ?_
      rw [hset, if_neg (by omega)]
    · rw [if_neg hlt, hset]
      by_cases he : i = k
      · rw [if_pos he, if_pos (by omega), he]
      · rw [if_neg he, if_neg (by omega)]

/-! ## Shifts -/

/-- A word of the array shifted up by `64 * words + off`. -/
def shiftedWord (bits : Words n) (words off i : Nat) : BitVec 64 :=
  (if words ≤ i then bits.word (i - words) <<< off else 0) |||
    (if words < i then bits.word (i - words - 1) >>> (64 - off) else 0)

/-- **A multi-word shift** moves every bit up by the distance. -/
theorem testBit_of_shifted {bits bits' : Words n} {words off : Nat} (hoff : off < 64)
    (h : ∀ i < n, bits'.word i = bits.shiftedWord words off i) {d : Nat} (hd : d < 64 * n) :
    bits'.testBit d = (decide (64 * words + off ≤ d) && bits.testBit (d - (64 * words + off))) := by
  have hi : d / 64 < n := by omega
  have hb : d % 64 < 64 := Nat.mod_lt _ (by omega)
  unfold testBit
  rw [h _ hi, shiftedWord, BitVec.getLsbD_or]
  by_cases hge : off ≤ d % 64
  · -- the bit comes from the lower part of its word
    have hhi : (if words < d / 64 then bits.word (d / 64 - words - 1) >>> (64 - off)
        else 0).getLsbD (d % 64) = false := by
      split
      · rw [BitVec.getLsbD_ushiftRight]
        exact BitVec.getLsbD_of_ge _ _ (by omega)
      · simp
    rw [hhi, Bool.or_false]
    by_cases hw : words ≤ d / 64
    · have h1 : (d - (64 * words + off)) / 64 = d / 64 - words := by omega
      have h2 : (d - (64 * words + off)) % 64 = d % 64 - off := by omega
      have h3 : 64 * words + off ≤ d := by omega
      rw [if_pos hw, BitVec.getLsbD_shiftLeft, h1, h2]
      simp [hb, h3, hge]
    · have h3 : ¬ 64 * words + off ≤ d := by omega
      rw [if_neg hw]
      simp [h3]
  · -- the bit comes from the upper part of the word below
    have hlo : (if words ≤ d / 64 then bits.word (d / 64 - words) <<< off
        else 0).getLsbD (d % 64) = false := by
      split
      · rw [BitVec.getLsbD_shiftLeft]
        simp [show d % 64 < off by omega]
      · simp
    rw [hlo, Bool.false_or]
    by_cases hw : words < d / 64
    · have h1 : (d - (64 * words + off)) / 64 = d / 64 - words - 1 := by omega
      have h2 : (d - (64 * words + off)) % 64 = 64 - off + d % 64 := by omega
      have h3 : 64 * words + off ≤ d := by omega
      rw [if_pos hw, BitVec.getLsbD_ushiftRight, h1, h2]
      simp [h3]
    · have h3 : ¬ 64 * words + off ≤ d := by omega
      rw [if_neg hw]
      simp [h3]

end Words

end Qeli.Lib
