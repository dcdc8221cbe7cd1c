import Mathlib.Data.Nat.Bitwise

/-!
# Blocks of addresses

`InBlock w start len x` says that the `w`-bit numbers `x` and `start` agree in their first
`len` bits. Two blocks either share no number or one holds the other, which the shorter
length decides, and a block is the union of its two halves.
-/

namespace Qeli.Lib

def InBlock (w start len x : Nat) : Prop := x / 2 ^ (w - len) = start / 2 ^ (w - len)

instance (w start len x : Nat) : Decidable (InBlock w start len x) :=
  inferInstanceAs (Decidable (_ = _))

variable {w start len x a b : Nat}

theorem InBlock.mono {len' : Nat} (hle : len ≤ len') (h : InBlock w start len' x) :
    InBlock w start len x := by
  obtain ⟨d, hd⟩ : ∃ d, w - len = w - len' + d := ⟨w - len - (w - len'), by omega⟩
  unfold InBlock at *
  rw [hd, Nat.pow_add, ← Nat.div_div_eq_div_mul, ← Nat.div_div_eq_div_mul, h]

theorem InBlock.symm (h : InBlock w a len b) : InBlock w b len a := Eq.symm h

theorem InBlock.trans (h : InBlock w a len b) (h' : InBlock w b len x) :
    InBlock w a len x := Eq.trans h' h

theorem inBlock_zero (hstart : start < 2 ^ w) (hx : x < 2 ^ w) : InBlock w start 0 x := by
  rw [InBlock, Nat.sub_zero, Nat.div_eq_of_lt hstart, Nat.div_eq_of_lt hx]

theorem InBlock.agree {len' : Nat} (h : InBlock w a len x) (h' : InBlock w b len' x) :
    InBlock w a (min len len') b :=
  (h.mono (Nat.min_le_left _ _)).trans (h'.mono (Nat.min_le_right _ _)).symm

/-! ## Halves -/

theorem or_half {k : Nat} (h : 2 ^ (k + 1) ∣ start) : start ||| 2 ^ k = start + 2 ^ k := by
  obtain ⟨q, rfl⟩ := h
  exact (Nat.two_pow_add_eq_or_of_lt (Nat.pow_lt_pow_right (by omega) (by omega)) q).symm

theorem inBlock_halves (hlen : len < w) (hstart : 2 ^ (w - len) ∣ start) :
    InBlock w start len x ↔
      InBlock w start (len + 1) x ∨ InBlock w (start ||| 2 ^ (w - (len + 1))) (len + 1) x := by
  obtain ⟨k, hk⟩ : ∃ k, w - len = k + 1 := ⟨w - len - 1, by omega⟩
  have hk' : w - (len + 1) = k := by omega
  rw [hk] at hstart
  rw [InBlock, InBlock, InBlock, hk, hk', or_half hstart]
  obtain ⟨q, rfl⟩ := hstart
  have hpos := Nat.two_pow_pos k
  have hleft : 2 ^ (k + 1) * q / 2 ^ k = 2 * q := by
    rw [Nat.pow_succ, Nat.mul_assoc, Nat.mul_div_cancel_left _ hpos]
  have hright : (2 ^ (k + 1) * q + 2 ^ k) / 2 ^ k = 2 * q + 1 := by
    rw [Nat.add_div_right _ hpos, hleft]
  have hwhole : x / 2 ^ (k + 1) = x / 2 ^ k / 2 := by
    rw [Nat.pow_succ, Nat.div_div_eq_div_mul]
  rw [Nat.mul_div_cancel_left _ (Nat.two_pow_pos _), hleft, hright, hwhole]
  omega

end Qeli.Lib
