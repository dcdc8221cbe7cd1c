import Qeli.Lib.Bytes

/-!
# Integers of one, two, four or eight bytes

The two top bits of the first byte are the binary logarithm of the length, the others and the
bytes that follow are the value, big-endian. A value that fits in one length fits in every longer
one, so it has up to four spellings: `Spells` relates each of them to it. Among the spellings of
a value no two have one length (`Spells.unique`).
-/

namespace Qeli.Lib

/-- What a first byte and the bytes after it are worth. -/
def varintValue (first : UInt8) (rest : List UInt8) : Nat :=
  first.toNat % 64 * 256 ^ rest.length + ofBE rest

/-- The bytes are a spelling of `v`, whole. -/
inductive Spells : List UInt8 → Nat → Prop
  | mk (first : UInt8) (rest : List UInt8) (hlen : rest.length + 1 = 2 ^ (first.toNat / 64)) :
    Spells (first :: rest) (varintValue first rest)

theorem Spells.of {first : UInt8} {rest : List UInt8} {v : Nat}
    (hlen : rest.length + 1 = 2 ^ (first.toNat / 64)) (hv : varintValue first rest = v) :
    Spells (first :: rest) v :=
  hv ▸ .mk first rest hlen

theorem Spells.lt {bytes : List UInt8} {v : Nat} (h : Spells bytes v) :
    v < 64 * 256 ^ (bytes.length - 1) := by
  obtain ⟨first, rest, -⟩ := h
  have hrest := ofBE_lt rest
  have hfirst : first.toNat % 64 + 1 ≤ 64 := Nat.mod_lt _ (by decide)
  calc varintValue first rest < (first.toNat % 64 + 1) * 256 ^ rest.length := by
        rw [varintValue, Nat.add_mul, Nat.one_mul]
        omega
    _ ≤ 64 * 256 ^ rest.length := Nat.mul_le_mul_right _ hfirst

theorem Spells.length {bytes : List UInt8} {v : Nat} (h : Spells bytes v) :
    bytes.length = 1 ∨ bytes.length = 2 ∨ bytes.length = 4 ∨ bytes.length = 8 := by
  obtain ⟨first, rest, hlen⟩ := h
  have hlt := first.toNat_lt
  obtain h | h | h | h : first.toNat / 64 = 0 ∨ first.toNat / 64 = 1 ∨ first.toNat / 64 = 2 ∨
      first.toNat / 64 = 3 := by omega
  all_goals
    rw [h] at hlen
    simp only [List.length_cons]
    omega

theorem Spells.unique {a b : List UInt8} {v : Nat} (ha : Spells a v) (hb : Spells b v)
    (hlen : a.length = b.length) : a = b := by
  obtain ⟨first, rest, hfirst⟩ := ha
  generalize hv : varintValue first rest = v at hb
  obtain ⟨first', rest', hfirst'⟩ := hb
  have hrest : rest.length = rest'.length := Nat.succ.inj hlen
  -- the top bits are the length, the value gives the low ones and the rest
  have htop : first.toNat / 64 = first'.toNat / 64 :=
    Nat.pow_right_injective (le_refl 2) (by simp only [← hfirst, ← hfirst', hrest])
  rw [varintValue, varintValue, ← hrest] at hv
  obtain ⟨hlow, hbytes⟩ := mul_add_inj (ofBE_lt rest) (hrest ▸ ofBE_lt rest') hv
  have hbyte : first = first' := UInt8.toNat_inj.mp (by omega)
  rw [hbyte, ofBE_inj hrest hbytes]

end Qeli.Lib
