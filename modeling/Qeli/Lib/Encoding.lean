import Qeli.Lib.Text
import Qeli.Lib.Pieces

/-!
# Text as bytes, numbers as text

`asBytes` is the UTF-8 form of a text and `fromUtf8` reads it back; `natText` is the decimal form
of a number, which `parseUnsigned` and `parseSigned` read with the sign and range checks of Rust's
integer types; `hexText` spells bytes and `ofHex` reads them back.
-/

namespace Qeli.Lib

namespace Str

/-! ## Bytes -/

def asBytes (text : Str) : List UInt8 := text.flatMap String.utf8EncodeChar

def fromUtf8 (bytes : List UInt8) : Option Str := bytes.toByteArray.utf8Decode?.map Array.toList

theorem fromUtf8_asBytes (text : Str) : fromUtf8 (asBytes text) = some text := by
  have hencode : (asBytes text).toByteArray = text.utf8Encode := rfl
  rw [fromUtf8, hencode, List.utf8Decode?_utf8Encode, Option.map_some]

@[simp] theorem asBytes_append (a b : Str) : asBytes (a ++ b) = asBytes a ++ asBytes b :=
  List.flatMap_append

theorem asBytes_cons (c : Char) (text : Str) :
    asBytes (c :: text) = String.utf8EncodeChar c ++ asBytes text := List.flatMap_cons

theorem asBytes_injective {a b : Str} (h : asBytes a = asBytes b) : a = b :=
  Option.some.inj ((fromUtf8_asBytes a).symm.trans ((congrArg fromUtf8 h).trans (fromUtf8_asBytes b)))

theorem fromUtf8_eq_some {bytes : List UInt8} {text : Str} :
    fromUtf8 bytes = some text ↔ asBytes text = bytes := by
  constructor
  · intro h
    have hvalid : bytes.toByteArray.IsValidUTF8 := by
      rw [← ByteArray.isSome_utf8Decode?_iff]
      exact Option.isSome_map.symm.trans (congrArg Option.isSome h)
    obtain ⟨chars, hchars⟩ := hvalid
    have hbytes : bytes = asBytes chars := List.toByteArray_inj.mp hchars
    rw [hbytes, fromUtf8_asBytes] at h
    rw [hbytes, Option.some.inj h]
  · rintro rfl
    exact fromUtf8_asBytes text

/-- A character below 128 is one byte, the bytes of the others are at least 128, and none of them
is one of the two that would lead a character below 128 as a pair. -/
theorem utf8EncodeChar_cases (c : Char) :
    (c.toNat < 128 ∧ String.utf8EncodeChar c = [UInt8.ofNat c.toNat]) ∨
      (128 ≤ c.toNat ∧ ∀ b ∈ String.utf8EncodeChar c,
        128 ≤ b.toNat ∧ b.toNat ≠ 192 ∧ b.toNat ≠ 193) := by
  have hv : c.toNat = c.val.toNat := rfl
  unfold String.utf8EncodeChar
  dsimp only
  split
  · exact .inl ⟨by omega, rfl⟩
  right
  refine ⟨by omega, ?_⟩
  split
  · simp only [List.forall_mem_cons, UInt8.toNat_ofNat']
    exact ⟨by omega, by omega, List.forall_mem_nil _⟩
  split
  · simp only [List.forall_mem_cons, UInt8.toNat_ofNat']
    exact ⟨by omega, by omega, by omega, List.forall_mem_nil _⟩
  · simp only [List.forall_mem_cons, UInt8.toNat_ofNat']
    exact ⟨by omega, by omega, by omega, by omega, List.forall_mem_nil _⟩

/-- The bytes C0 and C1 stand in no text. -/
theorem ne_of_mem_asBytes {text : Str} {b : UInt8} (h : b ∈ asBytes text) :
    b.toNat ≠ 192 ∧ b.toNat ≠ 193 := by
  obtain ⟨c, -, hb⟩ := List.mem_flatMap.mp h
  obtain ⟨hc, henc⟩ | ⟨-, henc⟩ := utf8EncodeChar_cases c
  · rw [henc, List.mem_singleton] at hb
    rw [hb, UInt8.toNat_ofNat']
    omega
  · exact (henc b hb).2

section Separator

variable {d : Char}

theorem mem_asBytes_iff (hd : d.toNat < 128) {text : Str} :
    UInt8.ofNat d.toNat ∈ asBytes text ↔ d ∈ text := by
  have hbyte : (UInt8.ofNat d.toNat).toNat = d.toNat := by
    rw [UInt8.toNat_ofNat']
    omega
  induction text with
  | nil => exact iff_of_false List.not_mem_nil List.not_mem_nil
  | cons c text ih =>
    rw [asBytes_cons, List.mem_append, List.mem_cons]
    refine or_congr ?_ ih
    obtain ⟨hc, henc⟩ | ⟨hc, henc⟩ := utf8EncodeChar_cases c
    · rw [henc, List.mem_singleton, ← UInt8.toNat_inj, hbyte, UInt8.toNat_ofNat', ← Char.toNat_inj]
      omega
    · refine iff_of_false (fun hmem => ?_) (fun heq => ?_)
      · have := (henc _ hmem).1
        omega
      · rw [heq] at hd
        omega

theorem asBytes_intercalate (hd : d.toNat < 128) (pieces : List Str) :
    asBytes ([d].intercalate pieces) = [UInt8.ofNat d.toNat].intercalate (pieces.map asBytes) := by
  have hsep : asBytes [d] = [UInt8.ofNat d.toNat] := by
    obtain ⟨-, henc⟩ | ⟨hc, -⟩ := utf8EncodeChar_cases d
    · rw [asBytes_cons, henc]
      rfl
    · omega
  induction pieces with
  | nil => rfl
  | cons piece pieces ih =>
    obtain _ | ⟨next, pieces⟩ := pieces
    · simp
    · rw [List.intercalate_cons_cons, asBytes_append, asBytes_append, ih, hsep]
      exact List.intercalate_cons_cons.symm

/-- Cutting a text at an ASCII character cuts its bytes at the byte. -/
theorem splitOn_asBytes (hd : d.toNat < 128) (text : Str) :
    (asBytes text).splitOn (UInt8.ofNat d.toNat) = (text.splitOn d).map asBytes := by
  have hjoin : [d].intercalate (text.splitOn d) = text := List.intercalate_splitOn d
  have hbytes : asBytes text = [UInt8.ofNat d.toNat].intercalate ((text.splitOn d).map asBytes) := by
    rw [← asBytes_intercalate hd, hjoin]
  rw [hbytes]
  refine List.splitOn_intercalate _ (fun piece hpiece => ?_) (by simp)
  obtain ⟨p, hp, rfl⟩ := List.mem_map.mp hpiece
  rw [mem_asBytes_iff hd]
  exact not_mem_of_mem_splitOn hp

end Separator

theorem forall_byte {P : UInt8 → Prop} (h : ∀ n < 256, P (UInt8.ofNat n)) (b : UInt8) : P b := by
  simpa using h b.toNat b.toNat_lt

/-- `u8::to_ascii_lowercase`. -/
def lowerByte (b : UInt8) : UInt8 := if 0x41 ≤ b ∧ b ≤ 0x5A then b + 0x20 else b

theorem asBytes_asciiLower (text : Str) :
    asBytes (asciiLower text) = (asBytes text).map lowerByte := by
  have hascii : ∀ n < 128, String.utf8EncodeChar (Char.ofNat n).toLower =
      [lowerByte (UInt8.ofNat n)] := by decide +kernel
  have hhigh : ∀ b : UInt8, 128 ≤ b.toNat → lowerByte b = b := forall_byte (by decide +kernel)
  induction text with
  | nil => rfl
  | cons c text ih =>
    have hc : String.utf8EncodeChar c.toLower = (String.utf8EncodeChar c).map lowerByte := by
      obtain ⟨hlow, henc⟩ | ⟨hbig, henc⟩ := utf8EncodeChar_cases c
      · rw [henc, List.map_singleton, ← hascii _ hlow, Char.ofNat_toNat]
      · have hsame : c.toLower = c := by
          refine dif_neg ?_
          rintro ⟨-, hz⟩
          have : c.toNat ≤ 90 := UInt32.le_iff_toNat_le.mp hz
          omega
        rw [hsame, List.map_congr_left fun b hb => hhigh b (henc b hb).1, List.map_id']
    rw [asBytes_cons, List.map_append, ← ih, ← hc]
    exact asBytes_cons _ _

/-! ## Numbers -/

def natText (n : Nat) : Str := Nat.toDigits 10 n

/-- One digit or more. -/
def parseDigits (digits : Str) : Option Nat :=
  if digits.isEmpty || !digits.all Char.isDigit then none else some (Nat.ofDigitChars 10 digits 0)

/-- A number of an unsigned type whose largest value is `max`. -/
def parseUnsigned (max : Nat) (text : Str) : Option Nat :=
  (parseDigits ((stripFront ['+'] text).getD text)).filter (· ≤ max)

/-- A number of a signed type with the given least and largest values. -/
def parseSigned (min max : Int) (text : Str) : Option Int :=
  match stripFront ['-'] text with
  | some digits => ((parseDigits digits).map fun n => -(n : Int)).filter (min ≤ ·)
  | none => ((parseDigits ((stripFront ['+'] text).getD text)).map (↑·)).filter (· ≤ max)

theorem isDigit_of_mem_natText {n : Nat} {c : Char} (h : c ∈ natText n) : c.isDigit = true :=
  Nat.isDigit_of_mem_toDigits (by decide) (by decide) h

theorem notMem_natText {c : Char} (hc : c.isDigit = false) (n : Nat) : c ∉ natText n := fun h =>
  absurd (isDigit_of_mem_natText h) (by rw [hc]; decide)

theorem parseDigits_natText (n : Nat) : parseDigits (natText n) = some n := by
  have hall : (natText n).all Char.isDigit = true :=
    List.all_eq_true.mpr fun c hc => isDigit_of_mem_natText hc
  have hne : (natText n).isEmpty = false := List.isEmpty_eq_false_iff.mpr Nat.toDigits_ne_nil
  rw [parseDigits, hall, hne]
  exact congrArg some (Nat.ofDigitChars_toDigits (by decide) (by decide))

theorem stripFront_natText {c : Char} (hc : c.isDigit = false) (n : Nat) :
    stripFront [c] (natText n) = none := by
  rw [stripFront, if_neg]
  intro hfront
  obtain ⟨rest, hrest⟩ := List.isPrefixOf_iff_prefix.mp hfront
  exact notMem_natText hc n (hrest ▸ List.mem_append_left rest List.mem_cons_self)

theorem parseUnsigned_natText {max n : Nat} (h : n ≤ max) :
    parseUnsigned max (natText n) = some n := by
  rw [parseUnsigned, stripFront_natText (by decide), Option.getD_none, parseDigits_natText]
  simp [h]

theorem parseSigned_natText {min max : Int} {n : Nat} (h : (n : Int) ≤ max) :
    parseSigned min max (natText n) = some (n : Int) := by
  rw [parseSigned, stripFront_natText (by decide), stripFront_natText (by decide), Option.getD_none,
    parseDigits_natText]
  simp [h]

/-! ## Hexadecimal -/

def hexByte (b : UInt8) : Str := [(b.toNat / 16).digitChar, (b.toNat % 16).digitChar]

/-- Two lower-case digits a byte. -/
def hexText (bytes : List UInt8) : Str := bytes.flatMap hexByte

def hexValue (c : Char) : Nat := "0123456789abcdef".toList.idxOf c

def ofHex : Str → List UInt8
  | high :: low :: rest => UInt8.ofNat (16 * hexValue high + hexValue low) :: ofHex rest
  | _ => []

theorem ofHex_hexText (bytes : List UInt8) : ofHex (hexText bytes) = bytes := by
  have hbyte : ∀ b : UInt8, UInt8.ofNat (16 * hexValue (b.toNat / 16).digitChar +
      hexValue (b.toNat % 16).digitChar) = b := forall_byte (by decide +kernel)
  induction bytes with
  | nil => rfl
  | cons b bytes ih => exact congrArg₂ List.cons (hbyte b) ih

theorem notMem_hexText {c : Char} (hc : c ∉ "0123456789abcdef".toList) (bytes : List UInt8) :
    c ∉ hexText bytes := by
  have hdigit : ∀ b : UInt8, (hexByte b).all ("0123456789abcdef".toList.contains ·) = true :=
    forall_byte (by decide +kernel)
  intro h
  obtain ⟨b, -, hb⟩ := List.mem_flatMap.mp h
  exact hc (List.contains_iff_mem.mp (List.all_eq_true.mp (hdigit b) c hb))

end Str

end Qeli.Lib
