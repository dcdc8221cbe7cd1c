import Mathlib.Data.List.DropRight

/-!
# Text

Strings as lists of characters, with the operations of Rust's `str` that line-oriented
formats use: `lines`, `trim`, `split_once`, `strip_suffix` and `replace`. The lemmas say what
these give back on text that was put together from parts (`lines_flatMap_writeln`,
`trim_surround`, `splitOnce_append`, `replace_escape`).
-/

namespace Qeli.Lib

abbrev Str := List Char

namespace Str

/-- General category Cc. -/
def isControl (c : Char) : Bool := c.toNat < 0x20 || (0x7f ≤ c.toNat && c.toNat < 0xa0)

/-- The property White_Space. -/
def isWhitespace (c : Char) : Bool :=
  (0x09 ≤ c.toNat && c.toNat ≤ 0x0d) || c.toNat == 0x20 || c.toNat == 0x85 || c.toNat == 0xa0 ||
    c.toNat == 0x1680 || (0x2000 ≤ c.toNat && c.toNat ≤ 0x200a) || c.toNat == 0x2028 ||
    c.toNat == 0x2029 || c.toNat == 0x202f || c.toNat == 0x205f || c.toNat == 0x3000

def trim (text : Str) : Str := (text.dropWhile isWhitespace).rdropWhile isWhitespace

/-- `to_ascii_lowercase`. -/
def asciiLower (text : Str) : Str := text.map Char.toLower

def stripSuffix (c : Char) (text : Str) : Option Str :=
  if text.getLast? = some c then some text.dropLast else none

def splitOnce (c : Char) : Str → Option (Str × Str)
  | [] => none
  | x :: xs => if x = c then some ([], xs) else (splitOnce c xs).map fun p => (x :: p.1, p.2)

def stripFront (pattern text : Str) : Option Str :=
  if pattern.isPrefixOf text then some (text.drop pattern.length) else none

/-- Pieces that end with `c`, and what follows the last of them. -/
def splitInclusive (c : Char) : Str → List Str
  | [] => []
  | x :: xs =>
    if x = c then [x] :: splitInclusive c xs
    else
      match splitInclusive c xs with
      | [] => [[x]]
      | piece :: pieces => (x :: piece) :: pieces

/-- A piece without its line ending, which is a newline or a carriage return and a newline. -/
def chomp (piece : Str) : Str :=
  match stripSuffix '\n' piece with
  | none => piece
  | some line => (stripSuffix '\r' line).getD line

def lines (text : Str) : List Str := (splitInclusive '\n' text).map chomp

/-- The worker of `replace`; `skip` characters belong to an occurrence already replaced. -/
def replaceFrom (pattern replacement : Str) : Nat → Str → Str
  | _, [] => []
  | skip + 1, _ :: xs => replaceFrom pattern replacement skip xs
  | 0, x :: xs =>
    if pattern.isPrefixOf (x :: xs) then
      replacement ++ replaceFrom pattern replacement (pattern.length - 1) xs
    else x :: replaceFrom pattern replacement 0 xs

/-- Replace every occurrence of a non-empty pattern, from left to right. -/
def replace (pattern replacement text : Str) : Str := replaceFrom pattern replacement 0 text

def writeln (line : Str) : Str := line ++ ['\n']

/-! ## Lines -/

@[simp] theorem stripSuffix_concat (c : Char) (text : Str) :
    stripSuffix c (text ++ [c]) = some text := by
  simp [stripSuffix]

theorem splitInclusive_writeln {line : Str} (h : '\n' ∉ line) (rest : Str) :
    splitInclusive '\n' (writeln line ++ rest) = writeln line :: splitInclusive '\n' rest := by
  induction line with
  | nil => simp [writeln, splitInclusive]
  | cons c line ih =>
    rw [List.mem_cons, not_or] at h
    have ih := ih h.2
    simp only [writeln, List.cons_append] at ih ⊢
    rw [splitInclusive, if_neg (Ne.symm h.1), ih]

theorem chomp_writeln {line : Str} (h : '\r' ∉ line) : chomp (writeln line) = line := by
  have hr : stripSuffix '\r' line = none :=
    if_neg fun hlast => h (List.mem_of_getLast? hlast)
  simp [chomp, writeln, hr]

theorem lines_flatMap_writeln {ls : List Str} (h : ∀ line ∈ ls, '\n' ∉ line ∧ '\r' ∉ line) :
    lines (ls.flatMap writeln) = ls := by
  induction ls with
  | nil => rfl
  | cons line ls ih =>
    obtain ⟨⟨hn, hr⟩, hls⟩ := List.forall_mem_cons.mp h
    have ih := ih hls
    simp only [lines] at ih ⊢
    rw [List.flatMap_cons, splitInclusive_writeln hn, List.map_cons, ih, chomp_writeln hr]

/-! ## Trimming -/

/-- No white space at either end. -/
def Trimmed (text : Str) : Prop :=
  (∀ c ∈ text.head?, isWhitespace c = false) ∧ ∀ c ∈ text.getLast?, isWhitespace c = false

instance (text : Str) : Decidable (Trimmed text) :=
  inferInstanceAs (Decidable (_ ∧ _))

variable {text : Str} {c : Char}

theorem dropWhile_eq_self (h : ∀ c ∈ text.head?, isWhitespace c = false) :
    text.dropWhile isWhitespace = text := by
  cases text with
  | nil => rfl
  | cons c text => rw [List.dropWhile_cons, h c rfl, if_neg Bool.false_ne_true]

theorem Trimmed.rdropWhile (h : Trimmed text) : text.rdropWhile isWhitespace = text := by
  rw [List.rdropWhile_eq_self_iff]
  intro hne hlast
  rw [h.2 _ (List.getLast?_eq_some_getLast hne)] at hlast
  cases hlast

theorem Trimmed.trim (h : Trimmed text) : trim text = text := by
  unfold Str.trim
  rw [dropWhile_eq_self h.1, h.rdropWhile]

theorem trimmed_trim (text : Str) : Trimmed (Str.trim text) := by
  constructor
  · intro c hc
    obtain ⟨back, hback⟩ : Str.trim text <+: text.dropWhile isWhitespace :=
      List.rdropWhile_prefix _ _
    have hhead := List.head?_dropWhile_not isWhitespace text
    rw [← hback, List.head?_append, hc] at hhead
    simpa using hhead
  · intro c hc
    obtain ⟨hne, rfl⟩ := List.mem_getLast?_eq_getLast hc
    exact Bool.eq_false_iff.mpr (List.rdropWhile_last_not isWhitespace _ hne)

theorem trimmed_of_trim (h : Str.trim text = text) : Trimmed text := h ▸ trimmed_trim text

theorem rdropWhile_append_of_pos {back : Str} (hback : ∀ c ∈ back, isWhitespace c = true) :
    (text ++ back).rdropWhile isWhitespace = text.rdropWhile isWhitespace := by
  unfold List.rdropWhile
  rw [List.reverse_append, List.dropWhile_append_of_pos (by simpa using hback)]

theorem trim_surround {front text back : Str} (hfront : ∀ c ∈ front, isWhitespace c = true)
    (hback : ∀ c ∈ back, isWhitespace c = true) (h : Trimmed text) :
    Str.trim (front ++ text ++ back) = text := by
  have hfrontOnly : (text ++ back).dropWhile isWhitespace = text ++ back ∨
      text = [] ∧ (text ++ back).dropWhile isWhitespace = [] := by
    cases text with
    | nil => exact .inr ⟨rfl, by simpa using hback⟩
    | cons c text => exact .inl (dropWhile_eq_self fun x hx => h.1 x hx)
  unfold Str.trim
  rw [List.append_assoc, List.dropWhile_append_of_pos hfront]
  rcases hfrontOnly with hkept | ⟨rfl, hnone⟩
  · rw [hkept, rdropWhile_append_of_pos hback, h.rdropWhile]
  · rw [hnone, List.rdropWhile_nil]

/-! ## Splitting and replacing -/

theorem splitOnce_append {front : Str} (h : c ∉ front) (back : Str) :
    splitOnce c (front ++ c :: back) = some (front, back) := by
  induction front with
  | nil => simp [splitOnce]
  | cons x front ih =>
    rw [List.mem_cons, not_or] at h
    rw [List.cons_append, splitOnce, if_neg (Ne.symm h.1), ih h.2]
    rfl

theorem splitOnce_eq_none (h : c ∉ text) : splitOnce c text = none := by
  induction text with
  | nil => rfl
  | cons x text ih =>
    rw [List.mem_cons, not_or] at h
    rw [splitOnce, if_neg (Ne.symm h.1), ih h.2]
    rfl

theorem not_mem_of_splitOnce (h : splitOnce c text = none) : c ∉ text := by
  induction text with
  | nil => exact List.not_mem_nil
  | cons x text ih =>
    rw [splitOnce] at h
    split at h
    · cases h
    · rename_i hx
      rw [List.mem_cons, not_or]
      exact ⟨Ne.symm hx, ih (Option.map_eq_none_iff.mp h)⟩

theorem eq_of_splitOnce {p : Str × Str} (h : splitOnce c text = some p) :
    text = p.1 ++ c :: p.2 ∧ c ∉ p.1 := by
  induction text generalizing p with
  | nil => cases h
  | cons x text ih =>
    rw [splitOnce] at h
    split at h
    case isTrue hx =>
      obtain rfl := Option.some.inj h
      exact ⟨by rw [hx, List.nil_append], List.not_mem_nil⟩
    case isFalse hx =>
      obtain ⟨q, hq, rfl⟩ := Option.map_eq_some_iff.mp h
      obtain ⟨htext, hmem⟩ := ih hq
      refine ⟨by rw [htext, List.cons_append], ?_⟩
      rw [List.mem_cons, not_or]
      exact ⟨Ne.symm hx, hmem⟩

theorem stripFront_append (pattern text : Str) : stripFront pattern (pattern ++ text) = some text := by
  rw [stripFront, if_pos (by simp), List.drop_left]

/-- Every `c` gets an `e` before it. -/
def escape (e c : Char) (text : Str) : Str := text.flatMap fun x => if x = c then [e, c] else [x]

/-- The escapes are undone, whatever stands before them: an `e` of the text is followed by
a `c` only if that `c` brought its own. -/
theorem replace_escape {e : Char} (hne : e ≠ c) (text : Str) :
    replace [e, c] [c] (escape e c text) = text := by
  unfold replace
  induction text with
  | nil => rfl
  | cons x text ih =>
    by_cases hx : x = c
    · subst hx
      have hescape : escape e x (x :: text) = e :: x :: escape e x text := by simp [escape]
      rw [hescape]
      simp [replaceFrom, ih]
    · have hescape : escape e c (x :: text) = x :: escape e c text := by simp [escape, hx]
      have hother : [e, c].isPrefixOf (x :: escape e c text) = false := by
        cases text with
        | nil => simp [escape, List.isPrefixOf]
        | cons y text =>
          by_cases hy : y = c
          · simp [escape, List.isPrefixOf, hy, hne.symm]
          · simp [escape, List.isPrefixOf, hy, Ne.symm hy]
      rw [hescape, replaceFrom, if_neg (by simp [hother]), ih]

end Str

end Qeli.Lib
