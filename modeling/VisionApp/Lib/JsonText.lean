import Mathlib.Data.List.TakeWhile
import Mathlib.Data.Nat.Notation
import Mathlib.Data.Int.Notation

/-!
# Reading JSON texts

The parts of a strict JSON reader that texts and integers need, over lists of
characters. Each reader answers what it has read and what is left. A text
is read a character at a time; an escaped surrogate must come with its pair,
since no character stands for one alone.
-/

set_option autoImplicit false

namespace JsonText

def blank (c : Char) : Bool := c = ' ' || c = '\t' || c = '\n' || c = '\r'

def skip (cs : List Char) : List Char := cs.dropWhile blank

/-! ## Integers -/

def natural (cs : List Char) : Option (ℕ × List Char) :=
  match cs with
  | [] => none
  | c::rest =>
    if c = '0' then some (0, rest)
    else if c.isDigit then some (Nat.ofDigitChars 10 (cs.takeWhile Char.isDigit) 0, cs.dropWhile Char.isDigit)
    else none

def integer : List Char → Option (ℤ × List Char)
  | '-'::cs => (natural cs).map (fun r => (-(r.1 : ℤ), r.2))
  | cs => (natural cs).map (fun r => ((r.1 : ℤ), r.2))

/-! ## Texts -/

def hex? (c : Char) : Option ℕ :=
  let n := c.toNat
  if 48 ≤ n ∧ n ≤ 57 then some (n-48)
  else if 65 ≤ n ∧ n ≤ 70 then some (n-55)
  else if 97 ≤ n ∧ n ≤ 102 then some (n-87)
  else none

def escape? : Char → Option Char
  | '"' => some '"'
  | '\\' => some '\\'
  | '/' => some '/'
  | 'b' => some (Char.ofNat 8)
  | 'f' => some (Char.ofNat 12)
  | 'n' => some '\n'
  | 'r' => some '\r'
  | 't' => some '\t'
  | _ => none

/-- Where the reader stands: between characters, after a backslash, or in a
code with some hexadecimal digits left. -/
inductive Mode where
  | plain
  | escape
  | hex (left code : ℕ)
  deriving DecidableEq, Repr

def push (c : Char) (r : Option (List Char × List Char)) : Option (List Char × List Char) :=
  r.map (fun r => (c::r.1, r.2))

/-- From behind the opening quotation mark to behind the closing one; `high`
is the first half of a surrogate pair. -/
def text : List Char → Mode → Option ℕ → Option (List Char × List Char)
  | [], _, _ => none
  | c::cs, .plain, none =>
    if c = '"' then some ([], cs)
    else if c = '\\' then text cs .escape none
    else if c.toNat < 32 then none
    else push c (text cs .plain none)
  | c::cs, .plain, some high => if c = '\\' then text cs .escape (some high) else none
  | c::cs, .escape, none =>
    if c = 'u' then text cs (.hex 4 0) none
    else match escape? c with
      | none => none
      | some e => push e (text cs .plain none)
  | c::cs, .escape, some high => if c = 'u' then text cs (.hex 4 0) (some high) else none
  | c::cs, .hex left code, high =>
    match hex? c with
    | none => none
    | some d =>
      let n := code*16+d
      if left ≠ 1 then text cs (.hex (left-1) n) high
      else match high with
        | none =>
          if 55296 ≤ n ∧ n < 56320 then text cs .plain (some n)
          else if 56320 ≤ n ∧ n < 57344 then none
          else push (Char.ofNat n) (text cs .plain none)
        | some h =>
          if 56320 ≤ n ∧ n < 57344 then
            push (Char.ofNat (65536+(h-55296)*1024+(n-56320))) (text cs .plain none)
          else none

/-! ## What is written is read -/

/-- The digits of a positive number do not start with a zero. -/
theorem digits_head {n : ℕ} (h : 0 < n) : ∃ c cs, Nat.toDigits 10 n = c::cs ∧ c ≠ '0' := by
  induction n using Nat.base_induction 10 (by decide) with
  | single m hm =>
    have hall : ∀ m < 10, 0 < m → Nat.digitChar m ≠ '0' := by decide
    exact ⟨_, [], Nat.toDigits_of_lt_base hm, hall m hm h⟩
  | digit m k hk hm ih =>
    obtain ⟨c, cs, hcs, hne⟩ := ih hm
    refine ⟨c, cs ++ Nat.toDigits 10 k, ?_, hne⟩
    rw [← Nat.toDigits_append_toDigits (by decide) hm hk, hcs, List.cons_append]

/-- The decimal digits of a number, followed by what is no digit. -/
theorem natural_digits (n : ℕ) {c : Char} {rest : List Char} (h : c.isDigit = false) :
    natural (Nat.toDigits 10 n ++ c::rest) = some (n, c::rest) := by
  have hdigits : ∀ d ∈ Nat.toDigits 10 n, d.isDigit = true := fun d hd =>
    Nat.isDigit_of_mem_toDigits (by decide) (by decide) hd
  have htake : (Nat.toDigits 10 n ++ c::rest).takeWhile Char.isDigit = Nat.toDigits 10 n := by
    rw [List.takeWhile_append_of_pos hdigits, List.takeWhile_cons_of_neg (by simp [h]), List.append_nil]
  have hdrop : (Nat.toDigits 10 n ++ c::rest).dropWhile Char.isDigit = c::rest := by
    rw [List.dropWhile_append_of_pos hdigits, List.dropWhile_cons_of_neg (by simp [h])]
  rcases Nat.eq_zero_or_pos n with rfl | hpos
  · rfl
  · obtain ⟨d, ds, hds, hne⟩ := digits_head hpos
    have hd : d.isDigit = true := hdigits d (by simp [hds])
    rw [hds] at htake hdrop ⊢
    rw [List.cons_append] at htake hdrop ⊢
    rw [natural, if_neg hne, if_pos hd, htake, hdrop, ← hds, Nat.ofDigitChars_ten_toDigits]

/-- An integer is written with a digit or its sign first. -/
theorem integer_head (z : ℤ) : ∃ d ds, (toString z).toList = d::ds ∧ (d.isDigit = true ∨ d = '-') := by
  rw [Int.toString_eq_repr, Int.repr_eq_if]
  by_cases hz : 0 ≤ z
  · obtain ⟨d, ds, hds⟩ := List.exists_cons_of_ne_nil (Nat.toDigits_ne_nil (n := z.toNat) (b := 10))
    have hmem : d ∈ Nat.toDigits 10 z.toNat := by
      rw [hds]
      exact List.mem_cons_self
    rw [if_pos hz, Nat.toList_repr]
    exact ⟨d, ds, hds, .inl (Nat.isDigit_of_mem_toDigits (by decide) (by decide) hmem)⟩
  · rw [if_neg hz, String.toList_append]
    exact ⟨'-', (-z).toNat.repr.toList, rfl, .inr rfl⟩

theorem integer_unsigned {d : Char} {ds : List Char} (h : d ≠ '-') :
    integer (d::ds) = (natural (d::ds)).map (fun r => ((r.1 : ℤ), r.2)) :=
  integer.eq_2 _ fun _ heq => h (List.cons.inj heq).1

/-- The decimal digits of an integer with its sign, as they are written. -/
theorem integer_written (z : ℤ) {c : Char} {rest : List Char} (h : c.isDigit = false) :
    integer ((toString z).toList ++ c::rest) = some (z, c::rest) := by
  rw [Int.toString_eq_repr, Int.repr_eq_if]
  by_cases hz : 0 ≤ z
  · rw [if_pos hz, Nat.toList_repr]
    have hread : natural (Nat.toDigits 10 z.toNat ++ c::rest) = some (z.toNat, c::rest) := natural_digits _ h
    obtain ⟨d, ds, hds⟩ := List.exists_cons_of_ne_nil (Nat.toDigits_ne_nil (n := z.toNat) (b := 10))
    have hsign : d ≠ '-' := by
      rintro rfl
      have hdigit : '-'.isDigit = true := Nat.isDigit_of_mem_toDigits (b := 10) (n := z.toNat) (by decide) (by decide)
        (by rw [hds]; exact List.mem_cons_self)
      cases hdigit
    rw [hds, List.cons_append] at hread ⊢
    rw [integer_unsigned hsign, hread, Option.map_some, Int.toNat_of_nonneg hz]
  · rw [if_neg hz, String.toList_append, Nat.toList_repr]
    change integer ('-'::(Nat.toDigits 10 (-z).toNat ++ c::rest)) = _
    rw [integer, natural_digits (-z).toNat h, Option.map_some, Int.toNat_of_nonneg (by omega), Int.neg_neg]

/-- A code of four hexadecimal digits. -/
def hexFour (n : ℕ) : List Char :=
  [Nat.digitChar (n/4096%16), Nat.digitChar (n/256%16), Nat.digitChar (n/16%16), Nat.digitChar (n%16)]

theorem hex_digitChar (n : ℕ) : hex? (Nat.digitChar (n%16)) = some (n%16) := by
  have hall : ∀ d < 16, hex? (Nat.digitChar d) = some d := by decide
  exact hall _ (Nat.mod_lt n (by decide))

/-- Four digits are read as the code that they write. -/
theorem text_hex {n : ℕ} (h : n < 65536) (cs : List Char) (high : Option ℕ) :
    text (hexFour n ++ cs) (.hex 4 0) high = text (Nat.digitChar (n%16)::cs) (.hex 1 (n/16)) high := by
  have hcode : (n/4096%16*16+n/256%16)*16+n/16%16 = n/16 := by omega
  simp [hexFour, text, hex_digitChar, hcode]

section Codes

variable {n : ℕ} (h : n < 65536) (cs : List Char)
include h

/-- A code that is no half of a surrogate pair is a character. -/
theorem text_unit (hplain : n < 55296 ∨ 57344 ≤ n) :
    text (hexFour n ++ cs) (.hex 4 0) none = push (Char.ofNat n) (text cs .plain none) := by
  have hcode : n/16*16+n%16 = n := by omega
  have hhigh : ¬(55296 ≤ n ∧ n < 56320) := by omega
  have hlow : ¬(56320 ≤ n ∧ n < 57344) := by omega
  rw [text_hex h, text, hex_digitChar]
  dsimp only
  rw [if_neg (by decide), hcode, if_neg hhigh, if_neg hlow]

theorem text_high (hhigh : 55296 ≤ n ∧ n < 56320) :
    text (hexFour n ++ cs) (.hex 4 0) none = text cs .plain (some n) := by
  have hcode : n/16*16+n%16 = n := by omega
  rw [text_hex h, text, hex_digitChar]
  dsimp only
  rw [if_neg (by decide), hcode, if_pos hhigh]

/-- The second half of a pair completes the character. -/
theorem text_low (hlow : 56320 ≤ n ∧ n < 57344) (high : ℕ) : text (hexFour n ++ cs) (.hex 4 0) (some high) =
    push (Char.ofNat (65536+(high-55296)*1024+(n-56320))) (text cs .plain none) := by
  have hcode : n/16*16+n%16 = n := by omega
  rw [text_hex h, text, hex_digitChar]
  dsimp only
  rw [if_neg (by decide), hcode, if_pos hlow]

end Codes

end JsonText
