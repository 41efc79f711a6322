import Mathlib.Data.List.DropRight

/-!
# Base64 with the URL-safe alphabet

Three bytes make four symbols; a last group of one or two bytes makes two or
three, and is padded. The decoder is the lenient one: it skips what is no
symbol, takes the symbols of both alphabets, ends at a complete padding and
refuses a text that ends within a group.
-/

set_option autoImplicit false

namespace Base64

def alphabet : List Char := "ABCDEFGHIJKLMNOPQRSTUVWXYZabcdefghijklmnopqrstuvwxyz0123456789-_".toList

def symbol (n : ℕ) : Char := alphabet.getD n 'A'

/-- The value of a symbol of either alphabet. -/
def digit? (c : Char) : Option ℕ :=
  let n := c.toNat
  if 65 ≤ n ∧ n ≤ 90 then some (n-65)
  else if 97 ≤ n ∧ n ≤ 122 then some (n-71)
  else if 48 ≤ n ∧ n ≤ 57 then some (n+4)
  else if c = '-' ∨ c = '+' then some 62
  else if c = '_' ∨ c = '/' then some 63
  else none

/-- The symbols of the bytes, without their padding. -/
def symbols : List UInt8 → List Char
  | [] => []
  | [a] => [symbol (a.toNat/4), symbol (a.toNat%4*16)]
  | [a, b] => [symbol (a.toNat/4), symbol (a.toNat%4*16+b.toNat/16), symbol (b.toNat%16*4)]
  | a::b::c::rest =>
    symbol (a.toNat/4)::symbol (a.toNat%4*16+b.toNat/16)::symbol (b.toNat%16*4+c.toNat/64)::
      symbol (c.toNat%64)::symbols rest

/-- What pads a text to whole groups of four. -/
def padding (length : ℕ) : List Char := List.replicate ((4-length%4)%4) '='

def encode (bytes : List UInt8) : List Char := symbols bytes ++ padding (symbols bytes).length

/-- `quad` symbols of the group have been read; `left` are the bits of the
last of them that no byte holds yet, `pads` the paddings since. -/
def scan : List Char → ℕ → ℕ → ℕ → Option (List UInt8)
  | [], quad, _, _ => if quad = 0 then some [] else none
  | c::cs, quad, left, pads =>
    if c = '=' then
      if 2 ≤ quad ∧ 4 ≤ quad+(pads+1) then some []
      else scan cs quad left (if 2 ≤ quad then pads+1 else pads)
    else match digit? c with
      | none => scan cs quad left pads
      | some d => match quad with
        | 0 => scan cs 1 d 0
        | 1 => (scan cs 2 (d%16) 0).map (UInt8.ofNat (left*4+d/16)::·)
        | 2 => (scan cs 3 (d%4) 0).map (UInt8.ofNat (left*16+d/4)::·)
        | _ => (scan cs 0 0 0).map (UInt8.ofNat (left*64+d)::·)

/-- A text that is not ASCII is no argument of the decoder. -/
def decode (text : List Char) : Option (List UInt8) :=
  if text.all (fun c => c.toNat < 128) then scan text 0 0 0 else none

/-! ## Symbols -/

theorem digit_symbol {n : ℕ} (h : n < 64) : digit? (symbol n) = some n := by
  have hall : ∀ n < 64, digit? (symbol n) = some n := by decide +kernel
  exact hall n h

theorem symbol_plain {n : ℕ} (h : n < 64) : symbol n ≠ '=' ∧ (symbol n).toNat < 128 := by
  have hall : ∀ n < 64, symbol n ≠ '=' ∧ (symbol n).toNat < 128 := by decide +kernel
  exact hall n h

section Scan

variable {n : ℕ} (h : n < 64) (cs : List Char) (left pads : ℕ)
include h

theorem scan_first : scan (symbol n::cs) 0 left pads = scan cs 1 n 0 := by
  refine (if_neg (symbol_plain h).1).trans ?_
  rw [digit_symbol h]
  rfl

theorem scan_second :
    scan (symbol n::cs) 1 left pads = (scan cs 2 (n%16) 0).map (UInt8.ofNat (left*4+n/16)::·) := by
  refine (if_neg (symbol_plain h).1).trans ?_
  rw [digit_symbol h]
  rfl

theorem scan_third :
    scan (symbol n::cs) 2 left pads = (scan cs 3 (n%4) 0).map (UInt8.ofNat (left*16+n/4)::·) := by
  refine (if_neg (symbol_plain h).1).trans ?_
  rw [digit_symbol h]
  rfl

theorem scan_fourth : scan (symbol n::cs) 3 left pads = (scan cs 0 0 0).map (UInt8.ofNat (left*64+n)::·) := by
  refine (if_neg (symbol_plain h).1).trans ?_
  rw [digit_symbol h]
  rfl

end Scan

/-! ## The round trip -/

/-- The bits of a byte, put together again. -/
theorem ofNat_bits {a : UInt8} {n : ℕ} (h : n = a.toNat) : UInt8.ofNat n = a := by
  rw [h, UInt8.ofNat_toNat]

theorem symbols_length (a b c : UInt8) (rest : List UInt8) :
    (symbols (a::b::c::rest)).length = (symbols rest).length+4 := rfl

theorem padding_period (n : ℕ) : padding (n+4) = padding n := by
  unfold padding
  rw [Nat.add_mod_right]

/-- Scanning what has been encoded gives the bytes back; the induction takes a group at a time. -/
theorem scan_encode (bytes : List UInt8) : scan (encode bytes) 0 0 0 = some bytes := by
  induction bytes using symbols.induct with
  | case1 => rfl
  | case2 a =>
    have ha := a.toNat_lt
    have hpad : encode [a] = [symbol (a.toNat/4), symbol (a.toNat%4*16), '=', '='] := rfl
    rw [hpad, scan_first (by omega), scan_second (by omega)]
    have hend : scan ['=', '='] 2 (a.toNat%4*16%16) 0 = some [] := rfl
    rw [hend, ofNat_bits (a := a) (by omega)]
    rfl
  | case3 a b =>
    have ha := a.toNat_lt
    have hb := b.toNat_lt
    have hpad : encode [a, b] =
        [symbol (a.toNat/4), symbol (a.toNat%4*16+b.toNat/16), symbol (b.toNat%16*4), '='] := rfl
    rw [hpad, scan_first (by omega), scan_second (by omega), scan_third (by omega)]
    have hend : scan ['='] 3 (b.toNat%16*4%4) 0 = some [] := rfl
    rw [hend, ofNat_bits (a := a) (by omega), ofNat_bits (a := b) (by omega)]
    rfl
  | case4 a b c rest ih =>
    have ha := a.toNat_lt
    have hb := b.toNat_lt
    have hc := c.toNat_lt
    have hgroup : encode (a::b::c::rest) = symbol (a.toNat/4)::symbol (a.toNat%4*16+b.toNat/16)::
        symbol (b.toNat%16*4+c.toNat/64)::symbol (c.toNat%64)::encode rest := by
      rw [encode, symbols_length, padding_period]
      rfl
    rw [hgroup, scan_first (by omega), scan_second (by omega), scan_third (by omega), scan_fourth (by omega), ih,
      ofNat_bits (a := a) (by omega), ofNat_bits (a := b) (by omega), ofNat_bits (a := c) (by omega)]
    rfl

/-- Every character of the encoding is a symbol, or a padding at its end. -/
theorem symbols_plain (bytes : List UInt8) : ∀ c ∈ symbols bytes, c ≠ '=' ∧ c.toNat < 128 := by
  induction bytes using symbols.induct with
  | case1 => simp [symbols]
  | case2 a =>
    have ha := a.toNat_lt
    intro c hc
    simp only [symbols, List.mem_cons, List.not_mem_nil, or_false] at hc
    rcases hc with rfl | rfl
    · exact symbol_plain (by omega)
    · exact symbol_plain (by omega)
  | case3 a b =>
    have ha := a.toNat_lt
    have hb := b.toNat_lt
    intro c hc
    simp only [symbols, List.mem_cons, List.not_mem_nil, or_false] at hc
    rcases hc with rfl | rfl | rfl
    · exact symbol_plain (by omega)
    · exact symbol_plain (by omega)
    · exact symbol_plain (by omega)
  | case4 a b c rest ih =>
    have ha := a.toNat_lt
    have hb := b.toNat_lt
    have hc := c.toNat_lt
    intro x hx
    simp only [symbols, List.mem_cons] at hx
    rcases hx with rfl | rfl | rfl | rfl | hx
    · exact symbol_plain (by omega)
    · exact symbol_plain (by omega)
    · exact symbol_plain (by omega)
    · exact symbol_plain (by omega)
    · exact ih x hx

theorem decode_encode (bytes : List UInt8) : decode (encode bytes) = some bytes := by
  rw [decode, if_pos ?_, scan_encode]
  rw [List.all_eq_true]
  intro c hc
  rcases List.mem_append.mp hc with hc | hc
  · simpa using (symbols_plain bytes c hc).2
  · obtain rfl := List.eq_of_mem_replicate hc
    decide

/-- Stripping the padding of an encoding leaves its symbols. -/
theorem strip_encode (bytes : List UInt8) : (encode bytes).rdropWhile (· = '=') = symbols bytes := by
  have hstrip (n : ℕ) : (symbols bytes ++ List.replicate n '=').rdropWhile (· = '=') = symbols bytes := by
    induction n with
    | zero =>
      rw [List.replicate_zero, List.append_nil, List.rdropWhile_eq_self_iff]
      intro hne
      simpa using (symbols_plain bytes _ (List.getLast_mem hne)).1
    | succ n ih =>
      rw [List.replicate_succ', ← List.append_assoc, List.rdropWhile_concat_pos _ _ _ (by simp), ih]
  exact hstrip _

/-- A decoder that pads by the length undoes an encoder that strips the padding. -/
theorem decode_stripped (bytes : List UInt8) :
    decode ((encode bytes).rdropWhile (· = '=') ++ padding ((encode bytes).rdropWhile (· = '=')).length) =
      some bytes := by
  rw [strip_encode]
  exact decode_encode bytes

end Base64
