import VisionApp.Lib.Base64
import VisionApp.Lib.JsonText
import VisionApp.Persistence.Memory
import VisionApp.Runtime.SemanticEngine

/-!
# The cursor of an event listing

The run routes hand the key of a page's last event to the client as a text:
the start time and the identifier as a JSON list, in base64 without padding.
What they have written they read back as the same key.
-/

set_option autoImplicit false

namespace VisionApp.RunEvents
open JsonText VisionApp.Contracts
open VisionApp.Persistence.InMemoryRepository (EventKey)
open VisionApp.SemanticEngine (dumpChar dumpText hexDigits)

/-- `json.dumps` of a key with its separators. -/
def dumpKey (key : EventKey) : String :=
  "[" ++ toString (ofLex key).1 ++ "," ++ dumpText (ofLex key).2 ++ "]"

/-- `_encode_cursor`. -/
def encodeCursor (key : EventKey) : String :=
  String.ofList ((Base64.encode (dumpKey key).toByteArray.data.toList).rdropWhile (· = '='))

/-- The characters of a JSON document in UTF-8, without a byte order mark. -/
def documentOf (raw : List UInt8) : Option (List Char) :=
  (String.fromUTF8? ⟨raw.toArray⟩).map fun document =>
    match document.toList with
    | [] => []
    | c::cs => if c = Char.ofNat 65279 then cs else c::cs

def expect (c : Char) (cs : List Char) : Option (List Char) :=
  match skip cs with
  | [] => none
  | d::rest => if d = c then some rest else none

/-- An element that is an `int` of Python: a truth value is one. -/
def startOf : List Char → Option (ℤ × List Char)
  | 't' :: 'r' :: 'u' :: 'e' :: cs => some (1, cs)
  | 'f' :: 'a' :: 'l' :: 's' :: 'e' :: cs => some (0, cs)
  | cs => integer cs

/-- `json.loads` with the checks of `_decode_cursor`: a list of an integer and a text. -/
def loadKey (cs : List Char) : Option EventKey := do
  let cs ← expect '[' cs
  let (startMs, cs) ← startOf (skip cs)
  let cs ← expect ',' cs
  let cs ← expect '"' cs
  let (id, cs) ← text cs .plain none
  let cs ← expect ']' cs
  if skip cs = [] then some (toLex (startMs, String.ofList id)) else none

/-- `_decode_cursor`. -/
def decodeCursor (cursor : String) : Except Failure EventKey :=
  let decoded := do
    let raw ← Base64.decode (cursor.toList ++ Base64.padding cursor.toList.length)
    let document ← documentOf raw
    loadKey document
  match decoded with
  | some key => .ok key
  | none => .error (.valueError "invalid cursor")

/-! ## A text that is dumped is read -/

/-- The digits of a code, filled up to four. -/
theorem toList_hexDigits {n : ℕ} (h : n < 65536) : (hexDigits n).toList = hexFour n := by
  have hone {m : ℕ} (hm : m < 16) : Nat.toDigits 16 m = [Nat.digitChar (m%16)] := by
    rw [Nat.toDigits_of_lt_base hm, Nat.mod_eq_of_lt hm]
  have hmore {m : ℕ} (hm : 16 ≤ m) : Nat.toDigits 16 m = Nat.toDigits 16 (m/16) ++ [Nat.digitChar (m%16)] :=
    Nat.toDigits_of_base_le (by decide) hm
  have hzero : Nat.digitChar 0 = '0' := rfl
  rw [hexDigits, String.toList_ofList]
  unfold hexFour
  by_cases h1 : n < 16
  · have h4 : n/4096%16 = 0 := by omega
    have h3 : n/256%16 = 0 := by omega
    have h2 : n/16%16 = 0 := by omega
    rw [hone h1, h4, h3, h2, hzero]
    rfl
  · by_cases h2 : n < 256
    · have h4 : n/4096%16 = 0 := by omega
      have h3 : n/256%16 = 0 := by omega
      rw [hmore (by omega), hone (m := n/16) (by omega), h4, h3, hzero]
      rfl
    · have hsecond : n/16/16 = n/256 := by omega
      by_cases h3 : n < 4096
      · have h4 : n/4096%16 = 0 := by omega
        rw [hmore (by omega), hmore (m := n/16) (by omega), hsecond, hone (m := n/256) (by omega), h4, hzero]
        rfl
      · have hthird : n/256/16 = n/4096 := by omega
        rw [hmore (by omega), hmore (m := n/16) (by omega), hsecond, hmore (m := n/256) (by omega), hthird,
          hone (m := n/4096) (by omega)]
        rfl

/-- A code is read after its `\u`. -/
theorem text_code (n : ℕ) (h : n < 65536) (cs : List Char) (high : Option ℕ) :
    text (("\\u" ++ hexDigits n).toList ++ cs) .plain high = text (hexFour n ++ cs) (.hex 4 0) high := by
  rw [String.toList_append, toList_hexDigits h]
  cases high with
  | none => rfl
  | some high => rfl

/-- The reader takes each character back that the writer has written. -/
theorem text_dumpChar (c : Char) (cs : List Char) :
    text ((dumpChar c).toList ++ cs) .plain none = push c (text cs .plain none) := by
  have hchar (n : ℕ) (h : c.toNat = n) : c = Char.ofNat n := by rw [← h, Char.ofNat_toNat]
  have hvalid : c.toNat < 55296 ∨ (57343 < c.toNat ∧ c.toNat < 1114112) := c.valid
  unfold dumpChar
  split
  iterate 7
    next h =>
      rw [hchar _ h]
      rfl
  · rename_i hquote hslash _ _ _ _ _
    by_cases hplain : 32 ≤ c.toNat ∧ c.toNat ≤ 126
    · have hnotQuote : c ≠ '"' := fun heq => hquote (by rw [heq]; rfl)
      have hnotSlash : c ≠ '\\' := fun heq => hslash (by rw [heq]; rfl)
      rw [if_pos hplain, String.toList_singleton, List.singleton_append, text, if_neg hnotQuote, if_neg hnotSlash,
        if_neg (by omega)]
    · rw [if_neg hplain]
      by_cases hsmall : c.toNat < 65536
      · rw [if_pos hsmall, text_code _ hsmall, text_unit hsmall _ (by omega), Char.ofNat_toNat]
      · have hhigh : (c.toNat-65536)/1024 < 1024 := Nat.div_lt_of_lt_mul (by omega)
        have hlow : (c.toNat-65536)%1024 < 1024 := Nat.mod_lt _ (by decide)
        have hsum : 1024*((c.toNat-65536)/1024)+(c.toNat-65536)%1024 = c.toNat-65536 := Nat.div_add_mod _ _
        rw [if_neg hsmall]
        dsimp only
        generalize (c.toNat-65536)/1024 = high at *
        generalize (c.toNat-65536)%1024 = low at *
        have hpair : 65536+(55296+high-55296)*1024+(56320+low-56320) = c.toNat := by omega
        rw [String.append_assoc, String.toList_append, List.append_assoc, text_code _ (by omega),
          text_high (by omega) _ (by omega), text_code _ (by omega), text_low (by omega) _ (by omega), hpair,
          Char.ofNat_toNat]

/-- From behind the opening quotation mark to behind the closing one. -/
theorem text_dumped (id rest : List Char) :
    text (id.flatMap (fun c => (dumpChar c).toList) ++ '"'::rest) .plain none = some (id, rest) := by
  induction id with
  | nil => rfl
  | cons c id ih =>
    rw [List.flatMap_cons, List.append_assoc, text_dumpChar, ih]
    rfl

theorem toList_dumpText (id : String) :
    (dumpText id).toList = '"'::(id.toList.flatMap (fun c => (dumpChar c).toList) ++ ['"']) := by
  simp [dumpText, String.toList_append, String.toList_join, List.flatMap_map]

theorem toList_dumpKey (key : EventKey) : (dumpKey key).toList =
    '[' :: ((toString (ofLex key).1).toList ++
      ',' :: '"' :: ((ofLex key).2.toList.flatMap (fun c => (dumpChar c).toList) ++ ['"', ']'])) := by
  simp [dumpKey, String.toList_append, toList_dumpText]

/-- A written integer is neither a truth value nor blank space. -/
theorem startOf_written (z : ℤ) {c : Char} {rest : List Char} (h : c.isDigit = false) :
    startOf (skip ((toString z).toList ++ c::rest)) = some (z, c::rest) := by
  obtain ⟨d, ds, hds, hhead⟩ := integer_head z
  have hplain : blank d = false ∧ d ≠ 't' ∧ d ≠ 'f' := by
    rcases hhead with hdigit | rfl
    · refine ⟨?_, ?_, ?_⟩
      · by_contra hblank
        simp only [blank, Bool.not_eq_false, Bool.or_eq_true, decide_eq_true_eq] at hblank
        rcases hblank with ((rfl | rfl) | rfl) | rfl <;> cases hdigit
      · rintro rfl
        cases hdigit
      · rintro rfl
        cases hdigit
    · decide
  have hread : integer ((toString z).toList ++ c::rest) = some (z, c::rest) := integer_written z h
  rw [hds, List.cons_append] at hread ⊢
  rw [skip, List.dropWhile_cons_of_neg (by simp [hplain.1])]
  rw [startOf.eq_3 _ (fun cs hcs => hplain.2.1 (List.cons.inj hcs).1) (fun cs hcs => hplain.2.2 (List.cons.inj hcs).1),
    hread]

theorem loadKey_dumpKey (key : EventKey) : loadKey (dumpKey key).toList = some key := by
  have hopen (cs : List Char) : expect '[' ('['::cs) = some cs := rfl
  have hcomma (cs : List Char) : expect ',' (','::cs) = some cs := rfl
  have hquote (cs : List Char) : expect '"' ('"'::cs) = some cs := rfl
  have hclose : expect ']' [']'] = some [] := rfl
  rw [toList_dumpKey, loadKey, hopen]
  simp only [Option.bind_eq_bind, Option.bind_some]
  rw [startOf_written _ (by rfl)]
  simp only [Option.bind_some, hcomma, hquote]
  rw [text_dumped]
  simp only [Option.bind_some, hclose]
  simp [skip]

theorem documentOf_text (document : String) (h : document.toList.head? ≠ some (Char.ofNat 65279)) :
    documentOf document.toByteArray.data.toList = some document.toList := by
  have hbytes : (⟨document.toByteArray.data.toList.toArray⟩ : ByteArray) = document.toByteArray := by
    rw [Array.toArray_toList]
  have hread : String.fromUTF8? document.toByteArray = some document := dif_pos document.isValidUTF8
  rw [documentOf, hbytes, hread, Option.map_some]
  cases hchars : document.toList with
  | nil => rfl
  | cons c cs =>
    have hmark : c ≠ Char.ofNat 65279 := by
      rintro rfl
      rw [hchars] at h
      exact h rfl
    simp [hmark]

/-- The cursor of a key is read as the key. -/
theorem decodeCursor_encodeCursor (key : EventKey) : decodeCursor (encodeCursor key) = .ok key := by
  have hhead : (dumpKey key).toList.head? ≠ some (Char.ofNat 65279) := by
    rw [toList_dumpKey]
    simp
  have hdocument := documentOf_text (dumpKey key) hhead
  have hbytes := Base64.decode_stripped (dumpKey key).toByteArray.data.toList
  rw [decodeCursor, encodeCursor, String.toList_ofList]
  simp only [hbytes, Option.bind_eq_bind, Option.bind_some, hdocument, loadKey_dumpKey]

end VisionApp.RunEvents
