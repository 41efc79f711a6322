import Mathlib.Tactic.NormNum

/-!
# Dates and times with a zone

A `datetime` is a wall clock, a fold and a time zone object, which tells the
offset from UTC. Its text has the wall clock and the offset, not the zone, so
what is read back has the offset as its zone: the same instant, but a different
object. Two datetimes of different zones are never equal when the offset of
one of them depends on the fold, as it does around a change of the clocks.
-/

set_option autoImplicit false

namespace Datetimes

/-! ## Numbers of fixed width -/

def digits : ℕ → ℕ → List Char
  | 0, _ => []
  | width+1, n => digits width (n/10) ++ [Nat.digitChar (n % 10)]

def readDigits : ℕ → List Char → Option (ℕ × List Char)
  | 0, cs => some (0, cs)
  | width+1, cs =>
    match readDigits width cs with
    | some (n, c::rest) => if c.isDigit then some (10*n+(c.toNat - '0'.toNat), rest) else none
    | _ => none

theorem readDigits_digits {width n : ℕ} (h : n < 10^width) (rest : List Char) :
    readDigits width (digits width n ++ rest) = some (n, rest) := by
  induction width generalizing n rest with
  | zero =>
    obtain rfl : n = 0 := by simpa using h
    rfl
  | succ width ih =>
    have hlast : ∀ d < 10, (Nat.digitChar d).isDigit = true ∧ (Nat.digitChar d).toNat - '0'.toNat = d := by decide
    obtain ⟨hdigit, hvalue⟩ := hlast (n % 10) (Nat.mod_lt _ (by decide))
    have hhead : n/10 < 10^width := by
      rw [pow_succ] at h
      omega
    rw [digits, List.append_assoc, readDigits, ih hhead]
    simp only [List.singleton_append, hdigit, hvalue, if_true, Nat.div_add_mod]

def readChar (c : Char) : List Char → Option (List Char)
  | [] => none
  | c'::rest => if c' = c then some rest else none

@[simp] theorem readChar_cons (c : Char) (rest : List Char) : readChar c (c::rest) = some rest := if_pos rfl

/-- Microseconds, left out when there are none. -/
def fraction (microsecond : ℕ) : List Char := if microsecond = 0 then [] else '.'::digits 6 microsecond

def readFraction : List Char → Option (ℕ × List Char)
  | '.'::rest => readDigits 6 rest
  | cs => some (0, cs)

theorem readFraction_fraction {n : ℕ} (h : n < 1000000) {rest : List Char} (hrest : rest.head? ≠ some '.') :
    readFraction (fraction n ++ rest) = some (n, rest) := by
  unfold fraction
  by_cases h0 : n = 0
  · rw [if_pos h0, h0, List.nil_append]
    cases rest with
    | nil => rfl
    | cons c cs =>
      have hc : c ≠ '.' := fun he => hrest (by rw [he]; rfl)
      simp [readFraction, hc]
  · rw [if_neg h0]
    exact readDigits_digits h rest

/-! ## The wall clock -/

def isLeap (year : ℕ) : Bool := year % 4 = 0 && (year % 100 ≠ 0 || year % 400 = 0)

def daysIn (year month : ℕ) : ℕ :=
  if month = 2 then (if isLeap year then 29 else 28)
  else if month = 4 ∨ month = 6 ∨ month = 9 ∨ month = 11 then 30
  else 31

def IsWall (year month day hour minute second microsecond : ℕ) : Prop :=
  (1 ≤ year ∧ year ≤ 9999) ∧ (1 ≤ month ∧ month ≤ 12) ∧ (1 ≤ day ∧ day ≤ daysIn year month) ∧
    hour < 24 ∧ minute < 60 ∧ second < 60 ∧ microsecond < 1000000

instance (year month day hour minute second microsecond : ℕ) :
    Decidable (IsWall year month day hour minute second microsecond) := by
  unfold IsWall
  infer_instance

structure Wall where
  year : ℕ
  month : ℕ
  day : ℕ
  hour : ℕ
  minute : ℕ
  second : ℕ
  microsecond : ℕ
  valid : IsWall year month day hour minute second microsecond
  deriving DecidableEq

/-- The day's number in the Gregorian calendar. -/
def Wall.ordinal (w : Wall) : ℕ :=
  let past := w.year-1
  365*past+past/4-past/100+past/400 + ((List.range' 1 (w.month-1)).map (daysIn w.year)).sum + w.day

def Wall.microseconds (w : Wall) : ℤ :=
  (((w.ordinal*24+w.hour)*60+w.minute)*60+w.second)*1000000+w.microsecond

/-- A separator and a number of two digits. -/
def field (c : Char) (n : ℕ) : List Char := c::digits 2 n

def readField (c : Char) (cs : List Char) : Option (ℕ × List Char) := (readChar c cs).bind (readDigits 2)

theorem readField_field (c : Char) {n : ℕ} (h : n < 100) (rest : List Char) :
    readField c (field c n ++ rest) = some (n, rest) := by
  rw [readField, field, List.cons_append, readChar_cons, Option.bind_some]
  exact readDigits_digits h rest

def dateText (year month day : ℕ) : List Char := digits 4 year ++ (field '-' month ++ field '-' day)

def timeText (hour minute second microsecond : ℕ) : List Char :=
  field 'T' hour ++ (field ':' minute ++ (field ':' second ++ fraction microsecond))

def Wall.text (w : Wall) : List Char :=
  dateText w.year w.month w.day ++ timeText w.hour w.minute w.second w.microsecond

def readDate (cs : List Char) : Option ((ℕ × ℕ × ℕ) × List Char) := do
  let (year, cs) ← readDigits 4 cs
  let (month, cs) ← readField '-' cs
  let (day, cs) ← readField '-' cs
  some ((year, month, day), cs)

def readTime (cs : List Char) : Option ((ℕ × ℕ × ℕ × ℕ) × List Char) := do
  let (hour, cs) ← readField 'T' cs
  let (minute, cs) ← readField ':' cs
  let (second, cs) ← readField ':' cs
  let (microsecond, cs) ← readFraction cs
  some ((hour, minute, second, microsecond), cs)

def readWall (cs : List Char) : Option (Wall × List Char) := do
  let ((year, month, day), cs) ← readDate cs
  let ((hour, minute, second, microsecond), cs) ← readTime cs
  if h : IsWall year month day hour minute second microsecond then
    some (⟨year, month, day, hour, minute, second, microsecond, h⟩, cs)
  else none

theorem daysIn_le (year month : ℕ) : daysIn year month ≤ 31 := by
  unfold daysIn
  split_ifs <;> decide

theorem readDate_dateText {year month day : ℕ} (hyear : year < 10000) (hmonth : month < 100) (hday : day < 100)
    (rest : List Char) : readDate (dateText year month day ++ rest) = some ((year, month, day), rest) := by
  have hfour : ∀ rest, readDigits 4 (digits 4 year ++ rest) = some (year, rest) :=
    fun rest => readDigits_digits hyear rest
  simp only [readDate, dateText, List.append_assoc, hfour, Option.bind_eq_bind, Option.bind_some,
    readField_field '-' hmonth, readField_field '-' hday]

theorem readTime_timeText {hour minute second microsecond : ℕ} (hhour : hour < 100) (hminute : minute < 100)
    (hsecond : second < 100) (hmicro : microsecond < 1000000) {rest : List Char} (hrest : rest.head? ≠ some '.') :
    readTime (timeText hour minute second microsecond ++ rest) =
      some ((hour, minute, second, microsecond), rest) := by
  simp only [readTime, timeText, List.append_assoc, Option.bind_eq_bind, Option.bind_some,
    readField_field 'T' hhour, readField_field ':' hminute, readField_field ':' hsecond,
    readFraction_fraction hmicro hrest]

theorem readWall_text (w : Wall) {rest : List Char} (hrest : rest.head? ≠ some '.') :
    readWall (w.text ++ rest) = some (w, rest) := by
  obtain ⟨⟨-, hyear⟩, ⟨-, hmonth⟩, ⟨-, hday⟩, hhour, hminute, hsecond, hmicro⟩ := w.valid
  have hdays := daysIn_le w.year w.month
  have hdate : ∀ rest, readDate (dateText w.year w.month w.day ++ rest) = some ((w.year, w.month, w.day), rest) :=
    readDate_dateText (by omega) (by omega) (by omega)
  have htime : readTime (timeText w.hour w.minute w.second w.microsecond ++ rest) =
      some ((w.hour, w.minute, w.second, w.microsecond), rest) :=
    readTime_timeText (by omega) (by omega) (by omega) hmicro hrest
  rw [Wall.text, List.append_assoc, readWall, hdate, Option.bind_eq_bind, Option.bind_some]
  simp only [htime, Option.bind_some, Option.bind_eq_bind, dif_pos w.valid]

/-! ## The offset -/

/-- A difference from UTC in microseconds, of less than a day. -/
structure Offset where
  microseconds : ℤ
  bounded : microseconds.natAbs < 86400000000
  deriving DecidableEq

/-- Hours and minutes, and the rest where there is one. -/
def offsetClock (n : ℕ) : List Char :=
  digits 2 (n/3600000000) ++ (field ':' (n/60000000 % 60) ++
    if n % 60000000 = 0 then [] else field ':' (n/1000000 % 60) ++ fraction (n % 1000000))

def Offset.text (o : Offset) : List Char :=
  (if o.microseconds < 0 then '-' else '+')::offsetClock o.microseconds.natAbs

def readSeconds : List Char → Option (ℕ × ℕ)
  | [] => some (0, 0)
  | cs => do
    let (second, cs) ← readField ':' cs
    let (microsecond, cs) ← readFraction cs
    if cs = [] ∧ second < 60 then some (second, microsecond) else none

def readClock (cs : List Char) : Option ℕ := do
  let (hour, cs) ← readDigits 2 cs
  let (minute, cs) ← readField ':' cs
  let (second, microsecond) ← readSeconds cs
  if minute < 60 then some (((hour*60+minute)*60+second)*1000000+microsecond) else none

def ofMicroseconds (z : ℤ) : Option Offset := if h : z.natAbs < 86400000000 then some ⟨z, h⟩ else none

/-- The offset after a wall clock: none, or a sign and a time. -/
def readOffset : List Char → Option (Option Offset)
  | [] => some none
  | sign::cs => do
    let n ← readClock cs
    if sign = '+' then (ofMicroseconds n).map some
    else if sign = '-' then (ofMicroseconds (-n)).map some
    else none

theorem readClock_offsetClock {n : ℕ} (h : n < 86400000000) : readClock (offsetClock n) = some n := by
  have hhour : ∀ rest, readDigits 2 (digits 2 (n/3600000000) ++ rest) = some (n/3600000000, rest) :=
    fun rest => readDigits_digits (by omega) rest
  have hminute : n/60000000 % 60 < 60 := Nat.mod_lt _ (by decide)
  have hsecond : n/1000000 % 60 < 60 := Nat.mod_lt _ (by decide)
  have hmicro : n % 1000000 < 1000000 := Nat.mod_lt _ (by decide)
  simp only [readClock, offsetClock, hhour, readField_field ':' (hminute.trans (by decide)), Option.bind_eq_bind,
    Option.bind_some]
  by_cases h0 : n % 60000000 = 0
  · simp only [if_pos h0, readSeconds, Option.bind_some, if_pos hminute]
    congr 1
    omega
  · have hfraction : readFraction (fraction (n % 1000000)) = some (n % 1000000, []) := by
      have hnone : ([] : List Char).head? ≠ some '.' := by simp
      have hread := readFraction_fraction hmicro hnone
      rwa [List.append_nil] at hread
    have hseconds : readSeconds (field ':' (n/1000000 % 60) ++ fraction (n % 1000000)) =
        some (n/1000000 % 60, n % 1000000) := by
      rw [readSeconds, readField_field ':' (hsecond.trans (by decide))]
      · simp only [Option.bind_eq_bind, Option.bind_some, hfraction, true_and, if_pos hsecond]
      · simp [field]
    simp only [if_neg h0, hseconds, Option.bind_some, if_pos hminute]
    congr 1
    omega

theorem readOffset_text (o : Offset) : readOffset o.text = some (some o) := by
  have hclock := readClock_offsetClock o.bounded
  have hof : ofMicroseconds o.microseconds = some o := dif_pos o.bounded
  by_cases hneg : o.microseconds < 0
  · have habs : -(o.microseconds.natAbs : ℤ) = o.microseconds := by omega
    simp only [readOffset, Offset.text, if_pos hneg, hclock, Option.bind_eq_bind, Option.bind_some, habs, hof]
    rfl
  · have habs : (o.microseconds.natAbs : ℤ) = o.microseconds := by omega
    simp only [readOffset, Offset.text, if_neg hneg, hclock, Option.bind_eq_bind, Option.bind_some, if_true, habs,
      hof, Option.map_some]

theorem offset_text_head (o : Offset) : o.text.head? ≠ some '.' := by
  unfold Offset.text
  split_ifs <;> simp

/-! ## Datetimes -/

/-- A zone object: a fixed offset, or one whose offset is a function of the wall
clock and its fold. An object of the second kind is known by its name. -/
inductive TzInfo where
  | fixed (offset : Offset)
  | named (name : String) (offset : Wall → Bool → Option Offset)

def TzInfo.utcoffset (wall : Wall) (fold : Bool) : TzInfo → Option Offset
  | .fixed offset => some offset
  | .named _ offset => offset wall fold

structure Datetime where
  wall : Wall
  fold : Bool := false
  tzinfo : Option TzInfo := none

namespace Datetime

def utcoffset (d : Datetime) : Option Offset := d.tzinfo.bind (·.utcoffset d.wall d.fold)

def isoformat (d : Datetime) : String :=
  String.ofList (d.wall.text ++ (d.utcoffset.map Offset.text).getD [])

def readIso (cs : List Char) : Option Datetime := do
  let (wall, cs) ← readWall cs
  let offset ← readOffset cs
  some { wall, tzinfo := offset.map .fixed }

/-- Reads the form that `isoformat` writes; what the other forms of the
standard are read as is a parameter. -/
def fromisoformat (other : String → Option Datetime) (text : String) : Option Datetime :=
  match readIso text.toList with
  | some d => some d
  | none => other text

/-- The same wall clock with its offset for a zone. -/
def reread (d : Datetime) : Datetime := { wall := d.wall, tzinfo := d.utcoffset.map .fixed }

@[simp] theorem utcoffset_reread (d : Datetime) : d.reread.utcoffset = d.utcoffset := by
  cases h : d.utcoffset with
  | none =>
    rw [reread, h]
    rfl
  | some offset =>
    rw [reread, h]
    rfl

/-- What is written is read back as the same wall clock at the same offset. -/
theorem fromisoformat_isoformat (other : String → Option Datetime) (d : Datetime) :
    fromisoformat other d.isoformat = some d.reread := by
  have hread : readIso d.isoformat.toList = some d.reread := by
    rw [isoformat, String.toList_ofList, readIso]
    cases h : d.utcoffset with
    | none =>
      rw [Option.map_none, Option.getD_none, readWall_text d.wall (by simp), reread, h]
      rfl
    | some offset =>
      rw [Option.map_some, Option.getD_some, readWall_text d.wall (offset_text_head offset), reread, h]
      simp only [Option.bind_eq_bind, Option.bind_some, readOffset_text]
  rw [fromisoformat, hread]

/-! ### Equality -/

/-- Microseconds in UTC. -/
def instant (d : Datetime) : Option ℤ := d.utcoffset.map fun offset => d.wall.microseconds-offset.microseconds

@[simp] theorem instant_reread (d : Datetime) : d.reread.instant = d.instant := by
  rw [instant, utcoffset_reread]
  rfl

/-- One zone object, as far as a comparison can tell. -/
def sameZone : Option TzInfo → Option TzInfo → Bool
  | none, none => true
  | some (.fixed a), some (.fixed b) => a = b
  | some (.named a _), some (.named b _) => a = b
  | _, _ => false

/-- The offset is another one at the other fold. -/
def foldDependent (d : Datetime) : Bool :=
  d.tzinfo.any fun z => z.utcoffset d.wall (!d.fold) ≠ z.utcoffset d.wall d.fold

/-- `==`. In one zone the wall clocks are compared; in two zones nothing equals
a time whose offset depends on the fold. -/
def equal (d e : Datetime) : Bool :=
  if sameZone d.tzinfo e.tzinfo then d.wall = e.wall
  else if d.foldDependent || e.foldDependent then false
  else
    match d.instant, e.instant with
    | some a, some b => a = b
    | none, none => d.wall = e.wall
    | _, _ => false

theorem foldDependent_reread (d : Datetime) : d.reread.foldDependent = false := by
  cases h : d.utcoffset <;> simp [reread, foldDependent, h, TzInfo.utcoffset]

/-- What is read back equals what was written exactly when the offset of the
latter does not depend on the fold. -/
theorem equal_reread_iff {d : Datetime} (h : d.utcoffset.isSome = true) :
    d.equal d.reread = true ↔ d.foldDependent = false := by
  obtain ⟨offset, hoffset⟩ := Option.isSome_iff_exists.mp h
  have hzone : d.reread.tzinfo = some (.fixed offset) := by
    rw [reread, hoffset]
    rfl
  have hinstant : d.instant = some (d.wall.microseconds-offset.microseconds) := by
    rw [instant, hoffset]
    rfl
  rw [equal, hzone, foldDependent_reread, Bool.or_false, instant_reread, hinstant]
  cases hz : d.tzinfo with
  | none =>
    rw [utcoffset, hz] at hoffset
    cases hoffset
  | some z =>
    cases z with
    | fixed a =>
      rw [utcoffset, hz] at hoffset
      obtain rfl : a = offset := Option.some.inj hoffset
      simp [sameZone, foldDependent, hz, TzInfo.utcoffset, reread]
    | named name f =>
      rw [if_neg (by simp [sameZone])]
      cases d.foldDependent <;> simp

end Datetime

end Datetimes
