import GuestBridge.Toml.Lexeme
import GuestBridge.Toml.Node

/-!
# Numbers and dates of TOML

Integers have 64 bits with a sign. Floats and dates are checked and not kept: a float must not be
too large for a double, unless it is negative, and a date must exist.

The kinds are tried one after the other. What begins like one kind and goes wrong cannot be
followed by anything else that is allowed, so trying the next kind accepts nothing more.
-/

namespace GuestBridge.Toml

open Reader

/-! ## Digits -/

/-- Digits, with single underscores between them. -/
def digitRun (isDigit : Char → Bool) : List Char → List Char × List Char
  | [] => ([], [])
  | c :: rest =>
    if isDigit c then
      let (more, after) := digitRun isDigit rest
      (c :: more, after)
    else if c = '_' then
      match rest with
      | d :: _ => if isDigit d then digitRun isDigit rest else ([], c :: rest)
      | [] => ([], c :: rest)
    else ([], c :: rest)

/-- At least one digit. -/
def digits (isDigit : Char → Bool) : Reader (List Char) := do
  match ← peek with
  | some c => if isDigit c then fun cs => some (digitRun isDigit cs) else failure
  | none => failure

/-- The number of digits in a base; a character that is no digit counts nothing. -/
def numberOf (base : Nat) (ds : List Char) : Nat :=
  ds.foldl (fun n d => n * base + (hexValue? d).getD 0) 0

/-- A sign, and whether it is a minus. -/
def sign : Reader Bool := do
  match ← peek with
  | some '-' => do
    exact ['-']
    pure true
  | some '+' => do
    exact ['+']
    pure false
  | _ => pure false

/-- Decimal digits with no zero in front. -/
def decimalDigits : Reader (List Char) := do
  match ← peek with
  | some '0' => do
    exact ['0']
    pure ['0']
  | _ => digits Char.isDigit

/-! ## Integers -/

/-- An integer that fits in 64 bits. -/
def inRange (n : Int) : Reader Node :=
  if Int64.minValue.toInt ≤ n ∧ n ≤ Int64.maxValue.toInt then pure (.integer n) else failure

/-- An integer in another base, behind its mark. -/
def basedInteger (mark : Char) (base : Nat) (isDigit : Char → Bool) : Reader Node := do
  exact ['0', mark]
  let ds ← digits isDigit
  inRange (numberOf base ds)

/-- An integer. -/
def integer : Reader Node :=
  basedInteger 'x' 16 (fun c => (hexValue? c).isSome)
    <|> basedInteger 'o' 8 (fun c => '0' ≤ c && c ≤ '7')
    <|> basedInteger 'b' 2 (fun c => c == '0' || c == '1')
    <|> do
      let negative ← sign
      let ds ← decimalDigits
      let n : Int := numberOf 10 ds
      inRange (if negative then -n else n)

/-! ## Floats -/

/-- Does `m · 10 ^ e` round to infinity as a double? -/
def overflows (m : Nat) (e : Int) : Bool :=
  let places : Int := (Nat.toDigits 10 m).length
  if m = 0 ∨ places + e < 308 then false
  else if 310 < places + e then true
  else Nat.pow 2 1024 - Nat.pow 2 970 ≤ m * Nat.pow 10 e.toNat / Nat.pow 10 (-e).toNat

/-- The exponent of a float. -/
def exponent : Reader Int := do
  let _ ← char fun c => c == 'e' || c == 'E'
  let negative ← sign
  let ds ← digits Char.isDigit
  let n : Int := numberOf 10 ds
  pure (if negative then -n else n)

/-- A float: an integral part with a fraction, an exponent or both, or infinity, or not a
number. -/
def float : Reader Node :=
  (do
    let negative ← sign
    let whole ← decimalDigits
    let (fraction, e) ← ((do
        let e ← exponent
        pure ([], e)) <|> (do
        exact ['.']
        let fraction ← digits Char.isDigit
        let e ← optional exponent
        pure (fraction, e.getD 0)) : Reader (List Char × Int))
    if !negative && overflows (numberOf 10 (whole ++ fraction)) (e - fraction.length) then failure
    else pure .float)
    <|> (do
      let _ ← sign
      exact ['i', 'n', 'f'] <|> exact ['n', 'a', 'n']
      pure .float)

/-! ## Dates and times -/

/-- A number of exactly so many digits within bounds. -/
def field (width low high : Nat) : Reader Nat := do
  let mut ds : List Char := []
  for _ in List.range width do
    ds := ds ++ [← char Char.isDigit]
  let n := numberOf 10 ds
  if low ≤ n ∧ n ≤ high then pure n else failure

/-- Number of days of a month. -/
def daysIn (year month : Nat) : Nat :=
  if month = 2 then
    if year % 4 = 0 ∧ (year % 100 ≠ 0 ∨ year % 400 = 0) then 29 else 28
  else if month = 4 ∨ month = 6 ∨ month = 9 ∨ month = 11 then 30
  else 31

/-- A day that exists. -/
def date : Reader Unit := do
  let year ← field 4 0 9999
  exact ['-']
  let month ← field 2 1 12
  exact ['-']
  let _ ← field 2 1 (daysIn year month)

/-- Hours and minutes. -/
def hourMinute : Reader Unit := do
  let _ ← field 2 0 23
  exact [':']
  let _ ← field 2 0 59

/-- A time of day, to the second or finer. A minute may have a leap second. -/
def time : Reader Unit := do
  hourMinute
  exact [':']
  let _ ← field 2 0 60
  let _ ← optional (do
    exact ['.']
    let _ ← char Char.isDigit
    let _ ← span Char.isDigit)

/-- A distance from universal time. -/
def offset : Reader Unit :=
  (do let _ ← char fun c => c == 'Z' || c == 'z')
    <|> (do
      let _ ← char fun c => c == '+' || c == '-'
      hourMinute)

/-- A date, a time, or both with an offset or without. -/
def dateTime : Reader Node :=
  (do
    date
    let _ ← optional (do
      let _ ← char fun c => c == 'T' || c == 't' || c == ' '
      time
      let _ ← optional offset)
    pure .dateTime)
    <|> (time *> pure .dateTime)

/-- A date, a float or an integer. -/
def number : Reader Node := dateTime <|> float <|> integer

end GuestBridge.Toml
