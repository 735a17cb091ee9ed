import DirectoryWatch.Toml.Value

/-!
# Unquoted values

Booleans, numbers, dates and times, each decided by its whole text.
-/
namespace DirectoryWatch.Toml

def digit? (base : Nat) (c : Char) : Option Nat :=
  let n :=
    if c.isDigit then some (c.toNat - '0'.toNat)
    else if 'a' ≤ c ∧ c ≤ 'f' then some (c.toNat - 'a'.toNat + 10)
    else if 'A' ≤ c ∧ c ≤ 'F' then some (c.toNat - 'A'.toNat + 10)
    else none
  n.filter (· < base)

/-- Goes on with a number after a digit. An underscore may stand between two digits. -/
def digitsAfter (base value : Nat) : List Char → Option Nat
  | [] => some value
  | '_' :: c :: rest => do digitsAfter base (value * base + (← digit? base c)) rest
  | c :: rest => do digitsAfter base (value * base + (← digit? base c)) rest

def digits? (base : Nat) : List Char → Option Nat
  | [] => none
  | c :: rest => do digitsAfter base (← digit? base c) rest

/-- A decimal number without needless zeros in front. -/
def whole? : List Char → Option Nat
  | ['0'] => some 0
  | '0' :: _ => none
  | chars => digits? 10 chars

/-- Splits off a sign; true is minus. -/
def signed : List Char → Bool × List Char
  | '+' :: rest => (false, rest)
  | '-' :: rest => (true, rest)
  | chars => (false, chars)

def integer? (chars : List Char) : Option Int :=
  match chars with
  | '0' :: 'x' :: rest => (digits? 16 rest).map Int.ofNat
  | '0' :: 'o' :: rest => (digits? 8 rest).map Int.ofNat
  | '0' :: 'b' :: rest => (digits? 2 rest).map Int.ofNat
  | chars =>
    let (minus, rest) := signed chars
    (whole? rest).map fun n => if minus then -(n : Int) else n

def isDecimalChar (c : Char) : Bool := c.isDigit || c == '_'

def exponent? : List Char → Option Int
  | [] => some 0
  | c :: rest =>
    if c = 'e' ∨ c = 'E' then
      let (minus, rest) := signed rest
      (digits? 10 rest).map fun n => if minus then -(n : Int) else n
    else none

def decimal? (chars : List Char) : Option Decimal := do
  let (_, chars) := signed chars
  if chars = ['i', 'n', 'f'] then return .infinite
  if chars = ['n', 'a', 'n'] then return .nan
  let integral ← whole? (chars.takeWhile isDecimalChar)
  match chars.dropWhile isDecimalChar with
  | [] => none
  | '.' :: rest =>
    let fraction := rest.takeWhile isDecimalChar
    let places := fraction.countP Char.isDigit
    let value ← digits? 10 fraction
    let exponent ← exponent? (rest.dropWhile isDecimalChar)
    return .finite (integral * Nat.pow 10 places + value) (exponent - places)
  | rest => return .finite integral (← exponent? rest)

def twoDigits? : List Char → Option (Nat × List Char)
  | a :: b :: rest => do return ((← digit? 10 a) * 10 + (← digit? 10 b), rest)
  | _ => none

def daysIn (year month : Nat) : Nat :=
  if month = 2 then
    if year % 4 = 0 ∧ (year % 100 ≠ 0 ∨ year % 400 = 0) then 29 else 28
  else if month ∈ [4, 6, 9, 11] then 30
  else 31

def afterDate? (chars : List Char) : Option (List Char) := do
  let (century, rest) ← twoDigits? chars
  let (year, rest) ← twoDigits? rest
  match rest with
  | '-' :: rest =>
    let (month, rest) ← twoDigits? rest
    match rest with
    | '-' :: rest =>
      let (day, rest) ← twoDigits? rest
      if 1 ≤ month ∧ month ≤ 12 ∧ 1 ≤ day ∧ day ≤ daysIn (century * 100 + year) month then
        return rest
      else none
    | _ => none
  | _ => none

/-- What follows the fraction of a second, if there is one. -/
def afterFraction? : List Char → Option (List Char)
  | '.' :: rest =>
    if (rest.takeWhile Char.isDigit).isEmpty then none else some (rest.dropWhile Char.isDigit)
  | chars => some chars

/-- What follows a time. The seconds may be missing. -/
def afterTime? (chars : List Char) : Option (List Char) := do
  let (hour, rest) ← twoDigits? chars
  match rest with
  | ':' :: rest =>
    let (minute, rest) ← twoDigits? rest
    if 23 < hour ∨ 59 < minute then none
    match rest with
    | ':' :: rest =>
      let (second, rest) ← twoDigits? rest
      if 60 < second then none else afterFraction? rest
    | rest => return rest
  | _ => none

def isOffset (chars : List Char) : Bool :=
  match chars with
  | [] => true
  | ['Z'] => true
  | ['z'] => true
  | sign :: rest =>
    (sign == '+' || sign == '-') &&
      match twoDigits? rest with
      | some (hour, ':' :: rest) =>
        match twoDigits? rest with
        | some (minute, []) => hour ≤ 23 && minute ≤ 59
        | _ => false
      | _ => false

def isDateTime (chars : List Char) : Bool :=
  match afterDate? chars with
  | some [] => true
  | some (separator :: rest) =>
    (separator == 'T' || separator == 't' || separator == ' ') &&
      (afterTime? rest).any isOffset
  | none => afterTime? chars = some []

def scalar? (chars : List Char) : Option Value :=
  if chars = "true".toList then some (.boolean true)
  else if chars = "false".toList then some (.boolean false)
  else if isDateTime chars then some (.dateTime (String.ofList chars))
  else match integer? chars with
    | some n => some (.integer n)
    | none => (decimal? chars).map .decimal

end DirectoryWatch.Toml
