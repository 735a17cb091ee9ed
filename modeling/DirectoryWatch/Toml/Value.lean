/-!
# TOML values

The tree that a TOML document stands for. Tables remember how they came about, because that decides
what later lines may add to them.
-/
namespace DirectoryWatch.Toml

/-- How a table came about. -/
inductive TableKind
  | header
  /-- By a header below it. A header of its own may still follow. -/
  | implied
  /-- By a dotted key. Further dotted keys may add to it. -/
  | dotted
  /-- Between braces. Nothing may add to it. -/
  | inlined
  deriving DecidableEq, Repr

/-- A number with a fraction or an exponent: `digits * 10 ^ exponent`, apart from its sign. -/
inductive Decimal
  | finite (digits : Nat) (exponent : Int)
  | infinite
  | nan
  deriving DecidableEq, Repr

inductive Value
  | string (text : String)
  | integer (n : Int)
  | decimal (d : Decimal)
  | boolean (b : Bool)
  | dateTime (text : String)
  /-- `ofTables` says that the array came about by headers in double brackets. -/
  | array (ofTables : Bool) (items : List Value)
  | table (kind : TableKind) (entries : List (String × Value))
  deriving Repr

abbrev Entries := List (String × Value)

namespace Decimal

/-- Half way between the largest double and the power of two after it. From here on a number is
rounded to infinity. -/
def bound : Nat := Nat.pow 2 1024 - Nat.pow 2 970

/-- Whether the number, if it is finite, has a finite double next to it. -/
def fits : Decimal → Bool
  | .finite digits exponent =>
    let magnitude := (Nat.toDigits 10 digits).length + exponent
    if digits = 0 ∨ magnitude ≤ 308 then true
    else if 310 ≤ magnitude then false
    else if 0 ≤ exponent then digits * Nat.pow 10 exponent.toNat < bound
    else digits < bound * Nat.pow 10 (-exponent).toNat
  | _ => true

end Decimal

/-- Whether an integer has a place among the signed or unsigned numbers of 128 bits. -/
def integerFits (n : Int) : Bool :=
  -Int.ofNat (Nat.pow 2 127) ≤ n && n < Int.ofNat (Nat.pow 2 128)

namespace Value

mutual

/-- Whether every number in the value can be represented. -/
def isSound : Value → Bool
  | .integer n => integerFits n
  | .decimal d => d.fits
  | .array _ items => allSound items
  | .table _ entries => entriesSound entries
  | _ => true

def allSound : List Value → Bool
  | [] => true
  | v :: rest => v.isSound && allSound rest

def entriesSound : List (String × Value) → Bool
  | [] => true
  | (_, v) :: rest => v.isSound && entriesSound rest

end

end Value

end DirectoryWatch.Toml
