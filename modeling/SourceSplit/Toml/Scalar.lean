import SourceSplit.Toml.Value

/-!
# SourceSplit.Toml.Scalar

The values in TOML that are single words: booleans, integers, floating point numbers, dates and
times. A word is read as a whole; nothing that follows can make a part of it a value.
-/

namespace SourceSplit
namespace Toml

/-- Digits, with single underscores allowed between two of them. Gives the digits alone. -/
def digitRun? (isDigit : Char → Bool) : List Char → Option (List Char)
  | [] => none
  | [c] => if isDigit c then some [c] else none
  | c :: '_' :: rest => if isDigit c then (digitRun? isDigit rest).map (c :: ·) else none
  | c :: rest => if isDigit c then (digitRun? isDigit rest).map (c :: ·) else none

/-- A digit run in which no zero stands in front of another digit. -/
def decimalRun? (cs : List Char) : Option (List Char) :=
  match digitRun? Char.isDigit cs with
  | some ('0' :: _ :: _) => none
  | digits => digits

def digitValue (c : Char) : Nat :=
  if c.isDigit then c.toNat - '0'.toNat
  else if 'a' ≤ c then c.toNat - 'a'.toNat + 10
  else c.toNat - 'A'.toNat + 10

def natOfDigits (base : Nat) (digits : List Char) : Nat :=
  digits.foldl (fun n c => base * n + digitValue c) 0

/-- Sign and what it stands before; `true` is the minus. -/
def splitSign : List Char → Bool × List Char
  | '-' :: rest => (true, rest)
  | '+' :: rest => (false, rest)
  | cs => (false, cs)

def minInteger : Int := -0x8000000000000000

def maxInteger : Int := 0x7FFFFFFFFFFFFFFF

def inRange? (n : Int) : Option Int :=
  if minInteger ≤ n ∧ n ≤ maxInteger then some n else none

def isHexDigit (c : Char) : Bool :=
  c.isDigit || ('a' ≤ c && c ≤ 'f') || ('A' ≤ c && c ≤ 'F')

def integer? : List Char → Option Int
  | '0' :: 'x' :: cs =>
    (digitRun? isHexDigit cs).bind fun ds => inRange? (natOfDigits 16 ds)
  | '0' :: 'o' :: cs =>
    (digitRun? (fun c => '0' ≤ c && c ≤ '7') cs).bind fun ds => inRange? (natOfDigits 8 ds)
  | '0' :: 'b' :: cs =>
    (digitRun? (fun c => c = '0' || c = '1') cs).bind fun ds => inRange? (natOfDigits 2 ds)
  | cs =>
    let (negative, cs) := splitSign cs
    (decimalRun? cs).bind fun ds =>
      let n : Int := natOfDigits 10 ds
      inRange? (if negative then -n else n)

/-- The least number that a double rounds to infinity. -/
def doubleOverflow : Nat :=
  Nat.pow 2 1024 - Nat.pow 2 970

/-- Whether `digits` times ten to `exponent` is too large for a double. Far from the limit the
number of digits decides. -/
def overflows (digits : List Char) (exponent : Int) : Bool :=
  let digits := digits.dropWhile (· = '0')
  let magnitude := (digits.length : Int) + exponent
  if digits.isEmpty || magnitude < 300 then false
  else if 310 < magnitude then true
  else
    let n := natOfDigits 10 digits
    if 0 ≤ exponent then doubleOverflow ≤ n * Nat.pow 10 exponent.toNat
    else doubleOverflow * Nat.pow 10 (-exponent).toNat ≤ n

def isExponentMark (c : Char) : Bool :=
  c = 'e' || c = 'E'

/-- The exponent behind its mark; no text is exponent zero. -/
def exponent? : List Char → Option Int
  | [] => some 0
  | _ :: cs =>
    let (negative, cs) := splitSign cs
    (digitRun? Char.isDigit cs).map fun ds =>
      let n : Int := natOfDigits 10 ds
      if negative then -n else n

/-- The digits behind the point; a text without a point has none. -/
def fraction? : List Char → Option (List Char)
  | '.' :: cs => digitRun? Char.isDigit cs
  | [] => some []
  | _ => none

/-- Whether a word is a floating point number: a whole part, and a fraction or an exponent or
both. One that rounds to positive infinity is refused. -/
def isFloat (word : List Char) : Bool :=
  let (negative, cs) := splitSign word
  if cs = "inf".toList ∨ cs = "nan".toList then true
  else
    let mantissa := cs.takeWhile fun c => !isExponentMark c
    let mark := cs.dropWhile fun c => !isExponentMark c
    let point := mantissa.dropWhile (· ≠ '.')
    if mark.isEmpty && point.isEmpty then false
    else
      match decimalRun? (mantissa.takeWhile (· ≠ '.')), fraction? point, exponent? mark with
      | some whole, some fraction, some exponent =>
        negative || !overflows (whole ++ fraction) (exponent - fraction.length)
      | _, _, _ => false

/-- The number that two or more digits give. -/
def fixed? (digits : List Char) : Option Nat :=
  if digits.all Char.isDigit then some (natOfDigits 10 digits) else none

def isLeapYear (year : Nat) : Bool :=
  year % 4 = 0 && (year % 100 ≠ 0 || year % 400 = 0)

def daysInMonth (year month : Nat) : Nat :=
  if month = 2 then (if isLeapYear year then 29 else 28)
  else if month = 4 ∨ month = 6 ∨ month = 9 ∨ month = 11 then 30
  else 31

/-- What stands behind a date. -/
def date? : List Char → Option (List Char)
  | a :: b :: c :: d :: '-' :: e :: f :: '-' :: g :: h :: rest =>
    match fixed? [a, b, c, d], fixed? [e, f], fixed? [g, h] with
    | some year, some month, some day =>
      if 1 ≤ month ∧ month ≤ 12 ∧ 1 ≤ day ∧ day ≤ daysInMonth year month then some rest else none
    | _, _, _ => none
  | _ => none

/-- What stands behind a time of day. A leap second may be written. -/
def time? : List Char → Option (List Char)
  | a :: b :: ':' :: c :: d :: ':' :: e :: f :: rest =>
    match fixed? [a, b], fixed? [c, d], fixed? [e, f] with
    | some hour, some minute, some second =>
      if hour ≤ 23 ∧ minute ≤ 59 ∧ second ≤ 60 then
        match rest with
        | '.' :: g :: rest => if g.isDigit then some (rest.dropWhile Char.isDigit) else none
        | rest => some rest
      else none
    | _, _, _ => none
  | _ => none

def isOffset : List Char → Bool
  | [z] => z = 'Z' || z = 'z'
  | [sign, a, b, ':', c, d] =>
    (sign = '+' || sign = '-') &&
      match fixed? [a, b], fixed? [c, d] with
      | some hour, some minute => hour ≤ 23 && minute ≤ 59
      | _, _ => false
  | _ => false

/-- A time of day, alone or with an offset. -/
def isTimeOrOffset (word : List Char) : Bool :=
  match time? word with
  | some rest => rest.isEmpty || isOffset rest
  | none => false

def isMoment (word : List Char) : Bool :=
  match date? word with
  | some [] => true
  | some (t :: rest) => (t = 'T' || t = 't') && isTimeOrOffset rest
  | none => time? word = some []

def word? (word : List Char) : Option Value :=
  if word = "true".toList then some (.boolean true)
  else if word = "false".toList then some (.boolean false)
  else if isMoment word then some (.moment (String.ofList word))
  else if isFloat word then some (.float (String.ofList word))
  else (integer? word).map .integer

def isWordChar (c : Char) : Bool :=
  c.isAlphanum || c = '+' || c = '-' || c = '.' || c = '_' || c = ':'

/-- The word at the start of a text. A blank may stand between a date and a time. -/
def scalar? (cs : List Char) : Option (Value × List Char) :=
  let word := cs.takeWhile isWordChar
  let rest := cs.dropWhile isWordChar
  match date? word, rest with
  | some [], ' ' :: c :: more =>
    if c.isDigit then
      let time := (c :: more).takeWhile isWordChar
      if isTimeOrOffset time then
        some (.moment (String.ofList (word ++ ' ' :: time)), (c :: more).dropWhile isWordChar)
      else none
    else (word? word).map (·, rest)
  | _, _ => (word? word).map (·, rest)

end Toml
end SourceSplit
