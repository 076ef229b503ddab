/-!
# TOML scalars without marks

Booleans, numbers and dates are told apart by their spelling. Underscores may stand between digits; integers
have 64 bits.
-/

namespace FieldInjection.Toml

/-- What a scalar is. -/
inductive Scalar where
  | boolean (value : Bool)
  | number
  | moment
  deriving DecidableEq, Repr

/-- Digits of a kind with single underscores between them. -/
def areDigits (isDigit : Char → Bool) : List Char → Bool
  | [] => false
  | [c] => isDigit c
  | c :: '_' :: cs => isDigit c && areDigits isDigit cs
  | c :: cs => isDigit c && areDigits isDigit cs

/-- The value of digits in a base, underscores left out. -/
def digitsValue (base : Nat) (cs : List Char) : Nat :=
  (cs.filter (· ≠ '_')).foldl
    (fun n c =>
      n * base +
        if c.isDigit then c.toNat - 48 else if 'a' ≤ c then c.toNat - 87 else c.toNat - 55)
    0

/-- A digit in base 16. -/
def isHexDigit (c : Char) : Bool := c.isDigit || ('a' ≤ c && c ≤ 'f') || ('A' ≤ c && c ≤ 'F')

/-- Without a sign. -/
def dropSign : List Char → List Char
  | '+' :: cs => cs
  | '-' :: cs => cs
  | cs => cs

/-- Decimal digits that do not begin with a zero that is not alone. -/
def isDecimal (cs : List Char) : Bool :=
  areDigits Char.isDigit cs &&
    match cs with
    | '0' :: _ :: _ => false
    | _ => true

def isInteger (cs : List Char) : Bool :=
  match cs with
  | '0' :: 'x' :: ds => areDigits isHexDigit ds && digitsValue 16 ds < Nat.pow 2 63
  | '0' :: 'o' :: ds =>
    areDigits (fun c => '0' ≤ c && c ≤ '7') ds && digitsValue 8 ds < Nat.pow 2 63
  | '0' :: 'b' :: ds => areDigits (fun c => c = '0' || c = '1') ds && digitsValue 2 ds < Nat.pow 2 63
  | _ =>
    let ds := dropSign cs
    let limit := if cs.head? = some '-' then Nat.pow 2 63 else Nat.pow 2 63 - 1
    isDecimal ds && digitsValue 10 ds ≤ limit

def isExponentMark (c : Char) : Bool := c = 'e' || c = 'E'

/-- A number with a fraction, an exponent or both, or one of the words for infinity and no number. -/
def isFraction (cs : List Char) : Bool :=
  let cs := dropSign cs
  if cs = ['i', 'n', 'f'] || cs = ['n', 'a', 'n'] then true
  else
    let mantissa := cs.takeWhile fun c => !isExponentMark c
    let exponent := cs.drop mantissa.length
    let whole := mantissa.takeWhile (· ≠ '.')
    let decimals := mantissa.drop whole.length
    let hasDecimals := decimals ≠ []
    let hasExponent := exponent ≠ []
    isDecimal whole && (hasDecimals || hasExponent) &&
      (!hasDecimals || areDigits Char.isDigit (decimals.drop 1)) &&
      (!hasExponent || areDigits Char.isDigit (dropSign (exponent.drop 1)))

/-- A pattern of digits, where `d` stands for any of them. -/
def fits : List Char → List Char → Bool
  | [], [] => true
  | p :: ps, c :: cs => (if p = 'd' then c.isDigit else p = c) && fits ps cs
  | _, _ => false

/-- The number of days of a month. -/
def daysOf (year month : Nat) : Nat :=
  if month = 2 then
    if year % 4 = 0 && (year % 100 != 0 || year % 400 = 0) then 29 else 28
  else if month = 4 || month = 6 || month = 9 || month = 11 then 30
  else 31

/-- A date as in `1979-05-27`. -/
def isDate (cs : List Char) : Bool :=
  fits "dddd-dd-dd".toList cs &&
    let year := digitsValue 10 (cs.take 4)
    let month := digitsValue 10 ((cs.drop 5).take 2)
    let day := digitsValue 10 ((cs.drop 8).take 2)
    1 ≤ month && month ≤ 12 && 1 ≤ day && day ≤ daysOf year month

/-- A time of day as in `07:32:00.5`. -/
def isTime (cs : List Char) : Bool :=
  let clock := cs.take 8
  let rest := cs.drop 8
  fits "dd:dd:dd".toList clock && digitsValue 10 (clock.take 2) ≤ 23 &&
    digitsValue 10 ((clock.drop 3).take 2) ≤ 59 && digitsValue 10 ((clock.drop 6).take 2) ≤ 60 &&
    (rest = [] || (rest.head? = some '.' && rest.length > 1 && (rest.drop 1).all Char.isDigit))

/-- A distance from universal time as in `+01:00`. -/
def isOffset (cs : List Char) : Bool :=
  match cs with
  | [] => true
  | ['Z'] | ['z'] => true
  | sign :: clock =>
    (sign = '+' || sign = '-') && fits "dd:dd".toList clock &&
      digitsValue 10 (clock.take 2) ≤ 23 && digitsValue 10 (clock.drop 3) ≤ 59

/-- A date, a time of day, or both with or without an offset. -/
def isMoment (cs : List Char) : Bool :=
  let date := cs.take 10
  let clock := cs.drop 11
  let time := clock.takeWhile fun c => c.isDigit || c = ':' || c = '.'
  isDate cs || isTime cs ||
    (isDate date && (cs[10]? = some 'T' || cs[10]? = some 't' || cs[10]? = some ' ') &&
      isTime time && isOffset (clock.drop time.length))

/-- A character that a scalar may be written with. -/
def isScalarChar (c : Char) : Bool :=
  c.isAlphanum || c = '+' || c = '-' || c = '_' || c = '.' || c = ':'

/-- The spelling at the beginning of a text. A blank between a date and a time belongs to it. -/
def scalarSpelling (cs : List Char) : List Char :=
  let word := cs.takeWhile isScalarChar
  match isDate word, cs.drop word.length with
  | true, ' ' :: c :: more =>
    if c.isDigit then word ++ ' ' :: (c :: more).takeWhile isScalarChar else word
  | _, _ => word

def scalarOf? (cs : List Char) : Option Scalar :=
  if cs = "true".toList then some (.boolean true)
  else if cs = "false".toList then some (.boolean false)
  else if isInteger cs || isFraction cs then some .number
  else if isMoment cs then some .moment
  else none

end FieldInjection.Toml
