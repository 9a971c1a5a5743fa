import Searchbar.Number.Decimal
import Searchbar.Text.CodePoint
import Searchbar.Toml.Value

/-!
# Words of TOML

Truth values, numbers, dates and times are written as **words**: runs of letters, digits and the
signs that numbers and dates need. A word is a whole number, a number with a fraction or an
exponent, one of the names for infinity and for what is not a number, a date, a time, a date with a
time, or a truth value; every other word is a mistake.

* `word?` reads the word at the start of a text.
-/

namespace Searchbar.Toml

/-- The characters of words. -/
def isWordChar (c : Char) : Bool :=
  c.isAlphanum || c = '_' || c = '-' || c = '+' || c = '.' || c = ':'

/-! ### Numbers -/

/-- Digits that go on after a first one, a lower dash being allowed in front of each. -/
def isGroupedTail (isDigit : Char → Bool) : List Char → Bool
  | [] => true
  | '_' :: c :: rest => isDigit c && isGroupedTail isDigit rest
  | c :: rest => isDigit c && isGroupedTail isDigit rest

/-- **Digits in groups**: at least one digit, and single lower dashes between digits. -/
def isGrouped (isDigit : Char → Bool) : List Char → Bool
  | [] => false
  | c :: rest => isDigit c && isGroupedTail isDigit rest

/-- The digits without the dashes between them. -/
def ungrouped (cs : List Char) : List Char := cs.filter (· ≠ '_')

/-- Whether a word has a minus in front, and the word behind its sign. -/
def signed : List Char → Bool × List Char
  | '-' :: cs => (true, cs)
  | '+' :: cs => (false, cs)
  | cs => (false, cs)

/-- The digits of a whole number without sign: zero stands in front of no other digit. -/
def isWhole (cs : List Char) : Bool :=
  isGrouped Char.isDigit cs && (cs.head? ≠ some '0' || cs.length = 1)

/-- The first magnitude beyond the positive numbers of 64 bits with sign. -/
def signLimit : Nat := 0x8000000000000000

/-- Whether a word is a whole number in decimal digits that has 64 bits with its sign. -/
def isDecimalNumber (word : List Char) : Bool :=
  let (negative, cs) := signed word
  isWhole cs &&
    let n := Decimal.ofDigits (ungrouped cs)
    n < signLimit || (negative && n = signLimit)

/-- Whether digits in groups spell a number of 64 bits with sign in the given base, which is at most
sixteen. -/
def isBaseDigits (base : Nat) (cs : List Char) : Bool :=
  let value? (c : Char) : Option Nat := (Text.hexValue? c).filter (· < base)
  isGrouped (fun c => (value? c).isSome) cs &&
    (ungrouped cs).foldl (fun n c => base * n + (value? c).getD 0) 0 < signLimit

/-- Whether a word is a whole number in base sixteen, eight or two, which has no sign. -/
def isBaseNumber : List Char → Bool
  | '0' :: 'x' :: cs => isBaseDigits 16 cs
  | '0' :: 'o' :: cs => isBaseDigits 8 cs
  | '0' :: 'b' :: cs => isBaseDigits 2 cs
  | _ => false

/-- The mark of an exponent. -/
def isExponentMark (c : Char) : Bool := c = 'e' || c = 'E'

/-- Whether the rest of a number is an exponent. Its digits may start with zeros. -/
def isExponent : List Char → Bool
  | [] => false
  | mark :: cs => isExponentMark mark && isGrouped Char.isDigit (signed cs).2

/-- Whether the rest of a number behind its whole part is a fraction, an exponent, or both. -/
def isFractionOrExponent : List Char → Bool
  | '.' :: cs =>
    let rest := cs.dropWhile fun c => !isExponentMark c
    isGrouped Char.isDigit (cs.takeWhile fun c => !isExponentMark c) &&
      (rest.isEmpty || isExponent rest)
  | cs => isExponent cs

/-- Whether a word is a number with a fraction or an exponent. A positive number must not be so
large that the nearest `binary64` number is infinite. -/
def isFloatNumber (word : List Char) : Bool :=
  let (negative, cs) := signed word
  let isBorder (c : Char) : Bool := c = '.' || isExponentMark c
  isWhole (cs.takeWhile fun c => !isBorder c) &&
    isFractionOrExponent (cs.dropWhile fun c => !isBorder c) &&
    (negative || match Decimal.ofChars? (ungrouped cs) with
      | some d => d.magnitude ≠ Binary64.infinity
      | none => false)

/-- Whether a word names infinity or what is not a number, with or without a sign. -/
def isSpecialNumber (word : List Char) : Bool :=
  let name := String.ofList (signed word).2
  name = "inf" || name = "nan"

/-! ### Dates and times -/

/-- A number of exactly `size` digits from `low` to `high`, and the rest. -/
def field? (size low high : Nat) (cs : List Char) : Option (Nat × List Char) :=
  let digits := cs.take size
  let n := Decimal.ofDigits digits
  if digits.length = size && digits.all Char.isDigit && low ≤ n && n ≤ high then
    some (n, cs.drop size)
  else none

/-- The text behind the given sign. -/
def sign? (sign : Char) : List Char → Option (List Char)
  | [] => none
  | c :: rest => if c = sign then some rest else none

/-- How many days a month has. -/
def daysOfMonth (year month : Nat) : Nat :=
  if month = 2 then
    if year % 4 = 0 && (year % 100 ≠ 0 || year % 400 = 0) then 29 else 28
  else if month = 4 || month = 6 || month = 9 || month = 11 then 30
  else 31

/-- The text behind a date, which must be a day of the calendar. -/
def date? (cs : List Char) : Option (List Char) := do
  let (year, cs) ← field? 4 0 9999 cs
  let (month, cs) ← field? 2 1 12 (← sign? '-' cs)
  let (_, cs) ← field? 2 1 (daysOfMonth year month) (← sign? '-' cs)
  return cs

/-- The text behind an hour and a minute. -/
def hourMinute? (cs : List Char) : Option (List Char) := do
  let (_, cs) ← field? 2 0 23 cs
  let (_, cs) ← field? 2 0 59 (← sign? ':' cs)
  return cs

/-- The text behind a time: hour, minute, second, and perhaps a fraction of a second. A minute may
have a leap second. -/
def time? (cs : List Char) : Option (List Char) := do
  let (_, cs) ← field? 2 0 60 (← sign? ':' (← hourMinute? cs))
  match cs with
  | '.' :: c :: rest => if c.isDigit then some (rest.dropWhile Char.isDigit) else none
  | _ => some cs

/-- The text behind the distance of a time from universal time, which may be left out. -/
def offset? : List Char → Option (List Char)
  | 'Z' :: cs => some cs
  | 'z' :: cs => some cs
  | '+' :: cs => hourMinute? cs
  | '-' :: cs => hourMinute? cs
  | cs => some cs

/-- Whether a word is a time, perhaps with an offset: what stands behind a date. -/
def isTimeOfDay (word : List Char) : Bool := (time? word).bind offset? = some []

/-- Whether a word is a date without a time. -/
def isDate (word : List Char) : Bool := date? word = some []

/-- Whether a word is a date with a time, or one of them alone; a time that stands alone has no
offset. -/
def isMoment (word : List Char) : Bool :=
  match date? word with
  | some [] => true
  | some ('T' :: cs) => isTimeOfDay cs
  | some ('t' :: cs) => isTimeOfDay cs
  | some _ => false
  | none => time? word = some []

/-! ### Words -/

/-- The value of a word. -/
def wordValue? (word : List Char) : Option Value :=
  let text := String.ofList word
  if text = "true" then some (.flag true)
  else if text = "false" then some (.flag false)
  else if isDecimalNumber word || isBaseNumber word || isFloatNumber word ||
      isSpecialNumber word || isMoment word then
    some (.word text)
  else none

/-- **The word at the start of a text**, and the rest. A date may be parted from its time by a
space, so that the two make one value. -/
def word? (cs : List Char) : Option (Value × List Char) :=
  let word := cs.takeWhile isWordChar
  let alone := (wordValue? word).map fun v => (v, cs.drop word.length)
  match cs.drop word.length with
  | ' ' :: rest =>
    let time := rest.takeWhile isWordChar
    if isDate word && isTimeOfDay time then
      some (.word (String.ofList (word ++ ' ' :: time)), rest.drop time.length)
    else alone
  | _ => alone

end Searchbar.Toml
