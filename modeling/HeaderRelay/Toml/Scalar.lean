import HeaderRelay.Toml.Item
import HeaderRelay.Toml.Scanner

/-!
# Keys and single values

* `Toml.basicString`, `Toml.literalString` and their many-line forms;
* `Toml.keyPath` — the parts of a key with dots in it;
* `Toml.number`, `Toml.dateTime`, `Toml.boolean`;
* `Toml.scalar` — any value that holds no other.
-/

namespace HeaderRelay
namespace Toml

open Scanner

/-! ## Blank space and comments -/

def isBlank (c : Char) : Bool :=
  c == ' ' || c == '\t'

def blanks : Scanner Unit :=
  skipWhile isBlank

def newline : Scanner Unit :=
  keyword "\n" <|> keyword "\r\n"

/-- Visible characters, blanks and everything beyond the first 128 code points. -/
def isText (c : Char) : Bool :=
  c == '\t' || (0x20 ≤ c.toNat && c.toNat ≠ 0x7F)

/-- From a number sign to the end of its line. -/
def comment : Scanner Unit := do
  char '#'
  skipWhile isText

/-- The end of a line or of the text. -/
def lineEnd : Scanner Unit :=
  newline <|> atEnd

/-- Nothing more on this line but a comment. -/
def trailing : Scanner Unit := do
  blanks
  let _ ← optional comment
  lineEnd

/-- Blanks, comments and line ends, as many as there are. -/
def gap : Scanner Unit := do
  let _ ← many (newline <|> comment <|> (do let _ ← satisfying isBlank; return ()))
  return ()

/-! ## Strings -/

def hexValue? (c : Char) : Option Nat :=
  if c.isDigit then some (c.toNat - '0'.toNat)
  else if 'a' ≤ c ∧ c ≤ 'f' then some (c.toNat - 'a'.toNat + 10)
  else if 'A' ≤ c ∧ c ≤ 'F' then some (c.toNat - 'A'.toNat + 10)
  else none

/-- The character whose code point is spelled by `count` hex digits. -/
def codePoint (count : Nat) : Scanner Char := do
  let digits ← times (satisfying fun c => (hexValue? c).isSome) count
  let n := digits.foldl (fun n c => 16 * n + (hexValue? c).getD 0) 0
  if h : n.isValidChar then
    return Char.ofNatAux n h
  else
    fail

/-- What follows a backslash in a basic string. -/
def escape : Scanner Char := do
  char '\\'
  let c ← satisfying fun _ => true
  match c with
  | 'b' => return '\x08'
  | 't' => return '\t'
  | 'n' => return '\n'
  | 'f' => return '\x0c'
  | 'r' => return '\r'
  | '"' => return '"'
  | '\\' => return '\\'
  | 'u' => codePoint 4
  | 'U' => codePoint 8
  | _ => fail

def basicChar : Scanner Char :=
  satisfying (fun c => isText c && c != '"' && c != '\\') <|> escape

def literalChar : Scanner Char :=
  satisfying (fun c => isText c && c != '\'')

/-- Characters between two `quote`s on one line. -/
def lineString (quote : Char) (element : Scanner Char) : Scanner String := do
  char quote
  let chars ← many element
  char quote
  return String.ofList chars

def basicString : Scanner String :=
  lineString '"' basicChar

def literalString : Scanner String :=
  lineString '\'' literalChar

/-- How many times `quote` stands here in a row. -/
def quoteRun (quote : Char) : Scanner Nat :=
  return ((← get).takeWhile (· == quote)).length

/-- One or two quotes that do not end the string. -/
def innerQuotes (quote : Char) : Scanner (List Char) := do
  let n ← quoteRun quote
  if n = 1 ∨ n = 2 then
    modify (·.drop n)
    return List.replicate n quote
  else
    fail

/-- Three quotes that end the string, and up to two before them that belong to it. -/
def closingQuotes (quote : Char) : Scanner (List Char) := do
  let n := min (← quoteRun quote) 5
  if 3 ≤ n then
    modify (·.drop n)
    return List.replicate (n - 3) quote
  else
    fail

/-- A line end in a string counts as a line feed. -/
def innerNewline : Scanner (List Char) := do
  newline
  return ['\n']

/-- A backslash at the end of a line joins it to the next text, however far down. -/
def lineJoin : Scanner (List Char) := do
  char '\\'
  blanks
  newline
  let _ ← many (newline <|> (do let _ ← satisfying isBlank; return ()))
  return []

/-- Text between three quotes on either side; a line end right after the first three is
dropped. -/
def blockString (quote : Char) (element : Scanner (List Char)) : Scanner String := do
  keyword (String.ofList [quote, quote, quote])
  let _ ← optional newline
  let parts ← many (element <|> innerNewline <|> innerQuotes quote)
  let last ← closingQuotes quote
  return String.ofList (parts.flatten ++ last)

def basicBlock : Scanner String :=
  blockString '"' (lineJoin <|> (do return [← basicChar]))

def literalBlock : Scanner String :=
  blockString '\'' (do return [← literalChar])

def anyString : Scanner String :=
  basicBlock <|> basicString <|> literalBlock <|> literalString

/-! ## Keys -/

def isBareKey (c : Char) : Bool :=
  c.isAlphanum || c == '-' || c == '_'

/-- One part of a key. -/
def keyPart : Scanner String :=
  basicString <|> literalString <|> (do return String.ofList (← many1 (satisfying isBareKey)))

/-- Values nest less deep than this, and keys have fewer parts. -/
def nestingLimit : Nat := 80

/-- The parts of a key before its last, and the last. Blanks may surround the dots. -/
def keyPath : Scanner (List String × String) := do
  let parts ← separated1 (do blanks; let part ← keyPart; blanks; return part) (char '.')
  if parts.length < nestingLimit then
    match parts.getLast? with
    | some last => return (parts.dropLast, last)
    | none => fail
  else
    fail

/-! ## Numbers -/

def isBinary (c : Char) : Bool :=
  c == '0' || c == '1'

def isOctal (c : Char) : Bool :=
  '0' ≤ c && c ≤ '7'

/-- Digits, between any two of which an underscore may stand. -/
def digits (isDigit : Char → Bool) : Scanner (List Char) := do
  let first ← satisfying isDigit
  let rest ← many (satisfying isDigit <|> (do char '_'; satisfying isDigit))
  return first :: rest

def sign : Scanner (List Char) := do
  match ← optional (satisfying fun c => c == '+' || c == '-') with
  | some c => return [c]
  | none => return []

/-- Digits without a leading zero. -/
def wholePart : Scanner (List Char) := do
  match ← peek? with
  | some '0' => return [← satisfying (· == '0')]
  | _ => digits Char.isDigit

def valueIn (base : Nat) (digits : List Char) : Nat :=
  digits.foldl (fun n c => base * n + (hexValue? c).getD 0) 0

/-- Integers have 64 bits with a sign. -/
def ranged (n : Int) : Scanner Int :=
  if -9223372036854775808 ≤ n ∧ n ≤ 9223372036854775807 then pure n else fail

def basedInteger (mark : String) (base : Nat) (isDigit : Char → Bool) : Scanner Int := do
  keyword mark
  ranged (valueIn base (← digits isDigit))

def decimalInteger : Scanner Int := do
  let s ← sign
  let n := valueIn 10 (← wholePart)
  ranged (if s = ['-'] then -(n : Int) else n)

def integer : Scanner Int := do
  match (← get).take 2 with
  | ['0', 'x'] => basedInteger "0x" 16 fun c => (hexValue? c).isSome
  | ['0', 'o'] => basedInteger "0o" 8 isOctal
  | ['0', 'b'] => basedInteger "0b" 2 isBinary
  | _ => decimalInteger

/-- The mark, sign and digits of an exponent. -/
def exponent : Scanner (List Char × List Char) := do
  let _ ← satisfying fun c => c == 'e' || c == 'E'
  let s ← sign
  return (s, ← digits Char.isDigit)

def fraction : Scanner (List Char) := do
  char '.'
  digits Char.isDigit

/-- Whether `n`, with its point moved `e` places to the right, rounds to infinity among the
binary numbers of 64 bits. That is so from halfway between the largest of them and the next
power of two. -/
def overflows (n : Nat) (e : Int) : Bool :=
  let size : Int := (Nat.toDigits 10 n).length + e
  if n = 0 ∨ size < 300 then
    false
  else if 320 < size then
    true
  else
    let halfway := Nat.pow 2 1024 - Nat.pow 2 970
    let scale := Nat.pow 10 e.natAbs
    if e < 0 then halfway * scale ≤ n else halfway ≤ n * scale

/-- A number with a fraction, an exponent or both, as written without its underscores. One that
is too large for 64 bits is refused unless it is negative. -/
def decimalFloat : Scanner String := do
  let s ← sign
  let whole ← wholePart
  let frac ← optional fraction
  let exp ← optional exponent
  if frac.isNone ∧ exp.isNone then
    fail
  else
    let fracDigits := frac.getD []
    let (expSign, expDigits) := exp.getD ([], ['0'])
    let power : Int := valueIn 10 expDigits
    let e := (if expSign = ['-'] then -power else power) - fracDigits.length
    if s ≠ ['-'] ∧ overflows (valueIn 10 (whole ++ fracDigits)) e then
      fail
    else
      return String.ofList (s ++ whole ++ '.' :: fracDigits ++ 'e' :: expSign ++ expDigits)

/-- Infinity and not-a-number. -/
def specialFloat : Scanner String := do
  let s ← sign
  let word ← (do keyword "inf"; return "inf") <|> (do keyword "nan"; return "nan")
  return String.ofList s ++ word

/-! ## Dates and times -/

/-- A number of `count` digits between `low` and `high`. -/
def fixedNumber (count low high : Nat) : Scanner Nat := do
  let n := valueIn 10 (← times (satisfying Char.isDigit) count)
  if low ≤ n ∧ n ≤ high then return n else fail

def daysIn (year month : Nat) : Nat :=
  if month = 2 then
    if year % 4 = 0 ∧ (year % 100 ≠ 0 ∨ year % 400 = 0) then 29 else 28
  else if month = 4 ∨ month = 6 ∨ month = 9 ∨ month = 11 then 30
  else 31

def date : Scanner Unit := do
  let year ← fixedNumber 4 0 9999
  char '-'
  let month ← fixedNumber 2 1 12
  char '-'
  let _ ← fixedNumber 2 1 (daysIn year month)
  return ()

/-- Minutes have sixty seconds, or sixty-one. -/
def time : Scanner Unit := do
  let _ ← fixedNumber 2 0 23
  char ':'
  let _ ← fixedNumber 2 0 59
  char ':'
  let _ ← fixedNumber 2 0 60
  let _ ← optional (do char '.'; many1 (satisfying Char.isDigit))
  return ()

def zone : Scanner Unit :=
  (do let _ ← satisfying fun c => c == 'Z' || c == 'z'; return ()) <|> (do
    let _ ← satisfying fun c => c == '+' || c == '-'
    let _ ← fixedNumber 2 0 23
    char ':'
    let _ ← fixedNumber 2 0 59
    return ())

/-- A date, a time, or both with a zone or without. -/
def dateTime : Scanner String := do
  let before ← get
  (do
    date
    let _ ← optional (do
      let _ ← satisfying fun c => c == 'T' || c == 't' || c == ' '
      time
      optional zone)
    return ()) <|> time
  let after ← get
  return String.ofList (before.take (before.length - after.length))

/-! ## Values -/

def boolean : Scanner Bool :=
  (do keyword "true"; return true) <|> (do keyword "false"; return false)

/-- A value that holds no other. -/
def scalar : Scanner Item :=
  (do return .string (← anyString)) <|>
    (do return .dateTime (← dateTime)) <|>
    (do return .float (← decimalFloat <|> specialFloat)) <|>
    (do return .integer (← integer)) <|>
    (do return .boolean (← boolean))

end Toml
end HeaderRelay
