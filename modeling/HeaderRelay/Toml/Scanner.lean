/-!
# Scanning text

A scanner takes a value off the front of a list of characters or fails. A choice that fails has
consumed nothing.

* `Scanner` — the type;
* `Scanner.satisfying`, `Scanner.char`, `Scanner.keyword` — single characters and fixed words;
* `Scanner.many`, `Scanner.separated` — repetition;
* `Scanner.runAll` — the value of a whole text.
-/

namespace HeaderRelay

abbrev Scanner : Type → Type :=
  StateT (List Char) Option

namespace Scanner

variable {α β : Type}

/-! ## Characters -/

def fail : Scanner α :=
  fun _ => none

/-- The next character, left where it is; `none` at the end. -/
def peek? : Scanner (Option Char) :=
  return (← get).head?

def satisfying (p : Char → Bool) : Scanner Char
  | c :: rest => if p c then some (c, rest) else none
  | [] => none

def char (c : Char) : Scanner Unit := do
  let _ ← satisfying (· == c)
  return ()

/-- All characters from here on that satisfy `p`, maybe none. -/
def skipWhile (p : Char → Bool) : Scanner Unit :=
  modify (·.dropWhile p)

/-- The characters of `word`, in a row. -/
def keyword (word : String) : Scanner Unit := fun s =>
  if word.toList.isPrefixOf s then some ((), s.drop word.toList.length) else none

/-- Succeeds at the end of the text only. -/
def atEnd : Scanner Unit
  | [] => some ((), [])
  | _ :: _ => none

/-! ## Choice and repetition -/

/-- Results of `step` after those in `acc`, until it fails, but `fuel` more at most. -/
def manyFrom (step : Scanner α) : (fuel : Nat) → (acc : Array α) → Scanner (List α)
  | 0, acc => return acc.toList
  | fuel + 1, acc => fun s =>
      match step s with
      | none => some (acc.toList, s)
      | some (a, rest) => manyFrom step fuel (acc.push a) rest

/-- As many results as there are, for a `step` that uses up a character at least. -/
def many (step : Scanner α) : Scanner (List α) := fun s =>
  manyFrom step s.length #[] s

def many1 (step : Scanner α) : Scanner (List α) := do
  let first ← step
  let rest ← many step
  return first :: rest

/-- One result at least, with a separator between each two. -/
def separated1 (step : Scanner α) (separator : Scanner β) : Scanner (List α) := do
  let first ← step
  let rest ← many (do let _ ← separator; step)
  return first :: rest

/-- Results with a separator between each two, maybe none. -/
def separated (step : Scanner α) (separator : Scanner β) : Scanner (List α) :=
  separated1 step separator <|> pure []

/-- Exactly `count` results. -/
def times (step : Scanner α) : (count : Nat) → Scanner (List α)
  | 0 => return []
  | count + 1 => do
      let first ← step
      let rest ← times step count
      return first :: rest

/-- The value of a text of which nothing is left over. -/
def runAll (step : Scanner α) (text : String) : Option α :=
  match step text.toList with
  | some (a, []) => some a
  | _ => none

end Scanner
end HeaderRelay
