import HeaderRelay.Text.Printable

/-!
# Quoted text

Text from a peer is shown between double quotes, with everything that would not be visible on
its own written as an escape.

* `Text.escaped` — what stands for one character;
* `Text.quoted` — a whole text between quotes.
-/

namespace HeaderRelay
namespace Text

/-- The code point in hexadecimal without leading zeros, between braces. -/
def codePointEscape (c : Char) : List Char :=
  "\\u\x7b".toList ++ Nat.toDigits 16 c.toNat ++ ['\x7d']

/-- A character as it stands between double quotes. -/
def escaped (c : Char) : List Char :=
  if c = '\x00' then ['\\', '0']
  else if c = '\t' then ['\\', 't']
  else if c = '\r' then ['\\', 'r']
  else if c = '\n' then ['\\', 'n']
  else if c = '\\' then ['\\', '\\']
  else if c = '"' then ['\\', '"']
  else if isPrintable c && !isExtender c then [c]
  else codePointEscape c

def quoted (text : String) : String :=
  String.ofList ('"' :: (text.toList.flatMap escaped ++ ['"']))

end Text
end HeaderRelay
