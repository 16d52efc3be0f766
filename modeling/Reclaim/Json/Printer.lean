import Reclaim.Decimal.Shortest
import Reclaim.Json.Basic
import Reclaim.Text.Digit

/-!
# Printing JSON

Values are printed without blanks.  In strings the quote, the backslash and the
control characters are escaped and all else stands for itself; binary numbers
are printed with the fewest digits that read back.
-/

namespace Reclaim
namespace Json

/-- Binary numbers are positional for the exponents from -5 to 15. -/
def numberLayout : Decimal.Layout := ⟨-5, 15, "+"⟩

/-- A character inside a string. -/
def escapeChar (c : Char) : List Char :=
  if c = '"' then ['\\', '"']
  else if c = '\\' then ['\\', '\\']
  else if c = '\x08' then ['\\', 'b']
  else if c = '\x0c' then ['\\', 'f']
  else if c = '\n' then ['\\', 'n']
  else if c = '\r' then ['\\', 'r']
  else if c = '\t' then ['\\', 't']
  else if c.toNat < 0x20 then
    ['\\', 'u', '0', '0', Text.hexDigit (c.toNat / 16),
      Text.hexDigit (c.toNat % 16)]
  else [c]

/-- A string between quotes. -/
def printString (s : String) : List Char :=
  '"' :: s.toList.flatMap escapeChar ++ ['"']

/-- A number. -/
def printNumber : Number → List Char
  | .integer n => (toString n).toList
  | .float x => numberLayout.render x

mutual

/-- A value. -/
def printValue : Value → List Char
  | .null => ['n', 'u', 'l', 'l']
  | .bool true => ['t', 'r', 'u', 'e']
  | .bool false => ['f', 'a', 'l', 's', 'e']
  | .number n => printNumber n
  | .string s => printString s
  | .array xs => '[' :: printItems xs
  | .object ms => '\x7b' :: printMembers ms

/-- The items of a list and the closing bracket. -/
def printItems : List Value → List Char
  | [] => [']']
  | x :: xs => printValue x ++ printFurtherItems xs

/-- The items after the first one and the closing bracket. -/
def printFurtherItems : List Value → List Char
  | [] => [']']
  | x :: xs => ',' :: (printValue x ++ printFurtherItems xs)

/-- The members of an object and the closing brace. -/
def printMembers : List (String × Value) → List Char
  | [] => ['\x7d']
  | (n, v) :: ms =>
      printString n ++ ':' :: (printValue v ++ printFurtherMembers ms)

/-- The members after the first one and the closing brace. -/
def printFurtherMembers : List (String × Value) → List Char
  | [] => ['\x7d']
  | (n, v) :: ms =>
      ',' :: (printString n ++ ':' :: (printValue v ++ printFurtherMembers ms))

end

/-- The text of a value. -/
def Value.text (v : Value) : String :=
  String.ofList (printValue v)

end Json
end Reclaim
