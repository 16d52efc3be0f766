import Reclaim.Text.Digit
import Reclaim.Text.Shapeless

/-!
# Quoted texts

Reports show a text between double quotes.  The quote, the backslash and four
controls have short escapes, every other character without a shape of its own
is written by its number in hexadecimal digits, and all else stands for itself.
-/

namespace Reclaim
namespace Text

/-- A character as it stands between the quotes. -/
def quoteChar (c : Char) : List Char :=
  if c = '\x00' then ['\\', '0']
  else if c = '\t' then ['\\', 't']
  else if c = '\r' then ['\\', 'r']
  else if c = '\n' then ['\\', 'n']
  else if c = '"' then ['\\', '"']
  else if c = '\\' then ['\\', '\\']
  else if isShapeless c then
    ['\\', 'u', '\x7b'] ++ hexDigits c.toNat ++ ['\x7d']
  else [c]

/-- A text between double quotes. -/
def quoted (s : String) : String :=
  String.ofList ('"' :: s.toList.flatMap quoteChar ++ ['"'])

end Text
end Reclaim
