import RichDoc.Text.Printable

/-!
# Text quoted in messages

A message that shows a text a reader found puts it between quotes and
escapes what would not show: the quote and the backslash, the usual
control characters by a letter, and every other character that is not
printable by its number.
-/

namespace RichDoc.Text

/-- A character as it is shown between quotes. -/
def showChar (c : Char) : List Char :=
  if c = '"' then ['\\', '"']
  else if c = '\\' then ['\\', '\\']
  else if c = '\n' then ['\\', 'n']
  else if c = '\r' then ['\\', 'r']
  else if c = '\t' then ['\\', 't']
  else if c.toNat = 0 then ['\\', '0']
  else if isPrintable c then [c]
  else ['\\', 'u', '\x7b'] ++ Nat.toDigits 16 c.toNat ++ ['\x7d']

/-- The text between quotes. -/
def quoted (text : String) : String :=
  String.ofList ('"' :: (text.toList.flatMap showChar ++ ['"']))

end RichDoc.Text
