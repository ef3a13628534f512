import WriteBuffer.Text.Hidden

/-!
Text in double quotes. A quote, a backslash and the usual controls have escapes of two characters;
every other character that would not be seen is written as its code point in braces.
-/
namespace WriteBuffer.Text

/-- A character as it stands between quotes. -/
def quotedChar (c : Char) : List Char :=
  if c = '\x00' then ['\\', '0']
  else if c = '\t' then ['\\', 't']
  else if c = '\n' then ['\\', 'n']
  else if c = '\r' then ['\\', 'r']
  else if c = '"' then ['\\', '"']
  else if c = '\\' then ['\\', '\\']
  else if isHidden c then ['\\', 'u', '\x7b'] ++ Nat.toDigits 16 c.toNat ++ ['\x7d']
  else [c]

def quoted (text : List Char) : List Char := '"' :: (text.flatMap quotedChar ++ ['"'])

end WriteBuffer.Text
