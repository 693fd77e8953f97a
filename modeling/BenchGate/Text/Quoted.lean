import BenchGate.Text.Invisible

/-!
# Quoted text in messages

A message shows a path or a text between quotes, so that its ends and its blanks can be seen. The
quote and the backslash are preceded by a backslash, the common controls have a letter, and any
other character that does not show is written as its hexadecimal number in braces.
-/

namespace BenchGate

/-- A character as it stands between quotes. -/
def quotedChar (c : Char) : List Char :=
  if c = '"' then ['\\', '"']
  else if c = '\\' then ['\\', '\\']
  else if c = '\x00' then ['\\', '0']
  else if c = '\t' then ['\\', 't']
  else if c = '\n' then ['\\', 'n']
  else if c = '\r' then ['\\', 'r']
  else if isInvisible c then '\\' :: 'u' :: '{' :: Nat.toDigits 16 c.toNat ++ ['}']
  else [c]

/-- A text between quotes. -/
def quotedText (s : String) : String := String.ofList ('"' :: s.toList.flatMap quotedChar ++ ['"'])

end BenchGate
