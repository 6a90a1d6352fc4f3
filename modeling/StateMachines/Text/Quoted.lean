import StateMachines.Number.Hexadecimal
import StateMachines.Text.Combining
import StateMachines.Text.Unprintable

/-! # Quoted text

Text between double quotes, in which a character that would not show as itself is written as an
escape. Every character of the body can be read off the page, and a quote inside it does not end it.
-/

namespace StateMachines

namespace Text

/-- A character as it stands between quotes. -/
def quotedChar (c : Char) : List Char :=
  if c = '\t' then ['\\', 't']
  else if c = '\r' then ['\\', 'r']
  else if c = '\n' then ['\\', 'n']
  else if c = '"' then ['\\', '"']
  else if c = '\\' then ['\\', '\\']
  else if c = '\x00' then ['\\', '0']
  else if isCombining c || isUnprintable c then
    ['\\', 'u', '\x7b'] ++ Hexadecimal.chars c.toNat ++ ['\x7d']
  else [c]

/-- The text between quotes, with escapes. -/
def quoted (s : String) : List Char := '"' :: s.toList.flatMap quotedChar ++ ['"']

end Text

end StateMachines
