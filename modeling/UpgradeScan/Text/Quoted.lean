/-
`Text/Quoted.lean` -- a text between double quotes, for messages.

The quote, the backslash and four controls have a letter after a backslash; a hidden character is
written as its code point in hexadecimal between braces; all else stands for itself.

So a message shows every text in one line, and two texts that look alike are shown differently where
a hidden character is what makes the difference.
-/
import UpgradeScan.Text.Hidden

set_option autoImplicit false

namespace UpgradeScan.Text

/-- One character inside the quotes. -/
def quoteChar (c : Char) : List Char :=
  if c = '\x00' then ['\\', '0']
  else if c = '\t' then ['\\', 't']
  else if c = '\r' then ['\\', 'r']
  else if c = '\n' then ['\\', 'n']
  else if c = '"' then ['\\', '"']
  else if c = '\\' then ['\\', '\\']
  else if isHidden c then ['\\', 'u', '\x7b'] ++ Nat.toDigits 16 c.toNat ++ ['\x7d']
  else [c]

/-- The text between quotes. -/
def quoted (s : String) : String :=
  String.ofList ('"' :: (s.toList.flatMap quoteChar ++ ['"']))

end UpgradeScan.Text
