import MailSieve.Text.Lowercase
import MailSieve.Text.VisibleTable

/-!
# Text made visible

Text in double quotes, with escapes for quotes, backslashes and the characters
that have no visible form of their own.
-/

namespace MailSieve.Text

def visibleChar (c : Char) : List Char :=
  if c = '"' then ['\\', '"']
  else if c = '\\' then ['\\', '\\']
  else if c = '\n' then ['\\', 'n']
  else if c = '\r' then ['\\', 'r']
  else if c = '\t' then ['\\', 't']
  else if c.toNat = 0 then ['\\', '0']
  else if inRanges invisibleRanges c then
    ['\\', 'u', '\x7b'] ++ Nat.toDigits 16 c.toNat ++ ['\x7d']
  else [c]

def visible (s : String) : String :=
  String.ofList ('"' :: s.toList.flatMap visibleChar ++ ['"'])

end MailSieve.Text
