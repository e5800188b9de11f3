import AmpLink.Text.Printable

/-!
# Quoted texts

A text in double quotes in which every character can be seen: quotes, backslashes and the usual control
characters have escapes of their own, everything else that is not printable is given by its number.
-/

namespace AmpLink.Quoted

def escape (c : Char) : List Char :=
  if c = '\x00' then ['\\', '0']
  else if c = '\t' then ['\\', 't']
  else if c = '\r' then ['\\', 'r']
  else if c = '\n' then ['\\', 'n']
  else if c = '\\' ∨ c = '"' then ['\\', c]
  else if isPrintable c then [c]
  else '\\' :: 'u' :: '\x7b' :: (Nat.toDigits 16 c.toNat ++ ['\x7d'])

def text (s : String) : String := .ofList ('"' :: (s.toList.flatMap escape ++ ['"']))

end AmpLink.Quoted
