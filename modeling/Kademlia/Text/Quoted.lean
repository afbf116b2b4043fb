import Kademlia.Text.Unprintable

/-!
# Quoted text

How messages show a character or a text that came from outside: between quotes, with the quote itself, the backslash and four
controls escaped by a letter, and every other unprintable character written by its code point in hexadecimal. A text stands in
double quotes and leaves single ones plain, a character stands in single quotes and leaves double ones plain.
-/

namespace Kademlia.Text.Quoted

/-- One character as it stands between two `quote`s. -/
def escape (quote c : Char) : List Char :=
  if c = '\x00' then ['\\', '0']
  else if c = '\t' then ['\\', 't']
  else if c = '\r' then ['\\', 'r']
  else if c = '\n' then ['\\', 'n']
  else if c = '\\' ∨ c = quote then ['\\', c]
  else if isUnprintable c then ['\\', 'u', '\x7b'] ++ Nat.toDigits 16 c.toNat ++ ['\x7d']
  else [c]

/-- A character in single quotes. -/
def char (c : Char) : String := String.ofList ('\'' :: escape '\'' c ++ ['\''])

/-- A text in double quotes. -/
def text (s : String) : String := String.ofList ('"' :: s.toList.flatMap (escape '"') ++ ['"'])

example : escape '\'' '\'' = ['\\', '\''] ∧ escape '\'' '"' = ['"'] := by decide

example : escape '"' '\x1b' = ['\\', 'u', '\x7b', '1', 'b', '\x7d'] := by decide +kernel

example : escape '"' 'é' = ['é'] ∧ escape '"' '\u0301' = ['\\', 'u', '\x7b', '3', '0', '1', '\x7d'] := by decide +kernel

end Kademlia.Text.Quoted
