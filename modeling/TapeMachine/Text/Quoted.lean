import TapeMachine.Text.Printable
/-!
# Quoted texts

A text in double quotes: the quote, the backslash and four controls have a short escape, any other
character that does not show is written by its code point in hexadecimal. Between single quotes a
text stands as it is.
-/
namespace TapeMachine.Text

/-- A text between single quotes, as it stands in messages. -/
def inQuotes (text : List Char) : String := "'" ++ String.ofList text ++ "'"

def escaped (c : Char) : List Char :=
  if c = '\x00' then ['\\', '0']
  else if c = '\t' then ['\\', 't']
  else if c = '\r' then ['\\', 'r']
  else if c = '\n' then ['\\', 'n']
  else if c = '\\' ∨ c = '"' then ['\\', c]
  else if isPrintable c then [c]
  else ['\\', 'u', '\x7b'] ++ Nat.toDigits 16 c.toNat ++ ['\x7d']

def quoted (text : List Char) : List Char := '"' :: text.flatMap escaped ++ ['"']

/-- Quoted texts in brackets, with a comma and a space between two of them. -/
def quotedList (texts : List (List Char)) : List Char :=
  '[' :: List.intercalate [',', ' '] (texts.map quoted) ++ [']']

example : quoted ['a', '"', '\n', '\x7f'] =
    ['"', 'a', '\\', '"', '\\', 'n', '\\', 'u', '\x7b', '7', 'f', '\x7d', '"'] := by decide

end TapeMachine.Text
