import TapeMachine.Text.Decimal
/-!
# JSON texts

The values that a description is made of, and their texts: one without any layout and one with a
line for each entry. The fields of a record keep their order.
-/
namespace TapeMachine

/-- A JSON value without null, truth values and fractions. -/
inductive Json
  | number (n : Nat)
  | text (content : List Char)
  | list (items : List Json)
  | record (fields : List (List Char × Json))

namespace Json

/-- How a character is written inside a text. This is decided by the library that writes JSON, which
is not part of this one. -/
class Escaping where
  escape : Char → List Char

variable [Escaping]

def literal (content : List Char) : List Char :=
  '"' :: content.flatMap Escaping.escape ++ ['"']

mutual
def compact : Json → List Char
  | number n => Text.decimal n
  | text content => literal content
  | list items => '[' :: compactItems items ++ [']']
  | record fields => '\x7b' :: compactFields fields ++ ['\x7d']

def compactItems : List Json → List Char
  | [] => []
  | [item] => compact item
  | item :: rest => compact item ++ ',' :: compactItems rest

def compactFields : List (List Char × Json) → List Char
  | [] => []
  | [(key, value)] => literal key ++ ':' :: compact value
  | (key, value) :: rest => literal key ++ ':' :: compact value ++ ',' :: compactFields rest
end

def newline (level : Nat) : List Char := '\n' :: List.replicate (2 * level) ' '

mutual
/-- The text with a line for each entry, inside `level` brackets. -/
def pretty (level : Nat) : Json → List Char
  | number n => Text.decimal n
  | text content => literal content
  | list [] => ['[', ']']
  | list items => '[' :: prettyItems (level + 1) items ++ newline level ++ [']']
  | record [] => ['\x7b', '\x7d']
  | record fields => '\x7b' :: prettyFields (level + 1) fields ++ newline level ++ ['\x7d']

def prettyItems (level : Nat) : List Json → List Char
  | [] => []
  | [item] => newline level ++ pretty level item
  | item :: rest => newline level ++ pretty level item ++ ',' :: prettyItems level rest

def prettyFields (level : Nat) : List (List Char × Json) → List Char
  | [] => []
  | [(key, value)] => newline level ++ literal key ++ ':' :: ' ' :: pretty level value
  | (key, value) :: rest =>
    newline level ++ literal key ++ ':' :: ' ' :: pretty level value ++
      ',' :: prettyFields level rest
end

end Json

end TapeMachine
