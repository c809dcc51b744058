import ApprovalWorkflow.Json.Basic

/-!
# Writing JSON

`compact` writes a value without any blank, `pretty` with one field or item a line and two
spaces for each level. Fields are written in the order in which the object holds them, and all
characters but quotes, backslashes and control characters are written as they are.
-/

set_option autoImplicit false

namespace ApprovalWorkflow.Json

/-- One character inside a quoted string. -/
def escape (c : Char) : List Char :=
  if c = '"' then ['\\', '"']
  else if c = '\\' then ['\\', '\\']
  else if c.toNat < 32 then
    if c.toNat = 8 then ['\\', 'b']
    else if c.toNat = 9 then ['\\', 't']
    else if c.toNat = 10 then ['\\', 'n']
    else if c.toNat = 12 then ['\\', 'f']
    else if c.toNat = 13 then ['\\', 'r']
    else '\\' :: 'u' :: Text.hexDigits 4 c.toNat
  else [c]

/-- A string between quotes. -/
def quoted (s : String) : List Char :=
  '"' :: (s.toList.flatMap escape ++ ['"'])

mutual
/-- The text of a value without blanks. -/
def compactChars : Json → List Char
  | .null => ['n', 'u', 'l', 'l']
  | .bool true => ['t', 'r', 'u', 'e']
  | .bool false => ['f', 'a', 'l', 's', 'e']
  | .num n => n.render
  | .str s => quoted s
  | .arr items => '[' :: compactItems items
  | .obj fields => '{' :: compactFields fields

/-- The rest of an array, from its first item on. -/
def compactItems : List Json → List Char
  | [] => [']']
  | [v] => v.compactChars ++ [']']
  | v :: items => v.compactChars ++ ',' :: compactItems items

/-- The rest of an object, from its first field on. -/
def compactFields : List (String × Json) → List Char
  | [] => ['}']
  | [(k, v)] => quoted k ++ ':' :: (v.compactChars ++ ['}'])
  | (k, v) :: fields => quoted k ++ ':' :: (v.compactChars ++ ',' :: compactFields fields)
end

/-- The text of a value without blanks. -/
def compact (v : Json) : String :=
  String.ofList v.compactChars

/-- A line break, and the blanks of a level of nesting. -/
def breakAt (level : Nat) : List Char :=
  '\n' :: List.replicate (2 * level) ' '

mutual
/-- The text of a value that stands at a level of nesting, one field or item a line. -/
def prettyChars (level : Nat) : Json → List Char
  | .null => ['n', 'u', 'l', 'l']
  | .bool true => ['t', 'r', 'u', 'e']
  | .bool false => ['f', 'a', 'l', 's', 'e']
  | .num n => n.render
  | .str s => quoted s
  | .arr [] => ['[', ']']
  | .arr (v :: items) => '[' :: prettyItems level (v :: items)
  | .obj [] => ['{', '}']
  | .obj (f :: fields) => '{' :: prettyFields level (f :: fields)

/-- The items of an array inside `level`, each on a line of its own, and the closing line. -/
def prettyItems (level : Nat) : List Json → List Char
  | [] => breakAt level ++ [']']
  | [v] => breakAt (level + 1) ++ v.prettyChars (level + 1) ++ breakAt level ++ [']']
  | v :: items =>
    breakAt (level + 1) ++ v.prettyChars (level + 1) ++ ',' :: prettyItems level items

/-- The fields of an object inside `level`, each on a line of its own, and the closing line. -/
def prettyFields (level : Nat) : List (String × Json) → List Char
  | [] => breakAt level ++ ['}']
  | [(k, v)] =>
    breakAt (level + 1) ++ quoted k ++ ':' :: ' ' :: (v.prettyChars (level + 1) ++
      breakAt level ++ ['}'])
  | (k, v) :: fields =>
    breakAt (level + 1) ++ quoted k ++ ':' :: ' ' :: (v.prettyChars (level + 1) ++
      ',' :: prettyFields level fields)
end

/-- The text of a value, one field or item a line. -/
def pretty (v : Json) : String :=
  String.ofList (v.prettyChars 0)

mutual
/-- How deep arrays and objects are nested in a value. -/
def depth : Json → Nat
  | .arr items => depthItems items + 1
  | .obj fields => depthFields fields + 1
  | _ => 0

/-- The deepest nesting among values. -/
def depthItems : List Json → Nat
  | [] => 0
  | v :: items => max v.depth (depthItems items)

/-- The deepest nesting among the values of fields. -/
def depthFields : List (String × Json) → Nat
  | [] => 0
  | (_, v) :: fields => max v.depth (depthFields fields)
end

end ApprovalWorkflow.Json
