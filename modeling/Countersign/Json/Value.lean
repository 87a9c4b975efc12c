/-
# JSON values

A value of JSON, and how it is written: over several lines, with two blanks for each level, and
members in the order they have.

Strings are texts, but JSON can write half of a surrogate pair, which is no text. Such a string is
kept as one whose text is missing.

Key definitions: `JsonValue`, `JsonValue.quote`, `JsonValue.pretty`.
-/

namespace Countersign

/-- A value of JSON; a number is kept as it is written. -/
inductive JsonValue where
  | null
  | bool (b : Bool)
  | number (text : String)
  | string (text : Option String)
  | array (items : List JsonValue)
  | object (members : List (Option String × JsonValue))
  deriving Inhabited

namespace JsonValue

/-- A string. -/
def text (s : String) : JsonValue := .string (some s)

/-- A number. -/
def nat (n : Nat) : JsonValue := .number (Nat.repr n)

/-- An object. -/
def record (members : List (String × JsonValue)) : JsonValue :=
  .object (members.map fun m => (some m.1, m.2))

/-- The lower-case digit of a number below sixteen. -/
def hexDigit (n : Nat) : Char := "0123456789abcdef".toList.getD n '0'

/-- How a character is written in a string. -/
def escape (c : Char) : List Char :=
  match c with
  | '"' => ['\\', '"']
  | '\\' => ['\\', '\\']
  | '\x08' => ['\\', 'b']
  | '\x0c' => ['\\', 'f']
  | '\n' => ['\\', 'n']
  | '\r' => ['\\', 'r']
  | '\t' => ['\\', 't']
  | c =>
    if c.toNat < 32 then ['\\', 'u', '0', '0', hexDigit (c.toNat / 16), hexDigit (c.toNat % 16)]
    else [c]

/-- A string in quotes; one that is no text is written as the replacement character. -/
def quote (s : Option String) : String :=
  String.ofList ('"' :: ((s.getD "\ufffd").toList.flatMap escape ++ ['"']))

/-- The start of a line at a level. -/
def indent (level : Nat) : String := String.ofList ('\n' :: List.replicate (2 * level) ' ')

/-- Lines in brackets, each but the last with a comma. -/
def bracket (opening closing : String) (level : Nat) (lines : List String) : String :=
  if lines.isEmpty then opening ++ closing
  else
    opening ++ ",".intercalate (lines.map (indent (level + 1) ++ ·)) ++ indent level ++ closing

mutual

/-- The value written over several lines, from a level. -/
def pretty (level : Nat) : JsonValue → String
  | .null => "null"
  | .bool true => "true"
  | .bool false => "false"
  | .number t => t
  | .string s => quote s
  | .array items => bracket "[" "]" level (prettyItems (level + 1) items)
  | .object members => bracket "\x7b" "\x7d" level (prettyMembers (level + 1) members)
termination_by structural t => t

/-- Items, each from a level. -/
def prettyItems (level : Nat) : List JsonValue → List String
  | [] => []
  | v :: vs => pretty level v :: prettyItems level vs
termination_by structural t => t

/-- Members, each from a level. -/
def prettyMembers (level : Nat) : List (Option String × JsonValue) → List String
  | [] => []
  | (k, v) :: ms => (quote k ++ ": " ++ pretty level v) :: prettyMembers level ms
termination_by structural t => t

end

end JsonValue
end Countersign
