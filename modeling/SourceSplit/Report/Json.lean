/-!
# SourceSplit.Report.Json

JSON values (RFC 8259) with natural numbers, and their text over several lines: members and
elements stand one to a line, two spaces deeper than what holds them.
-/

namespace SourceSplit
namespace Report

inductive Json where
  | null
  | bool (value : Bool)
  | number (value : Nat)
  | text (value : String)
  | array (elements : List Json)
  | object (members : List (String × Json))
  deriving Repr

namespace Json

/-- Quote, backslash and the controls are escaped, a control without a letter by its number. -/
def escaped (c : Char) : List Char :=
  if c = '"' then ['\\', '"']
  else if c = '\\' then ['\\', '\\']
  else if c = '\x08' then ['\\', 'b']
  else if c = '\x0c' then ['\\', 'f']
  else if c = '\n' then ['\\', 'n']
  else if c = '\r' then ['\\', 'r']
  else if c = '\t' then ['\\', 't']
  else if c.toNat < 0x20 then
    ['\\', 'u', '0', '0', Nat.digitChar (c.toNat / 16), Nat.digitChar (c.toNat % 16)]
  else [c]

def quoted (text : String) : List Char :=
  '"' :: text.toList.flatMap escaped ++ ['"']

def newline (level : Nat) : List Char :=
  '\n' :: List.replicate (2 * level) ' '

mutual

def chars (level : Nat) : Json → List Char
  | .null => "null".toList
  | .bool true => "true".toList
  | .bool false => "false".toList
  | .number value => Nat.toDigits 10 value
  | .text value => quoted value
  | .array [] => ['[', ']']
  | .array (first :: rest) =>
    '[' :: (newline (level + 1) ++ chars (level + 1) first ++ elementChars (level + 1) rest ++
      newline level ++ [']'])
  | .object [] => ['\x7b', '\x7d']
  | .object ((key, first) :: rest) =>
    '\x7b' :: (newline (level + 1) ++ quoted key ++ [':', ' '] ++ chars (level + 1) first ++
      memberChars (level + 1) rest ++ newline level ++ ['\x7d'])

def elementChars (level : Nat) : List Json → List Char
  | [] => []
  | element :: rest =>
    ',' :: (newline level ++ chars level element ++ elementChars level rest)

def memberChars (level : Nat) : List (String × Json) → List Char
  | [] => []
  | (key, value) :: rest =>
    ',' :: (newline level ++ quoted key ++ [':', ' '] ++ chars level value ++
      memberChars level rest)

end

def pretty (json : Json) : String :=
  String.ofList (chars 0 json)

end Json
end Report
end SourceSplit
