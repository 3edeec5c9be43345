import SourceSplit.Toml.Quoted
import SourceSplit.Toml.Scalar

/-!
# SourceSplit.Toml.Document

Reading a TOML document (version 1.0) into its members. A document is read line by line into what
each line does; the tables are put together from that. There is only one way to fail: a text is a
document or it is not.
-/

namespace SourceSplit
namespace Toml

abbrev Reader (α : Type) := List Char → Option (α × List Char)

/-- Reads again and again as long as the reader fits and takes something. -/
def many {α : Type} (read : Reader α) (cs : List Char) : List α × List Char :=
  match read cs with
  | some (a, rest) =>
    if rest.length < cs.length then
      let (as, rest) := many read rest
      (a :: as, rest)
    else ([], cs)
  | none => ([], cs)
termination_by cs.length

def isSpace (c : Char) : Bool :=
  c = ' ' || c = '\t'

def dropSpaces (cs : List Char) : List Char :=
  cs.dropWhile isSpace

def isBareKeyChar (c : Char) : Bool :=
  c.isAlphanum || c = '-' || c = '_'

def simpleKey : Reader String
  | '"' :: rest => basic [] rest
  | '\x27' :: rest => literal [] rest
  | cs =>
    match cs.takeWhile isBareKeyChar with
    | [] => none
    | key => some (String.ofList key, cs.dropWhile isBareKeyChar)

def spacedKey : Reader String :=
  fun cs => (simpleKey (dropSpaces cs)).map fun (key, rest) => (key, dropSpaces rest)

def dottedKey : Reader String
  | '.' :: rest => spacedKey rest
  | _ => none

/-- Keys and nested values may not go this deep. -/
def depthLimit : Nat := 80

def keyPath : Reader KeyPath :=
  fun cs =>
    match spacedKey cs with
    | none => none
    | some (key, rest) =>
      let (keys, rest) := many dottedKey rest
      if keys.length + 1 < depthLimit then
        some (⟨(key :: keys).dropLast, (key :: keys).getLast (by simp)⟩, rest)
      else none

/-- Drops blanks, line ends and comments, as they may stand between the items of an array. -/
def dropGap (inComment : Bool) : List Char → List Char
  | '\n' :: rest => dropGap false rest
  | '\r' :: '\n' :: rest => dropGap false rest
  | '#' :: rest => dropGap true rest
  | c :: rest =>
    if if inComment then isPlain c else isSpace c then dropGap inComment rest else c :: rest
  | [] => []

def item (value : Reader Value) : Reader Value :=
  fun cs =>
    (value (dropGap false cs)).map fun (v, rest) => (v, dropGap false rest)

/-- A reader behind a comma. -/
def afterComma {α : Type} (read : Reader α) : Reader α
  | ',' :: rest => read rest
  | _ => none

def dropComma : List Char → List Char
  | ',' :: rest => rest
  | cs => cs

/-- Items between commas, the last one with or without a comma, up to the closing bracket. -/
def arrayRest (value : Reader Value) : Reader Value :=
  fun cs =>
    let (items, rest) :=
      match item value cs with
      | none => ([], cs)
      | some (first, rest) =>
        let (items, rest) := many (afterComma (item value)) rest
        (first :: items, dropComma rest)
    match dropGap false rest with
    | ']' :: rest => some (.array items, rest)
    | _ => none

/-- A key with its value. -/
def member (value : Reader Value) : Reader (KeyPath × Value) :=
  fun cs =>
    match keyPath cs with
    | some (key, '=' :: rest) =>
      (value (dropSpaces rest)).map fun (v, rest) => ((key, v), dropSpaces rest)
    | _ => none

/-- Members between commas on one line, up to the closing brace. -/
def inlineRest (value : Reader Value) : Reader Value :=
  fun cs =>
    let (members, rest) :=
      match member value cs with
      | none => ([], cs)
      | some (first, rest) =>
        let (members, rest) := many (afterComma (member value)) rest
        (first :: members, rest)
    match dropSpaces rest with
    | '\x7d' :: rest => (inlineTable? members).map (·, rest)
    | _ => none

def leaf : Reader Value :=
  fun cs =>
    match cs with
    | '"' :: _ | '\x27' :: _ => (quoted? cs).map fun (text, rest) => (.text text, rest)
    | _ => scalar? cs

def value : (depth : Nat) → Reader Value
  | 0 => leaf
  | depth + 1 => fun cs =>
    match cs with
    | '[' :: rest => arrayRest (value depth) rest
    | '\x7b' :: rest => inlineRest (value depth) rest
    | _ => leaf cs

/-- What stands behind the end of a line; a comment may stand before it. -/
def lineEnd? (cs : List Char) : Option (List Char) :=
  let rest :=
    match dropSpaces cs with
    | '#' :: comment => comment.dropWhile isPlain
    | rest => rest
  match rest with
  | [] => some []
  | '\n' :: rest => some rest
  | '\r' :: '\n' :: rest => some rest
  | _ => none

def content : Reader (Option Line)
  | '[' :: '[' :: cs =>
    match keyPath cs with
    | some (key, ']' :: ']' :: rest) => some (some (.element key), rest)
    | _ => none
  | '[' :: cs =>
    match keyPath cs with
    | some (key, ']' :: rest) => some (some (.table key), rest)
    | _ => none
  | cs =>
    (member (value (depthLimit - 1)) cs).map fun ((key, v), rest) => (some (.assign key v), rest)

def line : Reader (Option Line) :=
  fun cs =>
    match dropSpaces cs with
    | [] => none
    | cs =>
      match lineEnd? cs with
      | some rest => some (none, rest)
      | none =>
        match content cs with
        | some (line, rest) => (lineEnd? rest).map (line, ·)
        | none => none

def dropMark : List Char → List Char
  | '\uFEFF' :: rest => rest
  | cs => cs

def members? (text : String) : Option Members :=
  let (lines, rest) := many line (dropMark text.toList)
  if (dropSpaces rest).isEmpty then ofLines? (lines.filterMap id) else none

end Toml
end SourceSplit
