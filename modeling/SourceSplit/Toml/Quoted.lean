/-!
# SourceSplit.Toml.Quoted

The four kinds of quoted text in TOML: between double quotes with escapes, between single quotes
as it stands, and each of the two over several lines between three quotes. All readers here start
behind the opening quotes and give the text and what stands behind the closing ones.
-/

namespace SourceSplit
namespace Toml

/-- What may stand in a comment or in quotes: no control but the tab. -/
def isPlain (c : Char) : Bool :=
  c = '\t' || (0x20 ≤ c.toNat && c.toNat ≠ 0x7F)

def escape? : Char → Option Char
  | 'b' => some '\x08'
  | 't' => some '\t'
  | 'n' => some '\n'
  | 'f' => some '\x0c'
  | 'r' => some '\r'
  | '"' => some '"'
  | '\\' => some '\\'
  | _ => none

def hexValue? (c : Char) : Option Nat :=
  if c.isDigit then some (c.toNat - '0'.toNat)
  else if 'a' ≤ c ∧ c ≤ 'f' then some (c.toNat - 'a'.toNat + 10)
  else if 'A' ≤ c ∧ c ≤ 'F' then some (c.toNat - 'A'.toNat + 10)
  else none

/-- The character whose code point the hexadecimal digits give. -/
def charOfHex? (digits : List Char) : Option Char := do
  let values ← digits.mapM hexValue?
  let code := values.foldl (fun n d => 16 * n + d) 0
  if code.isValidChar then some (Char.ofNat code) else none

def basic (seen : List Char) : List Char → Option (String × List Char)
  | '"' :: rest => some (String.ofList seen.reverse, rest)
  | '\\' :: 'u' :: a :: b :: c :: d :: rest =>
    match charOfHex? [a, b, c, d] with
    | some char => basic (char :: seen) rest
    | none => none
  | '\\' :: 'U' :: a :: b :: c :: d :: e :: f :: g :: h :: rest =>
    match charOfHex? [a, b, c, d, e, f, g, h] with
    | some char => basic (char :: seen) rest
    | none => none
  | '\\' :: c :: rest =>
    match escape? c with
    | some char => basic (char :: seen) rest
    | none => none
  | c :: rest => if isPlain c then basic (c :: seen) rest else none
  | [] => none

def literal (seen : List Char) : List Char → Option (String × List Char)
  | '\x27' :: rest => some (String.ofList seen.reverse, rest)
  | c :: rest => if isPlain c then literal (c :: seen) rest else none
  | [] => none

/-- Where the reader of a text over several lines stands: in the text, behind a backslash that
must end its line, or in the blanks and line ends that such a backslash takes away. -/
inductive Fold where
  | none
  | pending
  | active
  deriving DecidableEq, Repr

/-- Up to two quotes may stand before the three that close the text. -/
def basicLines (fold : Fold) (seen : List Char) : List Char → Option (String × List Char)
  | ' ' :: rest =>
    if fold = .none then basicLines .none (' ' :: seen) rest else basicLines fold seen rest
  | '\t' :: rest =>
    if fold = .none then basicLines .none ('\t' :: seen) rest else basicLines fold seen rest
  | '\n' :: rest =>
    if fold = .none then basicLines .none ('\n' :: seen) rest else basicLines .active seen rest
  | '\r' :: '\n' :: rest =>
    if fold = .none then basicLines .none ('\n' :: seen) rest else basicLines .active seen rest
  | c :: rest =>
    if fold = .pending then none
    else
      match c, rest with
      | '"', '"' :: '"' :: '"' :: '"' :: rest =>
        some (String.ofList ('"' :: '"' :: seen).reverse, rest)
      | '"', '"' :: '"' :: '"' :: rest => some (String.ofList ('"' :: seen).reverse, rest)
      | '"', '"' :: '"' :: rest => some (String.ofList seen.reverse, rest)
      | '\\', 'u' :: a :: b :: c :: d :: rest =>
        match charOfHex? [a, b, c, d] with
        | some char => basicLines .none (char :: seen) rest
        | none => none
      | '\\', 'U' :: a :: b :: c :: d :: e :: f :: g :: h :: rest =>
        match charOfHex? [a, b, c, d, e, f, g, h] with
        | some char => basicLines .none (char :: seen) rest
        | none => none
      | '\\', ' ' :: rest => basicLines .pending seen rest
      | '\\', '\t' :: rest => basicLines .pending seen rest
      | '\\', '\n' :: rest => basicLines .active seen rest
      | '\\', '\r' :: '\n' :: rest => basicLines .active seen rest
      | '\\', c :: rest =>
        match escape? c with
        | some char => basicLines .none (char :: seen) rest
        | none => none
      | c, rest => if isPlain c then basicLines .none (c :: seen) rest else none
  | [] => none

def literalLines (seen : List Char) : List Char → Option (String × List Char)
  | '\x27' :: '\x27' :: '\x27' :: '\x27' :: '\x27' :: rest =>
    some (String.ofList ('\x27' :: '\x27' :: seen).reverse, rest)
  | '\x27' :: '\x27' :: '\x27' :: '\x27' :: rest =>
    some (String.ofList ('\x27' :: seen).reverse, rest)
  | '\x27' :: '\x27' :: '\x27' :: rest => some (String.ofList seen.reverse, rest)
  | '\n' :: rest => literalLines ('\n' :: seen) rest
  | '\r' :: '\n' :: rest => literalLines ('\n' :: seen) rest
  | c :: rest => if isPlain c then literalLines (c :: seen) rest else none
  | [] => none

/-- A line end directly behind the opening quotes is not part of the text. -/
def dropFirstLineEnd : List Char → List Char
  | '\n' :: rest => rest
  | '\r' :: '\n' :: rest => rest
  | cs => cs

/-- A quoted text of any kind, from its opening quotes on. -/
def quoted? : List Char → Option (String × List Char)
  | '"' :: '"' :: '"' :: rest => basicLines .none [] (dropFirstLineEnd rest)
  | '"' :: rest => basic [] rest
  | '\x27' :: '\x27' :: '\x27' :: rest => literalLines [] (dropFirstLineEnd rest)
  | '\x27' :: rest => literal [] rest
  | _ => none

end Toml
end SourceSplit
