/-!
# SourceSplit.Toml.Value

The values of a TOML document, and how tables grow line by line. A table remembers how it came to
be, since that decides who may still add to it: nobody to an inline table, no dotted key to a
table that has its own header, no second header to one that has a header or comes from dotted
keys.
-/

namespace SourceSplit
namespace Toml

/-- What a table was made by: braces, a header of its own, a header further down, a dotted key. -/
inductive Origin where
  | inline
  | header
  | implied
  | dotted
  deriving DecidableEq, Repr

inductive Value where
  | text (value : String)
  | integer (value : Int)
  | boolean (value : Bool)
  /-- A floating point number, as it is written. -/
  | float (written : String)
  /-- A date, a time or both, as it is written. -/
  | moment (written : String)
  | array (items : List Value)
  | table (origin : Origin) (members : List (String × Value))
  /-- An array of tables with headers, the last one first. -/
  | tables (items : List (List (String × Value)))
  deriving Repr

abbrev Members := List (String × Value)

/-- The members with the value of a key that is present replaced. -/
def replace (key : String) (value : Value) (members : Members) : Members :=
  members.map fun m => if m.1 = key then (key, value) else m

/-- Edits the table that a path of keys leads to, and makes the tables that are missing on the
way. `dotted` says that the path is part of a dotted key and not of a header. -/
def within (dotted : Bool) (edit : Origin → Members → Option Members) :
    (path : List String) → Origin → Members → Option Members
  | [], origin, members => edit origin members
  | key :: path, _, members =>
    match members.lookup key with
    | none =>
      let origin := if dotted then .dotted else .implied
      (within dotted edit path origin []).map fun inner => members ++ [(key, .table origin inner)]
    | some (.table origin inner) =>
      if origin = .inline ∨ (dotted ∧ origin = .header) then none
      else
        (within dotted edit path origin inner).map fun inner =>
          replace key (.table origin inner) members
    | some (.tables (last :: before)) =>
      (within dotted edit path .header last).map fun last =>
        replace key (.tables (last :: before)) members
    | some _ => none

/-- A key as it is written: the keys before the last dot, and the last one. -/
structure KeyPath where
  front : List String
  last : String
  deriving DecidableEq, Repr

/-- Gives a new key its value. A dotted key may only reach into a table that dotted keys made. -/
def assign (key : KeyPath) (value : Value) : Origin → Members → Option Members :=
  within true
    (fun origin members =>
      if key.front ≠ [] ∧ origin ≠ .dotted then none
      else if (members.lookup key.last).isSome then none
      else some (members ++ [(key.last, value)]))
    key.front

/-- Starts the table of a header. -/
def openTable (key : KeyPath) (root : Members) : Option Members :=
  within false
    (fun _ members =>
      match members.lookup key.last with
      | none => some (members ++ [(key.last, .table .header [])])
      | some (.table .implied inner) => some (replace key.last (.table .header inner) members)
      | some _ => none)
    key.front .header root

/-- Starts the next table of an array of tables. -/
def openElement (key : KeyPath) (root : Members) : Option Members :=
  within false
    (fun _ members =>
      match members.lookup key.last with
      | none => some (members ++ [(key.last, .tables [[]])])
      | some (.tables items) => some (replace key.last (.tables ([] :: items)) members)
      | some _ => none)
    key.front .header root

/-- The inline table with the given members. -/
def inlineTable? (members : List (KeyPath × Value)) : Option Value :=
  (members.foldlM (fun table m => assign m.1 m.2 .inline table) []).map (.table .inline)

/-- What a line of a document does. -/
inductive Line where
  | assign (key : KeyPath) (value : Value)
  | table (key : KeyPath)
  | element (key : KeyPath)
  deriving Repr

/-- A document up to some line: all tables, and the path of the one that lines now add to. -/
structure Draft where
  root : Members
  current : List String

def Draft.add (draft : Draft) : Line → Option Draft
  | .assign key value =>
    (within false (assign key value) draft.current .header draft.root).map fun root =>
      { draft with root }
  | .table key =>
    (openTable key draft.root).map fun root => ⟨root, key.front ++ [key.last]⟩
  | .element key =>
    (openElement key draft.root).map fun root => ⟨root, key.front ++ [key.last]⟩

def ofLines? (lines : List Line) : Option Members :=
  (lines.foldlM Draft.add ⟨[], []⟩).map Draft.root

end Toml
end SourceSplit
