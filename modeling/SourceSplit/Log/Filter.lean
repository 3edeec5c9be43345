import SourceSplit.Log.Event

/-!
# SourceSplit.Log.Filter

Which log records are shown. A filter is a list of directives, each a level for all parts of the
program whose name starts in a given way; of those that fit a record the one with the longest name
decides, and of two the later. Besides, a filter may ask for a text in the message.
-/

namespace SourceSplit
namespace Log

structure Directive where
  name : Option String
  level : Level
  deriving DecidableEq, Repr

namespace Directive

def nameLength (directive : Directive) : Nat :=
  match directive.name with
  | some name => Text.byteLength name.toList
  | none => 0

def fits (directive : Directive) (target : String) : Bool :=
  match directive.name with
  | some name => name.toList.isPrefixOf target.toList
  | none => true

end Directive

structure Filter where
  directives : List Directive
  wanted : List Char
  deriving DecidableEq, Repr

/-- A filter with one level for everything. -/
def Filter.all (level : Level) : Filter :=
  ⟨[⟨none, level⟩], []⟩

def longer (best : Option Directive) (directive : Directive) : Option Directive :=
  match best with
  | some b => if directive.nameLength < b.nameLength then some b else some directive
  | none => some directive

def Filter.levelFor (filter : Filter) (target : String) : Level :=
  match (filter.directives.filter (·.fits target)).foldl longer none with
  | some directive => directive.level
  | none => .off

def holds (wanted : List Char) : List Char → Bool
  | [] => wanted.isEmpty
  | c :: cs => wanted.isPrefixOf (c :: cs) || holds wanted cs

def Filter.shows (filter : Filter) (record : Record) : Bool :=
  record.level.rank ≤ (filter.levelFor record.target).rank &&
    holds filter.wanted record.message.toList

/-- Level names may be written in any case. -/
def Level.ofText? (text : String) : Option Level :=
  match String.ofList (text.toList.map Char.toLower) with
  | "off" => some .off
  | "error" => some .error
  | "warn" => some .warn
  | "info" => some .info
  | "debug" => some .debug
  | "trace" => some .trace
  | _ => none

def cutAt (mark : Char) : List Char → List (List Char)
  | [] => [[]]
  | c :: cs =>
    match cutAt mark cs with
    | [] => []
    | part :: parts => if c = mark then [] :: part :: parts else (c :: part) :: parts

/-- Why a text is no filter, or a part of it no directive. -/
inductive FilterFault where
  | notDirective (text : String)
  | slashes (text : String)
  deriving DecidableEq, Repr

def FilterFault.message : FilterFault → String
  | .notDirective text => "invalid logging spec '" ++ text ++ "'"
  | .slashes text => "invalid logging spec '" ++ text ++ "' (too many '/'s)"

/-- One directive: a level for everything, a name for all levels, or `name=level`. The error
shows the text that does not name a level. -/
def Directive.ofText (text : List Char) : Except FilterFault Directive :=
  match cutAt '=' text with
  | [single] =>
    match Level.ofText? (String.ofList single) with
    | some level => .ok ⟨none, level⟩
    | none => .ok ⟨some (String.ofList single), .trace⟩
  | [name, level] =>
    let level := String.ofList (Text.trim level)
    if level.isEmpty then .ok ⟨some (String.ofList name), .trace⟩
    else
      match Level.ofText? level with
      | some level => .ok ⟨some (String.ofList name), level⟩
      | none => .error (.notDirective level)
  | _ => .error (.notDirective (String.ofList text))

/-- A later directive for the same name takes the place of the earlier one. -/
def insertDirective (directives : List Directive) (directive : Directive) : List Directive :=
  if directives.any (·.name = directive.name) then
    directives.map fun d => if d.name = directive.name then directive else d
  else directives ++ [directive]

/-- The directives that stand between commas in a text, and what else stands there. -/
def directivesOf (text : List Char) : List Directive × List FilterFault :=
  let parts := ((cutAt ',' text).map Text.trim).filter (· ≠ [])
  parts.foldl
    (fun (directives, faults) part =>
      match Directive.ofText part with
      | .ok directive => (insertDirective directives directive, faults)
      | .error fault => (directives, faults ++ [fault]))
    ([], [])

/-- The filter that a text describes, and what is wrong with the text: directives between commas,
and behind a slash the text that messages must hold. Without any directive only errors are
shown. -/
def Filter.ofText (text : String) : Filter × List FilterFault :=
  let read (directives wanted : List Char) : Filter × List FilterFault :=
    let (directives, faults) := directivesOf directives
    (⟨if directives.isEmpty then [⟨none, .error⟩] else directives, wanted⟩, faults)
  match cutAt '/' text.toList with
  | [directives] => read directives []
  | [directives, wanted] => read directives wanted
  | _ => (.all .error, [.slashes text])

end Log
end SourceSplit
