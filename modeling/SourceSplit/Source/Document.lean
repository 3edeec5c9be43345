import SourceSplit.Brace
import SourceSplit.Source.Header
import SourceSplit.Source.Statement

/-!
# SourceSplit.Source.Document

A source document with the statements that all its classes share, and the class declarations in
it. A class rendered on its own is the package statement, the imports and the declaration, with
an empty line between them.
-/

namespace SourceSplit
namespace Source

open Text

structure Document where
  text : String
  package : String
  imports : List String
  deriving DecidableEq, Repr

/-- A document must name its package. -/
def Document.ofText? (text : String) : Option Document :=
  (packageName? text).map fun package => ⟨text, package, Source.imports text⟩

def Document.importBlock (doc : Document) : String :=
  "\n".intercalate doc.imports

/-- A class declaration: its header, and the byte offset of the brace that closes its body. -/
structure Declaration where
  header : Header
  stop : Nat
  deriving DecidableEq, Repr

/-- The text from the doc comment to the closing brace, if the declaration lies in this text. -/
def Declaration.slice? (decl : Declaration) (text : String) : Option String :=
  (Text.slice? decl.header.start (decl.stop + 1) text.toList).map String.ofList

/-- What stands before the declaration in every class file of the document. -/
def Document.preamble (doc : Document) : String :=
  "package " ++ doc.package ++ ";\n\n" ++ doc.importBlock ++ "\n\n"

def Document.render? (doc : Document) (decl : Declaration) : Option String :=
  (decl.slice? doc.text).map (doc.preamble ++ ·)

/-- Why the classes of a document cannot be told apart. -/
inductive Flaw where
  | noClasses
  | malformed (className : String) (cause : Brace.Fault)
  deriving DecidableEq, Repr

def Header.declaration (text : String) (header : Header) : Except Flaw Declaration :=
  match Brace.closingOffset text header.brace with
  | .ok stop => .ok ⟨header, stop⟩
  | .error cause => .error (.malformed header.name cause)

/-- All declarations of the document, or the first that cannot be read: there is no partial
answer. -/
def Document.declarations (doc : Document) : Except Flaw (List Declaration) :=
  match headers doc.text with
  | [] => .error .noClasses
  | found => found.mapM (Header.declaration doc.text)

end Source
end SourceSplit
