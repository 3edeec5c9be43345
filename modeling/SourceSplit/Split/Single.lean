import SourceSplit.Split.Commit

/-!
# SourceSplit.Split.Single

Splitting one source file. Every class is read and every target checked before the first file is
written, and the source is set aside last.
-/

namespace SourceSplit
namespace Split

open Source
open Log (Event)

structure Outcome where
  source : Path
  files : List ClassFile
  /-- Where the source went; nothing on a dry run. -/
  backup : Option Path
  deriving DecidableEq, Repr

def headerEvents (found : List Header) : List Event :=
  found.map .headerFound ++ [.headersCounted found.length]

/-- The events of reading declarations, up to the first that cannot be read. -/
def declarationEvents : List (Except Flaw Declaration) → List Event
  | .ok decl :: rest =>
    .braceMatched decl.header.brace decl.stop :: .declarationFound decl :: declarationEvents rest
  | _ => []

def Failure.ofFlaw (source : Path) : Flaw → Failure
  | .noClasses => .noClasses source
  | .malformed className cause => .malformed className cause

def declarations (doc : Document) (source : Path) : Work (List Declaration) := do
  let found := headers doc.text
  Work.report (headerEvents found ++ declarationEvents (found.map (Header.declaration doc.text)))
  match doc.declarations with
  | .ok decls => pure decls
  | .error flaw => Work.fail (.ofFlaw source flaw)

def readDocument (source : Path) (text : String) : Work Document :=
  match Document.ofText? text with
  | none => Work.fail (.packageMissing source)
  | some doc => do
    Work.report [.documentRead source doc.package doc.imports.length]
    pure doc

/-- Splits a source file whose text has been read. -/
def splitText (o : Options) (source : Path) (text : String) : Work Outcome := do
  Work.report [.splitting source]
  let doc ← readDocument source text
  let decls ← declarations doc source
  let files ← Work.look fun tree => plan o tree source doc decls
  if o.dryRun then
    Work.report [.dryRun files.length source]
    pure ⟨source, files, none⟩
  else
    writeAll files
    let backup ← setAside o source
    pure ⟨source, files, some backup⟩

def readSource (source : Path) : Work String :=
  Work.look fun tree =>
    if Files.isFile tree source then
      match Files.readText tree source with
      | .ok text => .ok text
      | .error fault => .error (.io source fault)
    else .error (.inputMissing source)

def splitFile (o : Options) (source : Path) : Work Outcome := do
  splitText o source (← readSource source)

end Split
end SourceSplit
