import SourceSplit.Source.Document
import SourceSplit.Split.Basic

/-!
# SourceSplit.Split.Plan

The class files of a document before any is written: one beside the source for each declaration.
No two may have the same path, none may be the source itself, and none may exist already unless
the options allow to replace it.
-/

namespace SourceSplit
namespace Split

open Source

structure ClassFile where
  declaration : Declaration
  path : Path
  content : String
  deriving DecidableEq, Repr

def target (o : Options) (source : Path) (decl : Declaration) : Path :=
  source.sibling decl.header.name o.extension

/-- Whether a target may not be written: it is the source, it is taken by a class before, or it
exists and must stay. -/
def isBarred (o : Options) (tree : Files.Tree) (source : Path) (taken : List Path) (path : Path) :
    Bool :=
  path.same source || taken.any path.same || (!o.overwrite && Files.isPresent tree path)

def planFrom (o : Options) (tree : Files.Tree) (source : Path) (doc : Document)
    (taken : List Path) : List Declaration → Except Failure (List ClassFile)
  | [] => .ok []
  | decl :: decls =>
    let path := target o source decl
    if isBarred o tree source taken path then .error (.outputExists path)
    else
      match doc.render? decl with
      | none => .error (.strayDeclaration decl.header.name)
      | some content =>
        match planFrom o tree source doc (path :: taken) decls with
        | .ok files => .ok (⟨decl, path, content⟩ :: files)
        | .error failure => .error failure

def plan (o : Options) (tree : Files.Tree) (source : Path) (doc : Document)
    (decls : List Declaration) : Except Failure (List ClassFile) :=
  planFrom o tree source doc [] decls

end Split
end SourceSplit
