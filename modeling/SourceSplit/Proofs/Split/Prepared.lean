import SourceSplit.Proofs.Ending
import SourceSplit.Split.Single

/-!
# SourceSplit.Proofs.Split.Prepared

A split in two phases. First the class files are prepared, which reads the tree and leaves it
alone; then, unless the run is dry, they are committed. `ending_splitFile` takes a split apart into
these: all that a split does to the tree is done by `commit`, on files that were prepared.
-/

namespace SourceSplit
namespace Split

open Source

/-- The class files of a source text, or why it cannot be split. -/
def prepareText (o : Options) (tree : Files.Tree) (source : Path) (text : String) :
    Except Failure (List ClassFile) :=
  match Document.ofText? text with
  | none => .error (.packageMissing source)
  | some doc =>
    match doc.declarations with
    | .error flaw => .error (.ofFlaw source flaw)
    | .ok decls => plan o tree source doc decls

def sourceText (tree : Files.Tree) (source : Path) : Except Failure String :=
  ((readSource source).ending tree).1

def prepare (o : Options) (tree : Files.Tree) (source : Path) : Except Failure (List ClassFile) :=
  match sourceText tree source with
  | .error failure => .error failure
  | .ok text => prepareText o tree source text

/-- Writes the class files and sets the source aside. -/
def commit (o : Options) (source : Path) (files : List ClassFile) : Work Outcome := do
  writeAll files
  let backup ← setAside o source
  pure ⟨source, files, some backup⟩

/-! ## Endings of one operation -/

section

variable {tree after : Files.Tree} {file : ClassFile} {fault : Files.Fault} {o : Options}
  {source : Path}

theorem ending_writeFile_of_ok (h : Files.writeText tree file.path file.content = .ok after) :
    (writeFile file).ending tree = (.ok none, after) := by
  simp only [Work.ending, Work.run, writeFile, h]

theorem ending_writeFile_of_error
    (h : Files.writeText tree file.path file.content = .error fault) :
    (writeFile file).ending tree = (.ok (some fault), tree) := by
  simp only [Work.ending, Work.run, writeFile, h]

theorem ending_unwrite_of_ok (h : Files.remove tree file.path = .ok after) :
    (unwrite file).ending tree = (.ok (), after) := by
  simp only [Work.ending, Work.run, unwrite, h]

theorem ending_unwrite_of_error (h : Files.remove tree file.path = .error fault) :
    (unwrite file).ending tree = (.ok (), tree) := by
  simp only [Work.ending, Work.run, unwrite, h]

theorem ending_setAside_of_ok
    (h : Files.rename tree source (source.withSuffix o.backupSuffix) = .ok after) :
    (setAside o source).ending tree = (.ok (source.withSuffix o.backupSuffix), after) := by
  simp only [Work.ending, Work.run, setAside, h]

theorem ending_setAside_of_error
    (h : Files.rename tree source (source.withSuffix o.backupSuffix) = .error fault) :
    (setAside o source).ending tree = (.error (.io source fault), tree) := by
  simp only [Work.ending, Work.run, setAside, h]

end

/-! ## The two phases -/

theorem ending_splitText (o : Options) (tree : Files.Tree) (source : Path) (text : String) :
    (splitText o source text).ending tree =
      match prepareText o tree source text with
      | .error failure => (.error failure, tree)
      | .ok files =>
        if o.dryRun then (.ok ⟨source, files, none⟩, tree)
        else (commit o source files).ending tree := by
  unfold splitText
  rw [Work.ending_bind_of_ok (Work.ending_report _ _)]
  cases hdoc : Document.ofText? text with
  | none =>
    simp only [prepareText, readDocument, hdoc, Work.ending_bind, Work.ending_fail]
  | some doc =>
    have hread : (readDocument source text).ending tree = (.ok doc, tree) := by
      simp only [readDocument, hdoc, Work.ending_bind, Work.ending_report, Work.ending_pure]
    rw [Work.ending_bind_of_ok hread]
    cases hdecls : doc.declarations with
    | error flaw =>
      have hfail : (declarations doc source).ending tree = (.error (.ofFlaw source flaw), tree) := by
        simp only [declarations, hdecls, Work.ending_bind, Work.ending_report, Work.ending_fail]
      rw [Work.ending_bind_of_error hfail]
      simp only [prepareText, hdoc, hdecls]
    | ok decls =>
      have hok : (declarations doc source).ending tree = (.ok decls, tree) := by
        simp only [declarations, hdecls, Work.ending_bind, Work.ending_report, Work.ending_pure]
      rw [Work.ending_bind_of_ok hok, Work.ending_bind, Work.ending_look]
      simp only [prepareText, hdoc, hdecls]
      cases plan o tree source doc decls with
      | error failure => rfl
      | ok files =>
        simp only
        split
        · simp only [Work.ending_bind, Work.ending_report, Work.ending_pure]
        · rfl

theorem ending_readSource (tree : Files.Tree) (source : Path) :
    (readSource source).ending tree = (sourceText tree source, tree) := rfl

theorem ending_splitFile (o : Options) (tree : Files.Tree) (source : Path) :
    (splitFile o source).ending tree =
      match prepare o tree source with
      | .error failure => (.error failure, tree)
      | .ok files =>
        if o.dryRun then (.ok ⟨source, files, none⟩, tree)
        else (commit o source files).ending tree := by
  rw [splitFile, Work.ending_bind, ending_readSource, prepare]
  cases sourceText tree source with
  | error failure => rfl
  | ok text => exact ending_splitText o tree source text

/-- Text that can be read is text of a file. -/
theorem sourceText_eq_ok_iff {tree : Files.Tree} {source : Path} {text : String} :
    sourceText tree source = .ok text ↔ Files.readText tree source = .ok text := by
  simp only [sourceText, readSource, Work.ending_look]
  constructor
  · intro h
    split at h
    · split at h
      · rename_i found hfound
        rw [hfound, Except.ok.inj h]
      · cases h
    · cases h
  · intro h
    have hfile : Files.isFile tree source = true := by
      unfold Files.isFile
      unfold Files.readText Files.readBytes at h
      split at h
      · rename_i hstatus
        rw [hstatus]
      all_goals cases h
    rw [if_pos hfile, h]

theorem prepare_eq_ok_iff {o : Options} {tree : Files.Tree} {source : Path}
    {files : List ClassFile} :
    prepare o tree source = .ok files ↔
      ∃ text doc decls, Files.readText tree source = .ok text ∧ Document.ofText? text = some doc ∧
        doc.declarations = .ok decls ∧ plan o tree source doc decls = .ok files := by
  constructor
  · intro h
    unfold prepare at h
    split at h
    · cases h
    · rename_i text htext
      unfold prepareText at h
      split at h
      · cases h
      · rename_i doc hdoc
        split at h
        · cases h
        · rename_i decls hdecls
          exact ⟨text, doc, decls, sourceText_eq_ok_iff.1 htext, hdoc, hdecls, h⟩
  · rintro ⟨text, doc, decls, htext, hdoc, hdecls, hplan⟩
    simp only [prepare, sourceText_eq_ok_iff.2 htext, prepareText, hdoc, hdecls, hplan]

end Split
end SourceSplit
