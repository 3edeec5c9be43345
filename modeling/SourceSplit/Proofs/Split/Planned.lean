import SourceSplit.Proofs.Files.Beside
import SourceSplit.Proofs.Files.Walk
import SourceSplit.Proofs.Path.Parent
import SourceSplit.Proofs.Source.Name
import SourceSplit.Proofs.Split.Commit

/-!
# SourceSplit.Proofs.Split.Planned

The class files that a plan comes to. `Planned` says what they are without the order in which the
plan looks at them. When the extension has no slash, each of them stands beside the source under a
name of its own.

* `planFrom_eq_ok_iff`: a plan is made exactly of planned files.
* `Planned.leads`, `Planned.ne_place`: where planned files lead.
* `splitFile_sample`: a document with two classes, as a case to look at.
-/

namespace SourceSplit
namespace Split

open Source
open Files (Tree Place Leads)

structure Planned (o : Options) (tree : Tree) (source : Path) (doc : Document)
    (taken : List Path) (decls : List Declaration) (files : List ClassFile) : Prop where
  declarations : files.map (·.declaration) = decls
  path : ∀ file ∈ files, file.path = target o source file.declaration
  content : ∀ file ∈ files, doc.render? file.declaration = some file.content
  free : ∀ file ∈ files, isBarred o tree source taken file.path = false
  apart : files.Pairwise fun earlier later => later.path.same earlier.path = false

section

variable {o : Options} {tree : Tree} {source : Path} {doc : Document} {taken : List Path}
  {decls : List Declaration} {files : List ClassFile} {file : ClassFile}

theorem isBarred_eq_false_iff {path : Path} :
    isBarred o tree source taken path = false ↔
      path.same source = false ∧ (∀ other ∈ taken, path.same other = false) ∧
        (o.overwrite = false → Files.isPresent tree path = false) := by
  unfold isBarred
  rw [Bool.or_eq_false_iff, Bool.or_eq_false_iff, and_assoc]
  cases o.overwrite <;> simp

theorem planned_nil : Planned o tree source doc taken [] [] where
  declarations := rfl
  path := by simp
  content := by simp
  free := by simp
  apart := .nil

theorem planned_cons_iff {decl : Declaration} :
    Planned o tree source doc taken (decl :: decls) (file :: files) ↔
      (file.declaration = decl ∧ file.path = target o source decl ∧
        doc.render? decl = some file.content ∧
        isBarred o tree source taken (target o source decl) = false) ∧
      Planned o tree source doc (target o source decl :: taken) decls files := by
  constructor
  · intro h
    have hcons := h.declarations
    simp only [List.map_cons, List.cons.injEq] at hcons
    obtain ⟨hd, hds⟩ := hcons
    have hpath := h.path file (by simp)
    have hcontent := h.content file (by simp)
    have hfree := h.free file (by simp)
    have hpair := List.pairwise_cons.1 h.apart
    rw [hd] at hpath hcontent
    rw [hpath] at hfree
    refine ⟨⟨hd, hpath, hcontent, hfree⟩, hds, ?_, ?_, ?_, hpair.2⟩
    · exact fun g hg => h.path g (by simp [hg])
    · exact fun g hg => h.content g (by simp [hg])
    · intro g hg
      have hg1 := isBarred_eq_false_iff.1 (h.free g (by simp [hg]))
      have hg2 := hpair.1 g hg
      rw [hpath] at hg2
      rw [isBarred_eq_false_iff, List.forall_mem_cons]
      exact ⟨hg1.1, ⟨hg2, hg1.2.1⟩, hg1.2.2⟩
  · rintro ⟨⟨hd, hpath, hcontent, hfree⟩, h⟩
    refine ⟨by rw [List.map_cons, hd, h.declarations], ?_, ?_, ?_, ?_⟩
    · rw [List.forall_mem_cons, hd]
      exact ⟨hpath, h.path⟩
    · rw [List.forall_mem_cons, hd]
      exact ⟨hcontent, h.content⟩
    · rw [List.forall_mem_cons, hpath]
      refine ⟨hfree, fun g hg => ?_⟩
      have hg1 := isBarred_eq_false_iff.1 (h.free g hg)
      rw [List.forall_mem_cons] at hg1
      exact isBarred_eq_false_iff.2 ⟨hg1.1, hg1.2.1.2, hg1.2.2⟩
    · rw [List.pairwise_cons, hpath]
      refine ⟨fun g hg => ?_, h.apart⟩
      exact (isBarred_eq_false_iff.1 (h.free g hg)).2.1 _ (by simp)

theorem planFrom_eq_ok_iff :
    planFrom o tree source doc taken decls = .ok files ↔
      Planned o tree source doc taken decls files := by
  induction decls generalizing taken files with
  | nil =>
    rw [planFrom]
    constructor
    · intro h
      cases h
      exact planned_nil
    · intro h
      rw [List.map_eq_nil_iff.1 h.declarations]
  | cons decl decls ih =>
    constructor
    · intro h
      simp only [planFrom] at h
      split at h
      · cases h
      · rename_i hfree
        split at h
        · cases h
        · rename_i content hrender
          split at h
          · rename_i more hmore
            cases h
            exact planned_cons_iff.2 ⟨⟨rfl, rfl, hrender, by simpa using hfree⟩, ih.1 hmore⟩
          · cases h
    · intro h
      cases files with
      | nil => cases h.declarations
      | cons file files =>
        obtain ⟨⟨hd, hpath, hcontent, hfree⟩, hrest⟩ := planned_cons_iff.1 h
        simp only [planFrom, hfree, hcontent, ih.2 hrest]
        rw [← hd] at hpath ⊢
        rw [← hpath]
        rfl

/-! ## Where planned files lead -/

theorem not_mem_slash_of_isName {name extension : String} (h : IsName name)
    (he : '/' ∉ extension.toList) : '/' ∉ (name ++ "." ++ extension).toList := by
  have hn := h.not_mem not_isWord_slash
  simp only [String.toList_append, List.mem_append, not_or]
  exact ⟨⟨hn, by decide⟩, he⟩

theorem names_of_isName {name extension : String} (h : IsName name) :
    Path.Names (name ++ "." ++ extension).toList := by
  have hdot := h.not_mem not_isWord_dot
  have hne := h.ne_nil
  simp only [String.toList_append, List.append_assoc]
  cases hlist : name.toList with
  | nil => exact absurd hlist hne
  | cons c cs =>
    rw [hlist, List.mem_cons, not_or] at hdot
    have hc : c ≠ '.' := Ne.symm hdot.1
    constructor
    · simp [Path.isIdle, hc]
    · simp [hc]

theorem Planned.isName (h : Planned o tree source doc taken decls files)
    (hd : doc.declarations = .ok decls) (hf : file ∈ files) :
    IsName file.declaration.header.name := by
  apply isName_of_declarations hd
  rw [← h.declarations]
  exact List.mem_map_of_mem hf

theorem Planned.ne_fileName (h : Planned o tree source doc taken decls files)
    (hd : doc.declarations = .ok decls) (hf : file ∈ files) (hslash : '/' ∉ o.extension.toList) :
    source.fileName? ≠ some (file.declaration.header.name ++ "." ++ o.extension) := by
  intro hsource
  have hname := h.isName hd hf
  have hfree := (isBarred_eq_false_iff.1 (h.free file hf)).1
  rw [← Bool.not_eq_true, h.path file hf, target,
    Path.sibling_same_self_iff (not_mem_slash_of_isName hname hslash) (names_of_isName hname)]
    at hfree
  exact hfree hsource

/-- A planned file stands beside the source and is not the source. -/
theorem Planned.leads (h : Planned o tree source doc taken decls files)
    (hd : doc.declarations = .ok decls) (hf : file ∈ files) (hslash : '/' ∉ o.extension.toList)
    {name : String} {dir place : Place} (hs : Leads tree source (name :: dir))
    (hl : Leads tree file.path place) :
    place = (file.declaration.header.name ++ "." ++ o.extension) :: dir ∧
      place ≠ name :: dir := by
  rw [h.path file hf] at hl
  have hplace := hs.sibling (not_mem_slash_of_isName (h.isName hd hf) hslash) hl
  refine ⟨hplace, ?_⟩
  rintro rfl
  obtain ⟨before, last, _, hseg, hlast, _, _, he⟩ := hs.exists_segments
  apply h.ne_fileName hd hf hslash
  rw [Path.fileName?_of_names hseg hlast, ← (List.cons.inj hplace).1, (List.cons.inj he).1]

theorem Planned.not_leads_source (h : Planned o tree source doc taken decls files)
    (hd : doc.declarations = .ok decls) (hslash : '/' ∉ o.extension.toList) {place : Place}
    (hs : Leads tree source place) (hf : file ∈ files) : ¬ Leads tree file.path place := by
  intro hl
  obtain ⟨name, dir, rfl, _⟩ := hs.exists_cons
  exact (h.leads hd hf hslash hs hl).2 rfl

/-- Two planned files stand in two places. -/
theorem Planned.ne_place (h : Planned o tree source doc taken decls files)
    (hd : doc.declarations = .ok decls) (hslash : '/' ∉ o.extension.toList)
    {name : String} {dir place : Place} (hs : Leads tree source (name :: dir))
    {other : ClassFile} (hf : file ∈ files) (ho : other ∈ files)
    (hne : other.path.same file.path = false) (hl : Leads tree file.path place) :
    ¬ Leads tree other.path place := by
  intro hlo
  obtain ⟨hfile, _⟩ := h.leads hd hf hslash hs hl
  obtain ⟨hother, _⟩ := h.leads hd ho hslash hs hlo
  have hname := h.isName hd hf
  have hname' := h.isName hd ho
  rw [← Bool.not_eq_true, h.path file hf, h.path other ho, target, target,
    Path.sibling_same_iff (not_mem_slash_of_isName hname' hslash) (names_of_isName hname')
      (not_mem_slash_of_isName hname hslash) (names_of_isName hname)] at hne
  exact hne (List.cons.inj (hother.symm.trans hfile)).1

end

/-! ## A document with two classes -/

/-- The class files of a document whatever tree it stands in, if they are not in its way. -/
structure Renders (extension : String) (source : Path) (doc : Document) (files : List ClassFile) :
    Prop where
  document : Document.ofText? doc.text = some doc
  declarations : doc.declarations = .ok (files.map (·.declaration))
  path : ∀ file ∈ files, file.path = source.sibling file.declaration.header.name extension
  content : ∀ file ∈ files, doc.render? file.declaration = some file.content
  beside : ∀ file ∈ files, file.path.same source = false
  apart : files.Pairwise fun earlier later => later.path.same earlier.path = false

section

variable {o : Options} {tree : Tree} {source : Path} {doc : Document} {files : List ClassFile}

theorem Renders.prepare (h : Renders o.extension source doc files)
    (hread : Files.readText tree source = .ok doc.text)
    (hfree : o.overwrite = false → ∀ file ∈ files, Files.isPresent tree file.path = false) :
    prepare o tree source = .ok files := by
  refine prepare_eq_ok_iff.2 ⟨doc.text, doc, _, hread, h.document, h.declarations, ?_⟩
  refine planFrom_eq_ok_iff.2 ⟨rfl, h.path, h.content, fun file hf => ?_, h.apart⟩
  rw [isBarred_eq_false_iff]
  exact ⟨h.beside file hf, List.forall_mem_nil _, fun hkeep => hfree hkeep file hf⟩

/-- A document is split wherever its class files and its backup can be written. -/
theorem Renders.exists_splitFile {p q : Place} (hr : Renders o.extension source doc files)
    (hreal : o.dryRun = false) (h : tree.Plain) (hs : Leads tree source p)
    (hg : tree.get? p = some (.file doc.text.toUTF8))
    (hfiles : ∀ file ∈ files, ∃ place, Leads tree file.path place ∧ place ≠ p ∧
      tree.get? place ≠ some .directory ∧ (o.overwrite = false → tree.get? place = none))
    (hq : Leads tree (source.withSuffix o.backupSuffix) q)
    (hnot : tree.get? q ≠ some .directory) :
    ∃ mid after, (splitFile o source).ending tree =
        (.ok ⟨source, files, some (source.withSuffix o.backupSuffix)⟩, after) ∧
      Written tree files mid ∧ Files.Moved mid p q after := by
  have hread : Files.readText tree source = .ok doc.text := hs.readText h hg
  have hprepare : Split.prepare o tree source = .ok files := by
    refine hr.prepare hread fun hkeep file hf => ?_
    obtain ⟨place, hl, _, _, hfree⟩ := hfiles file hf
    exact (hl.isPresent_eq_false_iff h).2 (hfree hkeep)
  rw [ending_splitFile, hprepare]
  simp only [hreal, Bool.false_eq_true, if_false]
  refine exists_commit h hs hg (fun file hf => ?_) (fun file hf hl => ?_) hq hnot
  · obtain ⟨place, hl, _, hdir, _⟩ := hfiles file hf
    exact (writable_iff h).2 ⟨place, hl, hdir⟩
  · obtain ⟨place, hl', hne, _⟩ := hfiles file hf
    exact hne (hl'.unique hl)

end

def sampleText : String :=
  "package p;/** */public class A\x7b\x7d/** */public class B\x7b\x7d"

def sampleSource : Path := ⟨"/M.java"⟩

def sampleFiles : List ClassFile := [
  ⟨⟨⟨"A", 10, 30⟩, 31⟩, ⟨"/A.java"⟩, "package p;\n\n\n\n/** */public class A\x7b\x7d"⟩,
  ⟨⟨⟨"B", 32, 52⟩, 53⟩, ⟨"/B.java"⟩, "package p;\n\n\n\n/** */public class B\x7b\x7d"⟩]

theorem renders_sample : Renders "java" sampleSource ⟨sampleText, "p", []⟩ sampleFiles := by
  have hheaders : headers sampleText = sampleFiles.map (·.declaration.header) := by
    decide +kernel
  refine ⟨by decide +kernel, ?_, by decide +kernel, by decide +kernel, by decide +kernel,
    by decide +kernel⟩
  simp only [Document.declarations, hheaders]
  rfl

/-- The files of the sample, whatever tree it stands in, if files that exist may be replaced. -/
theorem prepare_sample {o : Options} {tree : Tree} (hextension : o.extension = "java")
    (hover : o.overwrite = true) (h : Files.readText tree sampleSource = .ok sampleText) :
    prepare o tree sampleSource = .ok sampleFiles := by
  have hrenders : Renders o.extension sampleSource ⟨sampleText, "p", []⟩ sampleFiles := by
    rw [hextension]
    exact renders_sample
  refine hrenders.prepare h fun hkeep => ?_
  rw [hover] at hkeep
  cases hkeep

theorem leads_sample {tree : Tree} (name : String)
    (h : name ∈ ["M.java", "M.java.bak", "N.java", "N.java.bak", "A.java", "B.java", "C.java"]) :
    Leads tree ⟨"/" ++ name⟩ [name] := by
  have hall : ∀ n ∈ ["M.java", "M.java.bak", "N.java", "N.java.bak", "A.java", "B.java", "C.java"],
      Files.Simple n := by
    decide
  exact Files.leads_of_root name (hall name h)

theorem leads_sampleSource {tree : Tree} : Leads tree sampleSource ["M.java"] :=
  leads_sample "M.java" (by simp)

theorem leads_sampleFiles {tree : Tree} {file : ClassFile} (hf : file ∈ sampleFiles) :
    ∃ name, name ∈ ["A.java", "B.java"] ∧ Leads tree file.path [name] := by
  simp only [sampleFiles, List.mem_cons, List.not_mem_nil, or_false] at hf
  rcases hf with rfl | rfl
  · exact ⟨"A.java", by simp, leads_sample "A.java" (by simp)⟩
  · exact ⟨"B.java", by simp, leads_sample "B.java" (by simp)⟩

theorem not_leads_sampleFiles {tree : Tree} {file : ClassFile} (hf : file ∈ sampleFiles) :
    ¬ Leads tree file.path ["M.java"] := by
  intro hl
  obtain ⟨name, hname, hl'⟩ := leads_sampleFiles hf
  rw [(List.cons.inj (hl'.unique hl)).1] at hname
  simp at hname

theorem get?_written_sample {tree mid : Tree} {name : String}
    (hwritten : Written tree sampleFiles mid) (hname : name ∉ ["A.java", "B.java"]) :
    mid.get? [name] = tree.get? [name] := by
  apply hwritten.other
  intro file hf hl
  obtain ⟨name', hname', hl'⟩ := leads_sampleFiles hf
  rw [(List.cons.inj (hl'.unique hl)).1] at hname'
  exact hname hname'

/-- The sample is split wherever its files and its backup can be written. -/
theorem splitFile_sample (o : Options) {tree : Tree} {q : Place} (hextension : o.extension = "java")
    (hover : o.overwrite = true) (hreal : o.dryRun = false) (h : tree.Plain)
    (hs : tree.get? ["M.java"] = some (.file sampleText.toUTF8))
    (hfree : ∀ name ∈ ["A.java", "B.java"], tree.get? [name] ≠ some .directory)
    (hq : Leads tree (sampleSource.withSuffix o.backupSuffix) q)
    (hnot : tree.get? q ≠ some .directory) :
    ∃ mid after, (splitFile o sampleSource).ending tree =
        (.ok ⟨sampleSource, sampleFiles, some (sampleSource.withSuffix o.backupSuffix)⟩, after) ∧
      Written tree sampleFiles mid ∧ Files.Moved mid ["M.java"] q after := by
  have hrenders : Renders o.extension sampleSource ⟨sampleText, "p", []⟩ sampleFiles := by
    rw [hextension]
    exact renders_sample
  refine hrenders.exists_splitFile hreal h leads_sampleSource hs (fun file hf => ?_) hq hnot
  obtain ⟨name, hname, hl⟩ := leads_sampleFiles hf
  refine ⟨_, hl, ?_, hfree name hname, fun hkeep => ?_⟩
  · rintro heq
    rw [heq] at hl
    exact not_leads_sampleFiles hf hl
  · rw [hover] at hkeep
    cases hkeep

def sampleTree : Tree :=
  .ofEntries [(["M.java"], .file sampleText.toUTF8)]

theorem plain_sampleTree : sampleTree.Plain :=
  Tree.plain_ofEntries (by simp)

theorem get?_sampleTree_source :
    sampleTree.get? ["M.java"] = some (.file sampleText.toUTF8) := by
  simp [sampleTree]

theorem splitFile_sampleTree :
    ((splitFile {} sampleSource).run sampleTree).result =
      .ok ⟨sampleSource, sampleFiles, some ⟨"/M.java.bak"⟩⟩ := by
  have hq : Leads sampleTree (sampleSource.withSuffix ".bak") ["M.java.bak"] :=
    leads_sample "M.java.bak" (by simp)
  obtain ⟨_, _, hending, _, _⟩ := splitFile_sample {} rfl rfl rfl plain_sampleTree
    get?_sampleTree_source (by simp [sampleTree]) hq (by simp [sampleTree])
  exact congrArg Prod.fst hending

end Split
end SourceSplit
