import SourceSplit.Proofs.Split.Delivered
import SourceSplit.Split.Batch

/-!
# SourceSplit.Proofs.Split.Turn

What one turn of a batch does: a file is judged, that is, it is split as if it were alone, unless it
cannot be read or has too few classes. On a plain tree, and unless the run is dry, a
turn ends in one of three ways (`Turn`): the tree is left alone; class files were prepared, but
could not all be written or the source not be renamed; or the source was split.

* `ending_judge`, `ending_splitDirectory`: a batch in terms of splits.
* `Prepared`: all that is known of class files prepared for a source with their extension.
* `judge_turn`: the three ways are all there are.
-/

namespace SourceSplit
namespace Split

open Source
open Files (Tree Place Leads readText)

/-! ## A batch in terms of splits -/

theorem ending_attempt {α : Type} (work : Work α) (tree : Tree) :
    (Work.attempt work).ending tree = (.ok (work.ending tree).1, (work.ending tree).2) := rfl

def Verdict.ofResult : Except Failure Outcome → Verdict
  | .ok outcome => .split outcome
  | .error failure => .failed failure

/-- Splitting a text that was read is splitting the file it was read from. -/
theorem ending_splitText_of_read {o : Options} {tree : Tree} {file : Path} {text : String}
    (h : readText tree file = .ok text) :
    (splitText o file text).ending tree = (splitFile o file).ending tree := by
  have htext := sourceText_eq_ok_iff.2 h
  rw [ending_splitText, ending_splitFile, prepare, htext]

theorem ending_judge (o : Options) (tree : Tree) (file : Path) :
    (judge o file).ending tree =
      match readText tree file with
      | .error fault => (.ok (.unread fault), tree)
      | .ok text =>
        if (headers text).length < o.minClasses then
          (.ok (.skipped (headers text).length), tree)
        else (.ok (.ofResult ((splitFile o file).ending tree).1),
          ((splitFile o file).ending tree).2) := by
  simp only [judge, Work.ending_bind, Work.ending_look]
  cases hread : readText tree file with
  | error fault => simp only [Work.ending_bind, Work.ending_report, Work.ending_pure]
  | ok text =>
    simp only [judgeText, Work.ending_bind, Work.ending_report]
    split
    · simp only [Work.ending_bind, Work.ending_report, Work.ending_pure]
    · simp only [Work.ending_bind, ending_attempt, ending_splitText_of_read hread]
      cases ((splitFile o file).ending tree).1 with
      | error failure =>
        simp only [Work.ending_bind, Work.ending_report, Work.ending_pure, Verdict.ofResult]
      | ok outcome => rfl

theorem ending_judge_of_split {o : Options} {tree after : Tree} {file : Path} {text : String}
    {outcome : Outcome} (hread : readText tree file = .ok text)
    (hmin : o.minClasses ≤ (headers text).length)
    (h : (splitFile o file).ending tree = (.ok outcome, after)) :
    (judge o file).ending tree = (.ok (.split outcome), after) := by
  simp only [ending_judge, hread, if_neg (Nat.not_lt.2 hmin), h, Verdict.ofResult]

/-- The batch with more files, added one after the other. -/
def Batch.addAll (batch : Batch) : List (Path × Verdict) → Batch
  | [] => batch
  | (file, verdict) :: verdicts => (batch.add file verdict).addAll verdicts

/-- The batch of files, each with what became of it. -/
def Batch.ofVerdicts (verdicts : List (Path × Verdict)) : Batch :=
  (start verdicts.length).addAll verdicts

theorem Batch.verdicts_addAll (batch : Batch) (verdicts : List (Path × Verdict)) :
    (batch.addAll verdicts).verdicts = batch.verdicts ++ verdicts := by
  induction verdicts generalizing batch with
  | nil => exact (List.append_nil _).symm
  | cons entry verdicts ih =>
    rw [addAll, ih, add, List.append_assoc]
    rfl

theorem Batch.verdicts_ofVerdicts (verdicts : List (Path × Verdict)) :
    (ofVerdicts verdicts).verdicts = verdicts :=
  verdicts_addAll _ _

/-- What the files are judged to be, one after the other, whatever the batch was before. -/
structure JudgesAll (o : Options) (tree : Tree) (files : List Path)
    (verdicts : List (Path × Verdict)) (after : Tree) : Prop where
  paths : verdicts.map Prod.fst = files
  ends : ∀ batch, (judgeAll o batch files).ending tree = (.ok (batch.addAll verdicts), after)

theorem judgesAll_nil {o : Options} {tree : Tree} : JudgesAll o tree [] [] tree :=
  ⟨rfl, fun _ => rfl⟩

theorem JudgesAll.cons {o : Options} {tree mid after : Tree} {file : Path} {files : List Path}
    {verdict : Verdict} {verdicts : List (Path × Verdict)}
    (hone : (judge o file).ending tree = (.ok verdict, mid))
    (hall : JudgesAll o mid files verdicts after) :
    JudgesAll o tree (file :: files) ((file, verdict) :: verdicts) after where
  paths := by rw [List.map_cons, hall.paths]
  ends := by
    intro batch
    rw [judgeAll, Work.ending_bind_of_ok hone, hall.ends, Batch.addAll]

theorem ending_splitDirectory {o : Options} {tree after : Tree} {directory : Path}
    {verdicts : List (Path × Verdict)} (hd : Files.isDirectory tree directory = true)
    (h : JudgesAll o tree (filesBelow tree [o.extension] directory) verdicts after) :
    (splitDirectory o directory).ending tree = (.ok (.ofVerdicts verdicts), after) := by
  have hcollect : (collect [o.extension] directory).ending tree =
      (.ok (filesBelow tree [o.extension] directory), tree) := rfl
  have hlength : (filesBelow tree [o.extension] directory).length = verdicts.length := by
    rw [← h.paths, List.length_map]
  simp only [splitDirectory, Work.ending_bind, Work.ending_look, Work.ending_report, hd, if_true,
    hcollect, h.ends, hlength, Work.ending_pure, Batch.ofVerdicts]

/-- A batch of two files. -/
theorem ending_splitDirectory_pair {o : Options} {tree mid after : Tree} {directory : Path}
    {first second : Path} {verdict verdict' : Verdict}
    (hd : Files.isDirectory tree directory = true)
    (hfiles : filesBelow tree [o.extension] directory = [first, second])
    (hfirst : (judge o first).ending tree = (.ok verdict, mid))
    (hsecond : (judge o second).ending mid = (.ok verdict', after)) :
    (splitDirectory o directory).ending tree =
      (.ok (.ofVerdicts [(first, verdict), (second, verdict')]), after) := by
  refine ending_splitDirectory hd ?_
  rw [hfiles]
  exact .cons hfirst (.cons hsecond judgesAll_nil)

theorem ending_splitDirectory_of_not {o : Options} {tree : Tree} {directory : Path}
    (hd : Files.isDirectory tree directory = false) :
    (splitDirectory o directory).ending tree = (.error (.inputMissing directory), tree) := by
  simp only [splitDirectory, Work.ending_bind, Work.ending_look, hd, Bool.false_eq_true, if_false]

/-- A batch that comes to a result has judged the files below a directory. -/
theorem of_splitDirectory_eq_ok {o : Options} {tree after : Tree} {directory : Path} {batch : Batch}
    {verdicts : List (Path × Verdict)}
    (hr : ((splitDirectory o directory).run tree).result = .ok batch)
    (h : JudgesAll o tree (filesBelow tree [o.extension] directory) verdicts after) :
    Files.isDirectory tree directory = true ∧ batch = .ofVerdicts verdicts ∧
      ((splitDirectory o directory).run tree).tree = after := by
  cases hd : Files.isDirectory tree directory with
  | false =>
    have hending := congrArg Prod.fst (ending_splitDirectory_of_not (o := o) hd)
    rw [show ((splitDirectory o directory).ending tree).1 = .ok batch from hr] at hending
    cases hending
  | true =>
    have hending := ending_splitDirectory hd h
    exact ⟨rfl, Except.ok.inj (hr.symm.trans (congrArg Prod.fst hending)),
      congrArg Prod.snd hending⟩

/-! ## Prepared class files -/

/-- All that is known of class files prepared for a source with their extension. The source stands
under `name` in `dir`. -/
structure Prepared (o : Options) (tree : Tree) (source : Path) (files : List ClassFile)
    (doc : Document) (decls : List Declaration) (name : String) (dir : Place) : Prop where
  leads : Leads tree source (name :: dir)
  text : tree.get? (name :: dir) = some (.file doc.text.toUTF8)
  document : Document.ofText? doc.text = some doc
  declarations : doc.declarations = .ok decls
  planned : Planned o tree source doc [] decls files
  no_slash : '/' ∉ o.extension.toList

/-- The place of a class file in a directory. -/
def classPlace (o : Options) (decl : Declaration) (dir : Place) : Place :=
  (decl.header.name ++ "." ++ o.extension) :: dir

section

variable {o : Options} {tree mid after : Tree} {source file : Path} {files : List ClassFile}
  {doc : Document} {decls : List Declaration} {name : String} {dir place q : Place}

theorem exists_prepared (h : tree.Plain) (hacc : accepts [o.extension] source = true)
    (hp : prepare o tree source = .ok files) :
    ∃ doc decls name dir, Prepared o tree source files doc decls name dir := by
  obtain ⟨text, doc, decls, htext, hdoc, hdecls, hplan⟩ := prepare_eq_ok_iff.1 hp
  obtain rfl := text_of_ofText? hdoc
  obtain ⟨place, hl, hg⟩ := (Files.readBytes_eq_ok_iff h).1 (Files.readText_eq_ok_iff.1 htext)
  obtain ⟨name, dir, rfl, _⟩ := hl.exists_cons
  obtain ⟨_, _, _, hseg, hlast, _⟩ := hl.exists_segments
  obtain ⟨_, _, _, _, _, hslash⟩ := accepted_name hacc hseg hlast
  exact ⟨doc, decls, name, dir, hl, hg, hdoc, hdecls, planFrom_eq_ok_iff.1 hplan, hslash⟩

namespace Prepared

theorem beside (h : Prepared o tree source files doc decls name dir) {file : ClassFile}
    (hf : file ∈ files) (hl : Leads tree file.path place) :
    place = classPlace o file.declaration dir ∧ place ≠ name :: dir :=
  h.planned.leads h.declarations hf h.no_slash h.leads hl

/-- What must not be replaced is not in the way. -/
theorem free (h : Prepared o tree source files doc decls name dir) (hplain : tree.Plain)
    (hkeep : o.overwrite = false) {file : ClassFile} (hf : file ∈ files)
    (hl : Leads tree file.path place) : tree.get? place = none := by
  have habsent := (isBarred_eq_false_iff.1 (h.planned.free file hf)).2.2 hkeep
  exact (hl.isPresent_eq_false_iff hplain).1 habsent

theorem ne_nil (h : Prepared o tree source files doc decls name dir) : files ≠ [] := by
  rintro rfl
  exact ne_nil_of_declarations h.declarations h.planned.declarations.symm

theorem written (h : Prepared o tree source files doc decls name dir)
    (hwritten : Written tree files mid) {file : ClassFile} (hf : file ∈ files)
    (hl : Leads tree file.path place) : mid.get? place = some (.file file.content.toUTF8) :=
  h.planned.written h.declarations h.no_slash h.leads hwritten hf hl

end Prepared

/-! ## The three ways -/

/-- Nothing has changed but what stands in the places that the files lead to. -/
structure Within (tree : Tree) (files : List ClassFile) (after : Tree) : Prop where
  plain : after.Plain
  same : tree.SameDirectories after
  other : ∀ {place : Place}, (∀ file ∈ files, ¬ Leads tree file.path place) →
    after.get? place = tree.get? place

theorem Written.within (h : Written tree files after) : Within tree files after :=
  ⟨h.plain, h.same, h.other⟩

theorem Cleared.within (h : Cleared tree files after) : Within tree files after :=
  ⟨h.plain, h.same, h.other⟩

/-- `front` is written before the first class file that cannot be, if there is one. -/
structure Reached (tree : Tree) (front rest : List ClassFile) : Prop where
  writable : ∀ file ∈ front, Writable tree file
  stops : ∀ file ∈ rest.head?, ¬ Writable tree file

/-- What the turn of a file does to the tree, when the run is not dry. -/
inductive Turn (o : Options) (tree : Tree) (file : Path) : Verdict → Tree → Prop where
  | idle {verdict : Verdict} : verdict.outcome? = none → Turn o tree file verdict tree
  | failed {front rest : List ClassFile} {path : Path} {fault : Files.Fault} {after : Tree} :
      prepare o tree file = .ok (front ++ rest) → Reached tree front rest →
      Within tree front after → Turn o tree file (.failed (.io path fault)) after
  | split {files : List ClassFile} {mid after : Tree} {p q : Place} :
      prepare o tree file = .ok files → (∀ f ∈ files, Writable tree f) → Written tree files mid →
      Leads tree file p → Leads tree (file.withSuffix o.backupSuffix) q →
      Files.Moved mid p q after →
      Turn o tree file (.split ⟨file, files, some (file.withSuffix o.backupSuffix)⟩) after

theorem Commits.turn {ended : Except Failure Outcome × Tree} (h : tree.Plain)
    (hacc : accepts [o.extension] file = true) (hp : prepare o tree file = .ok files)
    (hc : Commits tree o file files ended) : Turn o tree file (.ofResult ended.1) ended.2 := by
  cases hc with
  | unwritten he hw hnot hcleared =>
    subst he
    exact .failed hp ⟨hw, by simpa using hnot⟩ hcleared.within
  | unmoved hw hwritten _ =>
    rw [← List.append_nil files] at hp
    exact .failed hp ⟨hw, nofun⟩ hwritten.within
  | @done mid _ hw hwritten hrename =>
    obtain ⟨doc, decls, name, dir, hprepared⟩ := exists_prepared h hacc hp
    have hkept : mid.get? (name :: dir) = some (.file doc.text.toUTF8) := by
      rw [hwritten.other fun f hf hl => (hprepared.beside hf hl).2 rfl, hprepared.text]
    obtain ⟨q, hq, _, hmoved⟩ := Files.rename_eq_ok hwritten.plain
      (hprepared.leads.transfer hwritten.same) hkept hrename
    exact .split hp hw hwritten hprepared.leads (hq.transfer hwritten.same.symm) hmoved

theorem judge_turn (h : tree.Plain) (hreal : o.dryRun = false)
    (hacc : accepts [o.extension] file = true) :
    ∃ verdict after, (judge o file).ending tree = (.ok verdict, after) ∧
      Turn o tree file verdict after := by
  rw [ending_judge]
  cases readText tree file with
  | error fault => exact ⟨_, _, rfl, .idle rfl⟩
  | ok text =>
    simp only
    split
    · exact ⟨_, _, rfl, .idle rfl⟩
    · refine ⟨_, _, rfl, ?_⟩
      have hsplits := splitFile_ending h o file
      generalize (splitFile o file).ending tree = ended at hsplits ⊢
      cases hsplits with
      | refused _ => exact .idle rfl
      | dry _ hdry =>
        rw [hreal] at hdry
        cases hdry
      | committed hp _ hc => exact hc.turn h hacc hp

theorem Turn.plain {verdict : Verdict} (h : tree.Plain) (ht : Turn o tree file verdict after) :
    after.Plain := by
  cases ht with
  | idle _ => exact h
  | failed _ _ hwithin => exact hwithin.plain
  | split _ _ _ _ _ hmoved => exact hmoved.plain

theorem Turn.same {verdict : Verdict} (ht : Turn o tree file verdict after) :
    tree.SameDirectories after := by
  cases ht with
  | idle _ => exact .refl
  | failed _ _ hwithin => exact hwithin.same
  | split _ _ hwritten _ _ hmoved => exact hwritten.same.trans hmoved.same

end

end Split
end SourceSplit
