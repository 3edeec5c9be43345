import SourceSplit.Proofs.Split.Planned

/-!
# SourceSplit.Proofs.Split.Rollback

What a split that fails leaves behind. The files that were written are removed again, not put back
as they were, and when only the backup cannot be made they are not even removed. So the tree is
what it was before exactly when this does no harm (`Restores`).

* `Cleared.same_iff`, `Written.same_iff`: the two ways to fail, each with what it takes to do no harm.
* `Commits.same_iff`: both together.
-/

namespace SourceSplit
namespace Split

open Files (Tree Place Leads isPresent readBytes)

/-- Two paths that lead to one place. -/
def Meet (tree : Tree) (p q : Path) : Prop :=
  ∃ place, Leads tree p place ∧ Leads tree q place

/-- A split of these files that fails restores the tree. -/
structure Restores (tree : Tree) (files : List ClassFile) : Prop where
  /-- If some file cannot be written, there were none in the places of those before it. -/
  fresh : ∀ {before rest : List ClassFile} {file : ClassFile}, files = before ++ file :: rest →
    (∀ g ∈ before, Writable tree g) → ¬ Writable tree file →
    ∀ g ∈ before, isPresent tree g.path = false
  /-- If all can be written, the last in each place was there already, word for word. -/
  held : (∀ g ∈ files, Writable tree g) → ∀ {before behind : List ClassFile} {file : ClassFile},
    files = before ++ file :: behind → (∀ g ∈ behind, ¬ Meet tree file.path g.path) →
    readBytes tree file.path = .ok file.content.toUTF8

theorem exists_last {α : Type} {P : α → Prop} {l : List α} (h : ∃ a ∈ l, P a) :
    ∃ before a behind, l = before ++ a :: behind ∧ P a ∧ ∀ b ∈ behind, ¬ P b := by
  induction l with
  | nil =>
    obtain ⟨a, ha, _⟩ := h
    cases ha
  | cons a l ih =>
    by_cases hl : ∃ b ∈ l, P b
    · obtain ⟨before, b, behind, rfl, hb, hbehind⟩ := ih hl
      exact ⟨a :: before, b, behind, rfl, hb, hbehind⟩
    · obtain ⟨b, hb, hP⟩ := h
      rcases List.mem_cons.1 hb with rfl | hb
      · exact ⟨[], b, l, rfl, hP, fun c hc hPc => hl ⟨c, hc, hPc⟩⟩
      · exact absurd ⟨b, hb, hP⟩ hl

theorem first_unique {α : Type} {P : α → Prop} {before before' rest rest' : List α} {a a' : α}
    (h : before ++ a :: rest = before' ++ a' :: rest') (hb : ∀ x ∈ before, P x) (ha : ¬ P a)
    (hb' : ∀ x ∈ before', P x) (ha' : ¬ P a') : before = before' := by
  induction before generalizing before' with
  | nil =>
    cases before' with
    | nil => rfl
    | cons x before' =>
      rw [(List.cons.inj h).1] at ha
      exact absurd (hb' x (by simp)) ha
  | cons x before ih =>
    cases before' with
    | nil =>
      rw [← (List.cons.inj h).1] at ha'
      exact absurd (hb x (by simp)) ha'
    | cons y before' =>
      obtain ⟨rfl, htail⟩ := List.cons.inj h
      rw [ih htail (fun z hz => hb z (by simp [hz])) fun z hz => hb' z (by simp [hz])]

section

variable {tree after : Tree} {o : Options} {source : Path} {files : List ClassFile}

theorem Cleared.same_iff (h : tree.Plain) (hc : Cleared tree files after)
    (hw : ∀ file ∈ files, Writable tree file) :
    after.Same tree ↔ ∀ file ∈ files, isPresent tree file.path = false := by
  constructor
  · intro hsame file hf
    obtain ⟨place, hl, _⟩ := (writable_iff h).1 (hw file hf)
    rw [hl.isPresent_eq_false_iff h, ← hsame.2 place]
    exact hc.gone hf hl
  · intro habsent
    refine ⟨hc.same.home.symm, fun place => ?_⟩
    by_cases hex : ∃ file ∈ files, Leads tree file.path place
    · obtain ⟨file, hf, hl⟩ := hex
      rw [hc.gone hf hl, (hl.isPresent_eq_false_iff h).1 (habsent file hf)]
    · exact hc.other fun file hf hl => hex ⟨file, hf, hl⟩

theorem Written.same_iff (h : tree.Plain) (hwritten : Written tree files after)
    (hw : ∀ file ∈ files, Writable tree file) :
    after.Same tree ↔
      ∀ {before behind : List ClassFile} {file : ClassFile}, files = before ++ file :: behind →
        (∀ g ∈ behind, ¬ Meet tree file.path g.path) →
        readBytes tree file.path = .ok file.content.toUTF8 := by
  constructor
  · intro hsame before behind file he hlast
    have hf : file ∈ files := by
      rw [he]
      simp
    obtain ⟨place, hl, _⟩ := (writable_iff h).1 (hw file hf)
    rw [Files.readBytes_eq_ok_iff h]
    refine ⟨place, hl, ?_⟩
    rw [← hsame.2 place]
    exact hwritten.last he hl fun g hg hlg => hlast g hg ⟨place, hl, hlg⟩
  · intro hheld
    refine ⟨hwritten.same.home.symm, fun place => ?_⟩
    -- What stands in a place is decided by the last file that leads there.
    by_cases hex : ∃ file ∈ files, Leads tree file.path place
    · obtain ⟨before, file, behind, he, hl, hlast⟩ := exists_last hex
      have hmeet : ∀ g ∈ behind, ¬ Meet tree file.path g.path := by
        rintro g hg ⟨place', hl', hlg⟩
        rw [hl'.unique hl] at hlg
        exact hlast g hg hlg
      obtain ⟨place', hl', hget⟩ := (Files.readBytes_eq_ok_iff h).1 (hheld he hmeet)
      rw [hl'.unique hl] at hget
      rw [hwritten.last he hl hlast, hget]
    · exact hwritten.other fun file hf hl => hex ⟨file, hf, hl⟩

theorem Commits.same_iff {failure : Failure} (h : tree.Plain)
    (hc : Commits tree o source files (.error failure, after)) :
    after.Same tree ↔ Restores tree files := by
  cases hc with
  | @unwritten _ before rest file fault he hw hnot hcleared =>
    rw [hcleared.same_iff h hw]
    constructor
    · intro habsent
      constructor
      · -- There is only one first file that cannot be written.
        intro before' rest' file' he' hw' hnot'
        rw [← first_unique (he.symm.trans he') hw hnot hw' hnot']
        exact habsent
      · intro hall
        exact absurd (hall file (by simp [he])) hnot
    · intro hrestores
      exact hrestores.fresh he hw hnot
  | unmoved hw hwritten _ =>
    rw [hwritten.same_iff h hw]
    constructor
    · intro hheld
      constructor
      · intro before rest file he _ hnot
        exact absurd (hw file (by simp [he])) hnot
      · exact fun _ => hheld
    · intro hrestores
      exact hrestores.held hw

/-- A split that fails leaves the tree as it was exactly when its files are such that writing them
and removing them again does no harm. -/
theorem splitFile_error_same_iff {failure : Failure} (h : tree.Plain)
    (hr : ((splitFile o source).run tree).result = .error failure) :
    ((splitFile o source).run tree).tree.Same tree ↔
      ∀ files, prepare o tree source = .ok files → Restores tree files := by
  have hsplits := splitFile_ending h o source
  unfold Work.ending at hsplits
  rw [hr] at hsplits
  generalize ((splitFile o source).run tree).tree = after at hsplits ⊢
  cases hsplits with
  | refused hrefused =>
    constructor
    · intro _ files hprepare
      rw [hrefused] at hprepare
      cases hprepare
    · intro _
      exact .refl
  | @committed files _ hprepare _ hc =>
    rw [hc.same_iff h]
    constructor
    · intro hrestores files' hprepare'
      rw [hprepare] at hprepare'
      cases hprepare'
      exact hrestores
    · intro hall
      exact hall files hprepare

end

/-- The sample where a file is in the place of the first class and a directory in that of the
second. -/
def blockedTree : Tree :=
  .ofEntries [(["M.java"], .file sampleText.toUTF8), (["A.java"], .file "old".toUTF8),
    (["B.java"], .directory)]

theorem plain_blockedTree : blockedTree.Plain :=
  Tree.plain_ofEntries (by simp)

/-- The split fails at the second class, and the file that the first was to replace is gone. -/
theorem splitFile_blocked_not_same :
    ∃ failure, ((splitFile {} sampleSource).run blockedTree).result = .error failure ∧
      ¬ ((splitFile {} sampleSource).run blockedTree).tree.Same blockedTree := by
  have hread : Files.readText blockedTree sampleSource = .ok sampleText := by
    rw [Files.readText_eq_ok_iff, Files.readBytes_eq_ok_iff plain_blockedTree]
    exact ⟨_, leads_sampleSource, by simp [blockedTree]⟩
  have hprepare : prepare {} blockedTree sampleSource = .ok sampleFiles :=
    prepare_sample rfl rfl hread
  have hfirst : Leads blockedTree ⟨"/A.java"⟩ ["A.java"] := leads_sample "A.java" (by simp)
  have hsecond : Leads blockedTree ⟨"/B.java"⟩ ["B.java"] := leads_sample "B.java" (by simp)
  obtain ⟨first, second, hfiles, hfirstPath, hsecondPath⟩ : ∃ first second,
      sampleFiles = [first] ++ second :: [] ∧ first.path = ⟨"/A.java"⟩ ∧
        second.path = ⟨"/B.java"⟩ := ⟨_, _, rfl, rfl, rfl⟩
  have hwritable : Writable blockedTree first := by
    rw [writable_iff plain_blockedTree, hfirstPath]
    exact ⟨_, hfirst, by simp [blockedTree]⟩
  have hblocked : ¬ Writable blockedTree second := by
    rw [writable_iff plain_blockedTree, hsecondPath]
    rintro ⟨place, hl, hnot⟩
    rw [hl.unique hsecond] at hnot
    exact hnot (by simp [blockedTree])
  have hresult : ∃ failure,
      ((splitFile {} sampleSource).run blockedTree).result = .error failure := by
    have hsplits := splitFile_ending plain_blockedTree {} sampleSource
    unfold Work.ending at hsplits
    generalize ((splitFile {} sampleSource).run blockedTree).result = result at hsplits ⊢
    generalize ((splitFile {} sampleSource).run blockedTree).tree = after at hsplits
    cases hsplits with
    | refused _ => exact ⟨_, rfl⟩
    | dry _ hdry => cases hdry
    | committed hprepare' _ hc =>
      rw [hprepare] at hprepare'
      cases hprepare'
      cases hc with
      | unwritten _ _ _ _ => exact ⟨_, rfl⟩
      | unmoved _ _ _ => exact ⟨_, rfl⟩
      | done hall _ _ => exact absurd (hall second (by simp [hfiles])) hblocked
  obtain ⟨failure, hfailure⟩ := hresult
  refine ⟨failure, hfailure, fun hsame => ?_⟩
  have hrestores := (splitFile_error_same_iff plain_blockedTree hfailure).1 hsame _ hprepare
  have habsent := hrestores.fresh hfiles (by simpa using hwritable) hblocked first (by simp)
  rw [hfirstPath, hfirst.isPresent_eq_false_iff plain_blockedTree] at habsent
  simp [blockedTree] at habsent

end Split
end SourceSplit
