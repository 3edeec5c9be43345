import SourceSplit.Proofs.Ending
import SourceSplit.Proofs.Files.Below
import SourceSplit.Proofs.Path.Extension
import SourceSplit.Split.Collect

/-!
# SourceSplit.Proofs.Split.Collect

The files that are collected below a directory: those with one of the given extensions, each of them
once, in the order of their paths (`collect_finds_below`). The tree may hold links and loops.
-/

namespace SourceSplit
namespace Split

open Files (Tree FileBelow Inside)

/-- The name of the path is a stem, a dot, and an extension without a dot, which is the given one
but for the case of ASCII letters. -/
def HasExtension (path : Path) (given : String) : Prop :=
  ∃ stem extension, stem ≠ [] ∧ '.' ∉ extension ∧
    path.fileName? = some (String.ofList (stem ++ '.' :: extension)) ∧
    extension.map Char.toLower = given.toList.map Char.toLower

section

variable {extensions : List String} {path file : Path}

theorem accepts_iff :
    accepts extensions path = true ↔ ∃ given ∈ extensions, HasExtension path given := by
  have hone : ∀ given, HasExtension path given ↔
      ∃ extension, path.extension? = some extension ∧ sameIgnoringCase extension given = true := by
    intro given
    simp only [Path.extension?_eq_some_iff, sameIgnoringCase, decide_eq_true_eq]
    constructor
    · rintro ⟨stem, extension, hstem, hdot, hname, hsame⟩
      refine ⟨String.ofList extension, ⟨stem, hstem, ?_⟩, ?_⟩
      · rw [String.toList_ofList]
        exact ⟨hdot, hname⟩
      · rw [String.toList_ofList]
        exact hsame
    · rintro ⟨extension, ⟨stem, hstem, hdot, hname⟩, hsame⟩
      exact ⟨stem, extension.toList, hstem, hdot, hname, hsame⟩
  unfold accepts
  cases he : path.extension? with
  | none => simp [hone, he]
  | some extension => simp [hone, he, List.any_eq_true]

theorem accepted?_eq_some_iff {visit : Files.Visit} :
    accepted? extensions visit = some file ↔
      visit = .file file ∧ accepts extensions file = true := by
  cases visit with
  | problem fault => simp [accepted?]
  | file path =>
    simp only [accepted?, Files.Visit.file.injEq]
    split
    · rename_i hacc
      rw [Option.some.injEq]
      exact ⟨fun he => ⟨he, he ▸ hacc⟩, And.left⟩
    · rename_i hacc
      simp only [reduceCtorEq, false_iff, not_and]
      rintro rfl
      exact hacc

variable {tree : Tree} {root : Path}

theorem mem_filesBelow_iff (hd : Files.isDirectory tree root = true) :
    path ∈ filesBelow tree extensions root ↔
      FileBelow tree root path ∧ ∃ given ∈ extensions, HasExtension path given := by
  simp only [filesBelow, List.mem_filterMap, accepted?_eq_some_iff, accepts_iff]
  rw [← Files.file_mem_walk_iff hd]
  constructor
  · rintro ⟨visit, hv, rfl, hext⟩
    exact ⟨hv, hext⟩
  · rintro ⟨hv, hext⟩
    exact ⟨_, hv, rfl, hext⟩

theorem sorted_filesBelow (hn : tree.Named) (hd : Files.isDirectory tree root = true) :
    (filesBelow tree extensions root).Pairwise Path.Before := by
  refine (Files.walk_ordered hn hd).filterMap _ fun v w hvw p hp q hq => ?_
  exact hvw p q (accepted?_eq_some_iff.1 hp).1 (accepted?_eq_some_iff.1 hq).1

/-- All files below a directory that have one of the extensions are collected, each of them once,
and in the order of their paths. -/
theorem collect_finds_below (hn : tree.Named) (hd : Files.isDirectory tree root = true)
    (extensions : List String) :
    ∃ files, (collect extensions root).ending tree = (.ok files, tree) ∧
      (∀ path, path ∈ files ↔
        FileBelow tree root path ∧ ∃ given ∈ extensions, HasExtension path given) ∧
      files.Nodup ∧ files.Pairwise Path.Before := by
  have hsorted : (filesBelow tree extensions root).Pairwise Path.Before := sorted_filesBelow hn hd
  refine ⟨filesBelow tree extensions root, rfl, fun path => mem_filesBelow_iff hd, ?_, hsorted⟩
  exact hsorted.imp Path.Before.ne

end

/-! ## A loop beside a directory and a file of one name -/

def loopTree : Tree :=
  .ofEntries [(["a"], .directory), (["X.java", "a"], .file "x".toUTF8), (["loop", "a"], .link "/"),
    (["a.java"], .file "y".toUTF8)]

theorem named_loopTree : loopTree.Named :=
  Tree.named_ofEntries (by decide)

theorem status_loopTree :
    Files.status loopTree ⟨"/a"⟩ = .ok (.directory ["a"]) ∧
      Files.status loopTree ⟨"/a/loop"⟩ = .ok (.directory []) := by
  have hnames : Files.pathNames "/a" = ["", "a"] := by decide +kernel
  have hnames' : Files.pathNames "/a/loop" = ["", "a", "loop"] := by decide +kernel
  have hroot : Files.pathNames "/" = ["", ""] := by decide +kernel
  have hfits : Files.lengthFits ⟨"/a"⟩ = .ok () ∧ Files.lengthFits ⟨"/a/loop"⟩ = .ok () :=
    ⟨rfl, rfl⟩
  have hnul : Files.nulFree ⟨"/a"⟩ = .ok () ∧ Files.nulFree ⟨"/a/loop"⟩ = .ok () := ⟨rfl, rfl⟩
  have hstart : ∀ home, Files.startFrom home "/" = [] ∧ Files.startFrom home "/a" = [] ∧
      Files.startFrom home "/a/loop" = [] := by
    simp [Files.startFrom, Path.isAbsolute]
  have hlong : Files.isTooLong "a" = false ∧ Files.isTooLong "loop" = false := by decide
  have hlinks : Files.maxLinks = 39 + 1 := rfl
  simp [Files.status, Files.locate, hfits, hnul, hnames, hnames', hstart, hroot, hlong, hlinks,
    Files.follow, loopTree, bind, Except.bind]

theorem isDirectory_loopTree : Files.isDirectory loopTree ⟨"/"⟩ = true := by
  rw [Files.isDirectory, Files.status_root]

theorem join_loopTree : Path.join ⟨"/"⟩ "a" = ⟨"/a"⟩ ∧ Path.join ⟨"/a"⟩ "loop" = ⟨"/a/loop"⟩ ∧
    Path.join ⟨"/a"⟩ "X.java" = ⟨"/a/X.java"⟩ ∧ Path.join ⟨"/"⟩ "a.java" = ⟨"/a.java"⟩ := by
  decide +kernel

theorem eq_of_loopTree {place : Files.Place} :
    (loopTree.get? place = some .directory → place = ["a"] ∨ place = []) ∧
      (∀ target, loopTree.get? place = some (.link target) → place = ["loop", "a"]) ∧
      (∀ content, loopTree.get? place = some (.file content) →
        place = ["X.java", "a"] ∨ place = ["a.java"]) := by
  simp only [loopTree, Tree.get?_ofEntries_cons, Tree.get?_ofEntries_nil]
  grind

/-- The link leads back to a directory above it, so the walk is never inside of more than two. -/
theorem inside_loopTree {levels : List Files.Level} (h : Inside loopTree ⟨"/"⟩ levels) :
    levels = [⟨⟨"/"⟩, []⟩] ∨ levels = [⟨⟨"/a"⟩, ["a"]⟩, ⟨⟨"/"⟩, []⟩] := by
  induction h with
  | root hs =>
    rw [Files.status_root] at hs
    cases hs
    exact .inl rfl
  | @directory level above name _ _ hg _ ih =>
    have hplace := eq_of_loopTree.1 hg
    rcases ih with heq | heq <;> cases heq
    · obtain rfl : name = "a" := by simpa using hplace
      exact .inr (by rw [join_loopTree.1])
    · simp at hplace
  | @link level above name target place _ hg hs hloop ih =>
    have hplace := eq_of_loopTree.2.1 target hg
    rcases ih with heq | heq <;> cases heq
    · simp at hplace
    · obtain rfl : name = "loop" := by simpa using hplace
      rw [join_loopTree.2.1, status_loopTree.2] at hs
      cases hs
      exact absurd rfl (hloop ⟨⟨"/"⟩, []⟩ (by simp))

theorem fileBelow_loopTree {path : Path} :
    FileBelow loopTree ⟨"/"⟩ path ↔ path = ⟨"/a/X.java"⟩ ∨ path = ⟨"/a.java"⟩ := by
  have hroot : Inside loopTree ⟨"/"⟩ [⟨⟨"/"⟩, []⟩] := .root (Files.status_root _)
  have hdown : Inside loopTree ⟨"/"⟩ [⟨⟨"/a"⟩, ["a"]⟩, ⟨⟨"/"⟩, []⟩] := by
    have hjoin : Files.status loopTree (Path.join ⟨"/"⟩ "a") = .ok (.directory ["a"]) := by
      rw [join_loopTree.1, status_loopTree.1]
    have h := Inside.directory hroot (by simp [loopTree]) hjoin
    rwa [join_loopTree.1] at h
  constructor
  · rintro ⟨level, above, name, hinside, rfl, hfile⟩
    rcases hfile with ⟨content, hg⟩ | ⟨target, last, content, hg, hs⟩
    · have hplace := eq_of_loopTree.2.2 content hg
      rcases inside_loopTree hinside with heq | heq <;> cases heq
      · obtain rfl : name = "a.java" := by simpa using hplace
        exact .inr join_loopTree.2.2.2
      · obtain rfl : name = "X.java" := by simpa using hplace
        exact .inl join_loopTree.2.2.1
    · have hplace := eq_of_loopTree.2.1 target hg
      rcases inside_loopTree hinside with heq | heq <;> cases heq
      · simp at hplace
      · obtain rfl : name = "loop" := by simpa using hplace
        rw [join_loopTree.2.1, status_loopTree.2] at hs
        cases hs
  · rintro (rfl | rfl)
    · refine ⟨_, _, "X.java", hdown, join_loopTree.2.2.1.symm, .inl ⟨"x".toUTF8, ?_⟩⟩
      simp [loopTree]
    · refine ⟨_, _, "a.java", hroot, join_loopTree.2.2.2.symm, .inl ⟨"y".toUTF8, ?_⟩⟩
      simp [loopTree]

/-- A loop is not followed, and what is in the directory comes before the file beside it, although
the text of its path does not. -/
theorem collect_finds_below_loop :
    ∃ files, (collect ["java"] ⟨"/"⟩).ending loopTree = (.ok files, loopTree) ∧
      (∀ path, path ∈ files ↔ path = ⟨"/a/X.java"⟩ ∨ path = ⟨"/a.java"⟩) ∧
      files.Pairwise Path.Before := by
  obtain ⟨files, hending, hmem, -, hsorted⟩ :=
    collect_finds_below named_loopTree isDirectory_loopTree ["java"]
  refine ⟨files, hending, fun path => (hmem path).trans ?_, hsorted⟩
  rw [fileBelow_loopTree]
  have hall : ∀ path ∈ [Path.mk "/a/X.java", ⟨"/a.java"⟩], accepts ["java"] path = true := by
    decide +kernel
  refine ⟨And.left, fun h => ⟨h, accepts_iff.1 (hall path ?_)⟩⟩
  simpa using h

end Split
end SourceSplit
