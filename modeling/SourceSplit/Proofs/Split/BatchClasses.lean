import SourceSplit.Proofs.Split.Batch

/-!
# SourceSplit.Proofs.Split.BatchClasses

What becomes of the class files that a batch writes. When files may not be replaced and the suffix
of backups has no slash, all of them are there in the end. Otherwise a class file can be lost to a
later turn of the same batch, in the ways that `splitDirectory_keeps_classes` lists and in no
other.

* `twins_lose_class`: two sources with a class of the same name.
-/

namespace SourceSplit
namespace Split

open Source
open Files (Tree Place Leads readBytes)

section

variable {o : Options} {tree after : Tree} {directory source : Path} {batch : Batch}
  {outcome : Outcome} {before behind : List (Path × Verdict)} {file : ClassFile}

/-- A class file that a batch has written is there in the end, word for word, unless a later turn
takes its place: when files may be replaced, the turn of a file for which a class file of the same
name was planned, or of the class file itself, when it was split; with a slash in the suffix, a
turn with its backup. -/
theorem splitDirectory_keeps_classes (h : tree.Plain) (hn : tree.Named) (hreal : o.dryRun = false)
    (hr : ((splitDirectory o directory).run tree).result = .ok batch)
    (hv : batch.verdicts = before ++ (source, .split outcome) :: behind)
    (hf : file ∈ outcome.files) :
    readBytes ((splitDirectory o directory).run tree).tree file.path = .ok file.content.toUTF8 ∨
      ∃ place, Leads tree file.path place ∧
        ((o.overwrite = true ∧
            ((∃ next, Runs o tree (before ++ [(source, .split outcome)]) next ∧
                Overwritten o place next behind) ∨
              ∃ later ∈ behind, SplitFrom tree place later)) ∨
          ('/' ∈ o.backupSuffix.toList ∧
            ∃ entry ∈ (source, .split outcome) :: behind, BackedUpTo tree place entry)) := by
  obtain ⟨hd, hfiles, hruns⟩ := splitDirectory_runs h hreal hr
  generalize ((splitDirectory o directory).run tree).tree = after at hruns ⊢
  rw [hv] at hruns hfiles
  obtain ⟨here, hbefore, hrest⟩ := hruns.of_append
  have hawaits : Awaits tree (filesBelow tree [o.extension] directory) := awaits_filesBelow h hn hd
  rw [← hfiles, List.map_append] at hawaits
  obtain ⟨place, _, _, hl, _, _, hkept⟩ :=
    hrest.class_kept (hbefore.plain h) (fun hkeep => hbefore.awaits h hkeep hawaits) hf
  have hback := hbefore.same.symm
  rcases hkept with hkept | ⟨hover, hlost⟩ | ⟨hslash, e, he, hb⟩
  · left
    rw [Files.readBytes_eq_ok_iff (hruns.plain h)]
    exact ⟨place, hl.transfer hrest.same, hkept⟩
  · refine .inr ⟨place, hl.transfer hback, .inl ⟨hover, hlost.imp ?_ ?_⟩⟩
    · exact fun ⟨next, hone, hd⟩ => ⟨next, hbefore.append hone, hd⟩
    · exact fun ⟨later, hlater, hd⟩ => ⟨later, hlater, hd.transfer hback⟩
  · exact .inr ⟨place, hl.transfer hback, .inr ⟨hslash, e, he, hb.transfer hback⟩⟩

end

/-! ## Two sources with a class of the same name -/

def twinText : String :=
  "package q;/** */public class C\x7b\x7d/** */public class A\x7b\x7d"

def twinSource : Path := ⟨"/N.java"⟩

def twinFiles : List ClassFile := [
  ⟨⟨⟨"C", 10, 30⟩, 31⟩, ⟨"/C.java"⟩, "package q;\n\n\n\n/** */public class C\x7b\x7d"⟩,
  ⟨⟨⟨"A", 32, 52⟩, 53⟩, ⟨"/A.java"⟩, "package q;\n\n\n\n/** */public class A\x7b\x7d"⟩]

theorem headers_twinText : headers twinText = twinFiles.map (·.declaration.header) := by
  decide +kernel

theorem renders_twin : Renders "java" twinSource ⟨twinText, "q", []⟩ twinFiles := by
  refine ⟨by decide +kernel, ?_, by decide +kernel, by decide +kernel, by decide +kernel,
    by decide +kernel⟩
  simp only [Document.declarations, headers_twinText]
  rfl

/-- The sample and its twin in one directory. -/
def twinTree : Tree :=
  .ofEntries [(["M.java"], .file sampleText.toUTF8), (["N.java"], .file twinText.toUTF8)]

theorem plain_twinTree : twinTree.Plain :=
  Tree.plain_ofEntries (by simp)

theorem named_twinTree : twinTree.Named :=
  Tree.named_ofEntries (by decide)

theorem filesBelow_twinTree : filesBelow twinTree ["java"] ⟨"/"⟩ = [sampleSource, twinSource] := by
  have hnames : twinTree.names [] = ["M.java", "N.java"] := by
    refine Files.Tree.names_eq (by decide) fun name => ?_
    by_cases hm : name = "M.java" <;> by_cases hn : name = "N.java" <;> simp [twinTree, hm, hn]
  have hfirst : twinTree.get? ["M.java"] = some (.file sampleText.toUTF8) := by
    simp [twinTree]
  have hsecond : twinTree.get? ["N.java"] = some (.file twinText.toUTF8) := by
    simp [twinTree]
  rw [filesBelow, Files.walk_root, hnames, Files.walkNames_file hfirst,
    Files.walkNames_file hsecond, Files.walkNames_nil]
  decide +kernel

theorem leads_twinFiles {tree : Tree} {file : ClassFile} (hf : file ∈ twinFiles) :
    ∃ name, name ∈ ["C.java", "A.java"] ∧ Leads tree file.path [name] := by
  simp only [twinFiles, List.mem_cons, List.not_mem_nil, or_false] at hf
  rcases hf with rfl | rfl
  · exact ⟨"C.java", by simp, leads_sample "C.java" (by simp)⟩
  · exact ⟨"A.java", by simp, leads_sample "A.java" (by simp)⟩

/-- The twin is split wherever no directory is in the way. -/
theorem splitFile_twin {tree : Tree} (h : tree.Plain)
    (hs : tree.get? ["N.java"] = some (.file twinText.toUTF8))
    (hfree : ∀ name ∈ ["C.java", "A.java", "N.java.bak"], tree.get? [name] ≠ some .directory) :
    ∃ mid after, (splitFile {} twinSource).ending tree =
        (.ok ⟨twinSource, twinFiles, some ⟨"/N.java.bak"⟩⟩, after) ∧
      Written tree twinFiles mid ∧ Files.Moved mid ["N.java"] ["N.java.bak"] after := by
  have hq : Leads tree (twinSource.withSuffix ".bak") ["N.java.bak"] :=
    leads_sample "N.java.bak" (by simp)
  refine renders_twin.exists_splitFile (o := {}) rfl h (leads_sample "N.java" (by simp)) hs
    (fun file hf => ?_) hq (hfree _ (by simp))
  obtain ⟨name, hname, hl⟩ := leads_twinFiles hf
  refine ⟨_, hl, ?_, hfree name ?_, nofun⟩
  · rintro heq
    rw [(List.cons.inj heq).1] at hname
    simp at hname
  · simp only [List.mem_cons, List.not_mem_nil, or_false] at hname ⊢
    exact hname.imp_right .inl

/-- Both are split, and the class that they share is the second one's. -/
theorem splitDirectory_twinTree :
    ∃ after, (splitDirectory {} ⟨"/"⟩).ending twinTree =
        (.ok (.ofVerdicts [(sampleSource, .split ⟨sampleSource, sampleFiles, some ⟨"/M.java.bak"⟩⟩),
          (twinSource, .split ⟨twinSource, twinFiles, some ⟨"/N.java.bak"⟩⟩)]), after) ∧
      after.Plain ∧
      after.get? ["A.java"] =
        some (.file "package q;\n\n\n\n/** */public class A\x7b\x7d".toUTF8) := by
  have hbackup : Leads twinTree (sampleSource.withSuffix ".bak") ["M.java.bak"] :=
    leads_sample "M.java.bak" (by simp)
  obtain ⟨mid, next, hsplit, hwritten, hmoved⟩ := splitFile_sample {} rfl rfl rfl plain_twinTree
    (by simp [twinTree]) (by simp [twinTree]) hbackup (by simp [twinTree])
  have hother : next.get? ["N.java"] = some (.file twinText.toUTF8) := by
    rw [hmoved.get?, if_neg (by decide), if_neg (by decide),
      get?_written_sample hwritten (by simp)]
    simp [twinTree]
  have hsame := hwritten.same.trans hmoved.same
  obtain ⟨mid', after, hsplit', hwritten', hmoved'⟩ := splitFile_twin hmoved.plain hother
    (by simp [← hsame.directory, twinTree])
  have hread : Files.readText twinTree sampleSource = .ok sampleText :=
    leads_sampleSource.readText plain_twinTree (by simp [twinTree])
  have hread' : Files.readText next twinSource = .ok twinText :=
    (leads_sample "N.java" (by simp)).readText hmoved.plain hother
  have hone := ending_judge_of_split hread (by decide +kernel) hsplit
  have htwo := ending_judge_of_split hread' (by decide +kernel) hsplit'
  refine ⟨after, ?_, hmoved'.plain, ?_⟩
  · refine ending_splitDirectory_pair ?_ filesBelow_twinTree hone htwo
    rw [Files.isDirectory, Files.status_root]
  · rw [hmoved'.get?, if_neg (by decide), if_neg (by decide)]
    have hlast : twinFiles = [_] ++ _ :: [] := rfl
    refine hwritten'.last hlast (leads_sample "A.java" (by simp)) fun later hlater => ?_
    cases hlater

/-- The class file that the first source left is not there any more. -/
theorem twins_lose_class :
    twinTree.Plain ∧ twinTree.Named ∧ ({} : Options).dryRun = false ∧ ∃ batch outcome file,
      ((splitDirectory {} ⟨"/"⟩).run twinTree).result = .ok batch ∧ outcome ∈ batch.outcomes ∧
      file ∈ outcome.files ∧
      readBytes ((splitDirectory {} ⟨"/"⟩).run twinTree).tree file.path ≠
        .ok file.content.toUTF8 := by
  obtain ⟨after, hending, hplain, hget⟩ := splitDirectory_twinTree
  have hresult := congrArg Prod.fst hending
  have htree : ((splitDirectory {} ⟨"/"⟩).run twinTree).tree = after := congrArg Prod.snd hending
  obtain ⟨file, rest, hfiles, hpath⟩ : ∃ file rest,
      sampleFiles = file :: rest ∧ file.path = ⟨"/A.java"⟩ := ⟨_, _, rfl, rfl⟩
  refine ⟨plain_twinTree, named_twinTree, rfl, _, _, file, hresult, .head _, ?_, ?_⟩
  · rw [hfiles]
    exact .head _
  · rw [htree, ne_eq, Files.readBytes_eq_ok_iff hplain]
    rintro ⟨place, hl, hplace⟩
    rw [hpath] at hl
    rw [hl.unique (leads_sample "A.java" (by simp)), hget, Option.some.injEq,
      Files.Entry.file.injEq] at hplace
    have hne : ∀ g ∈ sampleFiles,
        "package q;\n\n\n\n/** */public class A\x7b\x7d" ≠ g.content := by decide
    exact hne file (by simp [hfiles]) (String.toByteArray_inj.1 hplace)

/-- The other class file of the first source is still there after the turn of its twin. -/
theorem splitDirectory_keeps_twin : ∃ file, file ∈ sampleFiles ∧ file.path = ⟨"/B.java"⟩ ∧
    readBytes ((splitDirectory {} ⟨"/"⟩).run twinTree).tree file.path =
      .ok file.content.toUTF8 := by
  obtain ⟨after, hending, _, _⟩ := splitDirectory_twinTree
  have hresult := congrArg Prod.fst hending
  obtain ⟨file, hf, hpath⟩ : ∃ file ∈ sampleFiles, file.path = ⟨"/B.java"⟩ :=
    ⟨_, .tail _ (.head _), rfl⟩
  refine ⟨file, hf, hpath, ?_⟩
  have hfirst : ∀ v w : Path × Verdict, (Batch.ofVerdicts [v, w]).verdicts = [] ++ v :: [w] :=
    fun _ _ => rfl
  have hkeeps :=
    splitDirectory_keeps_classes plain_twinTree named_twinTree rfl hresult (hfirst _ _) hf
  rcases hkeeps with hkept | ⟨place, hl, hlost⟩
  · exact hkept
  rw [hpath] at hl
  obtain rfl := hl.unique (leads_sample "B.java" (by simp))
  rcases hlost with ⟨_, ⟨next, _, hover⟩ | ⟨later, hlater, hfrom⟩⟩ | ⟨hslash, _⟩
  · -- The twin writes C.java and A.java only.
    cases hover with
    | here hover =>
      cases hover with
      | split hmem hlt =>
        obtain ⟨name, hname, hl⟩ := leads_twinFiles hmem
        rw [← (List.cons.inj (hlt.unique hl)).1] at hname
        simp at hname
    | later _ hnone => cases hnone
  · obtain rfl := List.mem_singleton.1 hlater
    obtain ⟨_, _, hl⟩ := hfrom
    exact absurd (hl.unique (leads_sample "N.java" (by simp))) (by decide)
  · exact absurd hslash (by decide)

end Split
end SourceSplit
