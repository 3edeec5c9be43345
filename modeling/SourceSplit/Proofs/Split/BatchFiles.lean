import SourceSplit.Proofs.Split.Batch

/-!
# SourceSplit.Proofs.Split.BatchFiles

What a batch that may not replace class files makes of the files it finds. Each of them is there in
the end as it was, or it was split and its backup holds it, or a backup took its place. Only with a
slash in the suffix can a backup be lost again, to a later turn (`splitDirectory_accounts`).

Without a slash the backup of a source stands beside it and is no other source's backup. It may be
a file that waits for its turn, but is not split then: it holds the text of the source, whose
classes are there by now (`Runs.not_splitFrom_backup`). `crossed_backup_lost` is a case with a
slash.
-/

namespace SourceSplit
namespace Split

open Source
open Files (Tree Place Leads readBytes)

/-- What has become of a file. -/
inductive Accounted (o : Options) (tree : Tree) (batch : Batch) (after : Tree) (place : Place)
    (bytes : ByteArray) : Prop where
  | untouched : after.get? place = some (.file bytes) → Accounted o tree batch after place bytes
  | setAside {before behind : List (Path × Verdict)} {source backup : Path} {outcome : Outcome} :
      batch.verdicts = before ++ (source, .split outcome) :: behind → Leads tree source place →
      outcome.backup = some backup →
      (readBytes after backup = .ok bytes ∨
        '/' ∈ o.backupSuffix.toList ∧ ∃ q, Leads tree backup q ∧
          ∃ later ∈ behind, SplitFrom tree q later ∨ BackedUpTo tree q later) →
      Accounted o tree batch after place bytes
  | replaced {entry : Path × Verdict} : entry ∈ batch.verdicts → BackedUpTo tree place entry →
      Accounted o tree batch after place bytes

section

variable {o : Options} {tree here next after : Tree} {directory source source' : Path}
  {batch : Batch} {outcome outcome' : Outcome} {verdicts before behind : List (Path × Verdict)}
  {name name' : String} {dir place q : Place}

/-- The turn of a source that is split puts it where its backup leads. -/
theorem Turn.sets_aside (h : tree.Plain) (hacc : accepts [o.extension] source = true)
    (ht : Turn o tree source (.split outcome) after) (hl : Leads tree source place) :
    ∃ backup q, outcome.backup = some backup ∧ Leads tree backup q ∧
      after.get? q = tree.get? place := by
  cases ht with
  | idle hnone => cases hnone
  | @split files mid _ p q hp _ hwritten hs hq hmoved =>
    obtain ⟨doc, decls, name, dir, hprepared⟩ := exists_prepared h hacc hp
    refine ⟨_, q, rfl, hq, ?_⟩
    rw [hmoved.get?, if_pos rfl, hs.unique hl]
    apply hwritten.other
    intro file hf hl'
    exact (hprepared.beside hf hl').2 (hl.unique hprepared.leads)

/-- Sources with the same content are split into the same classes, of which there is one. -/
theorem Turn.exists_same_class (h : tree.Plain) (h' : here.Plain)
    (hacc : accepts [o.extension] source = true) (hacc' : accepts [o.extension] source' = true)
    (ht : Turn o tree source (.split outcome) next)
    (ht' : Turn o here source' (.split outcome') after)
    (hl : Leads tree source place) (hl' : Leads here source' q)
    (hsame : here.get? q = tree.get? place) :
    ∃ file ∈ outcome.files, ∃ file' ∈ outcome'.files, file'.declaration = file.declaration := by
  cases ht with
  | idle hnone => cases hnone
  | @split files _ _ _ _ hp _ _ _ _ _ =>
    cases ht' with
    | idle hnone => cases hnone
    | @split files' _ _ _ _ hp' _ _ _ _ _ =>
      obtain ⟨doc, decls, _, _, hprepared⟩ := exists_prepared h hacc hp
      obtain ⟨doc', decls', _, _, hprepared'⟩ := exists_prepared h' hacc' hp'
      rw [hl.unique hprepared.leads, hl'.unique hprepared'.leads, hprepared.text,
        hprepared'.text, Option.some.injEq, Files.Entry.file.injEq] at hsame
      have htext : doc'.text = doc.text := String.toByteArray_inj.1 hsame
      have hdoc : doc' = doc := by
        have hdocument := hprepared'.document
        rw [htext, hprepared.document] at hdocument
        exact (Option.some.inj hdocument).symm
      have hdecls : decls' = decls := by
        have hdeclarations := hprepared'.declarations
        rw [hdoc, hprepared.declarations] at hdeclarations
        exact (Except.ok.inj hdeclarations).symm
      obtain ⟨file, hf⟩ := List.exists_mem_of_ne_nil _ hprepared.ne_nil
      have hmem : file.declaration ∈ files'.map (·.declaration) := by
        rw [hprepared'.planned.declarations, hdecls, ← hprepared.planned.declarations]
        exact List.mem_map_of_mem hf
      obtain ⟨file', hf', heq⟩ := List.mem_map.1 hmem
      exact ⟨file, hf, file', hf', heq⟩

/-- When nothing may be replaced, a class file that was written stays. -/
theorem Runs.class_stays {file : ClassFile} (h : tree.Plain) (hkeep : o.overwrite = false)
    (hslash : '/' ∉ o.backupSuffix.toList)
    (hr : Runs o tree ((source, .split outcome) :: behind) after)
    (ha : Awaits tree (((source, .split outcome) :: behind).map Prod.fst))
    (hl : Leads tree source (name :: dir)) (hf : file ∈ outcome.files) :
    after.get? (classPlace o file.declaration dir) = some (.file file.content.toUTF8) := by
  obtain ⟨place, _, _, _, hs, rfl, hkept⟩ := hr.class_kept h (fun _ => ha) hf
  obtain ⟨rfl, rfl⟩ := List.cons.inj (hl.unique hs)
  rcases hkept with hkept | ⟨hover, _⟩ | ⟨hsuffix, _⟩
  · exact hkept
  · rw [hkeep] at hover
    cases hover
  · exact absurd hsuffix hslash

/-- What was set aside stays, if no later turn splits it or puts its backup there. -/
theorem Runs.backup_stays {entry : Files.Entry} (h : tree.Plain) (hkeep : o.overwrite = false)
    (hr : Runs o tree ((source, .split outcome) :: behind) after) (hl : Leads tree source place)
    (hg : tree.get? place = some entry) :
    ∃ backup q, outcome.backup = some backup ∧ Leads tree backup q ∧
      ((∀ e ∈ behind, ¬ SplitFrom tree q e) → (∀ e ∈ behind, ¬ BackedUpTo tree q e) →
        after.get? q = some entry) := by
  cases hr with
  | turn hacc _ ht hbehind =>
    obtain ⟨backup, q, hb, hq, hset⟩ := ht.sets_aside h hacc hl
    have hback := ht.same.symm
    refine ⟨backup, q, hb, hq, fun hsplit hbackup => ?_⟩
    refine hbehind.keeps_of_keep (ht.plain h) hkeep (hset.trans hg) ?_ ?_
    · exact fun e he hd => hsplit e he (hd.transfer hback)
    · exact fun e he hd => hbackup e he (hd.transfer hback)

/-- Without a slash only the source beside it is put where a backup is. -/
theorem Runs.not_backedUpTo (h : tree.Plain) (hslash : '/' ∉ o.backupSuffix.toList)
    (hr : Runs o tree verdicts after) {e : Path × Verdict} (he : e ∈ verdicts)
    (hne : ¬ Leads tree e.1 (name :: dir)) :
    ¬ BackedUpTo tree ((name ++ o.backupSuffix) :: dir) e := by
  obtain ⟨path, verdict⟩ := e
  rintro ⟨other, backup, hsplit, hb, hq⟩
  cases hsplit
  obtain ⟨name', dir', _, hl', hplace⟩ := hr.exists_backup h hslash he hb hq
  obtain ⟨hname, rfl⟩ := List.cons.inj hplace
  have hsame : name = name' := by
    rw [← String.toList_inj, String.toList_append, String.toList_append] at hname
    exact String.toList_inj.1 (List.append_cancel_right hname)
  subst hsame
  exact hne hl'

/-- Without a slash a backup that waits for its turn is not split: the classes of its text have been
written beside it. -/
theorem Runs.not_splitFrom_backup (h : tree.Plain) (hkeep : o.overwrite = false)
    (hslash : '/' ∉ o.backupSuffix.toList)
    (hr : Runs o tree ((source, .split outcome) :: behind) after)
    (ha : Awaits tree (((source, .split outcome) :: behind).map Prod.fst))
    (hl : Leads tree source (name :: dir)) {e : Path × Verdict} (he : e ∈ behind) :
    ¬ SplitFrom tree ((name ++ o.backupSuffix) :: dir) e := by
  obtain ⟨source', verdict⟩ := e
  rintro ⟨outcome', hsplit, hl'⟩
  cases hsplit
  obtain ⟨between, rest, rfl⟩ := List.append_of_mem he
  rw [← List.cons_append] at hr ha
  obtain ⟨here, last, hbefore, hacc', _, ht', _⟩ := hr.exists_turn
  have hplain := hbefore.plain h
  have hlast := hl'.transfer hbefore.same
  have hfirst : Awaits tree (((source, .split outcome) :: between).map Prod.fst) := by
    rw [List.map_append] at ha
    exact ha.of_append_left
  -- The backup holds the text of the source when its turn comes.
  have hsame : here.get? ((name ++ o.backupSuffix) :: dir) = tree.get? (name :: dir) := by
    obtain ⟨entry, hg⟩ := Option.ne_none_iff_exists'.1 (ha.present source (by simp) _ hl)
    obtain ⟨backup, q, hb, hq, hstays⟩ := hbefore.backup_stays h hkeep hl hg
    obtain ⟨_, _, _, hs, rfl⟩ := hbefore.exists_backup h hslash (.head _) hb hq
    obtain ⟨rfl, rfl⟩ := List.cons.inj (hl.unique hs)
    have hfirst' : Awaits tree (([] ++ (source, Verdict.split outcome) :: between).map Prod.fst) :=
      hfirst
    rw [hg]
    refine hstays (fun e he ⟨_, _, hle⟩ => ?_) fun e he => ?_
    · exact ha.alone hl' e (by simp [he]) hle
    · exact hbefore.not_backedUpTo h hslash (.tail _ he) (hfirst'.alone hl e he)
  have hrun := hbefore
  cases hbefore with
  | turn hacc _ ht _ =>
    obtain ⟨file, hf, file', hf', hdecl⟩ :=
      ht.exists_same_class h hplain hacc hacc' ht' hl hlast hsame
    obtain ⟨_, _, _, _, hs, hplace, _, _, hfree, _⟩ := ht'.class_written hplain hacc' hf'
    obtain ⟨_, rfl⟩ := List.cons.inj (hlast.unique hs)
    have hstays := hrun.class_stays h hkeep hslash hfirst hl hf
    rw [hplace, hdecl, hstays] at hfree
    cases hfree hkeep

/-- The backup of a source is lost only with a slash in the suffix. -/
theorem Runs.exists_backup_kept {entry : Files.Entry} (h : tree.Plain)
    (hkeep : o.overwrite = false)
    (hr : Runs o tree ((source, .split outcome) :: behind) after)
    (ha : Awaits tree (((source, .split outcome) :: behind).map Prod.fst))
    (hl : Leads tree source place) (hg : tree.get? place = some entry) :
    ∃ backup q, outcome.backup = some backup ∧ Leads tree backup q ∧
      (after.get? q = some entry ∨
        '/' ∈ o.backupSuffix.toList ∧
          ∃ later ∈ behind, SplitFrom tree q later ∨ BackedUpTo tree q later) := by
  obtain ⟨backup, q, hb, hq, hstays⟩ := hr.backup_stays h hkeep hl hg
  refine ⟨backup, q, hb, hq, ?_⟩
  by_cases hslash : '/' ∈ o.backupSuffix.toList
  · by_cases hlost : ∃ later ∈ behind, SplitFrom tree q later ∨ BackedUpTo tree q later
    · exact .inr ⟨hslash, hlost⟩
    · exact .inl <| hstays (fun e he hd => hlost ⟨e, he, .inl hd⟩)
        fun e he hd => hlost ⟨e, he, .inr hd⟩
  · left
    obtain ⟨name, dir, _, hs, rfl⟩ := hr.exists_backup h hslash (.head _) hb hq
    have ha' : Awaits tree (([] ++ (source, Verdict.split outcome) :: behind).map Prod.fst) := ha
    refine hstays (fun e he => ?_) fun e he => ?_
    · exact hr.not_splitFrom_backup h hkeep hslash ha hs he
    · exact hr.not_backedUpTo h hslash (.tail _ he) (ha'.alone hs e he)

/-- A source that was split is held by its backup. -/
theorem Runs.accounted_of_split {bytes : ByteArray} (h : tree.Plain) (hkeep : o.overwrite = false)
    (hr : Runs o tree batch.verdicts after) (ha : Awaits tree (batch.verdicts.map Prod.fst))
    (hv : batch.verdicts = before ++ (source, .split outcome) :: behind)
    (hl : Leads tree source place) (hg : tree.get? place = some (.file bytes))
    (hbackup : ∀ e ∈ batch.verdicts, ¬ BackedUpTo tree place e) :
    Accounted o tree batch after place bytes := by
  rw [hv] at hr ha hbackup
  obtain ⟨here, hbefore, hrest⟩ := hr.of_append
  have hhere : here.get? place = some (.file bytes) := by
    refine hbefore.keeps_of_keep h hkeep hg ?_ ?_
    · exact fun e he ⟨_, _, hle⟩ => ha.alone hl e (by simp [he]) hle
    · exact fun e he => hbackup e (by simp [he])
  have hback := hbefore.same.symm
  rw [List.map_append] at ha
  obtain ⟨backup, q, hb, hq, hkept⟩ := hrest.exists_backup_kept (hbefore.plain h) hkeep
    (hbefore.awaits h hkeep ha) (hl.transfer hbefore.same) hhere
  refine .setAside hv hl hb ?_
  rcases hkept with hkept | ⟨hslash, later, hlater, hlost⟩
  · left
    rw [Files.readBytes_eq_ok_iff (hr.plain h)]
    exact ⟨q, hq.transfer hrest.same, hkept⟩
  · refine .inr ⟨hslash, q, hq.transfer hback, later, hlater, ?_⟩
    exact hlost.imp (·.transfer hback) (·.transfer hback)

theorem Runs.accounted {bytes : ByteArray} (h : tree.Plain) (hkeep : o.overwrite = false)
    (hr : Runs o tree batch.verdicts after) (ha : Awaits tree (batch.verdicts.map Prod.fst))
    (hg : tree.get? place = some (.file bytes)) : Accounted o tree batch after place bytes := by
  by_cases hbackup : ∃ e ∈ batch.verdicts, BackedUpTo tree place e
  · obtain ⟨e, he, hb⟩ := hbackup
    exact .replaced he hb
  have hnever : ∀ e ∈ batch.verdicts, ¬ BackedUpTo tree place e :=
    fun e he hb => hbackup ⟨e, he, hb⟩
  by_cases hsplit : ∃ e ∈ batch.verdicts, SplitFrom tree place e
  · obtain ⟨⟨source, verdict⟩, he, outcome, hsplit, hl⟩ := hsplit
    cases hsplit
    obtain ⟨before, behind, hv⟩ := List.append_of_mem he
    exact hr.accounted_of_split h hkeep ha hv hl hg hnever
  · exact .untouched (hr.keeps_of_keep h hkeep hg (fun e he hd => hsplit ⟨e, he, hd⟩) hnever)

/-- A file that was looked at and not split is not set aside. -/
theorem Accounted.of_not_split {path : Path} {verdict : Verdict} {bytes : ByteArray}
    (ha : Awaits tree (batch.verdicts.map Prod.fst)) (hmem : (path, verdict) ∈ batch.verdicts)
    (hnone : verdict.outcome? = none) (hl : Leads tree path place)
    (h : Accounted o tree batch after place bytes) :
    after.get? place = some (.file bytes) ∨
      ∃ entry ∈ batch.verdicts, BackedUpTo tree place entry := by
  cases h with
  | untouched hkept => exact .inl hkept
  | replaced he hb => exact .inr ⟨_, he, hb⟩
  | @setAside before behind source backup outcome hv hl' _ _ =>
    have hne : (path, verdict) ≠ (source, .split outcome) := by
      intro heq
      rw [(Prod.mk.inj heq).2] at hnone
      cases hnone
    rw [hv] at ha hmem
    have hother : (path, verdict) ∈ before ++ behind := by
      simp only [List.mem_append, List.mem_cons] at hmem ⊢
      exact hmem.imp_right fun hm => hm.resolve_left hne
    exact absurd hl (ha.alone hl' _ hother)

/-- A batch that may not replace class files accounts for every file. A file that it did not split is
untouched, or a backup took its place. -/
theorem splitDirectory_accounts (h : tree.Plain) (hn : tree.Named) (hreal : o.dryRun = false)
    (hkeep : o.overwrite = false)
    (hr : ((splitDirectory o directory).run tree).result = .ok batch) :
    (∀ place bytes, tree.get? place = some (.file bytes) →
      Accounted o tree batch ((splitDirectory o directory).run tree).tree place bytes) ∧
    ∀ path verdict bytes, (path, verdict) ∈ batch.verdicts → verdict.outcome? = none →
      readBytes tree path = .ok bytes →
      readBytes ((splitDirectory o directory).run tree).tree path = .ok bytes ∨
        ∃ place, Leads tree path place ∧ ∃ entry ∈ batch.verdicts, BackedUpTo tree place entry := by
  obtain ⟨hd, hfiles, hruns⟩ := splitDirectory_runs h hreal hr
  generalize ((splitDirectory o directory).run tree).tree = after at hruns ⊢
  have hawaits : Awaits tree (batch.verdicts.map Prod.fst) := by
    rw [hfiles]
    exact awaits_filesBelow h hn hd
  refine ⟨fun place bytes hg => hruns.accounted h hkeep hawaits hg, ?_⟩
  intro path verdict bytes hmem hnone hread
  obtain ⟨place, hl, hg⟩ := (Files.readBytes_eq_ok_iff h).1 hread
  rcases (hruns.accounted h hkeep hawaits hg).of_not_split hawaits hmem hnone hl with hkept | hb
  · left
    rw [Files.readBytes_eq_ok_iff (hruns.plain h)]
    exact ⟨place, hl.transfer hruns.same, hkept⟩
  · exact .inr ⟨place, hl, hb⟩

end

/-! ## Two sources with one backup -/

def crossedOptions : Options := { backupSuffix := "x/../K", overwrite := false, minClasses := 1 }

def crossedText : String :=
  "package q;/** */public class C\x7b\x7d"

def crossedSource : Path := ⟨"/N.java"⟩

def crossedFiles : List ClassFile := [
  ⟨⟨⟨"C", 10, 30⟩, 31⟩, ⟨"/C.java"⟩, "package q;\n\n\n\n/** */public class C\x7b\x7d"⟩]

theorem headers_crossedText : headers crossedText = crossedFiles.map (·.declaration.header) := by
  decide +kernel

theorem renders_crossed : Renders "java" crossedSource ⟨crossedText, "q", []⟩ crossedFiles := by
  refine ⟨by decide +kernel, ?_, by decide +kernel, by decide +kernel, by decide +kernel,
    by decide +kernel⟩
  simp only [Document.declarations, headers_crossedText]
  rfl

/-- The sample and another source, each beside a directory that is called like it with the first
part of the suffix. -/
def crossedTree : Tree :=
  .ofEntries [(["M.java"], .file sampleText.toUTF8), (["N.java"], .file crossedText.toUTF8),
    (["M.javax"], .directory), (["N.javax"], .directory)]

theorem plain_crossedTree : crossedTree.Plain :=
  Tree.plain_ofEntries (by simp)

theorem named_crossedTree : crossedTree.Named :=
  Tree.named_ofEntries (by decide)

theorem filesBelow_crossedTree :
    filesBelow crossedTree ["java"] ⟨"/"⟩ = [sampleSource, crossedSource] := by
  have hroot : crossedTree.names [] = ["M.java", "M.javax", "N.java", "N.javax"] := by
    refine Files.Tree.names_eq (by decide) fun name => ?_
    by_cases hm : name = "M.java" <;> by_cases hmx : name = "M.javax" <;>
      by_cases hn : name = "N.java" <;> by_cases hnx : name = "N.javax" <;>
      simp [crossedTree, hm, hmx, hn, hnx]
  have hbare : ∀ name ∈ ["M.javax", "N.javax"], crossedTree.names [name] = [] := by
    intro name hname
    refine Files.Tree.names_eq .nil fun below => ?_
    simp [crossedTree]
  have hdir : ∀ name ∈ ["M.javax", "N.javax"], crossedTree.get? [name] = some .directory := by
    simp [crossedTree]
  have hstatus : ∀ name ∈ ["M.javax", "N.javax"],
      Files.status crossedTree (Path.join ⟨"/"⟩ name) = .ok (.directory [name]) := by
    intro name hname
    refine Leads.status_directory plain_crossedTree ?_ (hdir name hname)
    simp only [List.mem_cons, List.not_mem_nil, or_false] at hname
    rcases hname with rfl | rfl
    · exact Files.leads_of_root "M.javax" (by decide)
    · exact Files.leads_of_root "N.javax" (by decide)
  have hfirst : crossedTree.get? ["M.java"] = some (.file sampleText.toUTF8) := by
    simp [crossedTree]
  have hsecond : crossedTree.get? ["N.java"] = some (.file crossedText.toUTF8) := by
    simp [crossedTree]
  rw [filesBelow, Files.walk_root, hroot, Files.walkNames_file hfirst,
    Files.walkNames_bare (hdir _ (by simp)) (hstatus _ (by simp)) (hbare _ (by simp)),
    Files.walkNames_file hsecond,
    Files.walkNames_bare (hdir _ (by simp)) (hstatus _ (by simp)) (hbare _ (by simp)),
    Files.walkNames_nil]
  decide +kernel

/-- Both backups lead to one place. -/
theorem leads_crossedBackup {tree : Tree} (name : String) (hname : name ∈ ["M.java", "N.java"])
    (hd : tree.get? [name ++ "x"] = some .directory) :
    Leads tree ((Path.mk ("/" ++ name)).withSuffix crossedOptions.backupSuffix) ["K"] := by
  have hnames : ∀ name ∈ ["M.java", "N.java"],
      Files.pathNames ((Path.mk ("/" ++ name)).withSuffix crossedOptions.backupSuffix).text =
        ["", name ++ "x", ".."] ++ ["K"] := by
    decide +kernel
  have hsimple : ∀ name ∈ ["M.java", "N.java"], Files.Simple (name ++ "x") := by decide
  obtain ⟨hordinary, hlong, _, _⟩ := hsimple name hname
  have hplain := hnames name hname
  simp only [List.mem_cons, List.not_mem_nil, or_false] at hname
  have hstart : Files.startFrom tree.home
      ((Path.mk ("/" ++ name)).withSuffix crossedOptions.backupSuffix).text = [] := by
    rcases hname with rfl | rfl <;> rfl
  refine ⟨?_, ?_, _, "K", [], hplain, by decide, by decide, ?_, rfl⟩
  · rcases hname with rfl | rfl <;> rfl
  · rcases hname with rfl | rfl <;> rfl
  · rw [hstart]
    refine .stay rfl (.inl rfl) (.down rfl hordinary hlong ?_)
    exact .up hd (.done rfl)

/-- Both are split, and the second backup is the one that is left. -/
theorem splitDirectory_crossedTree :
    ∃ after, (splitDirectory crossedOptions ⟨"/"⟩).ending crossedTree =
        (.ok (.ofVerdicts
          [(sampleSource, .split ⟨sampleSource, sampleFiles, some ⟨"/M.javax/../K"⟩⟩),
            (crossedSource, .split ⟨crossedSource, crossedFiles, some ⟨"/N.javax/../K"⟩⟩)]),
          after) ∧
      after.Plain ∧ crossedTree.SameDirectories after ∧ after.get? ["M.java"] = none ∧
      after.get? ["K"] = some (.file crossedText.toUTF8) := by
  have hq : Leads crossedTree (sampleSource.withSuffix crossedOptions.backupSuffix) ["K"] :=
    leads_crossedBackup "M.java" (by simp) (by simp [crossedTree])
  have hsource : crossedTree.get? ["M.java"] = some (.file sampleText.toUTF8) := by
    simp [crossedTree]
  obtain ⟨mid, next, hsplit, hwritten, hmoved⟩ := renders_sample.exists_splitFile
    (o := crossedOptions) rfl plain_crossedTree leads_sampleSource hsource (fun file hf => by
      obtain ⟨name, hname, hl⟩ := leads_sampleFiles hf
      simp only [List.mem_cons, List.not_mem_nil, or_false] at hname
      refine ⟨_, hl, ?_⟩
      rcases hname with rfl | rfl <;> simp [crossedTree]) hq
    (by simp [crossedTree])
  have hsame := hwritten.same.trans hmoved.same
  have htext : next.get? ["N.java"] = some (.file crossedText.toUTF8) := by
    rw [hmoved.get?, if_neg (by decide), if_neg (by decide),
      get?_written_sample hwritten (by simp)]
    simp [crossedTree]
  have hclass : next.get? ["C.java"] = none := by
    rw [hmoved.get?, if_neg (by decide), if_neg (by decide),
      get?_written_sample hwritten (by simp)]
    simp [crossedTree]
  have hl : ∀ {tree : Tree}, Leads tree crossedSource ["N.java"] := leads_sample "N.java" (by simp)
  have hq' : Leads next (crossedSource.withSuffix crossedOptions.backupSuffix) ["K"] :=
    leads_crossedBackup "N.java" (by simp) <| (hsame.directory _).1 <| by
      simp [crossedTree]
  obtain ⟨mid', after, hsplit', hwritten', hmoved'⟩ := renders_crossed.exists_splitFile
    (o := crossedOptions) rfl hmoved.plain hl htext (fun file hf => by
      rw [List.mem_singleton.1 hf]
      exact ⟨["C.java"], leads_sample "C.java" (by simp), by simp [hclass]⟩) hq'
    (by simp [← hsame.directory, crossedTree])
  have hread : Files.readText crossedTree sampleSource = .ok sampleText :=
    leads_sampleSource.readText plain_crossedTree hsource
  have hread' : Files.readText next crossedSource = .ok crossedText :=
    hl.readText hmoved.plain htext
  have hone := ending_judge_of_split hread (by decide +kernel) hsplit
  have htwo := ending_judge_of_split hread' (by decide +kernel) hsplit'
  have hkept : ∀ name ≠ "C.java", mid'.get? [name] = next.get? [name] := by
    intro name hname
    apply hwritten'.other
    intro file hf hleads
    rw [List.mem_singleton.1 hf] at hleads
    exact hname (List.cons.inj (hleads.unique (leads_sample "C.java" (by simp)))).1
  refine ⟨after, ending_splitDirectory_pair ?_ filesBelow_crossedTree hone htwo,
    hmoved'.plain, hsame.trans (hwritten'.same.trans hmoved'.same), ?_, ?_⟩
  · rw [Files.isDirectory, Files.status_root]
  · rw [hmoved'.get?, if_neg (by decide), if_neg (by decide), hkept _ (by decide), hmoved.get?,
      if_neg (by decide), if_pos rfl]
  · rw [hmoved'.get?, if_pos rfl, hkept _ (by decide), htext]

/-- The sample is not where it was, its backup does not hold it, and it was no backup's place. -/
theorem crossed_backup_lost :
    crossedTree.Plain ∧ crossedTree.Named ∧ crossedOptions.dryRun = false ∧
      crossedOptions.overwrite = false ∧ ∃ batch place bytes,
        ((splitDirectory crossedOptions ⟨"/"⟩).run crossedTree).result = .ok batch ∧
        crossedTree.get? place = some (.file bytes) ∧
        ((splitDirectory crossedOptions ⟨"/"⟩).run crossedTree).tree.get? place ≠
          some (.file bytes) ∧
        (∀ source outcome backup, (source, .split outcome) ∈ batch.verdicts →
          Leads crossedTree source place → outcome.backup = some backup →
          readBytes ((splitDirectory crossedOptions ⟨"/"⟩).run crossedTree).tree backup ≠
            .ok bytes) ∧
        ∀ entry ∈ batch.verdicts, ¬ BackedUpTo crossedTree place entry := by
  obtain ⟨after, hending, hplain, hsame, hgone, hget⟩ := splitDirectory_crossedTree
  have hresult := congrArg Prod.fst hending
  have htree : ((splitDirectory crossedOptions ⟨"/"⟩).run crossedTree).tree = after :=
    congrArg Prod.snd hending
  have hfirst : Leads crossedTree ⟨"/M.javax/../K"⟩ ["K"] :=
    leads_crossedBackup "M.java" (by simp) (by simp [crossedTree])
  have hsecond : Leads crossedTree ⟨"/N.javax/../K"⟩ ["K"] :=
    leads_crossedBackup "N.java" (by simp) (by simp [crossedTree])
  have hbackups : ∀ {source outcome backup}, (source, Verdict.split outcome) ∈
      [(sampleSource, Verdict.split ⟨sampleSource, sampleFiles, some ⟨"/M.javax/../K"⟩⟩),
        (crossedSource, .split ⟨crossedSource, crossedFiles, some ⟨"/N.javax/../K"⟩⟩)] →
      outcome.backup = some backup → Leads crossedTree backup ["K"] := by
    intro source outcome backup hmem hb
    simp only [List.mem_cons, List.not_mem_nil, or_false, Prod.mk.injEq,
      Verdict.split.injEq] at hmem
    rcases hmem with ⟨_, rfl⟩ | ⟨_, rfl⟩ <;> cases hb
    · exact hfirst
    · exact hsecond
  refine ⟨plain_crossedTree, named_crossedTree, rfl, rfl, _, ["M.java"], sampleText.toUTF8,
    hresult, by simp [crossedTree], ?_, ?_, ?_⟩
  · rw [htree, hgone]
    exact nofun
  · intro source outcome backup hmem _ hb
    have hlast := hbackups hmem hb
    rw [htree, ne_eq, Files.readBytes_eq_ok_iff hplain]
    rintro ⟨place, hl, hplace⟩
    rw [hl.unique (hlast.transfer hsame), hget, Option.some.injEq,
      Files.Entry.file.injEq] at hplace
    exact absurd (String.toByteArray_inj.1 hplace) (by decide)
  · rintro ⟨source, verdict⟩ hmem ⟨outcome, backup, hv, hb, hl⟩
    rw [show verdict = .split outcome from hv] at hmem
    exact absurd (hl.unique (hbackups hmem hb)) (by decide)

/-- The other source is accounted for. -/
theorem splitDirectory_accounts_crossed :
    ∃ batch, ((splitDirectory crossedOptions ⟨"/"⟩).run crossedTree).result = .ok batch ∧
      Accounted crossedOptions crossedTree batch
        ((splitDirectory crossedOptions ⟨"/"⟩).run crossedTree).tree ["N.java"]
        crossedText.toUTF8 := by
  obtain ⟨after, hending, _⟩ := splitDirectory_crossedTree
  have hresult := congrArg Prod.fst hending
  refine ⟨_, hresult, ?_⟩
  apply (splitDirectory_accounts plain_crossedTree named_crossedTree rfl rfl hresult).1
  simp [crossedTree]

end Split
end SourceSplit
