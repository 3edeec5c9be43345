import SourceSplit.Proofs.Path.Extension
import SourceSplit.Proofs.Split.Planned
import SourceSplit.Split.Collect

/-!
# SourceSplit.Proofs.Split.Delivered

What a split that goes through leaves behind, when the source has the extension of the class files
(`Delivered`): a file for each class, the source in the backup, and nothing else changed. Only the
backup can get in the way of a class file, and only when the suffix has a slash in it: a class name
has no dot, so that no class file is called like the source with something appended.

* `eq_of_begins`: the argument with the dots.
* `Planned.written`, `Planned.ne_backup`: neither later files nor the backup disturb a class file.
* `Planned.delivered`: all that is left behind, from what writing and renaming do.
-/

namespace SourceSplit
namespace Split

open Source
open Files (Tree Place Leads readBytes readText readBytes_of_same isPresent)

/-! ## The extension of an accepted source -/

theorem eq_of_toLower_eq {c d : Char} (hd : d.val < 'a'.val) (h : c.toLower = d) : c = d := by
  unfold Char.toLower at h
  split at h
  · rename_i hc
    have hval : c.val + 32 = d.val := congrArg Char.val h
    have hlow : 65 ≤ c.val.toNat := hc.1
    have hhigh : c.val.toNat ≤ 90 := hc.2
    have hsmall : d.val.toNat < 97 := hd
    rw [← hval, UInt32.toNat_add] at hsmall
    have h32 : (32 : UInt32).toNat = 32 := rfl
    omega
  · exact h

/-- A character that is no letter stands in both of two texts that differ in case, or in none. -/
theorem not_mem_of_sameIgnoringCase {s t : String} {d : Char} (hd : d.val < 'a'.val)
    (hlower : d.toLower = d) (h : sameIgnoringCase s t = true) (hs : d ∉ s.toList) :
    d ∉ t.toList := by
  intro ht
  unfold sameIgnoringCase at h
  rw [decide_eq_true_eq] at h
  have hmem : d.toLower ∈ s.toList.map Char.toLower := by
    rw [h]
    exact List.mem_map_of_mem ht
  rw [hlower] at hmem
  obtain ⟨c, hc, hcd⟩ := List.mem_map.1 hmem
  rw [eq_of_toLower_eq hd hcd] at hc
  exact hs hc

section

variable {o : Options} {tree after : Tree} {source : Path} {doc : Document} {taken : List Path}
  {decls : List Declaration} {files : List ClassFile} {file : ClassFile}
  {before : List Path.Segment} {last : Path.Segment}

/-- The name of a source with the extension of the class files. -/
theorem accepted_name (hacc : accepts [o.extension] source = true)
    (h : source.segments = before ++ [last]) (hlast : Path.Names last) :
    ∃ stem extension, last = stem ++ '.' :: extension ∧
      extension.length = o.extension.toList.length ∧ '.' ∉ o.extension.toList ∧
      '/' ∉ o.extension.toList := by
  unfold accepts at hacc
  split at hacc
  · rename_i extension he
    rw [List.any_cons, List.any_nil, Bool.or_false] at hacc
    obtain ⟨stem, _, hname, hdot⟩ := Path.extension?_eq_some h hlast he
    have hslash : '/' ∉ extension.toList := by
      intro hmem
      have hseg : last ∈ Path.cutAtSlash source.text.toList := by
        rw [show Path.cutAtSlash source.text.toList = before ++ [last] from h]
        simp
      apply Path.slash_not_mem_of_mem_cutAtSlash hseg
      rw [hname]
      simp [hmem]
    refine ⟨stem, extension.toList, hname, ?_, ?_, ?_⟩
    · have hlength := hacc
      unfold sameIgnoringCase at hlength
      rw [decide_eq_true_eq] at hlength
      simpa using congrArg List.length hlength
    · exact not_mem_of_sameIgnoringCase (by decide) (by decide) hacc hdot
    · exact not_mem_of_sameIgnoringCase (by decide) (by decide) hacc hslash
  · cases hacc

/-- A class file called like an accepted source with something appended has nothing appended. -/
theorem eq_of_begins {name : String} (hacc : accepts [o.extension] source = true)
    (h : source.segments = before ++ [last]) (hlast : Path.Names last) (hclass : IsName name)
    (hbegins : last <+: (name ++ "." ++ o.extension).toList) :
    last = (name ++ "." ++ o.extension).toList := by
  obtain ⟨stem, extension, hname, hlength, hdot, _⟩ := accepted_name hacc h hlast
  have hnodot := hclass.not_mem not_isWord_dot
  have hlist : (name ++ "." ++ o.extension).toList = name.toList ++ '.' :: o.extension.toList := by
    rw [String.toList_append, String.toList_append, List.append_assoc]
    rfl
  obtain ⟨more, hmore⟩ := hbegins
  by_cases hnil : more = []
  · rw [hnil, List.append_nil] at hmore
    exact hmore
  · rw [hlist, hname] at hmore
    exact absurd hmore.symm (Path.ne_append_of_dot hnodot hdot hlength hnil)

/-- No class file is called like the source with something appended. -/
theorem Planned.not_begins (hplanned : Planned o tree source doc taken decls files)
    (hdecls : doc.declarations = .ok decls) (hf : file ∈ files)
    (hacc : accepts [o.extension] source = true) (h : source.segments = before ++ [last])
    (hlast : Path.Names last) :
    ¬ last <+: (file.declaration.header.name ++ "." ++ o.extension).toList := by
  obtain ⟨_, _, _, _, _, hslash⟩ := accepted_name hacc h hlast
  intro hbegins
  have hwhole := eq_of_begins hacc h hlast (hplanned.isName hdecls hf) hbegins
  apply hplanned.ne_fileName hdecls hf hslash
  rw [Path.fileName?_of_names h hlast, hwhole, String.ofList_toList]

end

/-! ## A split that goes through -/

/-- What a split of the source in `p`, with its backup in `q`, leaves behind. -/
structure Delivered (tree : Tree) (o : Options) (source : Path) (doc : Document) (p q : Place)
    (outcome : Outcome) (after : Tree) : Prop where
  source_eq : outcome.source = source
  /-- One file for each class, in the order of the text. -/
  classes : outcome.files.map (·.declaration.header) = headers doc.text
  rendered : ∀ file ∈ outcome.files, doc.render? file.declaration = some file.content
  apart : outcome.files.Pairwise fun earlier later => later.path.same earlier.path = false
  beside : ∀ file ∈ outcome.files, file.path.same source = false ∧
    file.path.same (source.withSuffix o.backupSuffix) = false
  backup_eq : outcome.backup = some (source.withSuffix o.backupSuffix)
  original : readBytes after (source.withSuffix o.backupSuffix) = readBytes tree source
  written : ∀ file ∈ outcome.files, ¬ Leads tree file.path q →
    readBytes after file.path = .ok file.content.toUTF8
  /-- A class file in the place of the backup has become the backup. -/
  replaced : ∀ file ∈ outcome.files, Leads tree file.path q →
    readBytes after file.path = readBytes tree source
  moved : p ≠ q → isPresent after source = false
  plain_suffix : '/' ∉ o.backupSuffix.toList →
    p ≠ q ∧ ∀ file ∈ outcome.files, ¬ Leads tree file.path q
  home : after.home = tree.home
  other : ∀ {place : Place}, place ≠ p → place ≠ q →
    (∀ file ∈ outcome.files, ¬ Leads tree file.path place) → after.get? place = tree.get? place

section

variable {o : Options} {tree mid after : Tree} {source : Path} {doc : Document}
  {decls : List Declaration} {files : List ClassFile} {file : ClassFile} {outcome : Outcome}
  {name : String} {dir place q : Place}

/-- Writing the files behind it leaves a planned file alone. -/
theorem Planned.written (h : Planned o tree source doc [] decls files)
    (hd : doc.declarations = .ok decls) (hslash : '/' ∉ o.extension.toList)
    (hs : Leads tree source (name :: dir)) (hwritten : Written tree files mid) (hf : file ∈ files)
    (hl : Leads tree file.path place) : mid.get? place = some (.file file.content.toUTF8) := by
  obtain ⟨before, behind, rfl⟩ := List.append_of_mem hf
  apply hwritten.last rfl hl
  intro g hg
  have happart := (List.pairwise_append.1 h.apart).2.1
  have hne := (List.pairwise_cons.1 happart).1 g hg
  exact h.ne_place hd hslash hs hf (by simp [hg]) hne hl

/-- A suffix without a slash keeps the backup out of the way. -/
theorem Planned.ne_backup (h : Planned o tree source doc [] decls files)
    (hd : doc.declarations = .ok decls) (hacc : accepts [o.extension] source = true)
    (hsuffix : o.backupSuffix ≠ "") (hplain : '/' ∉ o.backupSuffix.toList)
    (hs : Leads tree source (name :: dir))
    (hq : Leads tree (source.withSuffix o.backupSuffix) q) :
    name :: dir ≠ q ∧ ∀ file ∈ files, ¬ Leads tree file.path q := by
  obtain ⟨before, last, _, hseg, hlast, _, _, hcons⟩ := hs.exists_segments
  obtain ⟨_, _, _, _, _, hslash⟩ := accepted_name hacc hseg hlast
  have hplace := hs.withSuffix hplain hq
  have hname := (List.cons.inj hcons).1
  constructor
  · intro he
    rw [hplace] at he
    have hlength := congrArg String.length (List.cons.inj he).1
    rw [String.length_append] at hlength
    have hempty : o.backupSuffix.length = 0 := by omega
    exact hsuffix (String.length_eq_zero_iff.1 hempty)
  · intro file hf hl
    obtain ⟨hfile, _⟩ := h.leads hd hf hslash hs hl
    rw [hplace] at hfile
    apply h.not_begins hd hf hacc hseg hlast
    rw [← (List.cons.inj hfile).1, hname, String.toList_append, String.toList_ofList]
    exact List.prefix_append last _

theorem Planned.beside (h : Planned o tree source doc [] decls files)
    (hd : doc.declarations = .ok decls) (hacc : accepts [o.extension] source = true)
    (hs : Leads tree source place) (hf : file ∈ files) :
    file.path.same source = false ∧
      file.path.same (source.withSuffix o.backupSuffix) = false := by
  obtain ⟨before, last, _, hseg, hlast, _⟩ := hs.exists_segments
  obtain ⟨_, _, _, _, _, hslash⟩ := accepted_name hacc hseg hlast
  have hname := h.isName hd hf
  refine ⟨(isBarred_eq_false_iff.1 (h.free file hf)).1, ?_⟩
  rw [h.path file hf, target]
  exact Path.sibling_not_same_withSuffix hseg hlast (not_mem_slash_of_isName hname hslash)
    (names_of_isName hname) (h.not_begins hd hf hacc hseg hlast)

/-- Written files and a moved source are what a split that goes through leaves behind. -/
theorem Planned.delivered (hplanned : Planned o tree source doc [] decls files) (h : tree.Plain)
    (hd : doc.declarations = .ok decls) (hacc : accepts [o.extension] source = true)
    (hsuffix : o.backupSuffix ≠ "") {bytes : ByteArray} (hbytes : readBytes tree source = .ok bytes)
    (hs : Leads tree source (name :: dir))
    (hq : Leads tree (source.withSuffix o.backupSuffix) q)
    (hw : ∀ file ∈ files, Writable tree file) (hwritten : Written tree files mid)
    (hkept : mid.get? (name :: dir) = some (.file bytes))
    (hmoved : Files.Moved mid (name :: dir) q after) :
    Delivered tree o source doc (name :: dir) q
      ⟨source, files, some (source.withSuffix o.backupSuffix)⟩ after := by
  obtain ⟨before, last, _, hseg, hlast, _⟩ := hs.exists_segments
  obtain ⟨_, _, _, _, _, hslash⟩ := accepted_name hacc hseg hlast
  have hsame : tree.SameDirectories after := hwritten.same.trans hmoved.same
  have hbackup : after.get? q = some (.file bytes) := by
    rw [hmoved.get?, if_pos rfl, hkept]
  exact {
    source_eq := rfl
    classes := by
      rw [← map_header_of_declarations hd, ← hplanned.declarations, List.map_map]
      rfl
    rendered := hplanned.content
    apart := hplanned.apart
    beside := fun file hf => hplanned.beside hd hacc hs hf
    backup_eq := rfl
    original := by
      rw [hbytes]
      exact readBytes_of_same hmoved.plain hsame hq hbackup
    written := by
      intro file hf hnot
      obtain ⟨place, hl, _⟩ := (writable_iff h).1 (hw file hf)
      -- The rename passes by: the place is that of neither the source nor the backup.
      have hsource : place ≠ name :: dir := (hplanned.leads hd hf hslash hs hl).2
      have hplace : place ≠ q := by
        rintro rfl
        exact hnot hl
      refine readBytes_of_same hmoved.plain hsame hl ?_
      rw [hmoved.get?, if_neg hplace, if_neg hsource]
      exact hplanned.written hd hslash hs hwritten hf hl
    replaced := by
      intro file hf hl
      rw [hbytes]
      exact readBytes_of_same hmoved.plain hsame hl hbackup
    moved := by
      intro hne
      have hl : Leads after source (name :: dir) := hs.transfer hsame
      rw [hl.isPresent_eq_false_iff hmoved.plain, hmoved.get?, if_neg hne, if_pos rfl]
    plain_suffix := fun hplain => hplanned.ne_backup hd hacc hsuffix hplain hs hq
    home := hsame.home.symm
    other := by
      intro place hnep hneq hno
      rw [hmoved.get?, if_neg hneq, if_neg hnep, hwritten.other hno] }

/-- A split of an accepted source that goes through delivers its classes and its backup. -/
theorem splitFile_delivers (h : tree.Plain) (hreal : o.dryRun = false)
    (hsuffix : o.backupSuffix ≠ "") (hacc : accepts [o.extension] source = true)
    (hr : ((splitFile o source).run tree).result = .ok outcome) :
    ∃ doc p q, readText tree source = .ok doc.text ∧ Document.ofText? doc.text = some doc ∧
      Leads tree source p ∧ Leads tree (source.withSuffix o.backupSuffix) q ∧
      Delivered tree o source doc p q outcome ((splitFile o source).run tree).tree := by
  have hsplits := splitFile_ending h o source
  unfold Work.ending at hsplits
  rw [hr] at hsplits
  generalize ((splitFile o source).run tree).tree = after at hsplits ⊢
  cases hsplits with
  | dry _ hdry =>
    rw [hreal] at hdry
    cases hdry
  | @committed files _ hprepare _ hc =>
    obtain ⟨text, doc, decls, htext, hdoc, hd, hplan⟩ := prepare_eq_ok_iff.1 hprepare
    obtain rfl := text_of_ofText? hdoc
    have hplanned := planFrom_eq_ok_iff.1 hplan
    have hbytes := Files.readText_eq_ok_iff.1 htext
    obtain ⟨p, hs, hp⟩ := (Files.readBytes_eq_ok_iff h).1 hbytes
    obtain ⟨name, dir, rfl, _⟩ := hs.exists_cons
    obtain ⟨before, last, _, hseg, hlast, _⟩ := hs.exists_segments
    obtain ⟨_, _, _, _, _, hslash⟩ := accepted_name hacc hseg hlast
    cases hc with
    | @done mid _ hw hwritten hrename =>
      have hkept : mid.get? (name :: dir) = some (.file doc.text.toUTF8) := by
        rw [hwritten.other fun _ hf => hplanned.not_leads_source hd hslash hs hf, hp]
      obtain ⟨q, hqmid, _, hmoved⟩ := Files.rename_eq_ok hwritten.plain
        (hs.transfer hwritten.same) hkept hrename
      have hq : Leads tree (source.withSuffix o.backupSuffix) q :=
        hqmid.transfer hwritten.same.symm
      exact ⟨doc, name :: dir, q, htext, hdoc, hs, hq,
        hplanned.delivered h hd hacc hsuffix hbytes hs hq hw hwritten hkept hmoved⟩

end

theorem splitFile_delivers_sample :
    ∃ outcome doc p q, ((splitFile {} sampleSource).run sampleTree).result = .ok outcome ∧
      outcome.files = sampleFiles ∧ Delivered sampleTree {} sampleSource doc p q outcome
        ((splitFile {} sampleSource).run sampleTree).tree := by
  have hacc : accepts [({} : Options).extension] sampleSource = true := by decide +kernel
  obtain ⟨doc, p, q, _, _, _, _, hdelivered⟩ :=
    splitFile_delivers plain_sampleTree rfl (by decide) hacc splitFile_sampleTree
  exact ⟨_, doc, p, q, splitFile_sampleTree, rfl, hdelivered⟩

/-! ## A backup in the place of a class file -/

def slashOptions : Options := { backupSuffix := "x/../A.java" }

/-- The sample beside a directory that is called like it with the first part of the suffix. -/
def slashTree : Tree :=
  .ofEntries [(["M.java"], .file sampleText.toUTF8), (["M.javax"], .directory)]

theorem plain_slashTree : slashTree.Plain :=
  Tree.plain_ofEntries (by simp)

theorem leads_slashBackup :
    Leads slashTree (sampleSource.withSuffix slashOptions.backupSuffix) ["A.java"] := by
  refine ⟨rfl, rfl, ["", "M.javax", ".."], "A.java", [], by decide +kernel,
    ⟨by decide, by decide, by decide⟩, by decide, ?_, rfl⟩
  have hstart : Files.startFrom slashTree.home
      (sampleSource.withSuffix slashOptions.backupSuffix).text = [] := rfl
  rw [hstart]
  refine .stay rfl (.inl rfl) (.down rfl ⟨by decide, by decide, by decide⟩ (by decide) ?_)
  exact .up (by simp [slashTree]) (.done rfl)

/-- With a slash in the suffix, a class file that was written can end up with the source in it. -/
theorem splitFile_backup_over_class :
    slashTree.Plain ∧ slashOptions.dryRun = false ∧ slashOptions.backupSuffix ≠ "" ∧
      accepts [slashOptions.extension] sampleSource = true ∧
      ∃ outcome file,
        ((splitFile slashOptions sampleSource).run slashTree).result = .ok outcome ∧
        file ∈ outcome.files ∧
        readText ((splitFile slashOptions sampleSource).run slashTree).tree file.path ≠
          .ok file.content := by
  refine ⟨plain_slashTree, rfl, by decide, by decide +kernel, ?_⟩
  have hs : slashTree.get? ["M.java"] = some (.file sampleText.toUTF8) := by
    simp [slashTree]
  obtain ⟨mid, after, hending, hwritten, hmoved⟩ := splitFile_sample slashOptions rfl rfl rfl
    plain_slashTree hs (by simp [slashTree]) leads_slashBackup (by simp [slashTree])
  have hresult := congrArg Prod.fst hending
  have htree : ((splitFile slashOptions sampleSource).run slashTree).tree = after :=
    congrArg Prod.snd hending
  obtain ⟨file, rest, hfiles, hpath⟩ : ∃ file rest,
      sampleFiles = file :: rest ∧ file.path = ⟨"/A.java"⟩ := ⟨_, _, rfl, rfl⟩
  refine ⟨_, file, hresult, by simp [hfiles], ?_⟩
  have hkept : mid.get? ["M.java"] = some (.file sampleText.toUTF8) := by
    rw [hwritten.other fun _ hg => not_leads_sampleFiles hg, hs]
  have hclass : Leads after file.path ["A.java"] := by
    rw [hpath]
    exact leads_sample "A.java" (by simp)
  have hread : readText after file.path = .ok sampleText := by
    rw [Files.readText_eq_ok_iff, Files.readBytes_eq_ok_iff hmoved.plain]
    refine ⟨_, hclass, ?_⟩
    rw [hmoved.get?, if_pos rfl, hkept]
  rw [htree, hread]
  intro he
  have hcontent : sampleText = file.content := Except.ok.inj he
  have hne : ∀ g ∈ sampleFiles, sampleText ≠ g.content := by decide
  exact hne file (by simp [hfiles]) hcontent

end Split
end SourceSplit
