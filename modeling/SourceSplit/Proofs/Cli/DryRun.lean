import SourceSplit.Cli.Run
import SourceSplit.Proofs.Cli.Arguments
import SourceSplit.Proofs.Split.DryRun
import SourceSplit.Proofs.Split.Settings
import SourceSplit.Proofs.Split.TextFile

/-!
# SourceSplit.Proofs.Cli.DryRun

A dry run of the program, from its arguments on. Reading the options and splitting leave the tree
alone; only the report is written, whether the split failed or not. So the tree is the same when no
report is asked for, and else it differs in the report's file and in directories that were missing
above it (`run_dry_saves`). A run is dry when `--dry-run` is among its options (`dry_of_mem`) or
when its configuration file says so (`dry_of_config`).
-/

namespace SourceSplit
namespace Cli

open Split (Options Failure)
open Files (Tree Place Leads Passes)
open Report (Moment RunRecord)

/-- Nothing has changed but the file at the path and directories above it that were missing. -/
structure Saved (tree : Tree) (path : Path) (after : Tree) : Prop where
  home : after.home = tree.home
  change : ∀ place, after.get? place = tree.get? place ∨
    (tree.get? place = none ∧ after.get? place = some .directory ∧
      ∃ parent, path.parent? = some parent ∧ Passes after parent place) ∨
    (tree.get? place ≠ some .directory ∧ Leads after path place ∧
      ∃ content, after.get? place = some (.file content))

section

variable {tree mid : Tree} {path : Path} {o : Options} {arguments : Arguments}

/-! ## Saving a file -/

theorem saved_refl : Saved tree path tree where
  home := rfl
  change := fun _ => .inl rfl

theorem saved_of_opened (h : Split.Opened tree path mid) : Saved tree path mid where
  home := h.home
  change := fun place => (h.kept place).imp_right .inl

theorem saved_of_savedText {text : String} (h : Split.SavedText tree path text mid) :
    Saved tree path mid where
  home := h.home
  change := by
    obtain ⟨place, hl, hnot, hfile, hothers⟩ := h.file
    intro other
    by_cases hplace : other = place
    · rw [hplace]
      exact .inr (.inr ⟨hnot, hl, _, hfile⟩)
    · exact (hothers other hplace).imp_right .inl

theorem saveFile_saved (h : tree.Plain) (path : Path) (text : String) :
    Saved tree path ((Split.saveFile path text).ending tree).2 := by
  obtain ⟨hplain, hopened⟩ := Split.ensureParent_opened h path
  rw [Split.saveFile, Work.ending_bind]
  generalize (Split.ensureParent path).ending tree = ended at hplain hopened ⊢
  obtain ⟨result, mid⟩ := ended
  cases result with
  | error failure => exact saved_of_opened hopened
  | ok =>
    simp only
    rcases hopened.ending_replaceFile hplain text with ⟨after, hsave, hsaved⟩ | ⟨failure, hfail⟩
    · rw [hsave]
      exact saved_of_savedText hsaved
    · rw [hfail]
      exact saved_of_opened hopened

/-! ## What makes a run dry -/

/-- The options are those of the configuration file, if there is one, as the arguments adjust
them. -/
theorem exists_adjusted (h : (arguments.options.run tree).result = .ok o) :
    ∃ base, o = arguments.adjust base ∧
      ∀ path, arguments.config = some path →
        ((Split.loadOptions path).run tree).result = .ok base := by
  unfold Arguments.options at h
  split at h
  · rename_i path hconfig
    cases hload : ((Split.loadOptions path).run tree).result with
    | error failure =>
      rw [Work.run_bind_of_error hload] at h
      cases h
    | ok base =>
      rw [Work.run_bind_of_ok hload] at h
      cases h
      refine ⟨base, rfl, fun other hother => ?_⟩
      rw [← Option.some.inj (hconfig.symm.trans hother), hload]
  · rename_i hnone
    cases h
    refine ⟨{}, rfl, fun path hpath => ?_⟩
    cases hnone.symm.trans hpath

/-- With `--dry-run` a run is dry, whatever the configuration file says. -/
theorem dry_of_mem {args : List String} (hread : Arguments.read args = .ok arguments)
    (hmem : "--dry-run" ∈ args) (hend : "--" ∉ args)
    (ho : (arguments.options.run tree).result = .ok o) : o.dryRun = true := by
  obtain ⟨base, rfl, _⟩ := exists_adjusted ho
  rw [Arguments.adjust, dryRun_of_mem hread hmem hend, Bool.or_true]

/-- With `dry_run = true` in the configuration file a run is dry, whatever the arguments say. -/
theorem dry_of_config {settings : List Split.Setting} {text : String}
    (hconfig : arguments.config = some path) (hfile : Split.HoldsText tree path text)
    (hgives : Split.Gives text settings) (hkeys : (settings.map Split.Setting.key).Nodup)
    (hdry : .dryRun true ∈ settings) (ho : (arguments.options.run tree).result = .ok o) :
    o.dryRun = true := by
  obtain ⟨base, rfl, hbase⟩ := exists_adjusted ho
  have hload := Split.run_loadOptions hfile (Split.ofText?_gives hgives (.refl _) hkeys)
  have hsame := (congrArg Ran.result hload).symm.trans (hbase path hconfig)
  rw [Arguments.adjust, ← Except.ok.inj hsame, Split.dryRun_foldr_set hdry hkeys, Bool.true_or]

/-! ## Splitting without a trace -/

theorem loadOptions_still (path : Path) (tree : Tree) :
    ((Split.loadOptions path).ending tree).2 = tree := by
  refine Work.bind_still rfl fun _ _ => Work.bind_still rfl fun text _ => ?_
  split <;> rfl

theorem options_still (arguments : Arguments) (tree : Tree) :
    (arguments.options.ending tree).2 = tree := by
  unfold Arguments.options
  split
  · exact Work.bind_still (loadOptions_still _ _) fun _ _ => rfl
  · rfl

theorem dry_self (hdry : o.dryRun = true) : o.dry true = o := by
  rw [Options.dry, ← hdry]

theorem summarizeFile_still (hdry : o.dryRun = true) (input : Path) :
    ((summarizeFile o input).ending tree).2 = tree := by
  have hstill := (Split.splitFile_predicts o tree input).still
  rw [dry_self hdry] at hstill
  refine Work.bind_still hstill fun result _ => ?_
  cases result <;> rfl

theorem summarizeDirectory_still (hdry : o.dryRun = true) (dir : Path) :
    ((summarizeDirectory o dir).ending tree).2 = tree := by
  have hstill := Split.splitDirectory_dry_still o tree dir
  rw [dry_self hdry] at hstill
  exact Work.bind_still hstill fun _ _ => rfl

theorem splitAsAsked_still
    (hdry : ∀ o, (arguments.options.run tree).result = .ok o → o.dryRun = true) :
    ((splitAsAsked arguments).ending tree).2 = tree := by
  refine Work.bind_still (options_still arguments tree) fun o ho => ?_
  refine Work.bind_still rfl fun _ _ => ?_
  split
  · exact Work.bind_still (summarizeDirectory_still (hdry o ho) _) fun _ _ => rfl
  · exact Work.bind_still (summarizeFile_still (hdry o ho) _) fun _ _ => rfl

/-! ## The whole run -/

/-- A run whose splitting leaves the tree alone comes to what saving the report comes to, if it
comes to that. -/
theorem work_of_still (now : Moment) (h : ((splitAsAsked arguments).ending tree).2 = tree) :
    ((work arguments now).ending tree).2 = tree ∨ ∃ o summary,
      ((work arguments now).ending tree).2 =
        ((saveReport arguments now o summary).ending tree).2 := by
  rw [work, Work.ending_bind, Split.ending_attempt]
  generalize (splitAsAsked arguments).ending tree = ended at h ⊢
  obtain ⟨result, after⟩ := ended
  cases h
  cases result with
  | error failure => exact .inl rfl
  | ok found =>
    obtain ⟨o, summary⟩ := found
    refine .inr ⟨o, summary, ?_⟩
    simp only [Work.ending_bind, Split.ending_attempt]
    generalize (saveReport arguments now o summary).ending after = saved
    obtain ⟨result, _⟩ := saved
    cases result <;> rfl

theorem saveReport_saved (h : tree.Plain) (hreport : arguments.report = some path) (now : Moment)
    (o : Options) (summary : Summary) :
    Saved tree path ((saveReport arguments now o summary).ending tree).2 := by
  have hsave : ∀ record : RunRecord, Saved tree path ((record.save path).ending tree).2 := by
    intro record
    have hsaved := saveFile_saved h path record.text
    rw [RunRecord.save, Work.ending_bind]
    generalize (Split.saveFile path record.text).ending tree = ended at hsaved ⊢
    obtain ⟨result, after⟩ := ended
    cases result <;> exact hsaved
  simp only [saveReport, hreport, Work.ending_bind, Work.ending_look]
  cases RunRecord.ofOutcomes now o.dryRun summary.outcomes summary.stats with
  | error failure => exact saved_refl
  | ok record => exact hsave record

theorem tree_run {args : List String} (hread : Arguments.read args = .ok arguments)
    (environment : Option String) (now : Moment) :
    (run args environment now tree).tree = ((work arguments now).ending tree).2 := by
  simp only [run, hread]
  split <;> rfl

/-- A dry run changes nothing but the report's file and missing directories above it. -/
theorem run_dry_saves {args : List String} (environment : Option String) (now : Moment)
    (hread : Arguments.read args = .ok arguments)
    (hdry : ∀ o, (arguments.options.run tree).result = .ok o → o.dryRun = true) :
    (arguments.report = none → (run args environment now tree).tree = tree) ∧
      ∀ path, arguments.report = some path → tree.Plain →
        Saved tree path (run args environment now tree).tree := by
  rw [tree_run hread]
  have hwork := work_of_still now (splitAsAsked_still hdry)
  constructor
  · intro hnone
    rcases hwork with heq | ⟨o, summary, heq⟩
    · exact heq
    · rw [heq, saveReport, hnone]
      rfl
  · intro path hreport h
    rcases hwork with heq | ⟨o, summary, heq⟩
    · rw [heq]
      exact saved_refl
    · rw [heq]
      exact saveReport_saved h hreport now o summary

end

/-! ## The sample, run dry by an argument and by a configuration file -/

def configText : String := "dry_run = true"

def configTree : Tree :=
  .ofEntries [(["M.java"], .file Split.sampleText.toUTF8), (["s.toml"], .file configText.toUTF8)]

theorem gives_configText : Split.Gives configText [.dryRun true] := by
  have hall : configText.toList = Toml.Grammar.assignment "dry_run" ['t', 'r', 'u', 'e'] := by
    decide +kernel
  rw [Split.Gives, hall]
  exact .line (Split.isBare_key (.dryRun true)) .trueName .last .none

theorem holdsText_configTree : Split.HoldsText configTree ⟨"/s.toml"⟩ configText :=
  Split.holdsText_of_leads (Tree.plain_ofEntries (by simp))
    (Files.leads_of_root "s.toml" (by decide)) (by simp [configTree])

/-- The report of a dry run may have a directory of its own; the source stays where it is. When the
configuration file asks for the dry run and there is no report, nothing changes. -/
theorem run_dry_saves_sample :
    Saved Split.sampleTree ⟨"/r/x.json"⟩
        (run ["/M.java", "--dry-run", "--report", "/r/x.json"] none ⟨0, 0⟩ Split.sampleTree).tree ∧
      (run ["/M.java", "--dry-run", "--report", "/r/x.json"] none ⟨0, 0⟩ Split.sampleTree).tree.get?
        ["M.java"] = some (.file Split.sampleText.toUTF8) ∧
      (run ["/M.java", "--config", "/s.toml"] none ⟨0, 0⟩ configTree).tree = configTree := by
  obtain ⟨arguments, hread, hreport⟩ : ∃ arguments,
      Arguments.read ["/M.java", "--dry-run", "--report", "/r/x.json"] = .ok arguments ∧
        arguments.report = some ⟨"/r/x.json"⟩ := ⟨_, rfl, rfl⟩
  obtain ⟨configured, hread', hreport', hconfig⟩ : ∃ arguments,
      Arguments.read ["/M.java", "--config", "/s.toml"] = .ok arguments ∧
        arguments.report = none ∧ arguments.config = some ⟨"/s.toml"⟩ := ⟨_, rfl, rfl, rfl⟩
  have hsaved := (run_dry_saves none ⟨0, 0⟩ hread fun _ =>
    dry_of_mem hread (by simp) (by simp)).2 _ hreport Split.plain_sampleTree
  have hsame := (run_dry_saves none ⟨0, 0⟩ hread' fun _ =>
    dry_of_config hconfig holdsText_configTree gives_configText (by simp) (by simp)).1 hreport'
  refine ⟨hsaved, ?_, hsame⟩
  have hsource := Split.get?_sampleTree_source
  rcases hsaved.change ["M.java"] with hkept | ⟨hnone, _⟩ | ⟨_, hl, _⟩
  · rw [hkept, hsource]
  · rw [hsource] at hnone
    cases hnone
  · obtain ⟨before, name, dir, hn, _, _, _, hplace⟩ := hl.names
    have hnames : Files.pathNames "/r/x.json" = ["", "r"] ++ ["x.json"] := by decide +kernel
    obtain ⟨_, hlast⟩ := List.append_inj' (hn.symm.trans hnames) rfl
    rw [(List.cons.inj hlast).1] at hplace
    exact absurd hplace (by simp)

end Cli
end SourceSplit
