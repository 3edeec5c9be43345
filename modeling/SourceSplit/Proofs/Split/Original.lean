import SourceSplit.Proofs.Split.Planned

/-!
# SourceSplit.Proofs.Split.Original

A split never loses the source. No class file is written or removed where the source stands, so
that its bytes stay until it is renamed, and nothing happens after that (`commit_keeps`).
-/

namespace SourceSplit
namespace Split

open Files (Tree Place Leads readBytes readBytes_of_same)

section

variable {tree : Tree} {o : Options} {source : Path} {files : List ClassFile} {place : Place}
  {bytes : ByteArray}

/-- Committing files that lead elsewhere keeps what stands in the place of the source: there, or
in the place of the backup. -/
theorem commit_keeps {result : Except Failure Outcome} {after : Tree}
    (hc : Commits tree o source files (result, after)) (hs : Leads tree source place)
    (hg : tree.get? place = some (.file bytes))
    (helse : ∀ file ∈ files, ¬ Leads tree file.path place) :
    (∀ failure, result = .error failure → readBytes after source = .ok bytes) ∧
    ∀ outcome, result = .ok outcome →
      ∃ backup, outcome.backup = some backup ∧ readBytes after backup = .ok bytes := by
  cases hc with
  | @unwritten _ before rest file fault he _ _ hcleared =>
    have hbefore : ∀ g ∈ before, ¬ Leads tree g.path place := by
      intro g hg
      apply helse
      rw [he]
      exact List.mem_append_left _ hg
    have hget : after.get? place = some (.file bytes) := by
      rw [hcleared.other hbefore, hg]
    have hread := readBytes_of_same hcleared.plain hcleared.same hs hget
    exact ⟨fun _ _ => hread, fun _ hok => by cases hok⟩
  | unmoved _ hwritten _ =>
    have hget : after.get? place = some (.file bytes) := by
      rw [hwritten.other helse, hg]
    have hread := readBytes_of_same hwritten.plain hwritten.same hs hget
    exact ⟨fun _ _ => hread, fun _ hok => by cases hok⟩
  | @done mid _ _ hwritten hrename =>
    have hget : mid.get? place = some (.file bytes) := by
      rw [hwritten.other helse, hg]
    have hsource : Leads mid source place := hs.transfer hwritten.same
    obtain ⟨q, hq, _, hmoved⟩ := Files.rename_eq_ok hwritten.plain hsource hget hrename
    have hbackup : after.get? q = some (.file bytes) := by
      rw [hmoved.get?, if_pos rfl, hget]
    have hread := readBytes_of_same hmoved.plain hmoved.same hq hbackup
    refine ⟨fun _ herror => (by cases herror), fun outcome hok => ?_⟩
    cases hok
    exact ⟨_, rfl, hread⟩

/-- A split that fails or is dry leaves the bytes of the source where they are, and any other split
leaves them in the backup. -/
theorem splitFile_keeps_original (h : tree.Plain) (hslash : '/' ∉ o.extension.toList)
    (hs : readBytes tree source = .ok bytes) :
    let ran := (splitFile o source).run tree
    (∀ failure, ran.result = .error failure → readBytes ran.tree source = .ok bytes) ∧
    (o.dryRun = true → readBytes ran.tree source = .ok bytes) ∧
    ∀ outcome, ran.result = .ok outcome → o.dryRun = false →
      ∃ backup, outcome.backup = some backup ∧ readBytes ran.tree backup = .ok bytes := by
  intro ran
  have hsplits := splitFile_ending h o source
  rw [show (splitFile o source).ending tree = (ran.result, ran.tree) from rfl] at hsplits
  generalize ran.result = result at hsplits ⊢
  generalize ran.tree = after at hsplits ⊢
  obtain ⟨place, hl, hg⟩ := (Files.readBytes_eq_ok_iff h).1 hs
  cases hsplits with
  | refused _ => exact ⟨fun _ _ => hs, fun _ => hs, fun _ hok => by cases hok⟩
  | dry _ hdry =>
    refine ⟨fun _ _ => hs, fun _ => hs, fun _ _ hreal => ?_⟩
    rw [hdry] at hreal
    cases hreal
  | @committed files _ hprepare hdry hc =>
    obtain ⟨text, doc, decls, _, _, hdecls, hplan⟩ := prepare_eq_ok_iff.1 hprepare
    have hplanned := planFrom_eq_ok_iff.1 hplan
    have helse : ∀ file ∈ files, ¬ Leads tree file.path place :=
      fun _ hf => hplanned.not_leads_source hdecls hslash hl hf
    have hkeeps := commit_keeps hc hl hg helse
    refine ⟨hkeeps.1, fun hwet => ?_, fun outcome hok _ => hkeeps.2 outcome hok⟩
    rw [hdry] at hwet
    cases hwet

end

theorem splitFile_keeps_sample :
    ∃ outcome backup, ((splitFile {} sampleSource).run sampleTree).result = .ok outcome ∧
      outcome.backup = some backup ∧
      readBytes ((splitFile {} sampleSource).run sampleTree).tree backup =
        .ok sampleText.toUTF8 := by
  have hread : readBytes sampleTree sampleSource = .ok sampleText.toUTF8 :=
    (Files.readBytes_eq_ok_iff plain_sampleTree).2 ⟨_, leads_sampleSource, get?_sampleTree_source⟩
  have hslash : '/' ∉ ({} : Options).extension.toList := by decide
  have hkept := splitFile_keeps_original plain_sampleTree hslash hread
  obtain ⟨backup, hbackup, hbytes⟩ := hkept.2.2 _ splitFile_sampleTree rfl
  exact ⟨_, backup, splitFile_sampleTree, hbackup, hbytes⟩

end Split
end SourceSplit
