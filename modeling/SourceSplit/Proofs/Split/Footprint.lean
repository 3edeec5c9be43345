import SourceSplit.Proofs.Files.Passes
import SourceSplit.Proofs.Split.Planned

/-!
# SourceSplit.Proofs.Split.Footprint

What a split looks at and what it changes. `Watches` names the entries that it comes by on the way
of the source's path, of the paths of the class files and of the path of the backup. A split is
local to these: it changes no others, and trees that agree on them cannot be told apart by it
(`splitFile_local`).

With no slash in the extension and none in the suffix, the watched entries that are not directories
stand beside the source (`Watches.beside`).
-/

namespace SourceSplit
namespace Split

open Source
open Files (Tree Place Leads Passes Covers Alike Parallel Agrees)

/-- The entries that a split comes by. -/
inductive Watches (o : Options) (tree : Tree) (source : Path) (place : Place) : Prop where
  | source : Passes tree source place → Watches o tree source place
  | target {text : String} {header : Header} : Files.readText tree source = .ok text →
      header ∈ headers text → Passes tree (source.sibling header.name o.extension) place →
      Watches o tree source place
  | backup : Passes tree (source.withSuffix o.backupSuffix) place → Watches o tree source place

/-- In two trees the work comes to the same, and it has changed both in the same way, and only in
these places. -/
def Local {α : Type} (places : Place → Prop) (t u : Tree) (work : Work α) : Prop :=
  ∃ result t' u', work.ending t = (result, t') ∧ work.ending u = (result, u') ∧
    Parallel places t u t' u'

section

variable {α β : Type} {places : Place → Prop} {o : Options} {tree t u t' u' : Tree}
  {source : Path} {file : ClassFile} {files written : List ClassFile}

/-! ## Work that is local -/

theorem local_of_ending {work : Work α} {result : Except Failure α} (h : Alike places t u)
    (ht : work.ending t = (result, t)) (hu : work.ending u = (result, u)) :
    Local places t u work :=
  ⟨result, t, u, ht, hu, .refl h⟩

theorem local_fail (h : Alike places t u) (failure : Failure) :
    Local places t u (Work.fail failure : Work α) :=
  local_of_ending h rfl rfl

theorem local_pure (h : Alike places t u) (a : α) : Local places t u (pure a : Work α) :=
  local_of_ending h rfl rfl

theorem Local.bind {work : Work α} {next : α → Work β} (hw : Local places t u work)
    (hn : ∀ a t' u', work.ending t = (.ok a, t') → Parallel places t u t' u' →
      Local places t' u' (next a)) : Local places t u (work >>= next) := by
  obtain ⟨result, t', u', ht, hu, hp⟩ := hw
  cases result with
  | error failure =>
    exact ⟨.error failure, t', u', Work.ending_bind_of_error ht, Work.ending_bind_of_error hu, hp⟩
  | ok a =>
    obtain ⟨result, t'', u'', ht', hu', hp'⟩ := hn a t' u' ht hp
    refine ⟨result, t'', u'', ?_, ?_, hp.trans hp'⟩
    · rw [Work.ending_bind_of_ok ht, ht']
    · rw [Work.ending_bind_of_ok hu, hu']

/-! ## Committing -/

theorem writeFile_local (h : Alike places t u) (hc : Covers places t file.path) :
    Local places t u (writeFile file) := by
  obtain ⟨fault, ht, hu⟩ | ⟨t', u', ht, hu, hp⟩ :=
    (Files.write_agrees h hc file.content.toUTF8).cases
  · exact local_of_ending h (ending_writeFile_of_error ht) (ending_writeFile_of_error hu)
  · exact ⟨_, t', u', ending_writeFile_of_ok ht, ending_writeFile_of_ok hu, hp⟩

theorem unwrite_local (h : Alike places t u) (hc : Covers places t file.path) :
    Local places t u (unwrite file) := by
  obtain ⟨fault, ht, hu⟩ | ⟨t', u', ht, hu, hp⟩ := (Files.remove_agrees h hc).cases
  · exact local_of_ending h (ending_unwrite_of_error ht) (ending_unwrite_of_error hu)
  · exact ⟨_, t', u', ending_unwrite_of_ok ht, ending_unwrite_of_ok hu, hp⟩

theorem unwriteAll_local (h : Alike places t u) (hc : ∀ f ∈ files, Covers places t f.path) :
    Local places t u (unwriteAll files) := by
  induction files generalizing t u with
  | nil => exact local_pure h ()
  | cons file files ih =>
    rw [unwriteAll]
    refine (unwrite_local h (hc file (by simp))).bind fun _ t' u' _ hp => ?_
    exact ih hp.after fun f hf => (hc f (by simp [hf])).transfer hp.same

theorem writeFrom_local (h : Alike places t u) (hw : ∀ f ∈ written, Covers places t f.path)
    (hc : ∀ f ∈ files, Covers places t f.path) :
    Local places t u (writeFrom written files) := by
  induction files generalizing written t u with
  | nil => exact local_pure h ()
  | cons file files ih =>
    rw [writeFrom]
    refine (writeFile_local h (hc file (by simp))).bind fun answer t' u' _ hp => ?_
    have hw' : ∀ f ∈ written, Covers places t' f.path :=
      fun f hf => (hw f hf).transfer hp.same
    have hc' : ∀ f ∈ file :: files, Covers places t' f.path :=
      fun f hf => (hc f hf).transfer hp.same
    cases answer with
    | none =>
      refine ih hp.after (fun f hf => ?_) fun f hf => hc' f (by simp [hf])
      rcases List.mem_append.1 hf with hf | hf
      · exact hw' f hf
      · rw [List.mem_singleton.1 hf]
        exact hc' file (by simp)
    | some fault =>
      exact (unwriteAll_local hp.after hw').bind fun _ _ _ _ hp' => local_fail hp'.after _

theorem setAside_local {p : Place} {content : ByteArray} (h : Alike places t u)
    (hc : Covers places t source) (hb : Covers places t (source.withSuffix o.backupSuffix))
    (hs : Leads t source p) (hg : t.get? p = some (.file content)) :
    Local places t u (setAside o source) := by
  obtain ⟨fault, ht, hu⟩ | ⟨t', u', ht, hu, hp⟩ := (Files.rename_agrees h hc hb hs hg).cases
  · exact local_of_ending h (ending_setAside_of_error ht) (ending_setAside_of_error hu)
  · exact ⟨_, t', u', ending_setAside_of_ok ht, ending_setAside_of_ok hu, hp⟩

/-- Committing files is local where the source is a file and none of theirs. -/
theorem commit_local {p : Place} {content : ByteArray} (h : Alike places t u)
    (hf : ∀ f ∈ files, Covers places t f.path) (hc : Covers places t source)
    (hb : Covers places t (source.withSuffix o.backupSuffix)) (hs : Leads t source p)
    (hg : t.get? p = some (.file content)) (helse : ∀ f ∈ files, ¬ Leads t f.path p) :
    Local places t u (commit o source files) := by
  unfold commit
  refine (writeFrom_local h (List.forall_mem_nil _) hf).bind fun _ t' u' hending hp => ?_
  -- The source is still a file when it is to be renamed: no class file was written over it.
  have hkept : t'.get? p = some (.file content) := by
    have hwrites := writeAll_ending h.left files
    rw [writeAll, hending] at hwrites
    cases hwrites with
    | all _ hwritten => rw [hwritten.other helse, hg]
  have haside : Local places t' u' (setAside o source) :=
    setAside_local hp.after (hc.transfer hp.same) (hb.transfer hp.same) (hs.transfer hp.same) hkept
  exact haside.bind fun _ _ _ _ hp' => local_pure hp'.after _

/-! ## Preparing -/

theorem planFrom_congr {doc : Document} {taken : List Path} {decls : List Declaration}
    (h : ∀ decl ∈ decls, Files.isPresent t (target o source decl) =
      Files.isPresent u (target o source decl)) :
    planFrom o t source doc taken decls = planFrom o u source doc taken decls := by
  induction decls generalizing taken with
  | nil => rfl
  | cons decl decls ih =>
    have hrest : ∀ taken, planFrom o t source doc taken decls =
        planFrom o u source doc taken decls := by
      intro taken
      exact ih fun d hd => h d (by simp [hd])
    have hbarred : isBarred o t source taken (target o source decl) =
        isBarred o u source taken (target o source decl) := by
      rw [isBarred, isBarred, h decl (by simp)]
    simp only [planFrom]
    rw [hbarred, hrest]

theorem sourceText_congr (h : Alike places t u) (hc : Covers places t source) :
    sourceText t source = sourceText u source := by
  simp only [sourceText, readSource, Work.ending_look, h.isFile_eq hc, h.readText_eq hc]

variable (hcovers : ∀ place, Watches o t source place → places place)
include hcovers

theorem covers_target {text : String} (hread : Files.readText t source = .ok text)
    {doc : Document} {decls : List Declaration} {decl : Declaration}
    (hdoc : Document.ofText? text = some doc) (hdecls : doc.declarations = .ok decls)
    (hd : decl ∈ decls) : Covers places t (target o source decl) := by
  have hheader : decl.header ∈ headers text := by
    rw [← text_of_ofText? hdoc, ← map_header_of_declarations hdecls]
    exact List.mem_map_of_mem hd
  exact fun place hp => hcovers place (.target hread hheader hp)

theorem prepare_congr (h : Alike places t u) : prepare o t source = prepare o u source := by
  have hsource : Covers places t source := fun place hp => hcovers place (.source hp)
  unfold prepare
  rw [← sourceText_congr h hsource]
  cases htext : sourceText t source with
  | error failure => rfl
  | ok text =>
    simp only [prepareText]
    cases hdoc : Document.ofText? text with
    | none => rfl
    | some doc =>
      cases hdecls : doc.declarations with
      | error flaw => simp only [hdecls]
      | ok decls =>
        simp only [hdecls, plan]
        apply planFrom_congr
        intro decl hd
        exact h.isPresent_eq
          (covers_target hcovers (sourceText_eq_ok_iff.1 htext) hdoc hdecls hd)

/-- A split looks at nothing but what it watches, and changes nothing else. -/
theorem splitFile_local (h : Alike places t u) (hslash : '/' ∉ o.extension.toList) :
    Local places t u (splitFile o source) := by
  have hprepare := prepare_congr hcovers h
  unfold Local
  rw [ending_splitFile, ending_splitFile, ← hprepare]
  cases hp : prepare o t source with
  | error failure => exact ⟨_, t, u, rfl, rfl, .refl h⟩
  | ok files =>
    obtain ⟨text, doc, decls, hread, hdoc, hdecls, hplan⟩ := prepare_eq_ok_iff.1 hp
    obtain ⟨p, hs, hg⟩ := (Files.readBytes_eq_ok_iff h.left).1 (Files.readText_eq_ok_iff.1 hread)
    have hplanned := planFrom_eq_ok_iff.1 hplan
    have hf : ∀ f ∈ files, Covers places t f.path := by
      intro f hf
      have hd : f.declaration ∈ decls := by
        rw [← hplanned.declarations]
        exact List.mem_map_of_mem hf
      rw [hplanned.path f hf]
      exact covers_target hcovers hread hdoc hdecls hd
    by_cases hdry : o.dryRun = true
    · simp only [hdry, if_true]
      exact ⟨_, t, u, rfl, rfl, .refl h⟩
    · simp only [hdry]
      exact commit_local h hf (fun place hp => hcovers place (.source hp))
        (fun place hp => hcovers place (.backup hp)) hs hg
        fun f hf => hplanned.not_leads_source hdecls hslash hs hf

omit hcovers

/-- What is watched without slashes stands beside the source, or is a directory. -/
theorem Watches.beside {name : String} {dir place : Place}
    (hs : Leads tree source (name :: dir)) (hslash : '/' ∉ o.extension.toList)
    (hsuffix : '/' ∉ o.backupSuffix.toList) (h : Watches o tree source place)
    (hnot : tree.get? place ≠ some .directory) : ∃ last, place = last :: dir := by
  cases h with
  | source hp =>
    obtain ⟨before, last, above, hn, _, _, he, hplace⟩ := hs.names
    obtain ⟨rfl, rfl⟩ := List.cons.inj hplace
    exact ⟨_, hp.eq_of_not_directory hn he hnot⟩
  | target _ hheader hp =>
    obtain ⟨before, hn, he⟩ :=
      hs.enters_sibling (not_mem_slash_of_isName (isName_of_mem_headers hheader) hslash)
    exact ⟨_, hp.eq_of_not_directory hn he hnot⟩
  | backup hp =>
    obtain ⟨before, hn, he⟩ := hs.enters_withSuffix hsuffix
    exact ⟨_, hp.eq_of_not_directory hn he hnot⟩

end

end Split
end SourceSplit
