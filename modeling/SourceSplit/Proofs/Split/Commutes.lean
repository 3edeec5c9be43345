import SourceSplit.Proofs.Split.BatchFiles
import SourceSplit.Proofs.Split.Footprint

/-!
# SourceSplit.Proofs.Split.Commutes

Splits of two sources in different directories come to the same in either order: the same two
results and the same tree (`splitFile_commutes`). A split watches entries beside its own source
only, and changes no others, so neither gets in the way of the other. But with a slash in the
suffix a backup may go anywhere, and then neither split may change what the other watches
(`Disturbs`). `forked_not_commutes`: two sources whose backups go to one place.
-/

namespace SourceSplit
namespace Split

open Source
open Files (Tree Place Leads Alike Parallel)

/-- Splitting `source` and then `other` is the same as splitting `other` and then `source`. -/
structure Commutes (o : Options) (tree : Tree) (source other : Path) : Prop where
  first : ((splitFile o source).run tree).result =
    ((splitFile o source).run ((splitFile o other).run tree).tree).result
  second : ((splitFile o other).run ((splitFile o source).run tree).tree).result =
    ((splitFile o other).run tree).result
  same : ((splitFile o other).run ((splitFile o source).run tree).tree).tree.Same
    ((splitFile o source).run ((splitFile o other).run tree).tree).tree

/-- Splitting `source` changes an entry that a split of `other` watches. -/
def Disturbs (o : Options) (tree : Tree) (source other : Path) : Prop :=
  ∃ place, ((splitFile o source).run tree).tree.get? place ≠ tree.get? place ∧
    Watches o tree other place

section

variable {o : Options} {tree : Tree} {source other : Path} {name name' : String}
  {dir dir' : Place}

theorem splitFile_parallel (source : Path) (h : tree.Plain)
    (hslash : '/' ∉ o.extension.toList) :
    Parallel (Watches o tree source) tree tree ((splitFile o source).run tree).tree
      ((splitFile o source).run tree).tree := by
  obtain ⟨result, t', u', ht, hu, hp⟩ :=
    splitFile_local (fun _ hw => hw) (Alike.refl h) hslash
  cases ht
  cases hu
  exact hp

/-- A split that is not disturbed by one before it has the same result, and what it changes is
changed in the same way. -/
theorem splitFile_after (h : tree.Plain) (hslash : '/' ∉ o.extension.toList)
    (hapart : ¬ Disturbs o tree source other) :
    ((splitFile o other).run ((splitFile o source).run tree).tree).result =
        ((splitFile o other).run tree).result ∧
      Parallel (Watches o tree other) tree ((splitFile o source).run tree).tree
        ((splitFile o other).run tree).tree
        ((splitFile o other).run ((splitFile o source).run tree).tree).tree := by
  have hfirst := splitFile_parallel source h hslash
  have halike : Alike (Watches o tree other) tree ((splitFile o source).run tree).tree := by
    refine ⟨h, hfirst.after.left, hfirst.same, fun place hw => ?_⟩
    apply Classical.byContradiction
    intro hne
    exact hapart ⟨place, Ne.symm hne, hw⟩
  obtain ⟨result, t', u', ht, hu, hp⟩ := splitFile_local (fun _ hw => hw) halike hslash
  have htree : ((splitFile o other).run tree).tree = t' := congrArg Prod.snd ht
  have htree' : ((splitFile o other).run ((splitFile o source).run tree).tree).tree = u' :=
    congrArg Prod.snd hu
  rw [htree, htree']
  exact ⟨(congrArg Prod.fst hu).trans (congrArg Prod.fst ht).symm, hp⟩

theorem commutes_of_not_disturbs (h : tree.Plain) (hslash : '/' ∉ o.extension.toList)
    (hapart : ¬ Disturbs o tree source other) (hapart' : ¬ Disturbs o tree other source) :
    Commutes o tree source other := by
  obtain ⟨hresult, hp⟩ := splitFile_after h hslash hapart
  obtain ⟨hresult', hp'⟩ := splitFile_after h hslash hapart'
  exact ⟨hresult'.symm, hresult, hp'.commute hp⟩

/-- Without slashes, splits in different directories do not disturb each other. -/
theorem not_disturbs (h : tree.Plain) (hslash : '/' ∉ o.extension.toList)
    (hsuffix : '/' ∉ o.backupSuffix.toList) (hs : Leads tree source (name :: dir))
    (ho : Leads tree other (name' :: dir')) (hne : dir ≠ dir') :
    ¬ Disturbs o tree source other := by
  rintro ⟨place, hchanged, hw'⟩
  have hp := splitFile_parallel source h hslash
  have hw : Watches o tree source place := by
    apply Classical.byContradiction
    intro hno
    exact hchanged (hp.left place hno)
  have hnot : tree.get? place ≠ some .directory := by
    intro hd
    exact hchanged (by rw [(hp.same.directory place).1 hd, hd])
  obtain ⟨last, rfl⟩ := hw.beside hs hslash hsuffix hnot
  obtain ⟨last', hplace⟩ := hw'.beside ho hslash hsuffix hnot
  exact hne (List.cons.inj hplace).2

/-- Splits in different directories commute, unless a slash in the suffix lets one of them change
what the other watches. -/
theorem splitFile_commutes (h : tree.Plain) (hslash : '/' ∉ o.extension.toList)
    (hs : Leads tree source (name :: dir)) (ho : Leads tree other (name' :: dir'))
    (hne : dir ≠ dir') (hapart : '/' ∈ o.backupSuffix.toList →
      ¬ Disturbs o tree source other ∧ ¬ Disturbs o tree other source) :
    Commutes o tree source other := by
  by_cases hsuffix : '/' ∈ o.backupSuffix.toList
  · obtain ⟨hfirst, hsecond⟩ := hapart hsuffix
    exact commutes_of_not_disturbs h hslash hfirst hsecond
  · exact commutes_of_not_disturbs h hslash (not_disturbs h hslash hsuffix hs ho hne)
      (not_disturbs h hslash hsuffix ho hs (Ne.symm hne))

end

/-! ## Two sources with one backup, in two directories -/

def forkedOptions : Options := { backupSuffix := "x/../../K" }

def forkedSource : Path := ⟨"/b/N.java"⟩

def forkedFiles : List ClassFile := [
  ⟨⟨⟨"C", 10, 30⟩, 31⟩, ⟨"/b/C.java"⟩, "package q;\n\n\n\n/** */public class C\x7b\x7d"⟩]

/-- The sample and another source in a directory below, each beside a directory that is called like
it with the first part of the suffix. -/
def forkedTree : Tree :=
  .ofEntries [(["M.java"], .file sampleText.toUTF8), (["b"], .directory),
    (["N.java", "b"], .file crossedText.toUTF8), (["M.javax"], .directory),
    (["N.javax", "b"], .directory)]

theorem plain_forkedTree : forkedTree.Plain :=
  Tree.plain_ofEntries (by simp)

theorem renders_forked : Renders "java" forkedSource ⟨crossedText, "q", []⟩ forkedFiles := by
  refine ⟨by decide +kernel, ?_, by decide +kernel, by decide +kernel, by decide +kernel,
    by decide +kernel⟩
  simp only [Document.declarations, headers_crossedText]
  rfl

theorem enters_b : Files.Enters forkedTree [] ["", "b"] ["b"] := by
  refine .stay rfl (.inl rfl) (.down rfl (by decide) (by decide) (.done ?_))
  simp [forkedTree]

theorem leads_below_b (name : String) (h : name ∈ ["N.java", "C.java"]) :
    Leads forkedTree ⟨"/b/" ++ name⟩ [name, "b"] := by
  simp only [List.mem_cons, List.not_mem_nil, or_false] at h
  rcases h with rfl | rfl
  · exact ⟨rfl, rfl, ["", "b"], _, _, by decide +kernel, by decide, by decide, enters_b, rfl⟩
  · exact ⟨rfl, rfl, ["", "b"], _, _, by decide +kernel, by decide, by decide, enters_b, rfl⟩

/-- One of the two sources, in `p`. -/
structure Forked (source : Path) (p : Place) (doc : Document) (files : List ClassFile) : Prop where
  renders : Renders "java" source doc files
  leads : Leads forkedTree source p
  text : forkedTree.get? p = some (.file doc.text.toUTF8)
  files : ∀ file ∈ files, ∃ place, Leads forkedTree file.path place ∧
    forkedTree.get? place = none
  backup : Leads forkedTree (source.withSuffix forkedOptions.backupSuffix) ["K"]

theorem forked_sample : Forked sampleSource ["M.java"] ⟨sampleText, "p", []⟩ sampleFiles where
  renders := renders_sample
  leads := leads_sampleSource
  text := by simp [forkedTree]
  files := by
    intro file hf
    obtain ⟨name, hname, hl⟩ := leads_sampleFiles hf
    refine ⟨[name], hl, ?_⟩
    simp only [List.mem_cons, List.not_mem_nil, or_false] at hname
    rcases hname with rfl | rfl <;> simp [forkedTree]
  backup := by
    refine ⟨rfl, rfl, ["", "M.javax", "..", ".."], "K", [], by decide +kernel, by decide,
      by decide, ?_, rfl⟩
    have hd : forkedTree.get? ["M.javax"] = some .directory := by simp [forkedTree]
    exact .stay rfl (.inl rfl) (.down rfl (by decide) (by decide)
      (.up hd (.up rfl (.done rfl))))

theorem forked_other :
    Forked forkedSource ["N.java", "b"] ⟨crossedText, "q", []⟩ forkedFiles where
  renders := renders_forked
  leads := leads_below_b "N.java" (by simp)
  text := by simp [forkedTree]
  files := by
    intro file hf
    rw [List.mem_singleton.1 hf]
    exact ⟨["C.java", "b"], leads_below_b "C.java" (by simp),
      by simp [forkedTree]⟩
  backup := by
    refine ⟨rfl, rfl, ["", "b"] ++ ["N.javax", "..", ".."], "K", [], by decide +kernel,
      by decide, by decide, enters_b.append ?_, rfl⟩
    have hb : forkedTree.get? ["b"] = some .directory := by simp [forkedTree]
    have hd : forkedTree.get? ["N.javax", "b"] = some .directory := by simp [forkedTree]
    exact .down hb (by decide) (by decide) (.up hd (.up hb (.done rfl)))

section

variable {source other : Path} {p q : Place} {doc doc' : Document} {files files' : List ClassFile}
  {tree : Tree}

theorem Forked.split (hf : Forked source p doc files) (h : tree.Plain)
    (hs : forkedTree.SameDirectories tree) (hg : tree.get? p = some (.file doc.text.toUTF8)) :
    ∃ after, ((splitFile forkedOptions source).run tree).tree = after ∧ after.Plain ∧
      forkedTree.SameDirectories after ∧ after.get? ["K"] = some (.file doc.text.toUTF8) ∧
      ∀ place, place ≠ p → place ≠ ["K"] → forkedTree.get? place ≠ none →
        after.get? place = tree.get? place := by
  have hplaces : ∀ file ∈ files, ∃ place, Leads tree file.path place ∧
      forkedTree.get? place = none := by
    intro file hmem
    obtain ⟨place, hl, hnone⟩ := hf.files file hmem
    exact ⟨place, hl.transfer hs, hnone⟩
  obtain ⟨mid, after, hending, hwritten, hmoved⟩ := hf.renders.exists_splitFile
    (o := forkedOptions) rfl h (hf.leads.transfer hs) hg (fun file hmem => by
      obtain ⟨place, hl, hnone⟩ := hplaces file hmem
      refine ⟨place, hl, ?_, ?_, nofun⟩
      · rintro rfl
        rw [hf.text] at hnone
        cases hnone
      · rw [ne_eq, ← hs.directory, hnone]
        exact nofun) (hf.backup.transfer hs)
    (by simp [← hs.directory, forkedTree])
  have hother : ∀ place, forkedTree.get? place ≠ none → mid.get? place = tree.get? place := by
    intro place hsome
    apply hwritten.other
    intro file hmem hl
    obtain ⟨place', hl', hnone⟩ := hplaces file hmem
    rw [hl'.unique hl] at hnone
    exact hsome hnone
  refine ⟨after, congrArg Prod.snd hending, hmoved.plain,
    hs.trans (hwritten.same.trans hmoved.same), ?_, ?_⟩
  · rw [hmoved.get?, if_pos rfl, hother p (by simp [hf.text]), hg]
  · intro place hne hnot hsome
    rw [hmoved.get?, if_neg hnot, if_neg hne, hother place hsome]

/-- The backup of the source that is split last is left. -/
theorem Forked.last (hf : Forked source p doc files) (hf' : Forked other q doc' files')
    (hne : q ≠ p) (hnot : q ≠ ["K"]) :
    ((splitFile forkedOptions other).run
      ((splitFile forkedOptions source).run forkedTree).tree).tree.get? ["K"] =
        some (.file doc'.text.toUTF8) := by
  obtain ⟨mid, hmid, hplain, hsame, _, hkept⟩ := hf.split plain_forkedTree .refl hf.text
  have htext : mid.get? q = some (.file doc'.text.toUTF8) := by
    rw [hkept q hne hnot (by simp [hf'.text]), hf'.text]
  obtain ⟨after, hafter, _, _, hlast, _⟩ := hf'.split hplain hsame htext
  rw [hmid, hafter, hlast]

end

theorem forked_not_commutes :
    forkedTree.Plain ∧ '/' ∉ forkedOptions.extension.toList ∧
      Leads forkedTree sampleSource ["M.java"] ∧ Leads forkedTree forkedSource ["N.java", "b"] ∧
      (∀ place ∈ [["M.java"], ["N.java", "b"]],
        ∃ content, forkedTree.get? place = some (.file content)) ∧
      ¬ Commutes forkedOptions forkedTree sampleSource forkedSource := by
  refine ⟨plain_forkedTree, by decide, forked_sample.leads, forked_other.leads, ?_, ?_⟩
  · simp [forkedTree]
  · intro hcommutes
    have hsame := hcommutes.same.2 ["K"]
    rw [forked_sample.last forked_other (by decide) (by decide),
      forked_other.last forked_sample (by decide) (by decide), Option.some.injEq,
      Files.Entry.file.injEq] at hsame
    exact absurd (String.toByteArray_inj.1 hsame) (by decide)

/-- With the suffix as it is by default they commute. -/
theorem splitFile_commutes_forked : Commutes {} forkedTree sampleSource forkedSource :=
  splitFile_commutes plain_forkedTree (by decide) forked_sample.leads forked_other.leads
    (by decide) fun hslash => absurd hslash (by decide)

end Split
end SourceSplit
