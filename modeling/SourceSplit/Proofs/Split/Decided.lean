import SourceSplit.Proofs.Ending
import SourceSplit.Proofs.Path.Parent
import SourceSplit.Proofs.Source.Rendered
import SourceSplit.Proofs.Split.Planned

/-!
# SourceSplit.Proofs.Split.Decided

What a plan hangs on. The plan compares paths; for the declarations of a document these comparisons
come down to the class names, to the file name of the source, and to what stands at the targets
(`isBarred_iff_blocked`). So the declarations can be planned just when they are clear of each other,
of the source and of what must stay, and otherwise the first that is not is to blame
(`plan_decides`).
-/

namespace SourceSplit
namespace Split

open Source
open Files (Tree)

/-- Nothing stands in the way of the class files. -/
structure Clear (o : Options) (tree : Tree) (source : Path) (decls : List Declaration) : Prop where
  names : (decls.map (·.header.name)).Nodup
  beside : ∀ decl ∈ decls, source.fileName? ≠ some (decl.header.name ++ "." ++ o.extension)
  vacant : o.overwrite = true ∨
    ∀ decl ∈ decls, Files.isPresent tree (target o source decl) = false

/-- What stands in the way of one class file, when those of `before` are planned. -/
inductive Blocked (o : Options) (tree : Tree) (source : Path) (before : List Declaration)
    (decl : Declaration) : Prop where
  | repeated : decl.header.name ∈ before.map (·.header.name) → Blocked o tree source before decl
  | source : source.fileName? = some (decl.header.name ++ "." ++ o.extension) →
      Blocked o tree source before decl
  | present : o.overwrite = false → Files.isPresent tree (target o source decl) = true →
      Blocked o tree source before decl

/-- The first declaration, in their order, that something stands in the way of. -/
def FirstBlocked (o : Options) (tree : Tree) (source : Path) (decls : List Declaration)
    (decl : Declaration) : Prop :=
  ∃ before after, decls = before ++ decl :: after ∧ Clear o tree source before ∧
    Blocked o tree source before decl

section

variable {o : Options} {tree : Tree} {source : Path} {doc : Document}
  {before after decls : List Declaration} {decl : Declaration} {taken : List Path}

theorem clear_nil : Clear o tree source [] where
  names := .nil
  beside := List.forall_mem_nil _
  vacant := .inr (List.forall_mem_nil _)

theorem Clear.of_append (h : Clear o tree source (before ++ after)) :
    Clear o tree source before where
  names := by
    have hnames := h.names
    rw [List.map_append] at hnames
    exact (List.nodup_append.1 hnames).1
  beside := fun decl hd => h.beside decl (List.mem_append_left _ hd)
  vacant := h.vacant.imp_right fun hall decl hd => hall decl (List.mem_append_left _ hd)

theorem nodup_names_concat_iff : ((before ++ [decl]).map (·.header.name)).Nodup ↔
    decl.header.name ∉ before.map (·.header.name) ∧ (before.map (·.header.name)).Nodup := by
  rw [List.map_append, List.map_singleton, (List.perm_append_singleton _ _).nodup_iff,
    List.nodup_cons]

/-- One more declaration is clear just when nothing stands in its way. -/
theorem clear_concat_iff : Clear o tree source (before ++ [decl]) ↔
    Clear o tree source before ∧ ¬ Blocked o tree source before decl := by
  constructor
  · intro h
    refine ⟨h.of_append, fun hblocked => ?_⟩
    cases hblocked with
    | repeated hmem => exact (nodup_names_concat_iff.1 h.names).1 hmem
    | source hname => exact h.beside decl (by simp) hname
    | present hkeep hpresent =>
      rcases h.vacant with hover | hall
      · rw [hkeep] at hover
        cases hover
      · rw [hall decl (by simp)] at hpresent
        cases hpresent
  · rintro ⟨h, hfree⟩
    constructor
    · exact nodup_names_concat_iff.2 ⟨fun hmem => hfree (.repeated hmem), h.names⟩
    · rw [List.forall_mem_append, List.forall_mem_singleton]
      exact ⟨h.beside, fun hname => hfree (.source hname)⟩
    · cases hover : o.overwrite with
      | true => exact .inl rfl
      | false =>
        right
        rw [List.forall_mem_append, List.forall_mem_singleton]
        refine ⟨h.vacant.resolve_left (by simp [hover]), ?_⟩
        rw [← Bool.not_eq_true]
        exact fun hpresent => hfree (.present hover hpresent)

theorem Clear.not_firstBlocked (h : Clear o tree source decls) :
    ¬ FirstBlocked o tree source decls decl := by
  rintro ⟨before, after, rfl, _, hblocked⟩
  rw [List.append_cons] at h
  exact (clear_concat_iff.1 h.of_append).2 hblocked

theorem FirstBlocked.unique {other : Declaration} (h : FirstBlocked o tree source decls decl)
    (h' : FirstBlocked o tree source decls other) : decl = other := by
  obtain ⟨before, after, hdecls, hclear, hblocked⟩ := h
  obtain ⟨before', after', hdecls', hclear', hblocked'⟩ := h'
  rcases List.append_eq_append_iff.1 (hdecls.symm.trans hdecls') with
    ⟨more, rfl, hmore⟩ | ⟨more, rfl, hmore⟩
  · cases more with
    | nil => exact (List.cons.inj hmore).1
    | cons next more =>
      obtain ⟨rfl, _⟩ := List.cons.inj hmore
      exact absurd ⟨before, more, rfl, hclear, hblocked⟩ hclear'.not_firstBlocked
  · cases more with
    | nil => exact (List.cons.inj hmore).1.symm
    | cons next more =>
      obtain ⟨rfl, _⟩ := List.cons.inj hmore
      exact absurd ⟨before', more, rfl, hclear', hblocked'⟩ hclear.not_firstBlocked

/-! ## Plans -/

/-- A declaration that can be planned wherever its class file may stand. -/
structure Plannable (doc : Document) (decl : Declaration) : Prop where
  name : IsName decl.header.name
  rendered : ∃ content, doc.render? decl = some content

theorem plannable_of_declarations (h : doc.declarations = .ok decls) (hd : decl ∈ decls) :
    Plannable doc decl where
  name := isName_of_declarations h hd
  rendered := by
    obtain ⟨_, _, _, _, hstands⟩ := exists_stands h hd
    exact ⟨_, by rw [Document.render?, hstands.slice?_eq, Option.map_some]⟩

theorem target_same_target_iff {other : Declaration} (hslash : '/' ∉ o.extension.toList)
    (hd : IsName decl.header.name) (ho : IsName other.header.name) :
    (target o source decl).same (target o source other) = true ↔
      decl.header.name = other.header.name := by
  rw [target, target, Path.sibling_same_iff (not_mem_slash_of_isName hd hslash)
    (names_of_isName hd) (not_mem_slash_of_isName ho hslash) (names_of_isName ho)]
  simp

/-- The comparisons of paths come down to the names. -/
theorem isBarred_iff_blocked (hslash : '/' ∉ o.extension.toList) (hd : IsName decl.header.name)
    (hbefore : ∀ earlier ∈ before, IsName earlier.header.name)
    (htaken : ∀ path, path ∈ taken ↔ path ∈ before.map (target o source)) :
    isBarred o tree source taken (target o source decl) = true ↔
      Blocked o tree source before decl := by
  have hself : (target o source decl).same source = true ↔
      source.fileName? = some (decl.header.name ++ "." ++ o.extension) :=
    Path.sibling_same_self_iff (not_mem_slash_of_isName hd hslash) (names_of_isName hd)
  have hsame : ∀ earlier ∈ before, (target o source decl).same (target o source earlier) = true ↔
      decl.header.name = earlier.header.name :=
    fun earlier hearlier => target_same_target_iff hslash hd (hbefore earlier hearlier)
  rw [isBarred, Bool.or_eq_true, Bool.or_eq_true, List.any_eq_true, Bool.and_eq_true, hself]
  constructor
  · rintro ((hname | ⟨path, hpath, heq⟩) | ⟨hkeep, hpresent⟩)
    · exact .source hname
    · obtain ⟨earlier, hearlier, rfl⟩ := List.mem_map.1 ((htaken path).1 hpath)
      rw [hsame earlier hearlier] at heq
      exact .repeated (heq ▸ List.mem_map_of_mem hearlier)
    · exact .present (by simpa using hkeep) hpresent
  · intro h
    cases h with
    | repeated hmem =>
      obtain ⟨earlier, hearlier, heq⟩ := List.mem_map.1 hmem
      refine .inl (.inr ⟨_, (htaken _).2 (List.mem_map_of_mem hearlier), ?_⟩)
      exact (hsame earlier hearlier).2 heq.symm
    | source hname => exact .inl (.inl hname)
    | present hkeep hpresent => exact .inr ⟨by simp [hkeep], hpresent⟩

/-- A plan for more declarations, behind those of `before`, which are clear. -/
theorem planFrom_decides (hslash : '/' ∉ o.extension.toList)
    (htaken : ∀ path, path ∈ taken ↔ path ∈ before.map (target o source))
    (hclear : Clear o tree source before) (hall : ∀ decl ∈ before ++ decls, Plannable doc decl) :
    (∃ files, planFrom o tree source doc taken decls = .ok files) ∧
        Clear o tree source (before ++ decls) ∨
      ∃ decl, FirstBlocked o tree source (before ++ decls) decl ∧
        planFrom o tree source doc taken decls = .error (.outputExists (target o source decl)) := by
  induction decls generalizing before taken with
  | nil =>
    left
    rw [List.append_nil]
    exact ⟨⟨[], rfl⟩, hclear⟩
  | cons decl decls ih =>
    have hdecl := hall decl (by simp)
    have hbarred : isBarred o tree source taken (target o source decl) = true ↔
        Blocked o tree source before decl :=
      isBarred_iff_blocked hslash hdecl.name
        (fun earlier hearlier => (hall earlier (by simp [hearlier])).name) htaken
    by_cases hblocked : Blocked o tree source before decl
    · right
      refine ⟨decl, ⟨before, decls, rfl, hclear, hblocked⟩, ?_⟩
      rw [planFrom, if_pos (hbarred.2 hblocked)]
    · obtain ⟨content, hcontent⟩ := hdecl.rendered
      have htaken' : ∀ path, path ∈ target o source decl :: taken ↔
          path ∈ (before ++ [decl]).map (target o source) := by
        intro path
        rw [List.mem_cons, htaken, List.map_append, List.mem_append, List.map_singleton,
          List.mem_singleton, or_comm]
      simp only [planFrom, if_neg (mt hbarred.1 hblocked), hcontent]
      rw [List.append_cons] at hall ⊢
      rcases ih htaken' (clear_concat_iff.2 ⟨hclear, hblocked⟩) hall with
        ⟨⟨files, hfiles⟩, hclear'⟩ | ⟨first, hfirst, hfailure⟩
      · left
        exact ⟨⟨_, by rw [hfiles]⟩, hclear'⟩
      · right
        exact ⟨first, hfirst, by rw [hfailure]⟩

theorem plan_decided (tree : Tree) (source : Path) (h : doc.declarations = .ok decls)
    (hslash : '/' ∉ o.extension.toList) :
    (∃ files, plan o tree source doc decls = .ok files) ∧ Clear o tree source decls ∨
      ∃ decl, FirstBlocked o tree source decls decl ∧
        plan o tree source doc decls = .error (.outputExists (target o source decl)) := by
  have hnone : ∀ path, path ∈ [] ↔ path ∈ [].map (target o source) := fun _ => .rfl
  exact planFrom_decides hslash hnone clear_nil fun decl hd => plannable_of_declarations h hd

theorem exists_plan_iff (h : doc.declarations = .ok decls) (hslash : '/' ∉ o.extension.toList) :
    (∃ files, plan o tree source doc decls = .ok files) ↔ Clear o tree source decls := by
  rcases plan_decided tree source h hslash with ⟨hok, hclear⟩ | ⟨decl, hfirst, hfailure⟩
  · exact ⟨fun _ => hclear, fun _ => hok⟩
  · constructor
    · rintro ⟨files, hfiles⟩
      rw [hfailure] at hfiles
      cases hfiles
    · exact fun hclear => absurd hfirst hclear.not_firstBlocked

theorem plan_eq_error_iff {failure : Failure} (h : doc.declarations = .ok decls)
    (hslash : '/' ∉ o.extension.toList) :
    plan o tree source doc decls = .error failure ↔
      ∃ decl, FirstBlocked o tree source decls decl ∧
        failure = .outputExists (target o source decl) := by
  rcases plan_decided tree source h hslash with ⟨⟨files, hfiles⟩, hclear⟩ | ⟨decl, hfirst, hfailure⟩
  · rw [hfiles]
    constructor
    · rintro ⟨⟩
    · rintro ⟨decl, hfirst, _⟩
      exact absurd hfirst hclear.not_firstBlocked
  · rw [hfailure]
    constructor
    · intro heq
      exact ⟨decl, hfirst, (Except.error.inj heq).symm⟩
    · rintro ⟨other, hother, rfl⟩
      rw [hfirst.unique hother]

/-- Planned files stand in the directory of the source, under their own names. -/
theorem Planned.stands_beside {files : List ClassFile} {file : ClassFile}
    (h : Planned o tree source doc taken decls files) (hd : doc.declarations = .ok decls)
    (hslash : '/' ∉ o.extension.toList) (hf : file ∈ files) :
    file.path.parent? = some source.directory ∧
      file.path.fileName? = some (file.declaration.header.name ++ "." ++ o.extension) := by
  have hname := h.isName hd hf
  have hnoslash := not_mem_slash_of_isName hname hslash
  rw [h.path file hf]
  exact ⟨Path.parent?_sibling hnoslash (names_of_isName hname),
    Path.fileName?_sibling hnoslash (names_of_isName hname)⟩

/-- A plan leaves the tree alone. It is made just when the declarations are clear, and fails with
the target of the first that is not. -/
theorem plan_decides (h : doc.declarations = .ok decls) (hslash : '/' ∉ o.extension.toList) :
    (Work.look fun tree => plan o tree source doc decls).ending tree =
        (plan o tree source doc decls, tree) ∧
      ((∃ files, plan o tree source doc decls = .ok files) ↔ Clear o tree source decls) ∧
      (∀ files, plan o tree source doc decls = .ok files →
        files.map (·.declaration) = decls ∧
          ∀ file ∈ files,
            file.path = source.sibling file.declaration.header.name o.extension ∧
            file.path.parent? = some source.directory ∧
            file.path.fileName? = some (file.declaration.header.name ++ "." ++ o.extension) ∧
            doc.render? file.declaration = some file.content) ∧
      ∀ failure, plan o tree source doc decls = .error failure ↔
        ∃ decl, FirstBlocked o tree source decls decl ∧
          failure = .outputExists (target o source decl) := by
  refine ⟨rfl, exists_plan_iff h hslash, fun files hfiles => ?_,
    fun failure => plan_eq_error_iff h hslash⟩
  have hplanned := planFrom_eq_ok_iff.1 hfiles
  refine ⟨hplanned.declarations, fun file hf => ?_⟩
  obtain ⟨hparent, hname⟩ := hplanned.stands_beside h hslash hf
  exact ⟨hplanned.path file hf, hparent, hname, hplanned.content file hf⟩

end

/-- The sample where a file is in the place of the second class. -/
def occupiedTree : Tree :=
  .ofEntries [(["M.java"], .file sampleText.toUTF8), (["B.java"], .file "old".toUTF8)]

/-- A class file that exists and may not be replaced stops the plan, though the one before could be
made. -/
theorem plan_keeps_occupied :
    plan { overwrite := false } occupiedTree sampleSource ⟨sampleText, "p", []⟩
        (sampleFiles.map (·.declaration)) =
      .error (.outputExists ⟨"/B.java"⟩) := by
  have hslash : '/' ∉ ({ overwrite := false } : Options).extension.toList := by decide
  have hfirst : Files.Leads occupiedTree ⟨"/A.java"⟩ ["A.java"] := leads_sample "A.java" (by simp)
  have hsecond : Files.Leads occupiedTree ⟨"/B.java"⟩ ["B.java"] := leads_sample "B.java" (by simp)
  have hplain : occupiedTree.Plain := Tree.plain_ofEntries (by simp)
  have hvacant : Files.isPresent occupiedTree ⟨"/A.java"⟩ = false := by
    rw [hfirst.isPresent_eq_false_iff hplain]
    simp [occupiedTree]
  have hpresent : Files.isPresent occupiedTree ⟨"/B.java"⟩ = true := by
    rw [← Bool.not_eq_false, hsecond.isPresent_eq_false_iff hplain]
    simp [occupiedTree]
  refine ((plan_decides renders_sample.declarations hslash).2.2.2 _).2
    ⟨⟨⟨"B", 32, 52⟩, 53⟩, ⟨[⟨⟨"A", 10, 30⟩, 31⟩], [], rfl, ?_, .present rfl hpresent⟩, rfl⟩
  exact ⟨by simp, by decide, .inr (List.forall_mem_singleton.2 hvacant)⟩

/-- The root has no parent, but what stands beside it has one. -/
theorem plan_beside_root : Document.declarations ⟨sampleText, "p", []⟩ =
      .ok (sampleFiles.map (·.declaration)) ∧
    ∃ files, plan {} (Tree.bare []) ⟨"/"⟩ ⟨sampleText, "p", []⟩
        (sampleFiles.map (·.declaration)) = .ok files ∧
      ∃ file ∈ files, file.path.parent?.map Path.parts ≠ (Path.parent? ⟨"/"⟩).map Path.parts :=
  ⟨renders_sample.declarations, _, rfl, _, List.mem_cons_self, by decide⟩

end Split
end SourceSplit
