import SourceSplit.Proofs.Path.Beside

/-!
# SourceSplit.Proofs.Path.Extension

The extension of a path against the last dot of its name. A name with a single dot falls apart at
that dot in one way only (`split_at_dot`), so that it cannot be a longer form of a name with an
extension of the same length (`ne_append_of_dot`). A path with a suffix is therefore none of the
siblings that have its extension (`sibling_not_same_withSuffix`).
-/

namespace SourceSplit
namespace Path

/-- A list is cut at its first dot. -/
theorem cut_at_dot {cs behind : List Char} {dot : Char}
    (h : cs.dropWhile (fun c => decide (c ≠ '.')) = dot :: behind) :
    '.' ∉ cs.takeWhile (fun c => decide (c ≠ '.')) ∧
      cs.takeWhile (fun c => decide (c ≠ '.')) ++ '.' :: behind = cs := by
  have hdot : dot = '.' := by
    have hhead := List.head?_dropWhile_not (fun c => decide (c ≠ '.')) cs
    rw [h] at hhead
    simpa using hhead
  constructor
  · intro hmem
    have hall := List.all_eq_true.1 List.all_takeWhile _ hmem
    simp at hall
  · rw [hdot] at h
    rw [← h, List.takeWhile_append_dropWhile]

/-- The extension is what follows the last dot of the name, and something comes before that dot. -/
theorem extension?_eq_some_iff {path : Path} {extension : String} :
    path.extension? = some extension ↔ ∃ stem, stem ≠ [] ∧ '.' ∉ extension.toList ∧
      path.fileName? = some (String.ofList (stem ++ '.' :: extension.toList)) := by
  cases hname : path.fileName? with
  | none => simp [extension?, hname]
  | some name =>
    simp only [extension?, hname, Option.some.injEq]
    constructor
    · intro he
      split at he
      · rename_i dot c rest hdrop
        cases he
        obtain ⟨hfree, hwhole⟩ := cut_at_dot hdrop
        refine ⟨(c :: rest).reverse, by simp, ?_, ?_⟩
        · rwa [String.toList_ofList, List.mem_reverse]
        · have hname := congrArg List.reverse hwhole
          rw [List.reverse_reverse, List.reverse_append, List.reverse_cons,
            List.append_assoc] at hname
          rw [String.toList_ofList, ← String.toList_inj, String.toList_ofList]
          exact hname.symm
      · cases he
    · rintro ⟨stem, hstem, hdot, rfl⟩
      obtain ⟨c, rest, hrest⟩ := List.exists_cons_of_ne_nil (mt List.reverse_eq_nil_iff.1 hstem)
      have hback : (stem ++ '.' :: extension.toList).reverse =
          extension.toList.reverse ++ '.' :: c :: rest := by
        rw [List.reverse_append, List.reverse_cons, List.append_assoc, hrest]
        rfl
      have hfree : ∀ d ∈ extension.toList.reverse, decide (d ≠ '.') = true := by
        intro d hd
        rw [decide_eq_true_eq]
        rintro rfl
        exact hdot (List.mem_reverse.1 hd)
      rw [String.toList_ofList, hback, List.dropWhile_append_of_pos hfree,
        List.takeWhile_append_of_pos hfree]
      simp

theorem extension?_eq_some {path : Path} {before : List Segment} {last : Segment}
    {extension : String} (h : path.segments = before ++ [last]) (hlast : Names last)
    (he : path.extension? = some extension) :
    ∃ stem, stem ≠ [] ∧ last = stem ++ '.' :: extension.toList ∧ '.' ∉ extension.toList := by
  obtain ⟨stem, hstem, hdot, hname⟩ := extension?_eq_some_iff.1 he
  rw [fileName?_of_names h hlast, Option.some.injEq, String.ofList_inj] at hname
  exact ⟨stem, hstem, hname, hdot⟩

/-- A single dot parts a list in one way only. -/
theorem split_at_dot {as bs cs ds : List Char} (ha : '.' ∉ as) (hb : '.' ∉ bs)
    (h : as ++ '.' :: bs = cs ++ '.' :: ds) : as = cs ∧ bs = ds := by
  induction as generalizing cs with
  | nil =>
    cases cs with
    | nil => exact ⟨rfl, (List.cons.inj h).2⟩
    | cons c cs =>
      have htail := (List.cons.inj h).2
      rw [htail] at hb
      simp at hb
  | cons a as ih =>
    rw [List.mem_cons, not_or] at ha
    cases cs with
    | nil => exact absurd (List.cons.inj h).1.symm ha.1
    | cons c cs =>
      obtain ⟨rfl, htail⟩ := List.cons.inj h
      obtain ⟨rfl, hbs⟩ := ih ha.2 htail
      exact ⟨rfl, hbs⟩

/-- A name with a single dot is no longer form of a name with an extension of the same length. -/
theorem ne_append_of_dot {as bs stem extension more : List Char} (ha : '.' ∉ as) (hb : '.' ∉ bs)
    (hlength : extension.length = bs.length) (hmore : more ≠ []) :
    as ++ '.' :: bs ≠ stem ++ '.' :: extension ++ more := by
  intro h
  rw [List.append_assoc, List.cons_append] at h
  have hbs := (split_at_dot ha hb h).2
  have hlen : bs.length = extension.length + more.length := by
    rw [hbs, List.length_append]
  have hpos := List.length_pos_iff.2 hmore
  omega

/-- A suffix turns the name of a path into a longer one, and what follows a slash in it adds
parts, so that the outcome is no sibling whose name does not begin with that of the path. -/
theorem sibling_not_same_withSuffix {path : Path} {before : List Segment} {last : Segment}
    {stem extension suffix : String} (h : path.segments = before ++ [last]) (hlast : Names last)
    (hslash : '/' ∉ (stem ++ "." ++ extension).toList)
    (hname : Names (stem ++ "." ++ extension).toList)
    (hbegin : ¬ last <+: (stem ++ "." ++ extension).toList) :
    (path.sibling stem extension).same (path.withSuffix suffix) = false := by
  cases hcut : cutAtSlash suffix.toList with
  | nil => exact absurd hcut (cutAtSlash_ne_nil _)
  | cons more behind =>
    have hlong := hlast.append more
    have hparts := parts_concat_append (segments_withSuffix h hcut) hlong.not_idle
    rw [hlong.ofSegment?] at hparts
    rw [← Bool.not_eq_true, same, parts_sibling h hlast hslash hname, hparts,
      decide_eq_true_eq, List.append_assoc, List.append_cancel_left_eq]
    intro he
    have hhead := (List.cons.inj he).1
    rw [Part.name.injEq] at hhead
    apply hbegin
    rw [hhead, String.toList_ofList]
    exact List.prefix_append last more

end Path
end SourceSplit
