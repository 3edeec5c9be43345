import SourceSplit.Path

/-!
# SourceSplit.Proofs.Path.Beside

Paths beside a path, taken apart into segments. A sibling has the segments of the path it is a
sibling of with another last one, but for idle segments before it (`segments_sibling`), and so its
parts but for the last (`parts_sibling`); a suffix without a slash makes the last segment longer, one
with a slash adds segments (`segments_withSuffix`).

A parent has the first segments of the path (`segments_parent`).
-/

namespace SourceSplit
namespace Path

/-! ## Cutting and joining -/

theorem cutAtSlash_append_slash (as bs : List Char) :
    cutAtSlash (as ++ '/' :: bs) = cutAtSlash as ++ cutAtSlash bs := by
  induction as with
  | nil => exact @cutAtSlash_append [] bs (by simp)
  | cons c as ih =>
    simp only [List.cons_append, cutAtSlash, ih]
    cases hcut : cutAtSlash as with
    | nil => exact absurd hcut (cutAtSlash_ne_nil as)
    | cons segment segments => by_cases hc : c = '/' <;> simp [hc]

theorem slash_not_mem_of_mem_cutAtSlash {cs : List Char} {segment : Segment}
    (h : segment ∈ cutAtSlash cs) : '/' ∉ segment := by
  induction cs generalizing segment with
  | nil =>
    rw [List.mem_singleton.1 h]
    simp
  | cons c cs ih =>
    simp only [cutAtSlash] at h
    split at h
    · simp at h
    · rename_i first rest hcut
      have hfirst : '/' ∉ first := ih (by simp [hcut])
      have hrest : ∀ s ∈ rest, '/' ∉ s := fun s hs => ih (by simp [hcut, hs])
      split at h
      · simp only [List.mem_cons] at h
        rcases h with rfl | rfl | h
        · simp
        · exact hfirst
        · exact hrest _ h
      · rename_i hc
        simp only [List.mem_cons] at h
        rcases h with rfl | h
        · simpa [Ne.symm hc] using hfirst
        · exact hrest _ h

theorem joinWithSlash_concat {segments : List Segment} (hne : segments ≠ []) (last : Segment) :
    joinWithSlash (segments ++ [last]) = joinWithSlash segments ++ '/' :: last := by
  induction segments with
  | nil => contradiction
  | cons s ss ih =>
    cases ss with
    | nil => rfl
    | cons t ts => simpa [joinWithSlash] using ih (by simp)

theorem cutAtSlash_append_of_not_mem {segment bs : List Char} {y : Segment} {ys : List Segment}
    (h : '/' ∉ segment) (hb : cutAtSlash bs = y :: ys) :
    cutAtSlash (segment ++ bs) = (segment ++ y) :: ys := by
  induction segment with
  | nil => exact hb
  | cons c segment ih =>
    simp only [List.mem_cons, not_or] at h
    simp [cutAtSlash, ih h.2, Ne.symm h.1]

theorem cutAtSlash_append_of {as bs : List Char} {xs ys : List Segment} {x y : Segment}
    (ha : cutAtSlash as = xs ++ [x]) (hb : cutAtSlash bs = y :: ys) :
    cutAtSlash (as ++ bs) = xs ++ (x ++ y) :: ys := by
  have hslash : ∀ s ∈ xs ++ [x], '/' ∉ s := by
    intro s hs
    rw [← ha] at hs
    exact slash_not_mem_of_mem_cutAtSlash hs
  have hx : cutAtSlash (x ++ bs) = (x ++ y) :: ys :=
    cutAtSlash_append_of_not_mem (hslash x (by simp)) hb
  have has : as = joinWithSlash (xs ++ [x]) := by rw [← ha, joinWithSlash_cutAtSlash]
  by_cases hxs : xs = []
  · rw [hxs, List.nil_append] at has
    rw [hxs, List.nil_append, has]
    exact hx
  · have hfront : cutAtSlash (joinWithSlash xs) = xs :=
      cutAtSlash_joinWithSlash hxs fun s hs => hslash s (List.mem_append_left _ hs)
    rw [has, joinWithSlash_concat hxs, List.append_assoc, List.cons_append,
      cutAtSlash_append_slash, hfront, hx]

/-! ## Idle segments at the end -/

theorem exists_idle_end (segments : List Segment) :
    ∃ idle, segments = dropIdleEnd segments ++ idle ∧ ∀ s ∈ idle, isIdle s = true := by
  refine ⟨(segments.reverse.takeWhile isIdle).reverse, ?_, ?_⟩
  · rw [dropIdleEnd, ← List.reverse_append, List.takeWhile_append_dropWhile,
      List.reverse_reverse]
  · intro s hs
    have hall := List.all_takeWhile (p := isIdle) (l := segments.reverse)
    rw [List.all_eq_true] at hall
    exact hall s (List.mem_reverse.1 hs)

theorem dropIdleEnd_concat (segments : List Segment) {last : Segment} (h : isIdle last = false) :
    dropIdleEnd (segments ++ [last]) = segments ++ [last] := by
  simp [dropIdleEnd, h]

/-- What is left has a last segment that says something. -/
theorem dropIdleEnd_eq_nil_or (segments : List Segment) :
    dropIdleEnd segments = [] ∨
      ∃ front last, dropIdleEnd segments = front ++ [last] ∧ isIdle last = false := by
  rcases (dropIdleEnd segments).eq_nil_or_concat with h | ⟨front, last, h⟩
  · exact .inl h
  · right
    refine ⟨front, last, by rw [h, List.concat_eq_append], ?_⟩
    have hhead := List.head?_dropWhile_not isIdle segments.reverse
    have : (segments.reverse.dropWhile isIdle) = last :: front.reverse := by
      rw [dropIdleEnd, List.concat_eq_append] at h
      rw [← List.reverse_reverse (List.dropWhile _ _), h]
      simp
    rw [this] at hhead
    simpa using hhead

/-! ## Parts -/

/-- The parts of the leading segments of a path that goes on behind them. -/
def lead : List Segment → List Part
  | [] => []
  | first :: rest =>
    (if first = ['.'] then [.here] else if first.isEmpty then [.root]
      else (Part.ofSegment? first).toList) ++ rest.filterMap Part.ofSegment?

theorem ofSegment?_of_idle {segment : Segment} (h : isIdle segment = true) :
    Part.ofSegment? segment = none := by
  rw [Part.ofSegment?, if_pos h]

theorem filterMap_idle {idle : List Segment} (h : ∀ s ∈ idle, isIdle s = true) :
    idle.filterMap Part.ofSegment? = [] := by
  rw [List.filterMap_eq_nil_iff]
  exact fun s hs => ofSegment?_of_idle (h s hs)

theorem lead_append_idle {front idle : List Segment} (hi : ∀ s ∈ idle, isIdle s = true)
    (hf : front = [] → idle = []) : lead (front ++ idle) = lead front := by
  cases front with
  | nil => rw [hf rfl, List.append_nil]
  | cons first rest =>
    simp only [lead, List.cons_append, List.filterMap_append, filterMap_idle hi, List.append_nil]

theorem parts_concat_append {path : Path} {before behind : List Segment} {segment : Segment}
    (h : path.segments = before ++ segment :: behind) (hs : isIdle segment = false) :
    path.parts =
      lead before ++ (Part.ofSegment? segment).toList ++ behind.filterMap Part.ofSegment? := by
  have hne : segment ≠ ['.'] ∧ segment.isEmpty = false := by
    simp only [isIdle, Bool.or_eq_false_iff, decide_eq_false_iff_not] at hs
    exact ⟨hs.2, hs.1⟩
  have hsome : ∀ more, (segment :: more).filterMap Part.ofSegment? =
      (Part.ofSegment? segment).toList ++ more.filterMap Part.ofSegment? := by
    intro more
    rw [List.filterMap_cons]
    cases Part.ofSegment? segment <;> rfl
  simp only [parts, h]
  cases before with
  | nil => simp [lead, hne.1, hne.2]
  | cons first rest =>
    simp only [List.cons_append, List.filterMap_append, hsome, lead, List.append_assoc]
    congr 1
    cases first with
    | nil => simp
    | cons c cs => simp

theorem parts_concat {path : Path} {before : List Segment} {last : Segment}
    (h : path.segments = before ++ [last]) (hl : isIdle last = false) :
    path.parts = lead before ++ (Part.ofSegment? last).toList := by
  simpa using parts_concat_append h hl

/-! ## Absolute paths -/

theorem isAbsolute_of_segments {path : Path} {first : Segment} {rest : List Segment}
    (h : path.segments = first :: rest) : path.isAbsolute = (first.isEmpty && !rest.isEmpty) := by
  have htext : path.text.toList = joinWithSlash (first :: rest) := by
    rw [← h, segments, joinWithSlash_cutAtSlash]
  have hfirst : '/' ∉ first := by
    have hmem : first ∈ cutAtSlash path.text.toList := by
      rw [show cutAtSlash path.text.toList = first :: rest from h]
      simp
    exact slash_not_mem_of_mem_cutAtSlash hmem
  rw [isAbsolute, htext]
  cases first with
  | nil => cases rest <;> simp [joinWithSlash]
  | cons c cs =>
    have hc : c ≠ '/' := by
      rintro rfl
      simp at hfirst
    cases rest <;> simp [joinWithSlash, hc]

/-! ## Parents -/

/-- The segments of a parent are the first ones of the path. -/
theorem segments_parent {path parent : Path} (h : path.parent? = some parent) :
    parent = ⟨""⟩ ∨ parent = ⟨"/"⟩ ∨
      parent.isAbsolute = path.isAbsolute ∧ ∃ more, path.segments = parent.segments ++ more := by
  simp only [parent?] at h
  split at h
  · cases h
  · rename_i first rest hs
    split at h
    · split at h
      · cases h
      · exact .inl (Option.some.inj h).symm
    · split at h
      · exact .inr (.inl (Option.some.inj h).symm)
      · rename_i hkept
        obtain ⟨more, hmore⟩ :=
          (dropIdleEnd_isPrefix (dropIdleEnd rest).dropLast).trans
            ((List.dropLast_prefix _).trans (dropIdleEnd_isPrefix rest))
        have hslash : ∀ s ∈ first :: dropIdleEnd (dropIdleEnd rest).dropLast, '/' ∉ s := by
          intro s hmem
          have hmem' : s ∈ cutAtSlash path.text.toList := by
            rw [show cutAtSlash path.text.toList = first :: rest from hs, ← hmore,
              ← List.cons_append]
            exact List.mem_append_left _ hmem
          exact slash_not_mem_of_mem_cutAtSlash hmem'
        have hsegments := segments_ofSegments (List.cons_ne_nil _ _) hslash
        cases h
        refine .inr (.inr ⟨?_, more, ?_⟩)
        · rw [isAbsolute_of_segments hsegments, isAbsolute_of_segments hs]
          cases first with
          | cons c cs => rfl
          | nil =>
            have hne : dropIdleEnd (dropIdleEnd rest).dropLast ≠ [] := by simpa using hkept
            have hne' : rest ≠ [] := by
              rintro rfl
              exact hne (List.append_eq_nil_iff.1 hmore).1
            rw [List.isEmpty_eq_false_iff.2 hne, List.isEmpty_eq_false_iff.2 hne']
        · rw [hs, hsegments, List.cons_append, hmore]

/-! ## Siblings -/

section Sibling

variable {path : Path} {stem extension : String} {before : List Segment} {last : Segment}

theorem segments_of_no_slash {text : String} (h : '/' ∉ text.toList) :
    Path.segments ⟨text⟩ = [text.toList] :=
  cutAtSlash_of_not_mem h

theorem not_isAbsolute_of_no_slash {text : String} (h : '/' ∉ text.toList) :
    isAbsolute ⟨text⟩ = false := by
  rw [isAbsolute_of_segments (segments_of_no_slash h)]
  simp

/-- Looking a name up in a directory adds it to the segments. -/
theorem segments_join {dir : Path} {segments : List Segment} {z : Segment} {name : String}
    (hname : '/' ∉ name.toList) (hseg : dir.segments = segments ++ [z]) (hz : z ≠ []) :
    (dir.join name).segments = dir.segments ++ [name.toList] := by
  have htext : dir.text.toList = joinWithSlash (segments ++ [z]) := by
    rw [← hseg, Path.segments, joinWithSlash_cutAtSlash]
  have hslash : '/' ∉ z := by
    have hmem : z ∈ cutAtSlash dir.text.toList := by
      rw [show cutAtSlash dir.text.toList = segments ++ [z] from hseg]
      simp
    exact slash_not_mem_of_mem_cutAtSlash hmem
  have hend : dir.text.toList.getLast? = z.getLast? := by
    rw [htext]
    cases segments with
    | nil => rfl
    | cons s ss =>
      rw [joinWithSlash_concat (by simp), List.getLast?_append, List.getLast?_cons]
      cases hlast : z.getLast? with
      | none => exact absurd (List.getLast?_eq_none_iff.1 hlast) hz
      | some c => simp
  have hnot : ¬ (dir.text.isEmpty || dir.text.toList.getLast? = some '/') = true := by
    rw [Bool.or_eq_true, not_or, hend]
    constructor
    · intro hempty
      have : dir.text.toList = [] := by simpa using hempty
      rw [this, List.getLast?_nil] at hend
      exact hz (List.getLast?_eq_none_iff.1 hend.symm)
    · intro he
      simp only [decide_eq_true_eq] at he
      exact hslash (List.mem_of_getLast? he)
  rw [join, not_isAbsolute_of_no_slash hname, if_neg (by simp), if_neg hnot, Path.segments]
  simp only [String.toList_append]
  rw [show "/".toList = ['/'] from rfl, List.append_assoc, List.singleton_append,
    cutAtSlash_append_slash, cutAtSlash_of_not_mem hname, Path.segments]

theorem segments_sibling (h : path.segments = before ++ [last]) (hlast : isIdle last = false)
    (hname : '/' ∉ (stem ++ "." ++ extension).toList) :
    ∃ front idle, before = front ++ idle ∧ (∀ s ∈ idle, isIdle s = true) ∧
      (front = [] → idle = []) ∧
      (path.sibling stem extension).segments = front ++ [(stem ++ "." ++ extension).toList] := by
  have habs := not_isAbsolute_of_no_slash hname
  cases before with
  | nil =>
    have hne : last.isEmpty = false := by
      simp only [isIdle, Bool.or_eq_false_iff] at hlast
      exact hlast.1
    refine ⟨[], [], rfl, by simp, fun _ => rfl, ?_⟩
    have hparent : path.parent? = some ⟨""⟩ := by
      simp [parent?, h, dropIdleEnd, hne]
    simp only [sibling, hparent, join, habs]
    simpa using segments_of_no_slash hname
  | cons first rest =>
    obtain ⟨idle, hrest, hidle⟩ := exists_idle_end rest
    refine ⟨first :: dropIdleEnd rest, idle, by rw [List.cons_append, ← hrest], hidle, by simp, ?_⟩
    have hparent : path.parent? =
        if first.isEmpty && (dropIdleEnd rest).isEmpty then some ⟨"/"⟩
        else some (ofSegments (first :: dropIdleEnd rest)) := by
      simp [parent?, h, dropIdleEnd_concat rest hlast]
    have hslash : ∀ s ∈ first :: dropIdleEnd rest, '/' ∉ s := by
      intro s hs
      have hmem : s ∈ cutAtSlash path.text.toList := by
        rw [show cutAtSlash path.text.toList = first :: rest ++ [last] from h, hrest]
        simp only [List.mem_cons, List.mem_append] at hs ⊢
        grind
      exact slash_not_mem_of_mem_cutAtSlash hmem
    by_cases hroot : (first.isEmpty && (dropIdleEnd rest).isEmpty) = true
    · rw [if_pos hroot] at hparent
      simp only [Bool.and_eq_true, List.isEmpty_iff] at hroot
      simp only [sibling, hparent, join, habs, hroot.1, hroot.2]
      have hcut := cutAtSlash_append_slash [] (stem ++ "." ++ extension).toList
      rw [cutAtSlash_of_not_mem hname] at hcut
      simpa [Path.segments, cutAtSlash] using hcut
    · rw [if_neg hroot] at hparent
      have hsegments : (ofSegments (first :: dropIdleEnd rest)).segments =
          first :: dropIdleEnd rest := segments_ofSegments (by simp) hslash
      have hend : ∃ front z, first :: dropIdleEnd rest = front ++ [z] ∧ z ≠ [] := by
        rcases dropIdleEnd_eq_nil_or rest with hnil | ⟨front, z, hz, hidle⟩
        · exact ⟨[], first, by rw [hnil, List.nil_append], by simpa [hnil] using hroot⟩
        · refine ⟨first :: front, z, by rw [hz, List.cons_append], ?_⟩
          rintro rfl
          simp [isIdle] at hidle
      obtain ⟨front, z, hfront, hz⟩ := hend
      simp only [sibling, hparent]
      rw [segments_join hname (hsegments.trans hfront) hz, hsegments]

end Sibling

theorem segments_withSuffix {path : Path} {suffix : String} {before behind : List Segment}
    {last more : Segment} (h : path.segments = before ++ [last])
    (hs : cutAtSlash suffix.toList = more :: behind) :
    (path.withSuffix suffix).segments = before ++ (last ++ more) :: behind := by
  rw [segments, withSuffix, String.toList_append]
  exact cutAtSlash_append_of h hs

/-! ## The same place by spelling -/

/-- A segment that stands for a name. -/
structure Names (segment : Segment) : Prop where
  not_idle : isIdle segment = false
  ne_up : segment ≠ ['.', '.']

theorem Names.ofSegment? {segment : Segment} (h : Names segment) :
    Part.ofSegment? segment = some (.name (String.ofList segment)) := by
  rw [Part.ofSegment?, if_neg (by simp [h.not_idle]), if_neg h.ne_up]

/-- A name grows into nothing but a name. -/
theorem Names.append {segment : Segment} (h : Names segment) (more : Segment) :
    Names (segment ++ more) := by
  have hi := h.not_idle
  simp only [isIdle, Bool.or_eq_false_iff, decide_eq_false_iff_not] at hi
  cases more with
  | nil =>
    rw [List.append_nil]
    exact h
  | cons m more =>
    rcases segment with _ | ⟨c, _ | ⟨d, segment⟩⟩
    · simp at hi
    · constructor
      · simp [isIdle]
      · intro e
        simp only [List.singleton_append, List.cons.injEq] at e
        exact hi.2 (by rw [e.1])
    · constructor
      · simp [isIdle]
      · simp

section Spelling

variable {path : Path} {stem extension : String} {before : List Segment} {last : Segment}

theorem parts_sibling (h : path.segments = before ++ [last]) (hlast : Names last)
    (hslash : '/' ∉ (stem ++ "." ++ extension).toList)
    (hname : Names (stem ++ "." ++ extension).toList) :
    (path.sibling stem extension).parts = lead before ++ [.name (stem ++ "." ++ extension)] := by
  obtain ⟨front, idle, rfl, hidle, hfront, hsegments⟩ := segments_sibling h hlast.not_idle hslash
  rw [parts_concat hsegments hname.not_idle, hname.ofSegment?, lead_append_idle hidle hfront,
    String.ofList_toList]
  rfl

theorem parts_of_names (h : path.segments = before ++ [last]) (hlast : Names last) :
    path.parts = lead before ++ [.name (String.ofList last)] := by
  rw [parts_concat h hlast.not_idle, hlast.ofSegment?]
  rfl

theorem fileName?_of_names (h : path.segments = before ++ [last]) (hlast : Names last) :
    path.fileName? = some (String.ofList last) := by
  simp only [fileName?, parts_of_names h hlast, List.getLast?_concat]

end Spelling

end Path
end SourceSplit
