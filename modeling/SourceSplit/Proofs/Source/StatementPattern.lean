import SourceSplit.Proofs.Source.Pattern
import SourceSplit.Proofs.Source.Shared

/-!
# SourceSplit.Proofs.Source.StatementPattern

The patterns of package and import statements, and that the package name and the imports of a text
are what a search for them takes (`packageName?_eq_findFrom`, `imports_eq_findFrom`).

Here giving back is of use: the blanks behind the keyword may be all that stands in front of the
semicolon, and the last of them is then taken for the name (`exists_of_head?_ways`). The statement
is the same, and its name is so without the blanks around it.
-/

namespace SourceSplit
namespace Source

open Text

/-- A keyword with `\b` in front and `\s+` behind, what the statement is about, and `;`. -/
def statementPattern (keyword : String) (about : Pattern) : Pattern :=
  .seq .boundary <| .seq (.text keyword) <| .seq (.plus (.one .blank)) <|
    .seq about (.one (.char ';'))

/-- The pattern `\bpackage\s+([^;]+);`. -/
def packagePattern : Pattern :=
  statementPattern "package" (.group (.plus (.one (.noneOf [';']))))

/-- The pattern `\bimport\s+[^;]+;`. -/
def importPattern : Pattern :=
  statementPattern "import" (.plus (.one (.noneOf [';'])))

/-- What the statement is about is all up to the next semicolon, and noted in some way. -/
def UpToSemicolon (about : Pattern) (note : List Char → Option (List Char)) : Prop :=
  ∀ before cs, (Pattern.seq about (.one (.char ';'))).ways ⟨before, cs, none⟩ =
    match Piece.some1 (· ≠ ';') cs with
    | some (inner, _ :: behind) => [⟨before ++ inner ++ [';'], behind, note inner⟩]
    | _ => []

section

variable {keyword : String} {about : Pattern} {note : List Char → Option (List Char)}
  {before cs body behind : List Char} {stop : Cursor}

/-! ## Up to the semicolon -/

theorem of_some1_semicolon {inner : List Char} {d : Char}
    (h : Piece.some1 (· ≠ ';') cs = some (inner, d :: behind)) :
    d = ';' ∧ inner ≠ [] ∧ ';' ∉ inner ∧ cs = inner ++ ';' :: behind := by
  obtain ⟨hne, hmany⟩ := Piece.some1_eq_some_iff.1 h
  obtain rfl : d = ';' := by
    simpa using (Piece.many_eq_some_iff.1 hmany).2.2 d rfl
  obtain ⟨hnot, hcs⟩ := many_semicolon_eq_some_iff.1 hmany
  exact ⟨rfl, hne, hnot, hcs⟩

theorem plus_upToSemicolon (note : Cursor → Option (List Char)) (here : Cursor) :
    (Pattern.plus (.one (.noneOf [';']))).followedBy
        (fun stop => (Pattern.one (.char ';')).ways ⟨stop.before, stop.rest, note stop⟩) here =
      match Piece.some1 (· ≠ ';') here.rest with
      | some (inner, _ :: behind) =>
        [⟨here.before ++ inner ++ [';'], behind,
          note ⟨here.before ++ inner, ';' :: behind, here.noted⟩⟩]
      | _ => [] := by
  rw [Piece.followedBy_some1 (rejects_noneOf ';' note), holds_noneOf, Piece.followedBy]
  cases htaken : Piece.some1 (· ≠ ';') here.rest with
  | none => rfl
  | some taken =>
    obtain ⟨inner, _ | ⟨d, behind⟩⟩ := taken
    · rfl
    · obtain ⟨rfl, _⟩ := of_some1_semicolon htaken
      rfl

theorem upToSemicolon_plus : UpToSemicolon (.plus (.one (.noneOf [';']))) fun _ => none :=
  fun _ _ => plus_upToSemicolon (fun stop => stop.noted) _

theorem upToSemicolon_group : UpToSemicolon (.group (.plus (.one (.noneOf [';'])))) some := by
  intro before cs
  rw [Pattern.ways_seq, Pattern.followedBy_group,
    plus_upToSemicolon (fun stop => some (stop.before.drop before.length))]
  simp only [List.drop_left]

/-! ## One statement -/

theorem trim_append {run : List Char} (h : ∀ c ∈ run, isBlank c = true) (cs : List Char) :
    trim (run ++ cs) = trim cs := by
  induction run with
  | nil => rfl
  | cons c run ih =>
    obtain ⟨hc, hrun⟩ := List.forall_mem_cons.1 h
    rw [List.cons_append, trim_cons hc, ih hrun]

theorem ways_statementPattern :
    (statementPattern keyword about).ways ⟨before, cs, none⟩ =
      if before.getLast?.any isWord = cs.head?.any isWord then [] else
        (Piece.literal keyword).followedBy ((Pattern.plus (.one .blank)).followedBy
          (Pattern.seq about (.one (.char ';'))).ways) ⟨before, cs, none⟩ := by
  rw [statementPattern, Pattern.ways_seq, Pattern.followedBy_boundary, Pattern.ways_seq,
    Piece.followedBy_text, Pattern.ways_seq]

/-- A keyword begins with a word character. -/
theorem head?_keyword (hkeyword : IsName keyword) (rest : List Char) :
    (keyword.toList ++ rest).head?.any isWord = true := by
  obtain ⟨c, letters, hletters⟩ := List.exists_cons_of_ne_nil hkeyword.ne_nil
  have hc := hkeyword.word c (by simp [hletters])
  simp [hletters, hc]

/-- Behind the keyword a body is taken: some of the blanks in front, one at least, and then what the
statement is about. -/
theorem exists_body_of_head? (habout : UpToSemicolon about note)
    (h : ((Pattern.plus (.one .blank)).followedBy (Pattern.seq about (.one (.char ';'))).ways
      ⟨before, cs, none⟩).head? = some stop) :
    ∃ body inner, Body body ∧ cs = body ++ ';' :: stop.rest ∧
      stop.before = before ++ (body ++ [';']) ∧ stop.noted = note inner ∧
      trim inner = trim body := by
  simp only [Pattern.plus, Pattern.followedBy_seq] at h
  cases cs with
  | nil => cases h
  | cons d rest =>
    cases hd : Class.blank.holds d with
    | false =>
      rw [Pattern.followedBy_one_of_not hd] at h
      cases h
    | true =>
      rw [Pattern.followedBy_one_of_holds hd] at h
      obtain ⟨run, rest, rfl, hrun, h⟩ := Pattern.exists_of_head?_run h
      rw [habout] at h
      split at h
      · rename_i inner c behind htaken
        cases h
        obtain ⟨rfl, hne, hnot, rfl⟩ := of_some1_semicolon htaken
        have hblanks : ∀ c ∈ d :: run, isBlank c = true := List.forall_mem_cons.2 ⟨hd, hrun⟩
        refine ⟨d :: run ++ inner, inner, ⟨?_, ?_⟩, by simp, by simp, rfl, ?_⟩
        · obtain ⟨c, more, hmore⟩ :=
            List.exists_cons_of_ne_nil (List.append_ne_nil_of_right_ne_nil run hne)
          exact ⟨d, c, more, by rw [List.cons_append, hmore], hd⟩
        · refine List.not_mem_append (fun hmem => ?_) hnot
          exact absurd (hblanks _ hmem) (by decide)
        · rw [trim_append hblanks]
      · cases h

/-- What the search takes is a statement, and what it notes is the body but for blanks in front. -/
theorem exists_of_head?_ways (hkeyword : IsName keyword) (habout : UpToSemicolon about note)
    (h : ((statementPattern keyword about).ways ⟨before, cs, none⟩).head? = some stop) :
    before.getLast?.any isWord = false ∧ ∃ body inner,
      statement? keyword cs = some (body, stop.rest) ∧
      stop.before = before ++ (keyword.toList ++ (body ++ [';'])) ∧
      stop.noted = note inner ∧ trim inner = trim body := by
  rw [ways_statementPattern] at h
  split at h
  · cases h
  · rename_i hboundary
    rw [Piece.followedBy] at h
    split at h
    · rename_i word rest hword
      obtain ⟨rfl, rfl⟩ := Piece.literal_eq_some_iff.1 hword
      rw [head?_keyword hkeyword, Bool.not_eq_true] at hboundary
      obtain ⟨body, inner, hbody, rfl, hbefore, hnoted, htrim⟩ := exists_body_of_head? habout h
      rw [List.append_assoc] at hbefore
      exact ⟨hboundary, body, inner, hbody.statement?_eq, hbefore, hnoted, htrim⟩
    · cases h

/-- Where there is a statement the search takes one. -/
theorem ways_ne_nil (hkeyword : IsName keyword) (habout : UpToSemicolon about note)
    (hbefore : before.getLast?.any isWord = false)
    (h : statement? keyword cs = some (body, behind)) :
    (statementPattern keyword about).ways ⟨before, cs, none⟩ ≠ [] := by
  obtain ⟨⟨⟨blank, c, more, rfl, hblank⟩, hnot⟩, rfl⟩ := statement?_eq_some_iff.1 h
  have hword : Piece.literal keyword (keyword.toList ++ (blank :: c :: more ++ ';' :: behind)) =
      some (keyword.toList, blank :: (c :: more ++ ';' :: behind)) :=
    Piece.literal_eq_some_iff.2 ⟨rfl, rfl⟩
  have hmany : Piece.many (· ≠ ';') (c :: more ++ ';' :: behind) =
      some (c :: more, ';' :: behind) :=
    many_semicolon_eq_some_iff.2 ⟨List.not_mem_of_not_mem_cons hnot, rfl⟩
  have hsome : Piece.some1 (· ≠ ';') (c :: more ++ ';' :: behind) =
      some (c :: more, ';' :: behind) :=
    Piece.some1_eq_some_iff.2 ⟨List.cons_ne_nil _ _, hmany⟩
  rw [ways_statementPattern, hbefore, head?_keyword hkeyword, if_neg (by decide),
    Piece.followedBy, hword]
  simp only [Pattern.plus, Pattern.followedBy_seq]
  rw [Pattern.followedBy_one_of_holds (show Class.blank.holds blank = true from hblank)]
  intro hnone
  have hrest := List.suffix_nil.1 (hnone ▸ Pattern.suffix_run)
  rw [habout, hsome] at hrest
  cases hrest

/-! ## The search -/

/-- The search takes the statements, one for each. -/
theorem findFrom_statements (hkeyword : IsName keyword) (habout : UpToSemicolon about note)
    (before cs : List Char) :
    List.Forall₂ (fun found body => found.text = keyword.toList ++ (body ++ [';']) ∧
        ∃ inner, found.noted = note inner ∧ trim inner = trim body)
      ((statementPattern keyword about).findFrom before cs)
      (statementsFrom keyword (before.getLast?.any isWord) cs) := by
  fun_induction Pattern.findFrom (statementPattern keyword about) before cs with
  | case1 before =>
    rw [statementsFrom_nil]
    exact .nil
  | case2 before c rest hnone ih =>
    rw [statementsFrom_of_none]
    · simpa using ih
    · intro body behind hbefore hfound
      exact ways_ne_nil hkeyword habout hbefore hfound (List.head?_eq_none_iff.1 hnone)
  | case3 before c rest stop hsome _ ih =>
    obtain ⟨hbefore, body, inner, hfound, hstop, hnoted, htrim⟩ :=
      exists_of_head?_ways hkeyword habout hsome
    rw [hbefore, statementsFrom_of_some hfound]
    refine .cons ⟨by rw [hstop, List.drop_left], inner, hnoted, htrim⟩ ?_
    have hword : stop.before.getLast?.any isWord = false := by
      simp [hstop, not_isWord_semicolon]
    rwa [hword] at ih
  | case4 before c rest stop hsome hlong _ =>
    obtain ⟨_, body, inner, hfound, _⟩ := exists_of_head?_ways hkeyword habout hsome
    exact absurd (Nat.le_of_lt_succ (length_of_statement? hfound)) hlong

end

theorem isName_package : IsName "package" :=
  ⟨by decide, List.all_eq_true.1 (by decide)⟩

theorem packageName?_eq_findFrom (text : String) :
    packageName? text = (packagePattern.findFrom [] text.toList).head?.bind fun found =>
      found.noted.map fun name => String.ofList (trim name) := by
  have hall : List.Forall₂ _ (packagePattern.findFrom [] text.toList) (statements "package" text) :=
    findFrom_statements isName_package upToSemicolon_group [] text.toList
  rw [packageName?]
  generalize packagePattern.findFrom [] text.toList = found at hall ⊢
  generalize statements "package" text = bodies at hall ⊢
  cases hall with
  | nil => rfl
  | cons hfirst _ =>
    obtain ⟨_, inner, hnoted, htrim⟩ := hfirst
    simp [hnoted, htrim]

theorem imports_eq_findFrom (text : String) :
    imports text = (importPattern.findFrom [] text.toList).map fun found =>
      String.ofList found.text := by
  have hall : List.Forall₂ _ (importPattern.findFrom [] text.toList) (statements "import" text) :=
    findFrom_statements isName_import upToSemicolon_plus [] text.toList
  rw [imports]
  generalize importPattern.findFrom [] text.toList = found at hall ⊢
  generalize statements "import" text = bodies at hall ⊢
  induction hall with
  | nil => rfl
  | cons hfirst _ ih =>
    rw [List.map_cons, List.map_cons, hfirst.1, ih, List.append_assoc]

end Source
end SourceSplit
