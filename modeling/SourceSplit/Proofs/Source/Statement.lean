import SourceSplit.Proofs.Source.Name
import SourceSplit.Proofs.Source.Parts

/-!
# SourceSplit.Proofs.Source.Statement

The statements of a keyword. What stands between the keyword and its semicolon is a `Body`, and
just such a body is found (`statement?_eq_some_iff`). No statement reaches over a semicolon, so the
search in a text with a semicolon in it is a search up to the semicolon and one behind it
(`statementsFrom_append_semicolon`).

A keyword is a name: it is not empty, and no semicolon and no blank stands in it.
-/

namespace SourceSplit
namespace Source

open Text

/-- What stands between a keyword and its semicolon: a blank, and at least one character more. -/
structure Body (body : List Char) : Prop where
  starts : ∃ blank c more, body = blank :: c :: more ∧ isBlank blank = true
  no_semicolon : ';' ∉ body

theorem isName_import : IsName "import" :=
  ⟨by decide, List.all_eq_true.1 (by decide)⟩

theorem not_isWord_semicolon : isWord ';' = false := by decide

section

variable {keyword : String} {inWord : Bool} {cs body rest behind : List Char}

/-! ## One statement -/

/-- A text is taken up to its first semicolon. -/
theorem many_semicolon_eq_some_iff {part : List Char} :
    Piece.many (· ≠ ';') cs = some (part, ';' :: rest) ↔
      ';' ∉ part ∧ cs = part ++ ';' :: rest := by
  rw [Piece.many_eq_some_iff]
  constructor
  · rintro ⟨hcs, hpart, -⟩
    exact ⟨fun hmem => by simpa using hpart _ hmem, hcs⟩
  · rintro ⟨hpart, hcs⟩
    refine ⟨hcs, fun c hc => ?_, ?_⟩
    · rw [decide_eq_true_eq]
      rintro rfl
      exact hpart hc
    · rintro c ⟨⟩
      rfl

theorem body_of_statement? (h : statement? keyword cs = some (body, rest)) :
    Body body ∧ cs = keyword.toList ++ (body ++ ';' :: rest) := by
  unfold statement? at h
  split at h
  · rename_i word blank more hword
    obtain ⟨-, hcs⟩ := Piece.literal_eq_some_iff.1 hword
    split at h
    · rename_i c inner d behind htake hdrop
      have hmany : Piece.many (· ≠ ';') more = some (c :: inner, d :: behind) := by
        rw [← htake, ← hdrop]
        rfl
      obtain rfl : d = ';' := by
        simpa using (Piece.many_eq_some_iff.1 hmany).2.2 d rfl
      obtain ⟨hnot, hmore⟩ := many_semicolon_eq_some_iff.1 hmany
      split at h
      · rename_i hblank
        cases h
        have hne : ';' ≠ blank := by
          rintro rfl
          exact absurd hblank (by decide)
        refine ⟨⟨⟨blank, c, inner, rfl, hblank⟩, ?_⟩, by rw [hcs, hmore]; rfl⟩
        exact List.not_mem_cons_of_ne_of_not_mem hne hnot
      · cases h
    · cases h
  · cases h

/-- A statement at the start of a text is found. -/
theorem Body.statement?_eq (h : Body body) :
    statement? keyword (keyword.toList ++ (body ++ ';' :: rest)) = some (body, rest) := by
  obtain ⟨⟨blank, c, more, rfl, hblank⟩, hnot⟩ := h
  have hword : Piece.literal keyword (keyword.toList ++ (blank :: c :: more ++ ';' :: rest)) =
      some (keyword.toList, blank :: (c :: more ++ ';' :: rest)) :=
    Piece.literal_eq_some_iff.2 ⟨rfl, rfl⟩
  have hmany : Piece.many (· ≠ ';') (c :: more ++ ';' :: rest) = some (c :: more, ';' :: rest) :=
    many_semicolon_eq_some_iff.2 ⟨fun hmem => hnot (List.mem_cons_of_mem _ hmem), rfl⟩
  simp only [Piece.many, Option.some.injEq, Prod.mk.injEq] at hmany
  simp only [statement?, hword, hmany.1, hmany.2, hblank, if_true]

theorem statement?_eq_some_iff :
    statement? keyword cs = some (body, rest) ↔
      Body body ∧ cs = keyword.toList ++ (body ++ ';' :: rest) := by
  refine ⟨body_of_statement?, ?_⟩
  rintro ⟨hbody, rfl⟩
  exact hbody.statement?_eq

/-- Where a text is cut at a semicolon, its first semicolon is that one or stands before it. -/
theorem exists_first_semicolon {whole front : List Char} (hnot : ';' ∉ whole)
    (h : front ++ ';' :: rest = whole ++ ';' :: behind) :
    ∃ more, front ++ [';'] = whole ++ ';' :: more ∧ behind = more ++ rest := by
  induction whole generalizing front with
  | nil =>
    cases front with
    | nil => exact ⟨[], rfl, (List.cons.inj h).2.symm⟩
    | cons c front =>
      obtain ⟨rfl, rfl⟩ := List.cons.inj h
      exact ⟨front ++ [';'], rfl, by simp⟩
  | cons c whole ih =>
    cases front with
    | nil => exact absurd (List.cons.inj h).1 (List.ne_of_not_mem_cons hnot)
    | cons d front =>
      obtain ⟨rfl, htail⟩ := List.cons.inj h
      obtain ⟨more, hfront, hbehind⟩ := ih (List.not_mem_of_not_mem_cons hnot) htail
      exact ⟨more, by rw [List.cons_append, hfront, List.cons_append], hbehind⟩

/-- The statement at the start of a text hangs on no more than the text up to a semicolon. -/
theorem statement?_semicolon (hkeyword : IsName keyword) (front rest : List Char) :
    statement? keyword (front ++ ';' :: rest) = some (body, behind) ↔
      ∃ more, statement? keyword (front ++ [';']) = some (body, more) ∧ behind = more ++ rest := by
  simp only [statement?_eq_some_iff]
  constructor
  · rintro ⟨hbody, hcs⟩
    have hnot : ';' ∉ keyword.toList ++ body :=
      List.not_mem_append (hkeyword.not_mem not_isWord_semicolon) hbody.no_semicolon
    rw [← List.append_assoc] at hcs
    obtain ⟨more, hfront, hbehind⟩ := exists_first_semicolon hnot hcs
    exact ⟨more, ⟨hbody, by rw [hfront, List.append_assoc]⟩, hbehind⟩
  · rintro ⟨more, ⟨hbody, hcs⟩, rfl⟩
    refine ⟨hbody, ?_⟩
    have hfront := congrArg (· ++ rest) hcs
    simpa using hfront

/-! ## The search -/

theorem statementsFrom_nil : statementsFrom keyword inWord [] = [] := by
  unfold statementsFrom
  rfl

theorem statementsFrom_of_some (h : statement? keyword cs = some (body, behind)) :
    statementsFrom keyword false cs = body :: statementsFrom keyword false behind := by
  cases cs with
  | nil => exact absurd (length_of_statement? h) (Nat.not_lt_zero _)
  | cons c cs =>
    conv => lhs; unfold statementsFrom
    split
    · rename_i hfound
      rw [h] at hfound
      cases hfound
      rfl
    · rename_i hnone
      exact absurd h (hnone body behind rfl)

/-- Where no statement starts, the search goes on behind the next character. -/
theorem statementsFrom_of_none {c : Char}
    (h : ∀ body behind, inWord = false → statement? keyword (c :: cs) ≠ some (body, behind)) :
    statementsFrom keyword inWord (c :: cs) = statementsFrom keyword (isWord c) cs := by
  conv => lhs; unfold statementsFrom
  split
  · rename_i hfound
    exact absurd hfound (h _ _ rfl)
  · rfl

/-- No statement starts with a character that is no word character. -/
theorem statementsFrom_cons (hkeyword : IsName keyword) {c : Char} (hc : isWord c = false) :
    statementsFrom keyword inWord (c :: cs) = statementsFrom keyword false cs := by
  rw [statementsFrom_of_none, hc]
  rintro body behind - hfound
  obtain ⟨-, hcs⟩ := statement?_eq_some_iff.1 hfound
  obtain ⟨d, more, hcons⟩ := List.exists_cons_of_ne_nil hkeyword.ne_nil
  rw [hcons] at hcs
  obtain rfl := (List.cons.inj hcs).1
  exact hkeyword.not_mem hc (by simp [hcons])

theorem body_of_mem_statementsFrom (h : body ∈ statementsFrom keyword inWord cs) : Body body := by
  fun_induction statementsFrom keyword inWord cs with
  | case1 => cases h
  | case2 c cs found behind hfound ih =>
    rcases List.mem_cons.1 h with rfl | h
    · exact (body_of_statement? hfound).1
    · exact ih h
  | case3 inWord c cs _ ih => exact ih h

/-- Behind a semicolon the search starts afresh. The induction follows the search in the text that
ends with the semicolon. -/
theorem statementsFrom_append_semicolon (hkeyword : IsName keyword) (front : List Char) :
    statementsFrom keyword inWord (front ++ ';' :: rest) =
      statementsFrom keyword inWord (front ++ [';']) ++ statementsFrom keyword false rest := by
  generalize hcs : front ++ [';'] = cs
  fun_induction statementsFrom keyword inWord cs generalizing front with
  | case1 => exact absurd hcs (by simp)
  | case2 c cs body behind hfound ih =>
    rw [← hcs] at hfound
    have hlong := (statement?_semicolon hkeyword front rest).2 ⟨behind, hfound, rfl⟩
    rw [statementsFrom_of_some hlong, List.cons_append]
    congr 1
    -- Either the statement ends with the last semicolon, or that one is still ahead.
    rcases List.eq_nil_or_concat behind with rfl | ⟨front', d, rfl⟩
    · rw [statementsFrom_nil, List.nil_append, List.nil_append]
    · rw [List.concat_eq_append] at hfound ih ⊢
      have hwhole : front ++ [';'] = (keyword.toList ++ (body ++ ';' :: front')) ++ [d] := by
        rw [(body_of_statement? hfound).2]
        simp
      obtain rfl := (List.cons.inj (List.append_inj_right' hwhole rfl)).1
      rw [← ih front' rfl, List.append_assoc]
      rfl
  | case3 inWord c cs hnone ih =>
    cases front with
    | nil =>
      obtain ⟨rfl, rfl⟩ := List.cons.inj hcs
      rw [List.nil_append, statementsFrom_cons hkeyword not_isWord_semicolon, statementsFrom_nil,
        List.nil_append]
    | cons d front =>
      obtain ⟨rfl, rfl⟩ := List.cons.inj hcs
      rw [List.cons_append, statementsFrom_of_none, ih front rfl]
      rintro body behind hstart hfound
      obtain ⟨more, hshort, -⟩ := (statement?_semicolon hkeyword (d :: front) rest).1 hfound
      exact hnone body more hstart hshort

end

end Source
end SourceSplit
