import SourceSplit.Proofs.Source.Parts
import SourceSplit.Proofs.Source.Pattern

/-!
# SourceSplit.Proofs.Source.ClassPattern

The pattern of class headers, and that the headers of a text are what a search for it takes
(`headers_eq_findFrom`). All its repetitions but one would give back for nothing: in the comment
each part begins with what the part in front cannot take (`followedBy_comment`), behind blanks a
word is to follow, and behind the rest of the header a brace. A name can be given back, for the rest
of the header takes letters too, but it comes to the same brace, so the whole word is preferred
(`head?_ways_classPattern`).
-/

namespace SourceSplit
namespace Source

open Text

/-- The rounds behind the first stars of a comment, `(?:[^/*][^*]*\*+)*`. -/
def commentRounds : Pattern :=
  .star <| .seq (.one (.noneOf ['/', '*'])) <|
    .seq (.star (.one (.noneOf ['*']))) (.plus (.one (.char '*')))

/-- The comment of a class, `/\*\*[^*]*\*+(?:[^/*][^*]*\*+)*/`. -/
def commentPattern : Pattern :=
  .seq (.text "/**") <| .seq (.star (.one (.noneOf ['*']))) <| .seq (.plus (.one (.char '*'))) <|
    .seq commentRounds (.one (.char '/'))

/-- All up to the next brace, and the brace, `[^{]*\{`. -/
def upToBrace : Pattern :=
  .seq (.star (.one (.noneOf ['\x7b']))) (.one (.char '\x7b'))

/-- The name of a class, `(\w+)`, and all up to its brace. -/
def namePattern : Pattern :=
  .seq (.group (.plus (.one .word))) upToBrace

/-- A comment, `\s*public\s+class\s+`, and a name up to the brace. -/
def classPattern : Pattern :=
  .seq commentPattern <| .seq (.star (.one .blank)) <| .seq (.text "public") <|
    .seq (.plus (.one .blank)) <| .seq (.text "class") <| .seq (.plus (.one .blank)) namePattern

section

variable {next : Cursor → List Cursor} {before cs rest : List Char} {noted : Option (List Char)}

/-! ## The comment -/

/-- The comment behind its stars. -/
def behindStars (next : Cursor → List Cursor) : Cursor → List Cursor :=
  commentRounds.followedBy ((Pattern.one (.char '/')).followedBy next)

/-- The comment in front of stars. -/
def upToStars (next : Cursor → List Cursor) : Cursor → List Cursor :=
  (Pattern.star (.one (.noneOf ['*']))).followedBy
    ((Pattern.plus (.one (.char '*'))).followedBy (behindStars next))

theorem behindStars_eq (here : Cursor) :
    behindStars next here =
      (Pattern.one (.noneOf ['/', '*'])).followedBy (upToStars next) here ++
        (Pattern.one (.char '/')).followedBy next here := by
  rw [behindStars, commentRounds,
    Pattern.followedBy_star fun _ _ => Pattern.length_lt_of_mem_one, Pattern.followedBy_seq,
    Pattern.followedBy_seq]
  rfl

theorem behindStars_nil : behindStars next ⟨before, [], noted⟩ = [] := by
  rw [behindStars_eq]
  rfl

theorem behindStars_slash :
    behindStars next ⟨before, '/' :: rest, noted⟩ = next ⟨before ++ ['/'], rest, noted⟩ := by
  rw [behindStars_eq, Pattern.followedBy_one_of_not rfl, Pattern.followedBy_one_of_holds rfl,
    List.nil_append]

theorem behindStars_star : behindStars next ⟨before, '*' :: rest, noted⟩ = [] := by
  rw [behindStars_eq, Pattern.followedBy_one_of_not rfl, Pattern.followedBy_one_of_not rfl,
    List.nil_append]

theorem behindStars_other {d : Char} (hslash : d ≠ '/') (hstar : d ≠ '*') :
    behindStars next ⟨before, d :: rest, noted⟩ =
      upToStars next ⟨before ++ [d], rest, noted⟩ := by
  rw [behindStars_eq, Pattern.followedBy_one_of_holds (by simp [Class.holds, hslash, hstar]),
    Pattern.followedBy_one_of_not (by simp [Class.holds, hslash]), List.append_nil]

theorem upToStars_nil : upToStars next ⟨before, [], noted⟩ = [] := by
  rw [upToStars, Pattern.run_nil]
  rfl

theorem upToStars_other {d : Char} (hstar : d ≠ '*') :
    upToStars next ⟨before, d :: rest, noted⟩ = upToStars next ⟨before ++ [d], rest, noted⟩ := by
  rw [upToStars, Pattern.run_of_holds (by simp [Class.holds, hstar]), Pattern.plus,
    Pattern.followedBy_seq, Pattern.followedBy_one_of_not (by simp [Class.holds, hstar]),
    List.append_nil]

/-- Behind a star: more stars, and then what comes behind stars. -/
def moreStars (next : Cursor → List Cursor) : Cursor → List Cursor :=
  (Pattern.star (.one (.char '*'))).followedBy (behindStars next)

theorem upToStars_star :
    upToStars next ⟨before, '*' :: rest, noted⟩ = moreStars next ⟨before ++ ['*'], rest, noted⟩ := by
  rw [upToStars, Pattern.run_of_not rfl, Pattern.plus, Pattern.followedBy_seq,
    Pattern.followedBy_one_of_holds rfl]
  rfl

theorem moreStars_star :
    moreStars next ⟨before, '*' :: rest, noted⟩ = moreStars next ⟨before ++ ['*'], rest, noted⟩ := by
  rw [moreStars, Pattern.run_of_holds rfl, behindStars_star, List.append_nil]

theorem moreStars_other {d : Char} (hstar : d ≠ '*') :
    moreStars next ⟨before, d :: rest, noted⟩ = behindStars next ⟨before, d :: rest, noted⟩ := by
  rw [moreStars, Pattern.run_of_not (by simp [Class.holds, hstar])]

/-- A character that closes no comment is passed. -/
theorem throughClose_cons {inner : List Char} {d : Char}
    (h : ∀ rest, d :: cs ≠ '*' :: '/' :: rest) :
    Piece.followedBy (throughClose inner) next ⟨before, d :: cs, noted⟩ =
      Piece.followedBy (throughClose (d :: inner)) next ⟨before, cs, noted⟩ := by
  have hpass : throughClose inner (d :: cs) = throughClose (d :: inner) cs := by
    rw [throughClose]
    rintro rest rfl rfl
    exact h rest rfl
  rw [Piece.followedBy, hpass]
  rfl

/-- The inside of a comment ends at the first `*` `/`. The induction goes along the text, and says
of each character what comes of it in front of stars and behind one. -/
theorem comment_inside (inner : List Char) :
    upToStars next ⟨before ++ inner.reverse, cs, noted⟩ =
        Piece.followedBy (throughClose inner) next ⟨before, cs, noted⟩ ∧
      moreStars next ⟨before ++ inner.reverse ++ ['*'], cs, noted⟩ =
        Piece.followedBy (throughClose inner) next ⟨before, '*' :: cs, noted⟩ := by
  induction cs generalizing inner with
  | nil =>
    refine ⟨upToStars_nil, ?_⟩
    rw [moreStars, Pattern.run_nil, behindStars_nil]
    rfl
  | cons d cs ih =>
    by_cases hstar : d = '*'
    · subst hstar
      refine ⟨by rw [upToStars_star, (ih inner).2], ?_⟩
      have hmore := (ih ('*' :: inner)).2
      rw [List.reverse_cons, ← List.append_assoc] at hmore
      rw [moreStars_star]
      exact hmore.trans (throughClose_cons (by simp)).symm
    · have hmore := (ih (d :: inner)).1
      have hbehind := (ih (d :: '*' :: inner)).1
      simp only [List.reverse_cons, ← List.append_assoc] at hmore hbehind
      refine ⟨by rw [upToStars_other hstar, hmore, throughClose_cons (by simp [hstar])], ?_⟩
      rw [moreStars_other hstar]
      by_cases hslash : d = '/'
      · subst hslash
        rw [behindStars_slash]
        simp [Piece.followedBy, throughClose]
      · rw [behindStars_other hslash hstar, hbehind, throughClose_cons (by simp [hslash]),
          throughClose_cons (by simp [hstar])]

theorem followedBy_comment : commentPattern.followedBy next = comment.followedBy next := by
  have hinside : upToStars next = Piece.followedBy (throughClose []) next := by
    funext ⟨before, cs, noted⟩
    have h : upToStars next ⟨before ++ [].reverse, cs, noted⟩ = _ := (comment_inside []).1
    rwa [List.reverse_nil, List.append_nil] at h
  rw [commentPattern, comment, Piece.followedBy_andThen, ← hinside, ← Piece.followedBy_text]
  simp only [Pattern.followedBy_seq]
  rfl

/-! ## Up to the name -/

theorem followedBy_classPattern :
    classPattern.followedBy next = opening.followedBy (namePattern.followedBy next) := by
  have hname : Pattern.Rejects .blank (namePattern.followedBy next) := by
    have hword : ∀ d, Class.blank.holds d = true → Class.word.holds d = false :=
      fun _ => isWord_of_isBlank
    intro before d rest noted hd
    rw [namePattern, Pattern.followedBy_seq, Pattern.followedBy_group]
    exact rejects_plus hword before d rest noted hd
  simp only [classPattern, opening, Pattern.followedBy_seq, Piece.followedBy_andThen,
    followedBy_comment, Piece.followedBy_text, Piece.followedBy_some1 hname]
  rw [Piece.followedBy_some1 (rejects_literal rfl rfl),
    Piece.followedBy_many (rejects_literal rfl rfl)]
  rfl

/-! ## The name -/

theorem ways_upToBrace :
    upToBrace.ways ⟨before, cs, noted⟩ =
      match cs.dropWhile (· ≠ '\x7b') with
      | [] => []
      | _ :: behind => [⟨before ++ cs.takeWhile (· ≠ '\x7b') ++ ['\x7b'], behind, noted⟩] := by
  rw [upToBrace, Pattern.ways_seq,
    Pattern.followedBy_run (rejects_noneOf '\x7b' fun stop => stop.noted), holds_noneOf]
  cases hdrop : cs.dropWhile (· ≠ '\x7b') with
  | nil => rfl
  | cons d behind =>
    obtain rfl : d = '\x7b' := by
      have hhead := List.head?_dropWhile_not (· ≠ '\x7b') cs
      rw [hdrop] at hhead
      simpa using hhead
    rfl

/-- A brace is no word character: where it is missing, it is missing behind a letter more too. -/
theorem ways_upToBrace_cons {front : List Char} {d : Char} {noted' : Option (List Char)}
    (hd : Class.word.holds d = true) (h : upToBrace.ways ⟨front, cs, noted⟩ = []) :
    upToBrace.ways ⟨before, d :: cs, noted'⟩ = [] := by
  have hbrace : decide (d ≠ '\x7b') = true := by
    rw [decide_eq_true_eq]
    rintro rfl
    exact absurd hd (by decide)
  rw [ways_upToBrace] at h ⊢
  rw [List.dropWhile_cons, if_pos hbrace]
  cases hdrop : cs.dropWhile (· ≠ '\x7b') with
  | nil => rfl
  | cons _ _ =>
    rw [hdrop] at h
    cases h

/-- The name is the whole word in front, and goes with all up to the next brace. -/
theorem head?_namePattern :
    (namePattern.ways ⟨before, cs, noted⟩).head? =
      match Piece.some1 isWord cs with
      | none => none
      | some (name, rest) =>
        match rest.dropWhile (· ≠ '\x7b') with
        | [] => none
        | _ :: behind =>
          some ⟨before ++ name ++ rest.takeWhile (· ≠ '\x7b') ++ ['\x7b'], behind, some name⟩ := by
  rw [namePattern, Pattern.ways_seq, Pattern.followedBy_group, Pattern.plus,
    Pattern.followedBy_seq]
  cases cs with
  | nil => rfl
  | cons d cs =>
    cases hd : Class.word.holds d with
    | false =>
      have hnone : Piece.some1 isWord (d :: cs) = none := by
        simp [Piece.some1, show isWord d = false from hd]
      rw [Pattern.followedBy_one_of_not hd, hnone]
      rfl
    | true =>
      have hword : isWord d = true := hd
      have hclass : Class.word.holds = isWord := rfl
      have hsome : Piece.some1 isWord (d :: cs) =
          some (d :: cs.takeWhile isWord, cs.dropWhile isWord) := by
        simp [Piece.some1, Piece.many, hword]
      rw [Pattern.followedBy_one_of_holds hd, Pattern.head?_run]
      · simp only [hsome, hclass, ways_upToBrace, ← List.append_cons, List.drop_left]
        cases (cs.dropWhile isWord).dropWhile (· ≠ '\x7b') <;> rfl
      · exact fun _ _ _ _ hletter hnone => ways_upToBrace_cons hletter hnone

/-- A search for the pattern takes a header just where one is found, and the same. -/
theorem head?_ways_classPattern :
    (classPattern.ways ⟨before, cs, noted⟩).head? = (header? cs).map fun found =>
      ⟨before ++ found.text ++ ['\x7b'], found.rest, some found.name⟩ := by
  rw [Pattern.ways_eq_followedBy, followedBy_classPattern, Piece.followedBy, header?]
  cases opening cs with
  | none => rfl
  | some taken =>
    obtain ⟨part, rest⟩ := taken
    simp only [← Pattern.ways_eq_followedBy, head?_namePattern]
    cases Piece.some1 isWord rest with
    | none => rfl
    | some taken =>
      obtain ⟨name, rest⟩ := taken
      simp only
      cases rest.dropWhile (· ≠ '\x7b') with
      | nil => rfl
      | cons _ behind => simp only [Option.map_some, List.append_assoc]

/-! ## The search -/

/-- What stands where the pattern was found: the class, and the place of the comment and of the
brace, the last that was taken. -/
def Pattern.Match.header? (found : Pattern.Match) : Option Header :=
  found.noted.map fun name =>
    ⟨String.ofList name, byteLength found.before,
      byteLength found.before + byteLength found.text - 1⟩

theorem headersFrom_eq_findFrom (before cs : List Char) :
    headersFrom (byteLength before) cs =
      (classPattern.findFrom before cs).filterMap Pattern.Match.header? := by
  fun_induction Pattern.findFrom classPattern before cs with
  | case1 before =>
    rw [headersFrom]
    rfl
  | case2 before c rest hnone ih =>
    rw [head?_ways_classPattern, Option.map_eq_none_iff] at hnone
    rw [headersFrom_of_none hnone, ← ih]
    simp
  | case3 before c rest stop hsome _ ih =>
    rw [head?_ways_classPattern, Option.map_eq_some_iff] at hsome
    obtain ⟨found, hfound, rfl⟩ := hsome
    have hbrace : ('\x7b').utf8Size = 1 := by decide
    have hlength : byteLength (before ++ found.text ++ ['\x7b']) =
        byteLength before + byteLength found.text + 1 := by
      simp [hbrace, Nat.add_assoc]
    rw [headersFrom_of_some hfound, ← hlength, ih]
    simp [Pattern.Match.header?, hbrace, ← Nat.add_assoc]
  | case4 before c rest stop hsome hlong _ =>
    rw [head?_ways_classPattern, Option.map_eq_some_iff] at hsome
    obtain ⟨found, hfound, rfl⟩ := hsome
    exact absurd (Nat.le_of_lt_succ (length_of_header? hfound)) hlong

theorem headers_eq_findFrom (text : String) :
    headers text = (classPattern.findFrom [] text.toList).filterMap Pattern.Match.header? :=
  headersFrom_eq_findFrom [] text.toList

end

end Source
end SourceSplit
