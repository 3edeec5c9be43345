import SourceSplit.Proofs.Source.Header

/-!
# SourceSplit.Proofs.Source.Parts

What a class header is, said without looking for one. A header is made of parts that follow one
another: a doc comment, blanks, `public`, blanks, `class`, blanks, the name, and what stands before
the brace. `Parts.Fits` says when parts make up a header at the start of a text, and just then
`header?` finds it there (`header?_eq_some_iff`).
-/

namespace SourceSplit
namespace Source

open Text

/-- No `*` `/` begins in the text before the end of `inner`. -/
def FirstClose (inner cs : List Char) : Prop :=
  ∀ before after, cs = before ++ '*' :: '/' :: after → inner.length ≤ before.length

/-- The parts of a header, without the words and signs that are the same in all headers. -/
structure Parts where
  /-- The inside of the comment, between `/**` and `*` `/`. -/
  inner : List Char
  beforePublic : List Char
  beforeClass : List Char
  beforeName : List Char
  name : List Char
  /-- All between the name and the brace. -/
  behindName : List Char

namespace Parts

def comment (parts : Parts) : List Char :=
  "/**".toList ++ (parts.inner ++ ['*', '/'])

/-- All of the header in front of `public`. -/
def lead (parts : Parts) : List Char :=
  parts.comment ++ parts.beforePublic

def text (parts : Parts) : List Char :=
  parts.lead ++ ("public".toList ++ (parts.beforeClass ++ ("class".toList ++
    (parts.beforeName ++ (parts.name ++ parts.behindName)))))

/-- The parts are those of a header at the start of `cs`, and `rest` is behind its brace. -/
structure Fits (parts : Parts) (cs rest : List Char) : Prop where
  text : cs = parts.text ++ '\x7b' :: rest
  inner : FirstClose parts.inner (cs.drop 3)
  beforePublic : ∀ c ∈ parts.beforePublic, isBlank c = true
  beforeClass : parts.beforeClass ≠ [] ∧ ∀ c ∈ parts.beforeClass, isBlank c = true
  beforeName : parts.beforeName ≠ [] ∧ ∀ c ∈ parts.beforeName, isBlank c = true
  name : parts.name ≠ [] ∧ ∀ c ∈ parts.name, isWord c = true
  /-- The name is not the beginning of a longer one. -/
  name_ends : ∀ c, parts.behindName.head? = some c → isWord c = false
  behindName : '\x7b' ∉ parts.behindName

end Parts

/-! ## Pieces -/

namespace Piece

variable {p q : Piece} {cs part rest : List Char}

theorem andThen_eq_some_iff :
    andThen p q cs = some (part, rest) ↔
      ∃ a b mid, part = a ++ b ∧ p cs = some (a, mid) ∧ q mid = some (b, rest) := by
  unfold andThen
  constructor
  · intro h
    split at h
    · cases h
    · rename_i a mid ha
      obtain ⟨⟨b, _⟩, hb, heq⟩ := Option.map_eq_some_iff.1 h
      cases heq
      exact ⟨a, b, mid, rfl, ha, hb⟩
  · rintro ⟨a, b, mid, rfl, ha, hb⟩
    simp only [ha, hb, Option.map_some]

end Piece

/-! ## The comment -/

theorem firstClose_cons {c : Char} {inner cs : List Char} (h : FirstClose inner cs)
    (hnot : ∀ after, c :: cs ≠ '*' :: '/' :: after) : FirstClose (c :: inner) (c :: cs) := by
  intro before after hsplit
  cases before with
  | nil => exact absurd hsplit (hnot after)
  | cons d before =>
    have hle := h before after (List.cons.inj hsplit).2
    simp only [List.length_cons]
    omega

theorem FirstClose.of_cons {c d : Char} {inner cs : List Char}
    (h : FirstClose (c :: inner) (d :: cs)) : FirstClose inner cs := by
  rintro before after rfl
  have hle := h (d :: before) after rfl
  simpa using hle

/-- A text is taken up to its first `*` `/`. -/
theorem throughClose_eq_some_iff {before cs part rest : List Char} :
    throughClose before cs = some (part, rest) ↔
      ∃ inner, part = before.reverse ++ (inner ++ ['*', '/']) ∧ cs = inner ++ '*' :: '/' :: rest ∧
        FirstClose inner cs := by
  fun_induction throughClose before cs with
  | case1 => simp
  | case2 before behind =>
    simp only [Option.some.injEq, Prod.mk.injEq]
    constructor
    · rintro ⟨rfl, rfl⟩
      exact ⟨[], rfl, rfl, fun _ _ _ => Nat.zero_le _⟩
    · rintro ⟨inner, rfl, hcs, hfirst⟩
      obtain rfl := List.eq_nil_of_length_eq_zero (Nat.le_zero.1 (hfirst [] behind rfl))
      exact ⟨rfl, (List.cons.inj (List.cons.inj hcs).2).2⟩
  | case3 before c behind hnot ih =>
    rw [ih]
    constructor
    · rintro ⟨inner, rfl, rfl, hfirst⟩
      refine ⟨c :: inner, by simp, rfl, firstClose_cons hfirst fun after hafter => ?_⟩
      exact hnot after (List.cons.inj hafter).1 (List.cons.inj hafter).2
    · rintro ⟨inner, rfl, hcs, hfirst⟩
      cases inner with
      | nil => exact absurd (List.cons.inj hcs).2 fun h => hnot _ (List.cons.inj hcs).1 h
      | cons d inner =>
        obtain ⟨rfl, rfl⟩ := List.cons.inj hcs
        exact ⟨inner, by simp, rfl, hfirst.of_cons⟩

theorem comment_eq_some_iff {cs part rest : List Char} :
    comment cs = some (part, rest) ↔
      ∃ inner, part = "/**".toList ++ (inner ++ ['*', '/']) ∧ cs = part ++ rest ∧
        FirstClose inner (cs.drop 3) := by
  simp only [comment, Piece.andThen_eq_some_iff, Piece.literal_eq_some_iff,
    throughClose_eq_some_iff]
  constructor
  · rintro ⟨_, _, _, rfl, ⟨rfl, rfl⟩, inner, rfl, rfl, hfirst⟩
    exact ⟨inner, rfl, by simp, hfirst⟩
  · rintro ⟨inner, rfl, rfl, hfirst⟩
    exact ⟨"/**".toList, inner ++ ['*', '/'], inner ++ '*' :: '/' :: rest, rfl,
      ⟨rfl, by simp⟩, inner, rfl, rfl, by simpa using hfirst⟩

/-! ## The whole header -/

/-- No blank is a word character. -/
theorem isWord_of_isBlank {c : Char} (h : isBlank c = true) : isWord c = false := by
  have hall : ∀ r ∈ blankRanges, ∀ n ∈ List.range' r.1 (r.2 + 1 - r.1),
      isWord (Char.ofNat n) = false := by
    decide +kernel
  obtain ⟨r, hr, hle, hge⟩ := inRanges_iff.1 h
  have hc := hall r hr c.toNat (List.mem_range'_1.2 ⟨hle, by omega⟩)
  rwa [Char.ofNat_toNat] at hc

theorem isBlank_of_isWord {c : Char} (h : isWord c = true) : isBlank c = false := by
  rw [← Bool.not_eq_true]
  intro hblank
  rw [isWord_of_isBlank hblank] at h
  cases h

/-- A header is an opening, a word, and what stands before the next brace. -/
theorem header?_eq_some_iff_pieces {cs : List Char} {found : FoundHeader} :
    header? cs = some found ↔
      ∃ before mid behind tail, opening cs = some (before, mid) ∧
        Piece.some1 isWord mid = some (found.name, behind) ∧
        Piece.many (· ≠ '\x7b') behind = some (tail, '\x7b' :: found.rest) ∧
        found.text = before ++ found.name ++ tail := by
  constructor
  · intro h
    unfold header? at h
    split at h
    · cases h
    · rename_i before mid hopening
      split at h
      · cases h
      · rename_i name behind hname
        split at h
        · cases h
        · rename_i d rest hdrop
          cases h
          have hmany : Piece.many (· ≠ '\x7b') behind =
              some (behind.takeWhile (· ≠ '\x7b'), d :: rest) := by
            rw [← hdrop]
            rfl
          obtain rfl : d = '\x7b' := by
            simpa using (Piece.many_eq_some_iff.1 hmany).2.2 d rfl
          exact ⟨before, mid, behind, _, hopening, hname, hmany, rfl⟩
  · rintro ⟨before, mid, behind, tail, hopening, hname, hmany, htext⟩
    simp only [Piece.many, Option.some.injEq, Prod.mk.injEq] at hmany
    simp only [header?, hopening, hname, hmany.1, hmany.2, ← htext]

/-- What is found at the start of a text is a header. -/
theorem exists_parts {cs : List Char} {found : FoundHeader} (h : header? cs = some found) :
    ∃ parts : Parts, parts.Fits cs found.rest ∧ found.name = parts.name ∧
      found.text = parts.text := by
  obtain ⟨before, mid, behind, tail, hopening, hname, htail, htext⟩ :=
    header?_eq_some_iff_pieces.1 h
  simp only [opening, comment_eq_some_iff, Piece.andThen_eq_some_iff, Piece.literal_eq_some_iff,
    Piece.some1_eq_some_iff, Piece.many_eq_some_iff] at hopening hname htail
  obtain ⟨_, _, _, rfl, ⟨inner, rfl, hcs, hinner⟩, gap, _, _, rfl, ⟨rfl, hgap, -⟩, _, _, _, rfl,
    ⟨rfl, rfl⟩, beforeClass, _, _, rfl, ⟨hclass, rfl, hclassBlank, -⟩, _, beforeName, _, rfl,
    ⟨rfl, rfl⟩, hbefore, rfl, hbeforeBlank, -⟩ := hopening
  obtain ⟨hne, rfl, hword, hends⟩ := hname
  obtain ⟨rfl, hbrace, -⟩ := htail
  have hall : found.text =
      (⟨inner, gap, beforeClass, beforeName, found.name, tail⟩ : Parts).text := by
    simp [htext, Parts.text, Parts.lead, Parts.comment]
  refine ⟨⟨inner, gap, beforeClass, beforeName, found.name, tail⟩, ⟨?_, hinner, hgap,
    ⟨hclass, hclassBlank⟩, ⟨hbefore, hbeforeBlank⟩, ⟨hne, hword⟩, fun c hc => hends c ?_, ?_⟩, rfl,
    hall⟩
  · rw [← hall]
    exact eq_of_header? h
  · rw [List.head?_append, hc]
    rfl
  · intro hmem
    simpa using hbrace _ hmem

/-- A header at the start of a text is found. -/
theorem Parts.Fits.header?_eq {parts : Parts} {cs rest : List Char} (h : parts.Fits cs rest) :
    header? cs = some ⟨parts.name, parts.text, rest⟩ := by
  obtain ⟨htext, hinner, hpublic, ⟨hclass, hclassBlank⟩, ⟨hbefore, hbeforeBlank⟩, ⟨hname, hword⟩,
    hends, hbrace⟩ := h
  -- Each run of blanks ends in front of the next word.
  have hopening : opening cs = some (parts.lead ++ ("public".toList ++ (parts.beforeClass ++
      ("class".toList ++ parts.beforeName))),
      parts.name ++ (parts.behindName ++ '\x7b' :: rest)) := by
    simp only [opening, comment_eq_some_iff, Piece.andThen_eq_some_iff, Piece.literal_eq_some_iff,
      Piece.some1_eq_some_iff, Piece.many_eq_some_iff]
    refine ⟨parts.comment, _, _, List.append_assoc .., ⟨parts.inner, rfl, ?_, hinner⟩,
      parts.beforePublic, _, _, rfl, ⟨rfl, hpublic, ?_⟩, _, _, _, rfl, ⟨rfl, rfl⟩,
      parts.beforeClass, _, _, rfl, ⟨hclass, rfl, hclassBlank, ?_⟩, _, _, _, rfl, ⟨rfl, rfl⟩,
      hbefore, rfl, hbeforeBlank, ?_⟩
    · simp [htext, Parts.text, Parts.lead]
    · rintro c ⟨⟩
      rfl
    · rintro c ⟨⟩
      rfl
    · obtain ⟨d, more, hcons⟩ := List.exists_cons_of_ne_nil hname
      rw [hcons]
      rintro c ⟨⟩
      exact isBlank_of_isWord (hword d (by simp [hcons]))
  refine header?_eq_some_iff_pieces.2 ⟨_, _, parts.behindName ++ '\x7b' :: rest, parts.behindName,
    hopening, ?_, ?_, ?_⟩
  · refine Piece.some1_eq_some_iff.2 ⟨hname, Piece.many_eq_some_iff.2 ⟨rfl, hword, fun c hc => ?_⟩⟩
    cases htail : parts.behindName with
    | nil =>
      rw [htail] at hc
      cases hc
      rfl
    | cons d tail =>
      rw [htail] at hc
      exact hends c (by rw [htail]; exact hc)
  · refine Piece.many_eq_some_iff.2 ⟨rfl, fun c hc => ?_, ?_⟩
    · rw [decide_eq_true_eq]
      rintro rfl
      exact hbrace hc
    · rintro c ⟨⟩
      rfl
  · simp [Parts.text]

theorem header?_eq_some_iff {cs : List Char} {found : FoundHeader} :
    header? cs = some found ↔
      ∃ parts : Parts, parts.Fits cs found.rest ∧ found.name = parts.name ∧
        found.text = parts.text := by
  refine ⟨exists_parts, ?_⟩
  rintro ⟨parts, hfits, hname, htext⟩
  rw [hfits.header?_eq, ← hname, ← htext]

end Source
end SourceSplit
