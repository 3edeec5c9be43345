import SourceSplit.Source.Header

/-!
# SourceSplit.Proofs.Source.Header

Where the headers of a text stand. A header hangs on its own text alone: it is the same header
whatever stands behind its brace (`header?_of_header?`) and before its comment, if no comment opens
there (`headersFrom_append`).

A piece is steady if it loses nothing and what it takes hangs on nothing but the part itself and the
first character behind it.
-/

namespace SourceSplit
namespace Source

open Text

namespace Piece

structure Steady (p : Piece) : Prop where
  exact : Exact p
  ahead : ∀ part rest rest', p (part ++ rest) = some (part, rest) → rest'.head? = rest.head? →
    p (part ++ rest') = some (part, rest')

theorem steady_literal (word : String) : Steady (literal word) := by
  refine ⟨exact_literal word, fun part rest rest' h _ => ?_⟩
  obtain ⟨rfl, _⟩ := literal_eq_some_iff.1 h
  exact literal_eq_some_iff.2 ⟨rfl, rfl⟩

theorem many_eq_some_iff {p : Char → Bool} {cs part rest : List Char} :
    many p cs = some (part, rest) ↔
      cs = part ++ rest ∧ (∀ c ∈ part, p c = true) ∧ ∀ c, rest.head? = some c → p c = false := by
  simp only [many, Option.some.injEq, Prod.mk.injEq]
  constructor
  · rintro ⟨rfl, rfl⟩
    refine ⟨List.takeWhile_append_dropWhile.symm, ?_, ?_⟩
    · exact fun c hc => List.all_eq_true.1 List.all_takeWhile c hc
    · intro c hc
      have hnot := List.head?_dropWhile_not p cs
      rw [hc] at hnot
      simpa using hnot
  · rintro ⟨rfl, hpart, hrest⟩
    rw [List.takeWhile_append_of_pos hpart, List.dropWhile_append_of_pos hpart]
    cases rest with
    | nil => simp
    | cons c rest => simp [hrest c rfl]

theorem steady_many (p : Char → Bool) : Steady (many p) := by
  refine ⟨exact_many p, fun part rest rest' h hhead => ?_⟩
  obtain ⟨_, hpart, hrest⟩ := many_eq_some_iff.1 h
  exact many_eq_some_iff.2 ⟨rfl, hpart, fun c hc => hrest c (hhead ▸ hc)⟩

theorem some1_eq_some_iff {p : Char → Bool} {cs part rest : List Char} :
    some1 p cs = some (part, rest) ↔ part ≠ [] ∧ many p cs = some (part, rest) := by
  unfold some1
  split
  · rename_i hnil
    simp only [reduceCtorEq, false_iff, not_and]
    intro hne h
    simp only [many, Option.some.injEq, Prod.mk.injEq] at h
    rw [h.1, List.isEmpty_iff] at hnil
    exact hne hnil
  · rename_i hne
    simp only [iff_and_self]
    intro h
    simp only [many, Option.some.injEq, Prod.mk.injEq] at h
    rw [h.1, List.isEmpty_iff] at hne
    exact hne

theorem steady_some1 (p : Char → Bool) : Steady (some1 p) := by
  refine ⟨exact_some1 p, fun part rest rest' h hhead => ?_⟩
  obtain ⟨hne, hmany⟩ := some1_eq_some_iff.1 h
  exact some1_eq_some_iff.2 ⟨hne, (steady_many p).ahead part rest rest' hmany hhead⟩

theorem Steady.andThen {p q : Piece} (hp : Steady p) (hq : Steady q) :
    Steady (andThen p q) := by
  refine ⟨exact_andThen hp.exact hq.exact, fun part rest rest' h hhead => ?_⟩
  unfold Piece.andThen at h ⊢
  split at h
  · cases h
  · rename_i a behind ha
    obtain ⟨⟨b, _⟩, hb, heq⟩ := Option.map_eq_some_iff.1 h
    cases heq
    obtain rfl := hq.exact _ _ _ hb
    rw [List.append_assoc] at ha ⊢
    have hahead : (b ++ rest').head? = (b ++ rest).head? := by
      rw [List.head?_append, List.head?_append, hhead]
    rw [hp.ahead a (b ++ rest) (b ++ rest') ha hahead]
    simp only [hq.ahead b rest rest' hb hhead, Option.map_some]

end Piece

theorem throughClose_local {before cs part rest : List Char}
    (h : throughClose before cs = some (part, rest)) (rest' : List Char) :
    ∃ taken, part = before.reverse ++ taken ∧ cs = taken ++ rest ∧ taken ≠ [] ∧
      throughClose before (taken ++ rest') = some (part, rest') := by
  fun_induction throughClose before cs with
  | case1 => cases h
  | case2 before behind =>
    cases h
    exact ⟨['*', '/'], rfl, rfl, by simp, rfl⟩
  | case3 before c behind hnot ih =>
    obtain ⟨taken, rfl, rfl, hne, htaken⟩ := ih h
    refine ⟨c :: taken, by simp, rfl, by simp, ?_⟩
    cases taken with
    | nil => exact absurd rfl hne
    | cons d taken =>
      rw [List.cons_append, throughClose]
      · exact htaken
      · intro more hc hd
        rw [List.cons_append, List.cons.injEq] at hd
        exact hnot _ hc (by rw [hd.1]; rfl)

theorem steady_comment : Piece.Steady comment := by
  have hclose : Piece.Steady (throughClose []) := by
    refine ⟨fun _ _ _ h => by simpa using exact_throughClose h, fun part rest rest' h _ => ?_⟩
    obtain ⟨taken, hpart, _, _, htaken⟩ := throughClose_local h rest'
    rw [List.reverse_nil, List.nil_append] at hpart
    rw [hpart] at htaken ⊢
    exact htaken
  exact (Piece.steady_literal _).andThen hclose

theorem steady_opening : Piece.Steady opening :=
  steady_comment.andThen <| (Piece.steady_many _).andThen <| (Piece.steady_literal _).andThen <|
    (Piece.steady_some1 _).andThen <| (Piece.steady_literal _).andThen (Piece.steady_some1 _)

/-- A header is the same whatever stands behind its brace. -/
theorem header?_of_header? {cs : List Char} {found : FoundHeader} (h : header? cs = some found)
    (rest : List Char) :
    header? (found.text ++ '\x7b' :: rest) = some ⟨found.name, found.text, rest⟩ := by
  unfold header? at h
  split at h
  · cases h
  · rename_i before behind ho
    split at h
    · cases h
    · rename_i name more hname
      split at h
      · cases h
      · rename_i d last hd
        have hmany : Piece.many (fun c => decide (c ≠ '\x7b')) more =
            some (more.takeWhile (fun c => decide (c ≠ '\x7b')), d :: last) := by
          rw [← hd]
          rfl
        generalize more.takeWhile (fun c => decide (c ≠ '\x7b')) = mid at h hmany
        cases h
        obtain ⟨rfl, _, hbrace⟩ := Piece.many_eq_some_iff.1 hmany
        obtain rfl : d = '\x7b' := by simpa using hbrace d rfl
        obtain rfl := Piece.exact_some1 _ _ _ _ hname
        obtain rfl := exact_opening _ _ _ ho
        have hopening := steady_opening.ahead _ _ (name ++ (mid ++ '\x7b' :: rest)) ho
          (by simp [List.head?_append])
        have hword := (Piece.steady_some1 isWord).ahead _ _ (mid ++ '\x7b' :: rest) hname
          (by simp [List.head?_append])
        have hmid := (Piece.steady_many _).ahead _ _ ('\x7b' :: rest) hmany rfl
        simp only [Piece.many, Option.some.injEq, Prod.mk.injEq] at hmid
        rw [List.append_assoc, List.append_assoc]
        unfold header?
        simp only [hopening, hword, hmid.1, hmid.2]

/-- A header opens with a doc comment. -/
theorem opens_of_header? {cs : List Char} {found : FoundHeader} (h : header? cs = some found) :
    "/**".toList <+: cs := by
  cases hliteral : Piece.literal "/**" cs with
  | none => simp [header?, opening, comment, Piece.andThen, hliteral] at h
  | some taken =>
    obtain ⟨_, hcs⟩ := Piece.literal_eq_some_iff.1 hliteral
    exact ⟨taken.2, hcs.symm⟩

theorem headersFrom_of_none {c : Char} {rest : List Char} {offset : Nat}
    (h : header? (c :: rest) = none) :
    headersFrom offset (c :: rest) = headersFrom (offset + c.utf8Size) rest := by
  rw [headersFrom]
  split
  · rename_i found hfound
    rw [h] at hfound
    cases hfound
  · rfl

theorem headersFrom_of_some {cs : List Char} {found : FoundHeader} {offset : Nat}
    (h : header? cs = some found) :
    headersFrom offset cs =
      ⟨String.ofList found.name, offset, offset + byteLength found.text⟩ ::
        headersFrom (offset + byteLength found.text + 1) found.rest := by
  cases cs with
  | nil => cases h
  | cons c rest =>
    rw [headersFrom]
    split
    · rename_i found' hfound
      rw [h, Option.some.injEq] at hfound
      rw [hfound]
    · rename_i hnone
      rw [h] at hnone
      cases hnone

/-- Where no header begins, the search goes on. -/
theorem headersFrom_append {junk cs : List Char} {offset : Nat}
    (h : ∀ front back, junk = front ++ back → back ≠ [] → header? (back ++ cs) = none) :
    headersFrom offset (junk ++ cs) = headersFrom (offset + byteLength junk) cs := by
  induction junk generalizing offset with
  | nil => simp
  | cons c junk ih =>
    have hnone : header? (c :: (junk ++ cs)) = none := h [] (c :: junk) rfl (by simp)
    rw [List.cons_append, headersFrom_of_none hnone, byteLength_cons, ← Nat.add_assoc]
    exact ih fun front back hback hne => h (c :: front) back (by rw [hback]; rfl) hne

/-- Where a header stands. -/
theorem exists_found {cs : List Char} {offset : Nat} {header : Header}
    (h : header ∈ headersFrom offset cs) :
    ∃ front found, cs = front ++ (found.text ++ '\x7b' :: found.rest) ∧
      header? (found.text ++ '\x7b' :: found.rest) = some found ∧
      header = ⟨String.ofList found.name, offset + byteLength front,
        offset + byteLength front + byteLength found.text⟩ := by
  fun_induction headersFrom offset cs with
  | case1 => cases h
  | case2 offset c rest found hfound brace ih =>
    have hcs := eq_of_header? hfound
    rcases List.mem_cons.1 h with rfl | h
    · refine ⟨[], found, hcs, ?_, rfl⟩
      rw [← hcs]
      exact hfound
    · obtain ⟨front, found', hrest, hfound', rfl⟩ := ih h
      refine ⟨found.text ++ '\x7b' :: front, found', ?_, hfound', ?_⟩
      · rw [hcs, hrest]
        simp
      · have hone : Char.utf8Size '\x7b' = 1 := by decide
        simp only [brace, byteLength_append, byteLength_cons, hone, Header.mk.injEq, true_and]
        omega
  | case3 offset c rest _ ih =>
    obtain ⟨front, found, rfl, hfound, rfl⟩ := ih h
    refine ⟨c :: front, found, rfl, hfound, ?_⟩
    simp only [byteLength_cons, Nat.add_assoc]

end Source
end SourceSplit
