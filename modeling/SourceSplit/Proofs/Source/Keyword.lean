import SourceSplit.Proofs.Source.Search
import SourceSplit.Proofs.Source.Shared

/-!
# SourceSplit.Proofs.Source.Keyword

The statements of a keyword that occur in a text, said with offsets and without a search
(`StatementAt`), and which of them are found: the first package statement, and of the import
statements those that a search from left to right takes (`statements_leftmost`).

Every import statement that occurs lies inside one that is found, though it need not be found
itself: two of them may share a semicolon.
-/

namespace SourceSplit
namespace Source

open Text

/-- Where a statement begins, and where its semicolon stands. -/
structure Span where
  start : Nat
  stop : Nat
  deriving DecidableEq, Repr

/-- A word that follows is not the end of a longer one. -/
def NoWordBefore (front : List Char) : Prop :=
  ∀ c, front.getLast? = some c → isWord c = false

/-- A keyword that is not the end of a longer word stands in the text, with this body behind it. -/
structure StatementAt (keyword text : String) (body : List Char) (span : Span) : Prop where
  stands : ∃ front behind, text.toList = front ++ (keyword.toList ++ (body ++ ';' :: behind)) ∧
    NoWordBefore front ∧ span.start = byteLength front
  fits : Body body
  stop : span.stop = span.start + byteLength (keyword.toList ++ body)

def Stated (keyword text : String) (span : Span) : Prop :=
  ∃ body, StatementAt keyword text body span

section

variable {keyword text : String} {body front cs behind : List Char} {span span' : Span}

/-! ## Statements that occur -/

theorem statementAt_of_statement? (htext : text.toList = front ++ cs)
    (hword : NoWordBefore front) (h : statement? keyword cs = some (body, behind)) :
    StatementAt keyword text body
      ⟨byteLength front, byteLength front + byteLength (keyword.toList ++ body)⟩ := by
  obtain ⟨hbody, rfl⟩ := statement?_eq_some_iff.1 h
  exact ⟨⟨front, behind, htext, hword, rfl⟩, hbody, rfl⟩

/-- A statement that occurs ahead of a place is found on the way from there. -/
theorem StatementAt.exists_ahead (h : StatementAt keyword text body span)
    (htext : text.toList = front ++ cs) (hle : byteLength front ≤ span.start) :
    ∃ between cs' behind, cs = between ++ cs' ∧ statement? keyword cs' = some (body, behind) ∧
      NoWordBefore (front ++ between) ∧ span.start = byteLength (front ++ between) := by
  obtain ⟨front', behind, htext', hword, hstart⟩ := h.stands
  rw [hstart] at hle
  obtain ⟨between, rfl, hcs⟩ := exists_between (htext.symm.trans htext') hle
  exact ⟨between, _, behind, hcs, h.fits.statement?_eq, hword, hstart⟩

theorem Stated.start_lt_stop (h : Stated keyword text span) : span.start < span.stop := by
  obtain ⟨body, h⟩ := h
  obtain ⟨blank, c, more, rfl, _⟩ := h.fits.starts
  have hpos := Char.utf8Size_pos blank
  have hstop := h.stop
  simp only [byteLength_append, byteLength_cons] at hstop
  omega

theorem Stated.unique (h : Stated keyword text span) (h' : Stated keyword text span')
    (hstart : span.start = span'.start) : span = span' := by
  obtain ⟨body, h⟩ := h
  obtain ⟨body', h'⟩ := h'
  obtain ⟨front, behind, htext, -, hfront⟩ := h.stands
  obtain ⟨between, cs', behind', hcs, hfound', -, hbetween⟩ :=
    h'.exists_ahead htext (Nat.le_of_eq (hfront.symm.trans hstart))
  rw [byteLength_append] at hbetween
  obtain rfl : between = [] := eq_nil_of_byteLength (by omega)
  rw [List.nil_append] at hcs
  have hfound : statement? keyword (keyword.toList ++ (body ++ ';' :: behind)) =
      some (body, behind) := h.fits.statement?_eq
  rw [hcs, hfound', Option.some.injEq, Prod.mk.injEq] at hfound
  have hstop : span.stop = span'.stop := by rw [h.stop, h'.stop, hstart, hfound.1]
  cases span
  cases span'
  simp_all

/-- The body of a statement is what its offsets cut out behind the keyword. -/
theorem StatementAt.slice?_body (h : StatementAt keyword text body span) :
    slice? (span.start + byteLength keyword.toList) span.stop text.toList = some body := by
  obtain ⟨front, behind, htext, -, hstart⟩ := h.stands
  have hcut := slice?_append (front ++ keyword.toList) body (';' :: behind)
  rw [h.stop, htext, hstart]
  simpa only [byteLength_append, List.append_assoc, Nat.add_assoc] using hcut

theorem StatementAt.slice?_written (h : StatementAt keyword text body span) :
    slice? span.start (span.stop + 1) text.toList = some (written keyword body) := by
  obtain ⟨front, behind, htext, -, hstart⟩ := h.stands
  have hsemicolon : byteLength [';'] = 1 := by decide
  have hcut := slice?_append front (written keyword body) behind
  rw [written, byteLength_append, hsemicolon, ← Nat.add_assoc] at hcut
  rw [h.stop, htext, hstart, written]
  simpa using hcut

/-- A statement that begins inside another one ends with it: no semicolon stands in a keyword or in
a body but the last one. -/
theorem Stated.stop_eq (hkeyword : IsName keyword) (h : Stated keyword text span)
    (h' : Stated keyword text span') (hle : span.start ≤ span'.start)
    (hinside : span'.start ≤ span.stop) : span'.stop = span.stop := by
  obtain ⟨body, h⟩ := h
  obtain ⟨body', h'⟩ := h'
  obtain ⟨front, behind, htext, -, hstart⟩ := h.stands
  obtain ⟨between, _, behind', hcs, hfound, -, hstart'⟩ :=
    h'.exists_ahead htext (hstart ▸ hle)
  obtain ⟨hbody', rfl⟩ := statement?_eq_some_iff.1 hfound
  have hnot : ';' ∉ keyword.toList ++ body :=
    List.not_mem_append (hkeyword.not_mem not_isWord_semicolon) h.fits.no_semicolon
  have hnot' : ';' ∉ keyword.toList ++ body' :=
    List.not_mem_append (hkeyword.not_mem not_isWord_semicolon) hbody'.no_semicolon
  have hshort : byteLength between ≤ byteLength (keyword.toList ++ body) := by
    have hstop := h.stop
    rw [byteLength_append] at hstart'
    omega
  have hwhole : (keyword.toList ++ body) ++ ';' :: behind =
      between ++ ((keyword.toList ++ body') ++ ';' :: behind') := by
    simpa only [List.append_assoc] using hcs
  obtain ⟨more, hmore, hrest⟩ := exists_between hwhole.symm hshort
  -- The rest of the outer statement and the inner one both run to the first semicolon.
  have hmem : ';' ∉ more := fun hmem => hnot (hmore ▸ List.mem_append_right between hmem)
  obtain ⟨tail, htail, -⟩ := exists_first_semicolon hmem hrest
  obtain ⟨tail', htail', -⟩ := exists_first_semicolon hnot' hrest.symm
  have hlength := congrArg byteLength htail
  have hlength' := congrArg byteLength htail'
  have hstop := h.stop
  have hstop' := h'.stop
  have hsum := congrArg byteLength hmore
  simp only [byteLength_append, byteLength_cons, byteLength_nil] at *
  omega

/-! ## Statements that are found -/

theorem noWordBefore_concat {c : Char} : NoWordBefore (front ++ [c]) ↔ isWord c = false := by
  simp [NoWordBefore]

/-- The search from any place in the text on, by induction on what is left of it. -/
theorem statementsFrom_leftmost (inWord : Bool) (cs : List Char) :
    ∀ front, text.toList = front ++ cs → (inWord = false ↔ NoWordBefore front) →
      ∃ spans, Leftmost (Stated keyword text) Span.start Span.stop (byteLength front) spans ∧
        List.Forall₂ (StatementAt keyword text) (statementsFrom keyword inWord cs) spans := by
  fun_induction statementsFrom keyword inWord cs with
  | case1 inWord =>
    intro front htext _
    refine ⟨[], .none fun span h => Nat.lt_of_not_le fun hle => ?_, .nil⟩
    obtain ⟨body, h⟩ := h
    obtain ⟨between, cs', behind, hcs, hfound, -⟩ := h.exists_ahead htext hle
    obtain ⟨-, rfl⟩ := List.append_eq_nil_iff.1 hcs.symm
    exact absurd (length_of_statement? hfound) (Nat.not_lt_zero _)
  | case2 c cs body behind hfound ih =>
    intro front htext hword
    have hat := statementAt_of_statement? htext (hword.1 rfl) hfound
    have hsemicolon : byteLength [';'] = 1 := by decide
    obtain ⟨spans, hrest, hall⟩ := ih (front ++ (keyword.toList ++ body ++ [';']))
      (by rw [htext, (body_of_statement? hfound).2]; simp)
      (by rw [← List.append_assoc, noWordBefore_concat]; simp [not_isWord_semicolon])
    rw [byteLength_append, byteLength_append, hsemicolon, ← Nat.add_assoc] at hrest
    exact ⟨_ :: spans, .next ⟨body, hat⟩ (Nat.le_refl _) (fun b _ hle => hle) hrest,
      .cons hat hall⟩
  | case3 inWord c cs hnone ih =>
    intro front htext hword
    obtain ⟨spans, hrest, hall⟩ := ih (front ++ [c]) (by rw [htext]; simp) noWordBefore_concat.symm
    refine ⟨spans, hrest.skip (by simp) fun span h hle => ?_, hall⟩
    obtain ⟨body, h⟩ := h
    obtain ⟨between, cs', behind, hcs, hfound, hbefore, hstart⟩ := h.exists_ahead htext hle
    cases between with
    | nil =>
      rw [List.nil_append] at hcs
      rw [List.append_nil] at hbefore
      rw [← hcs] at hfound
      exact absurd hfound (hnone body behind (hword.2 hbefore))
    | cons d between =>
      obtain ⟨rfl, -⟩ := List.cons.inj hcs
      simp only [hstart, byteLength_append, byteLength_cons, byteLength_nil]
      omega

theorem statements_spans (keyword text : String) :
    ∃ spans, Leftmost (Stated keyword text) Span.start Span.stop 0 spans ∧
      List.Forall₂ (StatementAt keyword text) (statements keyword text) spans :=
  statementsFrom_leftmost false text.toList [] rfl (by simp [NoWordBefore])

/-- The offsets of the statements of a keyword cut them out of the text. -/
theorem map_written_statements {bodies : List (List Char)} {spans : List Span}
    (h : List.Forall₂ (StatementAt keyword text) bodies spans) :
    bodies.map (fun body => some (written keyword body)) =
      spans.map fun span => slice? span.start (span.stop + 1) text.toList := by
  induction h with
  | nil => rfl
  | cons hat _ ih => rw [List.map_cons, List.map_cons, hat.slice?_written, ih]

theorem packageName?_eq_some_iff {name : String} :
    packageName? text = some name ↔
      ∃ span body, Stated "package" text span ∧
        (∀ other, Stated "package" text other → span.start ≤ other.start) ∧
        slice? (span.start + byteLength "package".toList) span.stop text.toList = some body ∧
        name = String.ofList (trim body) := by
  obtain ⟨spans, hsearch, hall⟩ := statements_spans "package" text
  rw [packageName?]
  generalize statements "package" text = bodies at hall ⊢
  cases hall with
  | nil =>
    simp only [List.head?_nil, Option.map_none, reduceCtorEq, false_iff]
    rintro ⟨span, _, hspan, -⟩
    cases hsearch with
    | none hnone => exact absurd (hnone span hspan) (Nat.not_lt_zero _)
  | @cons body span bodies spans hat hall =>
    rw [List.head?_cons, Option.map_some, Option.some.injEq]
    cases hsearch with
    | next hspan _ hleast _ =>
      have hfirst := fun other hother => hleast other hother (Nat.zero_le _)
      constructor
      · rintro rfl
        exact ⟨span, body, hspan, hfirst, hat.slice?_body, rfl⟩
      · rintro ⟨span', body', hspan', hfirst', hcut, rfl⟩
        obtain rfl := hspan.unique hspan'
          (Nat.le_antisymm (hfirst span' hspan') (hfirst' span hspan))
        rw [hat.slice?_body, Option.some.injEq] at hcut
        rw [hcut]

theorem packageName?_eq_none_iff :
    packageName? text = none ↔ ∀ span, ¬ Stated "package" text span := by
  obtain ⟨spans, hsearch, hall⟩ := statements_spans "package" text
  rw [packageName?]
  generalize statements "package" text = bodies at hall ⊢
  cases hall with
  | nil =>
    cases hsearch with
    | none hnone =>
      exact ⟨fun _ span hspan => absurd (hnone span hspan) (Nat.not_lt_zero _), fun _ => rfl⟩
  | cons hat hall =>
    simp only [List.head?_cons, Option.map_some, reduceCtorEq, false_iff, not_forall, not_not]
    exact ⟨_, _, hat⟩

/-- Every statement that occurs lies inside one that is found, and no other. -/
theorem exists_unique_around (hkeyword : IsName keyword) {spans : List Span}
    (h : Leftmost (Stated keyword text) Span.start Span.stop 0 spans)
    (hspan : Stated keyword text span) :
    ∃! found, found ∈ spans ∧ found.start ≤ span.start ∧ span.stop ≤ found.stop := by
  have hone : ∀ a b, Stated keyword text a → Stated keyword text b → a.start = b.start → a = b :=
    fun _ _ ha hb => ha.unique hb
  have hlong : ∀ a, Stated keyword text a → a.start < a.stop := fun _ ha => ha.start_lt_stop
  obtain ⟨found, hmem, hle, hinside⟩ : ∃ found ∈ spans,
      found.start ≤ span.start ∧ span.start ≤ found.stop := by
    rcases h.covers hone hspan (Nat.zero_le _) with hmem | ⟨found, hmem, hlt, hinside⟩
    · exact ⟨span, hmem, Nat.le_refl _, Nat.le_of_lt hspan.start_lt_stop⟩
    · exact ⟨found, hmem, Nat.le_of_lt hlt, hinside⟩
  have hstop := (h.occurs found hmem).stop_eq hkeyword hspan hle hinside
  refine ⟨found, ⟨hmem, hle, Nat.le_of_eq hstop⟩, ?_⟩
  rintro other ⟨hother, hle', hstop'⟩
  have hend := hspan.start_lt_stop
  exact h.eq_of_shared hlong hother hmem ⟨hle', by omega⟩ ⟨hle, hinside⟩

theorem count_semicolon_written (hkeyword : IsName keyword) (hbody : Body body) :
    (written keyword body).count ';' = 1 := by
  have hnone : (keyword.toList ++ body).count ';' = 0 :=
    List.count_eq_zero.2
      (List.not_mem_append (hkeyword.not_mem not_isWord_semicolon) hbody.no_semicolon)
  rw [written, List.count_append, hnone]
  rfl

/-- The package is the one named by the statement that begins first. The imports are those that one
search finds, the only one; they stand in order and apart, each with one semicolon, and an import
statement that is not among them lies inside one that is. -/
theorem statements_leftmost (text : String) :
    (packageName? text = none ↔ ∀ span, ¬ Stated "package" text span) ∧
      (∀ name, packageName? text = some name ↔ ∃ span body, Stated "package" text span ∧
        (∀ other, Stated "package" text other → span.start ≤ other.start) ∧
        slice? (span.start + 7) span.stop text.toList = some body ∧
        name = String.ofList (trim body)) ∧
      ∃ spans,
        (∀ found, Leftmost (Stated "import" text) Span.start Span.stop 0 found ↔ found = spans) ∧
        ((imports text).map fun line => some line.toList) =
          (spans.map fun span => slice? span.start (span.stop + 1) text.toList) ∧
        spans.Pairwise (fun earlier later => earlier.stop < later.start) ∧
        (∀ line ∈ imports text, line.toList.count ';' = 1) ∧
        ∀ span, Stated "import" text span →
          ∃! found, found ∈ spans ∧ found.start ≤ span.start ∧ span.stop ≤ found.stop := by
  have hlength : byteLength "package".toList = 7 := by decide
  refine ⟨packageName?_eq_none_iff, fun name => hlength ▸ packageName?_eq_some_iff, ?_⟩
  obtain ⟨spans, hsearch, hall⟩ := statements_spans "import" text
  refine ⟨spans, fun found => ⟨fun h => h.unique (fun _ _ ha hb => ha.unique hb) hsearch, ?_⟩, ?_,
    hsearch.pairwise (fun _ ha => ha.start_lt_stop), ?_,
    fun span hspan => exists_unique_around isName_import hsearch hspan⟩
  · rintro rfl
    exact hsearch
  · rw [← map_written_statements hall, imports, List.map_map]
    refine List.map_congr_left fun body _ => ?_
    exact congrArg some String.toList_ofList
  · intro line hline
    obtain ⟨body, hbody, rfl⟩ := List.mem_map.1 hline
    rw [String.toList_ofList]
    exact count_semicolon_written isName_import (body_of_mem_statementsFrom hbody)

/-- A keyword inside a statement begins one of its own, which is not found. -/
example : imports "import a import b;import c;" = ["import a import b;", "import c;"] := by
  decide +kernel

end

end Source
end SourceSplit
