import SourceSplit.Proofs.Brace.Opening
import SourceSplit.Proofs.Ending
import SourceSplit.Proofs.Source.Name
import SourceSplit.Split.Single

/-!
# SourceSplit.Proofs.Split.Declared

The declarations of a document are read all or not at all. They are those of all its headers, or the
first header whose braces do not close is to blame (`declarations_ending`). The only thing that can
be wrong with a header is that braces of it are left open, since every header ends with one.
-/

namespace SourceSplit

section

variable {α β ε ε' : Type} {f : α → Except ε β} {e : ε}

theorem mapError_eq_ok_iff {x : Except ε α} {g : ε → ε'} {a : α} :
    x.mapError g = .ok a ↔ x = .ok a := by
  cases x with
  | ok b => exact ⟨fun h => congrArg _ (Except.ok.inj h), fun h => congrArg _ (Except.ok.inj h)⟩
  | error e => exact ⟨nofun, nofun⟩

theorem mapError_eq_error_iff {x : Except ε α} {g : ε → ε'} {e' : ε'} :
    x.mapError g = .error e' ↔ ∃ e, x = .error e ∧ g e = e' := by
  cases x with
  | ok b => exact ⟨nofun, nofun⟩
  | error e =>
    constructor
    · exact fun h => ⟨e, rfl, Except.error.inj h⟩
    · rintro ⟨_, ⟨⟩, rfl⟩
      rfl

theorem mapM_cons_eq_error_iff {a : α} {xs : List α} :
    (a :: xs).mapM f = .error e ↔
      f a = .error e ∨ (∃ y, f a = .ok y) ∧ xs.mapM f = .error e := by
  rw [List.mapM_cons]
  cases f a with
  | error _ => simp [bind, Except.bind]
  | ok y => cases xs.mapM f <;> simp [bind, Except.bind, pure, Except.pure]

/-- A traversal fails with the first element that cannot be done. -/
theorem mapM_eq_error_iff {xs : List α} :
    xs.mapM f = .error e ↔
      ∃ before x after, xs = before ++ x :: after ∧ (∀ b ∈ before, ∃ y, f b = .ok y) ∧
        f x = .error e := by
  induction xs with
  | nil => simp [pure, Except.pure]
  | cons a xs ih =>
    rw [mapM_cons_eq_error_iff, ih]
    constructor
    · rintro (ha | ⟨ha, before, x, after, rfl, hbefore, hx⟩)
      · exact ⟨[], a, xs, rfl, List.forall_mem_nil _, ha⟩
      · exact ⟨a :: before, x, after, rfl, List.forall_mem_cons.2 ⟨ha, hbefore⟩, hx⟩
    · rintro ⟨before, x, after, hxs, hbefore, hx⟩
      cases before with
      | nil =>
        obtain ⟨rfl, _⟩ := List.cons.inj hxs
        exact .inl hx
      | cons b before =>
        obtain ⟨rfl, rfl⟩ := List.cons.inj hxs
        obtain ⟨hb, hbefore⟩ := List.forall_mem_cons.1 hbefore
        exact .inr ⟨hb, before, x, after, rfl, hbefore, hx⟩

end

namespace Source

open Text

/-- The first header of a text whose braces do not close; `depth` of them are left open. -/
structure FirstOpen (text : String) (header : Header) (depth : Nat) : Prop where
  first : ∃ before after, headers text = before ++ header :: after ∧
    ∀ earlier ∈ before, ∃ stop, Brace.closingOffset text earlier.brace = .ok stop
  open_at_end : Brace.closingOffset text header.brace = .error (.unterminated header.brace depth)
  depth_pos : 1 ≤ depth

section

variable {text : String} {header : Header}

/-- Behind a header there is nothing but braces that close, or braces left open. -/
theorem closes_or_open (h : header ∈ headers text) :
    (∃ stop, Brace.closingOffset text header.brace = .ok stop) ∨
      ∃ depth, 1 ≤ depth ∧ Brace.closingOffset text header.brace =
        .error (.unterminated header.brace depth) := by
  obtain ⟨front, found, htext, _, hheader⟩ := exists_found h
  have hbrace : header.brace = byteLength (front ++ found.text) := by
    rw [hheader, byteLength_append, Nat.zero_add]
  rw [← List.append_assoc] at htext
  rw [hbrace]
  exact Brace.closingOffset_of_opening htext

theorem declaration_eq_ok_iff {decl : Declaration} :
    header.declaration text = .ok decl ↔
      decl.header = header ∧ Brace.closingOffset text header.brace = .ok decl.stop := by
  unfold Header.declaration
  obtain ⟨_, stop⟩ := decl
  cases Brace.closingOffset text header.brace with
  | ok stop' => simp [eq_comm]
  | error cause => simp

theorem exists_declaration_iff :
    (∃ decl, header.declaration text = .ok decl) ↔
      ∃ stop, Brace.closingOffset text header.brace = .ok stop := by
  constructor
  · rintro ⟨decl, h⟩
    exact ⟨decl.stop, (declaration_eq_ok_iff.1 h).2⟩
  · rintro ⟨stop, h⟩
    exact ⟨⟨header, stop⟩, declaration_eq_ok_iff.2 ⟨rfl, h⟩⟩

theorem declaration_eq_error_iff (h : header ∈ headers text) {flaw : Flaw} :
    header.declaration text = .error flaw ↔
      ∃ depth, 1 ≤ depth ∧
        Brace.closingOffset text header.brace = .error (.unterminated header.brace depth) ∧
        flaw = .malformed header.name (.unterminated header.brace depth) := by
  unfold Header.declaration
  rcases closes_or_open h with ⟨stop, hstop⟩ | ⟨depth, hdepth, hopen⟩
  · simp [hstop]
  · simp only [hopen, Except.error.injEq, Brace.Fault.unterminated.injEq, true_and]
    constructor
    · rintro rfl
      exact ⟨depth, hdepth, rfl, rfl⟩
    · rintro ⟨_, _, rfl, rfl⟩
      rfl

/-- A traversal of the headers fails with the first of them that is open. -/
theorem mapM_declaration_eq_error_iff {flaw : Flaw} :
    (headers text).mapM (Header.declaration text) = .error flaw ↔
      ∃ header depth, FirstOpen text header depth ∧
        flaw = .malformed header.name (.unterminated header.brace depth) := by
  rw [mapM_eq_error_iff]
  constructor
  · rintro ⟨before, header, after, hheaders, hbefore, hflaw⟩
    have hmem : header ∈ headers text := by simp [hheaders]
    obtain ⟨depth, hdepth, hopen, rfl⟩ := (declaration_eq_error_iff hmem).1 hflaw
    refine ⟨header, depth, ⟨⟨before, after, hheaders, fun earlier hearlier => ?_⟩, hopen, hdepth⟩,
      rfl⟩
    exact exists_declaration_iff.1 (hbefore earlier hearlier)
  · rintro ⟨header, depth, ⟨⟨before, after, hheaders, hbefore⟩, hopen, hdepth⟩, rfl⟩
    have hmem : header ∈ headers text := by simp [hheaders]
    refine ⟨before, header, after, hheaders, fun earlier hearlier => ?_, ?_⟩
    · exact exists_declaration_iff.2 (hbefore earlier hearlier)
    · exact (declaration_eq_error_iff hmem).2 ⟨depth, hdepth, hopen, rfl⟩

/-- Why the declarations of a document cannot be read. -/
theorem declarations_eq_error_iff {doc : Document} {flaw : Flaw} :
    doc.declarations = .error flaw ↔
      headers doc.text = [] ∧ flaw = .noClasses ∨
        ∃ header depth, FirstOpen doc.text header depth ∧
          flaw = .malformed header.name (.unterminated header.brace depth) := by
  rw [← mapM_declaration_eq_error_iff]
  unfold Document.declarations
  split
  · rename_i hnil
    simp [hnil, pure, Except.pure, eq_comm]
  · rename_i hne
    exact ⟨.inr, fun h => h.elim (fun hnil => absurd hnil.1 hne) id⟩

theorem exists_declarations_iff {doc : Document} :
    (∃ decls, doc.declarations = .ok decls) ↔
      headers doc.text ≠ [] ∧ ∀ header ∈ headers doc.text, ∃ stop,
        Brace.closingOffset doc.text header.brace = .ok stop := by
  constructor
  · rintro ⟨decls, h⟩
    rw [← map_header_of_declarations h, List.forall_mem_map]
    exact ⟨by simp [ne_nil_of_declarations h],
      fun decl hd => ⟨decl.stop, closingOffset_of_declarations h hd⟩⟩
  · rintro ⟨hne, hclose⟩
    cases h : doc.declarations with
    | ok decls => exact ⟨decls, rfl⟩
    | error flaw =>
      rcases declarations_eq_error_iff.1 h with ⟨hnil, _⟩ | ⟨header, depth, hfirst, _⟩
      · exact absurd hnil hne
      · obtain ⟨before, after, hheaders, _⟩ := hfirst.first
        obtain ⟨stop, hstop⟩ := hclose header (by simp [hheaders])
        rw [hfirst.open_at_end] at hstop
        cases hstop

end

end Source

namespace Split

open Source

theorem ending_declarations (doc : Document) (source : Path) (tree : Files.Tree) :
    (declarations doc source).ending tree =
      (doc.declarations.mapError (Failure.ofFlaw source), tree) := by
  unfold declarations
  rw [Work.ending_bind_of_ok (Work.ending_report _ _)]
  cases doc.declarations <;> rfl

theorem declarations_fail_iff {doc : Document} {source : Path} {failure : Failure} :
    doc.declarations.mapError (Failure.ofFlaw source) = .error failure ↔
      headers doc.text = [] ∧ failure = .noClasses source ∨
        ∃ header depth, FirstOpen doc.text header depth ∧
          failure = .malformed header.name (.unterminated header.brace depth) := by
  rw [mapError_eq_error_iff]
  constructor
  · rintro ⟨flaw, h, rfl⟩
    rcases declarations_eq_error_iff.1 h with ⟨hnil, rfl⟩ | ⟨header, depth, hfirst, rfl⟩
    · exact .inl ⟨hnil, rfl⟩
    · exact .inr ⟨header, depth, hfirst, rfl⟩
  · rintro (⟨hnil, rfl⟩ | ⟨header, depth, hfirst, rfl⟩)
    · exact ⟨.noClasses, declarations_eq_error_iff.2 (.inl ⟨hnil, rfl⟩), rfl⟩
    · exact ⟨_, declarations_eq_error_iff.2 (.inr ⟨header, depth, hfirst, rfl⟩), rfl⟩

/-- Reading the declarations of a document leaves the tree alone. It comes to all of them, each with
the end of its braces, or to a failure that names the first header whose braces are left open. -/
theorem declarations_ending (doc : Document) (source : Path) (tree : Files.Tree) :
    ∃ answer, (declarations doc source).ending tree = (answer, tree) ∧
      (answer = .error (.noClasses source) ↔ headers doc.text = []) ∧
      ((∃ decls, answer = .ok decls) ↔ headers doc.text ≠ [] ∧
        ∀ header ∈ headers doc.text, ∃ stop,
          Brace.closingOffset doc.text header.brace = .ok stop) ∧
      (∀ decls, answer = .ok decls → decls.map (·.header) = headers doc.text ∧
        ∀ decl ∈ decls, Brace.closingOffset doc.text decl.header.brace = .ok decl.stop) ∧
      ∀ failure, answer = .error failure ↔
        headers doc.text = [] ∧ failure = .noClasses source ∨
          ∃ header depth, FirstOpen doc.text header depth ∧
            failure = .malformed header.name (.unterminated header.brace depth) := by
  refine ⟨_, ending_declarations doc source tree, ?_, ?_, fun decls hok => ?_,
    fun failure => declarations_fail_iff⟩
  · rw [declarations_fail_iff]
    constructor
    · rintro (⟨hnil, _⟩ | ⟨_, _, _, h⟩)
      · exact hnil
      · cases h
    · exact fun hnil => .inl ⟨hnil, rfl⟩
  · simp only [mapError_eq_ok_iff, exists_declarations_iff]
  · have h := mapError_eq_ok_iff.1 hok
    exact ⟨map_header_of_declarations h, fun decl hd => closingOffset_of_declarations h hd⟩

end Split
end SourceSplit
