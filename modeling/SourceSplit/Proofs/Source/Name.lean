import SourceSplit.Proofs.Source.Header
import SourceSplit.Source.Document

/-!
# SourceSplit.Proofs.Source.Name

The names of the classes in a document, and the declarations that go by them. A class name is a
run of word characters (`isName_of_mem_headers`), so that no slash and no dot stands in it, and
the declarations of a document are those of its headers, one for each and in their order
(`map_header_of_declarations`).
-/

namespace SourceSplit
namespace Source

open Text

structure IsName (name : String) : Prop where
  ne_nil : name.toList ≠ []
  word : ∀ c ∈ name.toList, isWord c = true

theorem not_isWord_slash : isWord '/' = false := by decide

theorem not_isWord_dot : isWord '.' = false := by decide

theorem IsName.not_mem {name : String} (h : IsName name) {c : Char} (hc : isWord c = false) :
    c ∉ name.toList := by
  intro hm
  rw [h.word c hm] at hc
  cases hc

theorem isName_of_header? {cs : List Char} {found : FoundHeader} (h : header? cs = some found) :
    IsName (String.ofList found.name) := by
  unfold header? at h
  split at h
  · cases h
  · split at h
    · cases h
    · rename_i name behind hname
      split at h
      · cases h
      · cases h
        obtain ⟨hne, hmany⟩ := Piece.some1_eq_some_iff.1 hname
        constructor
        · rw [String.toList_ofList]
          exact hne
        · rw [String.toList_ofList]
          exact (Piece.many_eq_some_iff.1 hmany).2.1

theorem isName_of_mem_headersFrom {offset : Nat} {cs : List Char} {header : Header}
    (h : header ∈ headersFrom offset cs) : IsName header.name := by
  fun_induction headersFrom offset cs with
  | case1 => cases h
  | case2 offset c rest found hfound brace ih =>
    rcases List.mem_cons.1 h with rfl | h
    · exact isName_of_header? hfound
    · exact ih h
  | case3 offset c rest _ ih => exact ih h

theorem isName_of_mem_headers {text : String} {header : Header} (h : header ∈ headers text) :
    IsName header.name :=
  isName_of_mem_headersFrom h

/-! ## Declarations -/

theorem text_of_ofText? {text : String} {doc : Document} (h : Document.ofText? text = some doc) :
    doc.text = text := by
  unfold Document.ofText? at h
  obtain ⟨package, _, rfl⟩ := Option.map_eq_some_iff.1 h
  rfl

theorem header_of_declaration {text : String} {header : Header} {decl : Declaration}
    (h : header.declaration text = .ok decl) : decl.header = header := by
  unfold Header.declaration at h
  split at h
  · cases h
    rfl
  · cases h

theorem declared_of_mapM {text : String} {found : List Header} {decls : List Declaration}
    (h : found.mapM (Header.declaration text) = .ok decls) :
    decls.map (·.header) = found ∧
      ∀ decl ∈ decls, decl.header.declaration text = .ok decl := by
  induction found generalizing decls with
  | nil =>
    cases h
    exact ⟨rfl, List.forall_mem_nil _⟩
  | cons header found ih =>
    rw [List.mapM_cons] at h
    cases hone : header.declaration text with
    | error flaw =>
      rw [hone] at h
      cases h
    | ok decl =>
      rw [hone] at h
      cases hrest : found.mapM (Header.declaration text) with
      | error flaw =>
        rw [hrest] at h
        cases h
      | ok more =>
        rw [hrest] at h
        cases h
        obtain ⟨hmap, hall⟩ := ih hrest
        have hheader := header_of_declaration hone
        refine ⟨by rw [List.map_cons, hheader, hmap], List.forall_mem_cons.2 ⟨?_, hall⟩⟩
        rw [hheader]
        exact hone

theorem map_header_of_declarations {doc : Document} {decls : List Declaration}
    (h : doc.declarations = .ok decls) : decls.map (·.header) = headers doc.text := by
  unfold Document.declarations at h
  split at h
  · cases h
  · exact (declared_of_mapM h).1

theorem ne_nil_of_declarations {doc : Document} {decls : List Declaration}
    (h : doc.declarations = .ok decls) : decls ≠ [] := by
  rintro rfl
  have hmap := map_header_of_declarations h
  rw [List.map_nil] at hmap
  rw [Document.declarations, ← hmap] at h
  cases h

/-- Every declaration ends where the braces of its header close. -/
theorem closingOffset_of_declarations {doc : Document} {decls : List Declaration}
    {decl : Declaration} (h : doc.declarations = .ok decls) (hd : decl ∈ decls) :
    Brace.closingOffset doc.text decl.header.brace = .ok decl.stop := by
  unfold Document.declarations at h
  split at h
  · cases h
  · have hone := (declared_of_mapM h).2 decl hd
    unfold Header.declaration at hone
    split at hone
    · rename_i stop hstop
      rw [hstop, ← Except.ok.inj hone]
    · cases hone

theorem isName_of_declarations {doc : Document} {decls : List Declaration} {decl : Declaration}
    (h : doc.declarations = .ok decls) (hd : decl ∈ decls) : IsName decl.header.name := by
  apply isName_of_mem_headers
  rw [← map_header_of_declarations h]
  exact List.mem_map_of_mem hd

end Source
end SourceSplit
