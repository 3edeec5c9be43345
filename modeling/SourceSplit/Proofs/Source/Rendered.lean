import SourceSplit.Proofs.Brace.Closing
import SourceSplit.Proofs.Source.Header
import SourceSplit.Proofs.Source.Name

/-!
# SourceSplit.Proofs.Source.Rendered

A class file as a document of its own. A declaration always lies in its text, so it can be rendered
(`exists_stands`). If no comment opens in the preamble, the first header of the class file is that of
the class, and its braces close with the last character (`exists_rendered`).
-/

namespace SourceSplit
namespace Source

open Text

/-- A declaration and the text around it. -/
structure Stands (doc : Document) (decl : Declaration) (front behind : List Char)
    (found : FoundHeader) (body : List Char) : Prop where
  text : doc.text.toList = front ++ (found.text ++ '\x7b' :: (body ++ '\x7d' :: behind))
  header : header? (found.text ++ '\x7b' :: (body ++ ['\x7d'])) =
    some ⟨found.name, found.text, body ++ ['\x7d']⟩
  name : decl.header.name = String.ofList found.name
  start : decl.header.start = byteLength front
  brace : decl.header.brace = byteLength front + byteLength found.text
  stop : decl.stop = decl.header.brace + 1 + byteLength body
  closes : ∀ front', Brace.closingOffset (String.ofList (front' ++ '\x7b' :: (body ++ ['\x7d'])))
    (byteLength front') = .ok (byteLength front' + 1 + byteLength body)

section

variable {doc : Document} {decls : List Declaration} {decl : Declaration}

theorem exists_stands (h : doc.declarations = .ok decls) (hd : decl ∈ decls) :
    ∃ front behind found body, Stands doc decl front behind found body := by
  have hmem : decl.header ∈ headers doc.text := by
    rw [← map_header_of_declarations h]
    exact List.mem_map_of_mem hd
  obtain ⟨front, found, htext, hfound, hheader⟩ := exists_found hmem
  rw [Nat.zero_add] at hheader
  have hclosing : Brace.closingOffset (String.ofList ((front ++ found.text) ++ '\x7b' :: found.rest))
      (byteLength (front ++ found.text)) = .ok decl.stop := by
    have hclosing := closingOffset_of_declarations h hd
    rw [← String.ofList_toList (s := doc.text), htext, hheader] at hclosing
    rw [List.append_assoc, byteLength_append]
    exact hclosing
  obtain ⟨whole, behind, hwhole, hstop, hcloses⟩ := Brace.exists_closing hclosing
  have hopening : Char.utf8Size '\x7b' = 1 := by decide
  cases whole with
  | nil => exact absurd (List.cons.inj hwhole).1 (by decide)
  | cons c body =>
    obtain ⟨rfl, hrest⟩ := List.cons.inj hwhole
    refine ⟨front, behind, found, body, by rw [htext, hrest]; rfl, ?_, by rw [hheader],
      by rw [hheader], by rw [hheader], ?_, fun front' => ?_⟩
    · exact header?_of_header? hfound _
    · simp only [hstop, hheader, byteLength_append, byteLength_cons, hopening]
      omega
    · have hclose := hcloses front' []
      rw [byteLength_cons, hopening, ← Nat.add_assoc] at hclose
      exact hclose

/-- The slice of a declaration runs from its comment to its last brace. -/
theorem Stands.slice?_eq {front behind body : List Char} {found : FoundHeader}
    (h : Stands doc decl front behind found body) :
    decl.slice? doc.text = some (String.ofList (found.text ++ '\x7b' :: (body ++ ['\x7d']))) := by
  have hopening : Char.utf8Size '\x7b' = 1 := by decide
  have hclosing : Char.utf8Size '\x7d' = 1 := by decide
  have hcut := slice?_append front (found.text ++ '\x7b' :: (body ++ ['\x7d'])) behind
  have htext : front ++ (found.text ++ '\x7b' :: (body ++ ['\x7d']) ++ behind) =
      doc.text.toList := by
    rw [h.text]
    simp
  have hstop : byteLength front + byteLength (found.text ++ '\x7b' :: (body ++ ['\x7d'])) =
      decl.stop + 1 := by
    simp only [h.stop, h.brace, byteLength_append, byteLength_cons, byteLength_nil, hopening,
      hclosing]
    omega
  rw [htext, hstop] at hcut
  rw [Declaration.slice?, h.start, hcut, Option.map_some]

/-- No header begins in the preamble, or half in it: it ends with an empty line. -/
theorem header?_preamble_eq_none (hopen : ¬ "/**".toList <:+: doc.preamble.toList)
    {front back : List Char} (hsplit : doc.preamble.toList = front ++ back) (hne : back ≠ [])
    (cs : List Char) : header? (back ++ cs) = none := by
  cases hheader : header? (back ++ cs) with
  | none => rfl
  | some found =>
    exfalso
    have hopens := opens_of_header? hheader
    by_cases hlong : 3 ≤ back.length
    · have hback : "/**".toList <+: back :=
        List.prefix_of_prefix_length_le hopens (List.prefix_append back cs) hlong
      exact hopen (hback.isInfix.trans ⟨front, [], by rw [hsplit, List.append_nil]⟩)
    · have hend : ['\n', '\n'] <:+ doc.preamble.toList := by
        rw [Document.preamble, String.toList_append]
        exact List.suffix_append _ _
      have hback : back <:+ ['\n', '\n'] :=
        List.suffix_of_suffix_length_le ⟨front, hsplit.symm⟩ hend (by simp; omega)
      cases back with
      | nil => exact hne rfl
      | cons c back =>
        have hc : c ∈ ['\n', '\n'] := hback.subset (by simp)
        obtain ⟨rest, hrest⟩ := hopens
        obtain rfl : '/' = c := (List.cons.inj hrest).1
        exact absurd hc (by decide)

/-- The class file of a declaration begins with a header of the class, which closes at its end. -/
theorem exists_rendered (h : doc.declarations = .ok decls) (hd : decl ∈ decls)
    (hopen : ¬ "/**".toList <:+: doc.preamble.toList) :
    ∃ slice, decl.slice? doc.text = some slice ∧
      doc.render? decl = some (doc.preamble ++ slice) ∧
      (headers (doc.preamble ++ slice)).head? = some ⟨decl.header.name,
        byteLength doc.preamble.toList,
        byteLength doc.preamble.toList + decl.header.brace - decl.header.start⟩ ∧
      Brace.closingOffset (doc.preamble ++ slice)
          (byteLength doc.preamble.toList + decl.header.brace - decl.header.start) =
        .ok (byteLength (doc.preamble ++ slice).toList - 1) := by
  obtain ⟨front, behind, found, body, hstands⟩ := exists_stands h hd
  have hopening : Char.utf8Size '\x7b' = 1 := by decide
  have hclosing : Char.utf8Size '\x7d' = 1 := by decide
  have hslice := hstands.slice?_eq
  refine ⟨_, hslice, ?_, ?_, ?_⟩
  · rw [Document.render?, hslice, Option.map_some]
  · rw [headers, String.toList_append, String.toList_ofList,
      headersFrom_append fun front back hsplit hne => header?_preamble_eq_none hopen hsplit hne _,
      headersFrom_of_some hstands.header, List.head?_cons, hstands.name, hstands.brace,
      hstands.start, Nat.zero_add, Nat.add_left_comm, Nat.add_sub_cancel_left]
  · have hcloses := hstands.closes (doc.preamble.toList ++ found.text)
    have htext : String.ofList (doc.preamble.toList ++ found.text ++ '\x7b' :: (body ++ ['\x7d'])) =
        doc.preamble ++ String.ofList (found.text ++ '\x7b' :: (body ++ ['\x7d'])) := by
      rw [List.append_assoc, String.ofList_append, String.ofList_toList]
    have hbrace : byteLength (doc.preamble.toList ++ found.text) =
        byteLength doc.preamble.toList + decl.header.brace - decl.header.start := by
      rw [hstands.brace, hstands.start, byteLength_append]
      omega
    rw [htext, hbrace] at hcloses
    rw [hcloses, hstands.brace, hstands.start]
    simp only [String.toList_append, String.toList_ofList, byteLength_append, byteLength_cons,
      byteLength_nil, hopening, hclosing, Except.ok.injEq]
    omega

end

end Source
end SourceSplit
