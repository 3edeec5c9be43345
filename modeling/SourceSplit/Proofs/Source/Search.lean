import SourceSplit.Proofs.Leftmost
import SourceSplit.Proofs.Source.Parts

/-!
# SourceSplit.Proofs.Source.Search

The headers of a text are those that a search from left to right finds (`headers_leftmost`). A
header occurs where its parts stand in the text (`HeaderAt`); of the headers that occur, the one
with the least start is taken, and the search goes on behind its brace.
-/

namespace SourceSplit

namespace Text

theorem eq_nil_of_byteLength {cs : List Char} (h : byteLength cs = 0) : cs = [] := by
  cases cs with
  | nil => rfl
  | cons c cs =>
    have hpos := Char.utf8Size_pos c
    rw [byteLength_cons] at h
    omega

/-- Of two places in a text, the later one lies behind the earlier one. -/
theorem exists_between {front front' cs cs' : List Char} (h : front ++ cs = front' ++ cs')
    (hle : byteLength front ≤ byteLength front') :
    ∃ between, front' = front ++ between ∧ cs = between ++ cs' := by
  rcases List.append_eq_append_iff.1 h with hbetween | ⟨more, rfl, rfl⟩
  · exact hbetween
  · rw [byteLength_append] at hle
    obtain rfl : more = [] := eq_nil_of_byteLength (by omega)
    exact ⟨[], by simp, by simp⟩

end Text

namespace Source

open Text

/-- A header with these parts stands in the text. -/
structure HeaderAt (text : String) (parts : Parts) (header : Header) : Prop where
  fits : ∃ front cs rest, text.toList = front ++ cs ∧ header.start = byteLength front ∧
    parts.Fits cs rest
  name : header.name = String.ofList parts.name
  brace : header.brace = header.start + byteLength parts.text

def Occurs (text : String) (header : Header) : Prop :=
  ∃ parts, HeaderAt text parts header

theorem Parts.text_pos (parts : Parts) : 0 < byteLength parts.text := by
  have hslash : parts.text = '/' :: parts.text.tail := rfl
  have hone := Char.utf8Size_pos '/'
  rw [hslash, byteLength_cons]
  omega

section

variable {text : String} {header : Header} {front cs : List Char}

theorem Occurs.start_lt_brace (h : Occurs text header) : header.start < header.brace := by
  obtain ⟨parts, h⟩ := h
  have hpos := parts.text_pos
  have hbrace := h.brace
  omega

/-- Where a header occurs, it is found at the start of what stands there. -/
theorem Occurs.exists_found (h : Occurs text header) :
    ∃ front cs found, text.toList = front ++ cs ∧ header? cs = some found ∧
      header = ⟨String.ofList found.name, byteLength front,
        byteLength front + byteLength found.text⟩ := by
  obtain ⟨parts, ⟨front, cs, rest, htext, hstart, hfits⟩, hname, hbrace⟩ := h
  rw [hstart] at hbrace
  refine ⟨front, cs, _, htext, hfits.header?_eq, ?_⟩
  rw [← hname, ← hbrace, ← hstart]

theorem occurs_of_header? {found : FoundHeader} (htext : text.toList = front ++ cs)
    (h : header? cs = some found) :
    Occurs text ⟨String.ofList found.name, byteLength front,
      byteLength front + byteLength found.text⟩ := by
  obtain ⟨parts, hfits, hname, hparts⟩ := header?_eq_some_iff.1 h
  exact ⟨parts, ⟨front, cs, _, htext, rfl, hfits⟩, by rw [hname], by rw [hparts]⟩

/-- A header that occurs ahead of a place is found on the way from there. -/
theorem Occurs.exists_ahead (h : Occurs text header) (htext : text.toList = front ++ cs)
    (hle : byteLength front ≤ header.start) :
    ∃ between cs' found, cs = between ++ cs' ∧ header? cs' = some found ∧
      header = ⟨String.ofList found.name, byteLength (front ++ between),
        byteLength (front ++ between) + byteLength found.text⟩ := by
  obtain ⟨front', cs', found, htext', hfound, rfl⟩ := h.exists_found
  obtain ⟨between, rfl, hcs⟩ := exists_between (htext.symm.trans htext') hle
  exact ⟨between, cs', found, hcs, hfound, rfl⟩

theorem Occurs.unique {header' : Header} (h : Occurs text header) (h' : Occurs text header')
    (hstart : header.start = header'.start) : header = header' := by
  obtain ⟨front, cs, found, htext, hfound, rfl⟩ := h.exists_found
  obtain ⟨between, cs', found', rfl, hfound', rfl⟩ := h'.exists_ahead htext (Nat.le_of_eq hstart)
  simp only [byteLength_append] at hstart
  obtain rfl : between = [] := eq_nil_of_byteLength (by omega)
  rw [List.nil_append, hfound', Option.some.injEq] at hfound
  rw [hfound, List.append_nil]

/-- The search from any place in the text on, by induction on what is left of it. -/
theorem headersFrom_leftmost (offset : Nat) (cs : List Char) :
    ∀ front, text.toList = front ++ cs → offset = byteLength front →
      Leftmost (Occurs text) Header.start Header.brace offset (headersFrom offset cs) := by
  fun_induction headersFrom offset cs with
  | case1 offset =>
    rintro front htext rfl
    refine .none fun header h => Nat.lt_of_not_le fun hle => ?_
    obtain ⟨between, cs', found, hcs, hfound, _⟩ := h.exists_ahead htext hle
    obtain ⟨_, rfl⟩ := List.append_eq_nil_iff.1 hcs.symm
    cases hfound
  | case2 offset c rest found hfound brace ih =>
    rintro front htext rfl
    have hopening : Char.utf8Size '\x7b' = 1 := by decide
    refine .next (occurs_of_header? htext hfound) (Nat.le_refl _) (fun b _ hle => hle) ?_
    refine ih (front ++ (found.text ++ ['\x7b'])) ?_ ?_
    · rw [htext, eq_of_header? hfound]
      simp
    · simp only [brace, byteLength_append, byteLength_cons, byteLength_nil, hopening]
      omega
  | case3 offset c rest hnone ih =>
    rintro front htext rfl
    have hnext := ih (front ++ [c]) (by rw [htext]; simp) (by simp)
    refine hnext.skip (Nat.le_add_right _ _) fun header h hle => ?_
    obtain ⟨between, cs', found, hcs, hfound, rfl⟩ := h.exists_ahead htext hle
    cases between with
    | nil =>
      rw [List.nil_append] at hcs
      rw [← hcs] at hfound
      exact absurd hfound (by simp [hnone])
    | cons d between =>
      obtain ⟨rfl, _⟩ := List.cons.inj hcs
      simp only [byteLength_append, byteLength_cons]
      omega

/-- The headers of a text are the outcome of one search, the only one; they stand in order and
apart, and a header that is not among them begins inside one that is. -/
theorem headers_leftmost (text : String) :
    (∀ found, Leftmost (Occurs text) Header.start Header.brace 0 found ↔ found = headers text) ∧
      (∀ header ∈ headers text, header.start < header.brace) ∧
      (headers text).Pairwise (fun earlier later => earlier.brace < later.start) ∧
      ∀ header, Occurs text header → header ∈ headers text ∨
        ∃ reported ∈ headers text,
          reported.start < header.start ∧ header.start ≤ reported.brace := by
  have hone : ∀ a b, Occurs text a → Occurs text b → a.start = b.start → a = b :=
    fun _ _ ha hb => ha.unique hb
  have hspan : ∀ a, Occurs text a → a.start < a.brace := fun _ ha => ha.start_lt_brace
  have hsearch : Leftmost (Occurs text) Header.start Header.brace 0 (headers text) :=
    headersFrom_leftmost 0 text.toList [] rfl rfl
  refine ⟨fun found => ⟨fun h => h.unique hone hsearch, ?_⟩, ?_, hsearch.pairwise hspan, ?_⟩
  · rintro rfl
    exact hsearch
  · exact fun header h => hspan header (hsearch.occurs header h)
  · exact fun header h => hsearch.covers hone h (Nat.zero_le _)

/-- A comment that opens inside a comment begins no header. -/
example : headers "/** a /** b */public class A\x7b\x7d" = [⟨"A", 0, 28⟩] := by decide +kernel

end

end Source
end SourceSplit
