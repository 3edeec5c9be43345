import SourceSplit.Proofs.Brace.Nested
import SourceSplit.Proofs.Source.Search
import SourceSplit.Proofs.Split.Declared

/-!
# SourceSplit.Proofs.Source.Nested

Declarations inside one another. A class whose brace stands in code between the braces of another
class has all of its declaration there, doc comment included (`declarations_nest`): its header
begins behind the brace of the outer class, since headers stand apart, and its braces close first.
-/

namespace SourceSplit
namespace Source

open Text
open Brace (BraceAt Inner closingOffset)

section

variable {text : String} {header outer inner : Header}

theorem braceAt_of_mem_headers (h : header ∈ headers text) : BraceAt text header.brace := by
  obtain ⟨front, found, htext, _, rfl⟩ := exists_found h
  have hfront : 0 + byteLength front + byteLength found.text =
      (bytes (front ++ found.text)).length := by
    rw [length_bytes, byteLength_append, Nat.zero_add]
  have hopening : String.utf8EncodeChar '\x7b' = [Brace.Byte.opening] := by decide
  rw [BraceAt, htext, ← List.append_assoc, bytes_append, bytes_cons, hfront, hopening]
  simp

/-- The header of a brace behind another header's brace is all behind it. -/
theorem brace_lt_start (houter : outer ∈ headers text) (hinner : inner ∈ headers text)
    (hlt : outer.brace < inner.brace) : outer.brace < inner.start := by
  have hspan : ∀ header, Occurs text header → header.start < header.brace :=
    fun _ h => h.start_lt_brace
  have hsearch : Leftmost (Occurs text) Header.start Header.brace 0 (headers text) :=
    headersFrom_leftmost 0 text.toList [] rfl rfl
  have hapart := List.pairwise_iff_getElem.1 (hsearch.pairwise hspan)
  obtain ⟨i, hi, rfl⟩ := List.getElem_of_mem houter
  obtain ⟨j, hj, rfl⟩ := List.getElem_of_mem hinner
  rcases Nat.lt_trichotomy i j with hij | rfl | hji
  · exact hapart i j hi hj hij
  · exact absurd hlt (Nat.lt_irrefl _)
  · have hbefore := hapart j i hj hi hji
    have hstart := hspan _ (hsearch.occurs _ houter)
    omega

end

/-- Brace structures do not overlap: one that opens in code inside another closes inside it, two
inside the same one are apart or one inside the other, and a class with its brace inside another
class has its declaration there. -/
theorem declarations_nest (text : String) :
    (∀ start stop, BraceAt text start → closingOffset text start = .ok stop →
      (∀ offset, Inner text start stop offset →
        ∃ close, closingOffset text offset = .ok close ∧ offset < close ∧ close < stop) ∧
      ∀ offset offset' close close', Inner text start stop offset → Inner text start stop offset' →
        offset < offset' → closingOffset text offset = .ok close →
        closingOffset text offset' = .ok close' → close < offset' ∨ close' < close) ∧
    ∀ outer inner, outer ∈ headers text → inner ∈ headers text →
      ∀ decl, outer.declaration text = .ok decl → Inner text outer.brace decl.stop inner.brace →
        ∃ decl', inner.declaration text = .ok decl' ∧
          decl.header.brace < decl'.header.start ∧ decl'.stop < decl.stop := by
  refine ⟨fun start stop hstart hstop => ⟨fun offset h => h.closes hstart hstop, ?_⟩, ?_⟩
  · intro offset offset' close close' h h' hlt hclose hclose'
    exact h.apart_or_inside hstart h' hlt hclose hclose'
  · intro outer inner houter hinner decl hdecl h
    obtain ⟨rfl, hstop⟩ := declaration_eq_ok_iff.1 hdecl
    obtain ⟨close, hclose, _, hlt⟩ := h.closes (braceAt_of_mem_headers houter) hstop
    refine ⟨⟨inner, close⟩, declaration_eq_ok_iff.2 ⟨rfl, hclose⟩, ?_, hlt⟩
    exact brace_lt_start houter hinner h.behind

/-- A class inside a class, and a pair of braces behind it. -/
def nestedText : String :=
  "/***/public class A\x7b/***/public class B\x7b\x7d\x7b\x7d\x7d"

theorem headers_nestedText : headers nestedText = [⟨"A", 0, 19⟩, ⟨"B", 20, 39⟩] := by
  decide +kernel

/-- The walk from the outer brace is in code again behind the comment, and at both inner braces. -/
theorem inner_nestedText :
    Inner nestedText 19 43 39 ∧ Inner nestedText 19 43 41 := by
  have hmarks : (Brace.marks nestedText).drop 19 =
      [.opening, .slash, .star, .star, .star, .slash] ++ List.replicate 14 .other ++
        [.opening, .closing, .opening, .closing, .closing] := by
    decide +kernel
  have hfirst : Brace.Steps (Brace.State.start nestedText 19)
      ⟨.code, 1, 39, [.opening, .closing, .opening, .closing, .closing]⟩ := by
    rw [Brace.State.start, hmarks]
    iterate 18 refine .head (.go rfl) ?_
    exact .refl
  have hsecond : Brace.Steps (Brace.State.start nestedText 19)
      ⟨.code, 1, 41, [.opening, .closing, .closing]⟩ := by
    refine hfirst.trans (.head (.go rfl) (.head (.go rfl) ?_))
    exact .refl
  exact ⟨⟨by decide, by decide, rfl, _, hfirst, rfl, rfl⟩,
    ⟨by decide, by decide, rfl, _, hsecond, rfl, rfl⟩⟩

theorem declarations_nest_sample :
    (∃ close, closingOffset nestedText 39 = .ok close ∧ 39 < close ∧ close < 43) ∧
      (∀ close close', closingOffset nestedText 39 = .ok close →
        closingOffset nestedText 41 = .ok close' → close < 41 ∨ close' < close) ∧
      ∃ decl, (⟨"B", 20, 39⟩ : Header).declaration nestedText = .ok decl ∧
        19 < decl.header.start ∧ decl.stop < 43 := by
  obtain ⟨hfirst, hsecond⟩ := inner_nestedText
  have hbrace : BraceAt nestedText 19 := rfl
  have hstop : closingOffset nestedText 19 = .ok 43 := rfl
  have hnest := declarations_nest nestedText
  obtain ⟨hclose, hapart⟩ := hnest.1 19 43 hbrace hstop
  have houter : (⟨"A", 0, 19⟩ : Header).declaration nestedText = .ok ⟨⟨"A", 0, 19⟩, 43⟩ :=
    declaration_eq_ok_iff.2 ⟨rfl, hstop⟩
  refine ⟨hclose 39 hfirst, fun close close' => ?_, ?_⟩
  · exact hapart 39 41 close close' hfirst hsecond (by decide)
  · exact hnest.2 ⟨"A", 0, 19⟩ ⟨"B", 20, 39⟩ (by simp [headers_nestedText])
      (by simp [headers_nestedText]) _ houter hfirst

end Source
end SourceSplit
