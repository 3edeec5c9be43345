import SourceSplit.Proofs.Brace.Token
import SourceSplit.Proofs.Source.Search
import SourceSplit.Proofs.Text.Ascii

/-!
# SourceSplit.Proofs.Source.Comment

The comment in front of a class. A block comment ends with the first `*` `/` behind the two
characters that open it; a header takes its comment to end with the first one behind three. The two
differ in one case, the comment that has no inside: there the header runs on to the end of a later
comment, with whatever stands between the two (`comment_ends_before_public_iff`).
-/

namespace SourceSplit
namespace Source

open Text

/-- A block comment stands in the text, from its opener up to the first `*` `/` behind it. -/
def CommentAt (text : String) (start : Nat) (comment : List Char) : Prop :=
  ∃ front body behind, text.toList = front ++ (comment ++ behind) ∧ start = byteLength front ∧
    comment = ['/', '*'] ++ (body ++ ['*', '/']) ∧ FirstClose body (body ++ '*' :: '/' :: behind)

theorem FirstClose.unique {a b cs x y : List Char} (ha : FirstClose a cs) (hb : FirstClose b cs)
    (hx : cs = a ++ '*' :: '/' :: x) (hy : cs = b ++ '*' :: '/' :: y) : a = b :=
  (List.append_inj (hx.symm.trans hy) (Nat.le_antisymm (ha b y hy) (hb a x hx))).1

/-! ## The comment as a token -/

/-- The first `*` `/` of a text is the first of its bytes. -/
theorem FirstClose.closedBehind {body behind : List Char}
    (h : FirstClose body (body ++ '*' :: '/' :: behind)) :
    Brace.ClosedBehind (bytes body) (bytes behind) := by
  intro before after hbytes
  have hstar : bytes (body ++ '*' :: '/' :: behind) =
      before ++ '*'.val.toUInt8 :: '/'.val.toUInt8 :: after := by
    rw [bytes_append]
    exact hbytes
  obtain ⟨as, bs, hcs, rfl, hbs⟩ := exists_char_of_byte (d := '*') (by decide) hstar
  obtain ⟨none, ds, rfl, hnone, -⟩ := @exists_char_of_byte _ [] _ '/' (by decide) hbs
  have hnil : none = [] := by
    apply eq_nil_of_byteLength
    rw [← length_bytes, hnone, List.length_nil]
  rw [hnil, List.nil_append] at hcs
  obtain ⟨more, rfl⟩ : body <+: as :=
    List.prefix_of_prefix_length_le ⟨_, rfl⟩ ⟨_, hcs.symm⟩ (h as ds hcs)
  rw [bytes_append, List.length_append]
  exact Nat.le_add_right _ _

/-- The comment is the token that the scan for braces would take there. -/
theorem CommentAt.first {text : String} {start : Nat} {comment : List Char}
    (h : CommentAt text start comment) :
    ∃ rest, Brace.First ((bytes text.toList).drop start) ⟨.comment, bytes comment⟩ rest := by
  obtain ⟨front, body, behind, htext, rfl, rfl, hfirst⟩ := h
  have hopener : bytes ['/', '*'] = Brace.opener := rfl
  have hcloser : bytes ['*', '/'] = Brace.closer := rfl
  have htoken := Brace.First.comment hfirst.closedBehind
  refine ⟨bytes behind, ?_⟩
  rw [htext, bytes_append, ← length_bytes, List.drop_left]
  simpa only [bytes_append, hopener, hcloser, List.append_assoc] using htoken

/-! ## The comment and the header -/

section

variable {text : String} {header : Header} {parts : Parts} {comment : List Char}

theorem CommentAt.unique {start : Nat} {comment' : List Char} (h : CommentAt text start comment)
    (h' : CommentAt text start comment') : comment = comment' := by
  obtain ⟨front, body, behind, htext, hstart, rfl, hfirst⟩ := h
  obtain ⟨front', body', behind', htext', hstart', rfl, hfirst'⟩ := h'
  obtain ⟨between, rfl, hcs⟩ :=
    exists_between (htext.symm.trans htext') (Nat.le_of_eq (hstart.symm.trans hstart'))
  obtain rfl : between = [] := by
    rw [byteLength_append] at hstart'
    exact eq_nil_of_byteLength (by omega)
  have hbody : body ++ '*' :: '/' :: behind = body' ++ '*' :: '/' :: behind' := by
    simpa using hcs
  rw [← hbody] at hfirst'
  rw [hfirst.unique hfirst' rfl hbody]

theorem Parts.opens_short_iff (parts : Parts) :
    "/**/".toList <+: parts.comment ↔ parts.inner.head? = some '/' := by
  have hshort : "/**/".toList = "/**".toList ++ ['/'] := rfl
  rw [hshort, Parts.comment, List.prefix_append_right_inj]
  cases parts.inner with
  | nil => simp
  | cons c inner => simp [eq_comm]

theorem Parts.Fits.exists_behind {cs rest : List Char} (h : parts.Fits cs rest) :
    ∃ behind, cs = parts.comment ++ behind ∧
      FirstClose parts.inner (parts.inner ++ '*' :: '/' :: behind) := by
  have hinner := h.inner
  obtain ⟨behind, hcs⟩ : parts.comment <+: cs := by
    rw [h.text, Parts.text, Parts.lead]
    simp only [List.append_assoc, List.prefix_append]
  refine ⟨behind, hcs.symm, ?_⟩
  rw [← hcs] at hinner
  simpa [Parts.comment] using hinner

/-- The comment of a header is a block comment, unless a slash follows its second star. -/
theorem HeaderAt.commentAt (h : HeaderAt text parts header)
    (hslash : parts.inner.head? ≠ some '/') : CommentAt text header.start parts.comment := by
  obtain ⟨front, cs, rest, htext, hstart, hfits⟩ := h.fits
  obtain ⟨behind, rfl, hfirst⟩ := hfits.exists_behind
  refine ⟨front, '*' :: parts.inner, behind, htext, hstart, rfl, firstClose_cons hfirst ?_⟩
  intro after hafter
  have htail := (List.cons.inj hafter).2
  cases hinner : parts.inner with
  | nil => simp [hinner] at htail
  | cons c inner =>
    rw [hinner] at htail hslash
    exact hslash (congrArg some (List.cons.inj htail).1)

/-- A slash behind the second star closes the block comment. -/
theorem HeaderAt.commentAt_of_slash (h : HeaderAt text parts header)
    (hslash : parts.inner.head? = some '/') : CommentAt text header.start "/**/".toList := by
  obtain ⟨front, cs, rest, htext, hstart, hfits⟩ := h.fits
  obtain ⟨behind, rfl, _⟩ := hfits.exists_behind
  obtain ⟨inner, hinner⟩ := List.head?_eq_some_iff.1 hslash
  refine ⟨front, [], inner ++ '*' :: '/' :: behind, ?_, hstart, rfl, fun _ _ _ => Nat.zero_le _⟩
  rw [htext, Parts.comment, hinner]
  simp

/-- Only blanks lie between the block comment that opens with a header and the `public` of the
header, unless that comment has no inside. -/
theorem comment_ends_before_public_iff (h : header ∈ headers text) :
    (∃ parts, HeaderAt text parts header) ∧ (∃ comment, CommentAt text header.start comment) ∧
      ∀ parts comment, HeaderAt text parts header → CommentAt text header.start comment →
        (∃ rest,
          Brace.First ((bytes text.toList).drop header.start) ⟨.comment, bytes comment⟩ rest) ∧
        ((∃ blanks, parts.lead = comment ++ blanks ∧ ∀ c ∈ blanks, isBlank c = true) ↔
          ¬ "/**/".toList <+: parts.comment) := by
  have hoccurs : Occurs text header :=
    (headersFrom_leftmost 0 text.toList [] rfl rfl).occurs header h
  obtain ⟨found, hat⟩ := hoccurs
  refine ⟨⟨found, hat⟩, ?_, fun parts comment hparts hcomment => ⟨hcomment.first, ?_⟩⟩
  · by_cases hslash : found.inner.head? = some '/'
    · exact ⟨_, hat.commentAt_of_slash hslash⟩
    · exact ⟨_, hat.commentAt hslash⟩
  · rw [parts.opens_short_iff]
    by_cases hslash : parts.inner.head? = some '/'
    · obtain rfl := hcomment.unique (hparts.commentAt_of_slash hslash)
      obtain ⟨inner, hinner⟩ := List.head?_eq_some_iff.1 hslash
      simp only [hslash, not_true_eq_false, iff_false]
      rintro ⟨blanks, hlead, hblank⟩
      -- What the header goes on with holds the star that ends its own comment.
      have hstar : '*' ∈ blanks := by
        have hcancel : inner ++ (['*', '/'] ++ parts.beforePublic) = blanks := by
          rw [Parts.lead, Parts.comment, hinner] at hlead
          simpa using hlead
        rw [← hcancel]
        simp
      exact absurd (hblank '*' hstar) (by decide)
    · obtain rfl := hcomment.unique (hparts.commentAt hslash)
      obtain ⟨_, _, _, _, _, hfits⟩ := hparts.fits
      simp only [hslash, not_false_eq_true, iff_true]
      exact ⟨parts.beforePublic, rfl, hfits.beforePublic⟩

end

def shortText : String :=
  "/**/int x;/** */public class A\x7b\x7d"

/-- The statement between the two comments goes with the class. -/
theorem comment_ends_before_code :
    ⟨"A", 0, 30⟩ ∈ headers shortText ∧ ∃ parts comment,
      HeaderAt shortText parts ⟨"A", 0, 30⟩ ∧ CommentAt shortText 0 comment ∧
        ¬ ∃ blanks, parts.lead = comment ++ blanks ∧ ∀ c ∈ blanks, isBlank c = true := by
  have hheaders : headers shortText = [⟨"A", 0, 30⟩] := by decide +kernel
  have hmem : ⟨"A", 0, 30⟩ ∈ headers shortText := by simp [hheaders]
  obtain ⟨⟨parts, hparts⟩, ⟨comment, hcomment⟩, hall⟩ := comment_ends_before_public_iff hmem
  have hshort : "/**/".toList <+: parts.comment := by
    obtain ⟨front, cs, rest, htext, hstart, hfits⟩ := hparts.fits
    obtain rfl := eq_nil_of_byteLength hstart.symm
    obtain ⟨behind, rfl, -⟩ := hfits.exists_behind
    have hopens : "/**/".toList <+: parts.comment ++ behind := by
      rw [← List.nil_append (parts.comment ++ behind), ← htext]
      decide
    refine List.prefix_of_prefix_length_le hopens (List.prefix_append _ _) ?_
    rw [Parts.comment]
    simp
  exact ⟨hmem, parts, comment, hparts, hcomment, fun hblank =>
    (hall parts comment hparts hcomment).2.1 hblank hshort⟩

end Source
end SourceSplit
