import SourceSplit.Proofs.Brace.Token

/-!
# SourceSplit.Proofs.Brace.Matching

The walk finds the matching brace. Its answer is said on the tokens of the text (`Matching`): the
first brace closes and nothing is open; or a closing brace is the first at which as many are closed
as were opened; or there is no such brace, and some are left open.

* `walk_first`: what the walk makes of one token.
* `matching_walk`: the invariant `Pending` carries the counts of the tokens behind the walk.
* `Matching.unique`: the tokens leave only one answer.
-/

namespace SourceSplit
namespace Brace

open Text

def opened (tokens : List Token) : Nat :=
  tokens.countP (·.kind = .opening)

def closed (tokens : List Token) : Nat :=
  tokens.countP (·.kind = .closing)

/-- The number of bytes that tokens cover. -/
def size (tokens : List Token) : Nat :=
  (tokens.flatMap (·.bytes)).length

/-- A closing brace stands behind `before`. -/
def ClosesAt (tokens before : List Token) : Prop :=
  ∃ brace after, tokens = before ++ brace :: after ∧ brace.kind = .closing

/-- The first brace of all is the closing one behind `before`. -/
def Unmatched (tokens before : List Token) : Prop :=
  ClosesAt tokens before ∧ opened before = 0 ∧ closed before = 0

/-- With the closing brace behind `before`, as many braces are closed as were opened. -/
def Balanced (tokens before : List Token) : Prop :=
  ClosesAt tokens before ∧ opened before = closed before + 1

/-- The answer that the tokens from byte `start` on call for. -/
inductive Matching (start : Nat) (tokens : List Token) : Except Fault Nat → Prop where
  | unmatched {before : List Token} : Unmatched tokens before →
      Matching start tokens (.error (.unmatchedClose (start + size before)))
  | closed {before : List Token} : (∀ b, ¬ Unmatched tokens b) → Balanced tokens before →
      (∀ b, Balanced tokens b → before.length ≤ b.length) →
      Matching start tokens (.ok (start + size before))
  | unterminated {depth : Nat} : (∀ b, ¬ Unmatched tokens b) → (∀ b, ¬ Balanced tokens b) →
      opened tokens = Brace.closed tokens + depth →
      Matching start tokens (.error (.unterminated start depth))

/-! ## The walk over one token -/

theorem ofByte_eq_slash_iff {b : UInt8} : Mark.ofByte b = .slash ↔ b = Byte.slash := by
  unfold Mark.ofByte
  grind

theorem ofByte_eq_star_iff {b : UInt8} : Mark.ofByte b = .star ↔ b = Byte.star := by
  unfold Mark.ofByte
  grind

theorem ofByte_eq_quote_iff {b : UInt8} : Mark.ofByte b = .quote ↔ b = Byte.quote := by
  unfold Mark.ofByte
  grind

theorem ofByte_eq_backslash_iff {b : UInt8} : Mark.ofByte b = .backslash ↔ b = Byte.backslash := by
  unfold Mark.ofByte
  grind

theorem kind_ofByte (b : UInt8) :
    Kind.ofByte b =
      match Mark.ofByte b with
      | .opening => .opening
      | .closing => .closing
      | _ => .other := by
  unfold Mark.ofByte Kind.ofByte
  grind

/-- Two marks that make a token of two bytes come from just these bytes. -/
theorem pair_isPrefix {b : UInt8} {text : List UInt8} {rest : List Mark} {first second : Mark}
    {w : List UInt8} (hf : Mark.ofByte b = first) (hs : text.map Mark.ofByte = second :: rest)
    (hw : ∀ x y, Mark.ofByte x = first → Mark.ofByte y = second → w = [x, y]) :
    w <+: b :: text := by
  cases text with
  | nil => simp at hs
  | cons c text =>
    simp only [List.map_cons, List.cons.injEq] at hs
    rw [hw b c hf hs.1]
    exact ⟨text, rfl⟩

theorem walk_comment_cons {depth offset : Nat} {b : UInt8} {text : List UInt8}
    (h : ¬ closer <+: b :: text) :
    walk .comment depth offset ((b :: text).map Mark.ofByte) =
      walk .comment depth (offset + 1) (text.map Mark.ofByte) := by
  rw [List.map_cons, walk]
  intro rest hb ht
  refine h (pair_isPrefix hb ht ?_)
  intro x y hx hy
  rw [ofByte_eq_star_iff.1 hx, ofByte_eq_slash_iff.1 hy, closer]

theorem walk_closedBehind {body rest : List UInt8} (h : ClosedBehind body rest)
    (depth offset : Nat) :
    walk .comment depth offset ((body ++ (closer ++ rest)).map Mark.ofByte) =
      walk .code depth (offset + body.length + 2) (rest.map Mark.ofByte) := by
  induction body generalizing offset with
  | nil =>
    have hs : Mark.ofByte Byte.star = .star := rfl
    have hc : Mark.ofByte Byte.slash = .slash := rfl
    simp only [closer, List.nil_append, List.cons_append, List.map_cons, hs, hc, walk,
      List.length_nil, Nat.add_zero]
  | cons b body ih =>
    have hno : ¬ closer <+: b :: (body ++ (closer ++ rest)) := by
      rintro ⟨after, hafter⟩
      have := h [] after (by simpa using hafter.symm)
      simp at this
    have hbody : ClosedBehind body rest := by
      intro before after e
      have := h (b :: before) after (by rw [List.cons_append, e, List.cons_append])
      simpa using this
    rw [List.cons_append, walk_comment_cons hno, ih hbody]
    simp only [List.length_cons]
    congr 1
    omega

theorem walk_neverClosed {body : List UInt8} (h : NeverClosed body) (depth offset : Nat) :
    walk .comment depth offset (body.map Mark.ofByte) = .unfinished depth := by
  induction body generalizing offset with
  | nil => exact walk_nil .comment depth offset
  | cons b body ih =>
    have hno : ¬ closer <+: b :: body := by
      rintro ⟨after, hafter⟩
      exact h [] after hafter.symm
    have hbody : NeverClosed body := by
      intro before after e
      exact h (b :: before) after (by rw [e, List.cons_append])
    rw [walk_comment_cons hno, ih hbody]

theorem walk_string_plain {depth offset : Nat} {b : UInt8} {marks : List Mark}
    (hq : b ≠ Byte.quote) (hb : b ≠ Byte.backslash) :
    walk (.string false) depth offset (Mark.ofByte b :: marks) =
      walk (.string false) depth (offset + 1) marks := by
  have h1 := mt ofByte_eq_quote_iff.1 hq
  have h2 := mt ofByte_eq_backslash_iff.1 hb
  cases h : Mark.ofByte b <;> simp_all [walk]

theorem walk_inside {body : List UInt8} (h : Inside body) (depth offset : Nat)
    (rest : List UInt8) :
    walk (.string false) depth offset ((body ++ rest).map Mark.ofByte) =
      walk (.string false) depth (offset + body.length) (rest.map Mark.ofByte) := by
  induction h generalizing offset with
  | nil => simp
  | plain hq hb _ ih =>
    rw [List.cons_append, List.map_cons, walk_string_plain hq hb, ih, List.length_cons]
    congr 1
    omega
  | escaped _ ih =>
    have hb : Mark.ofByte Byte.backslash = .backslash := rfl
    simp only [List.cons_append, List.map_cons, hb, walk]
    rw [ih, List.length_cons, List.length_cons]
    congr 1
    omega

theorem walk_opener (depth offset : Nat) (text : List UInt8) :
    walk .code depth offset ((opener ++ text).map Mark.ofByte) =
      walk .comment depth (offset + 2) (text.map Mark.ofByte) := by
  have hs : Mark.ofByte Byte.slash = .slash := rfl
  have ht : Mark.ofByte Byte.star = .star := rfl
  simp only [opener, List.cons_append, List.nil_append, List.map_cons, hs, ht, walk]

theorem walk_quote (depth offset : Nat) (text : List UInt8) :
    walk .code depth offset ((Byte.quote :: text).map Mark.ofByte) =
      walk (.string false) depth (offset + 1) (text.map Mark.ofByte) := by
  have hq : Mark.ofByte Byte.quote = .quote := rfl
  simp only [List.map_cons, hq, walk]

/-- What the walk does behind a token, by the kind of the token. -/
def walkBehind (token : Token) (depth offset : Nat) (rest : List UInt8) : Ending :=
  match token.kind, depth with
  | .opening, depth => walk .code (depth + 1) (offset + token.bytes.length) (rest.map Mark.ofByte)
  | .closing, 0 => .unmatched offset
  | .closing, 1 => .closed offset
  | .closing, depth + 2 =>
    walk .code (depth + 1) (offset + token.bytes.length) (rest.map Mark.ofByte)
  | _, depth => walk .code depth (offset + token.bytes.length) (rest.map Mark.ofByte)

theorem walk_single {b : UInt8} {rest : List UInt8} (hq : b ≠ Byte.quote)
    (hc : ¬ opener <+: b :: rest) (depth offset : Nat) :
    walk .code depth offset ((b :: rest).map Mark.ofByte) =
      walkBehind ⟨Kind.ofByte b, [b]⟩ depth offset rest := by
  rw [List.map_cons]
  cases hb : Mark.ofByte b with
  | slash =>
    have hno : ∀ marks, rest.map Mark.ofByte = .star :: marks → False := by
      intro marks hm
      refine hc (pair_isPrefix hb hm ?_)
      intro x y hx hy
      rw [ofByte_eq_slash_iff.1 hx, ofByte_eq_star_iff.1 hy, opener]
    rw [walk]
    · simp [walkBehind, kind_ofByte, hb]
    all_goals simp_all
  | quote => exact absurd (ofByte_eq_quote_iff.1 hb) hq
  | closing =>
    rcases depth with _ | _ | depth
    · simp [walk, walkBehind, kind_ofByte, hb]
    · simp [walk, walkBehind, kind_ofByte, hb]
    · simp [walk, walkBehind, kind_ofByte, hb]
  | _ => simp [walk, walkBehind, kind_ofByte, hb]

theorem walk_first {text rest : List UInt8} {token : Token} (h : First text token rest)
    (depth offset : Nat) :
    walk .code depth offset (text.map Mark.ofByte) = walkBehind token depth offset rest := by
  cases h with
  | comment hb =>
    rw [walk_opener, walk_closedBehind hb]
    simp only [walkBehind, opener, closer, List.length_append, List.length_cons, List.length_nil]
    congr 1
    omega
  | openComment hn =>
    rw [walk_opener, walk_neverClosed hn]
    simp [walkBehind]
  | @string body rest hi =>
    have hq : Mark.ofByte Byte.quote = .quote := rfl
    rw [walk_quote, walk_inside hi, List.map_cons, hq, walk]
    simp only [walkBehind, List.length_append, List.length_cons, List.length_nil]
    congr 1
    omega
  | openString hi hl =>
    have hb : Mark.ofByte Byte.backslash = .backslash := rfl
    rw [walk_quote, walk_inside hi]
    rcases hl with rfl | rfl <;> simp [walkBehind, walk, hb]
  | single hq hc => exact walk_single hq hc depth offset

/-! ## Counting along the walk -/

@[simp] theorem opened_concat (tokens : List Token) (token : Token) :
    opened (tokens ++ [token]) = opened tokens + if token.kind = .opening then 1 else 0 := by
  simp [opened, List.countP_append, List.countP_cons]

@[simp] theorem closed_concat (tokens : List Token) (token : Token) :
    closed (tokens ++ [token]) = closed tokens + if token.kind = .closing then 1 else 0 := by
  simp [closed, List.countP_append, List.countP_cons]

@[simp] theorem size_concat (tokens : List Token) (token : Token) :
    size (tokens ++ [token]) = size tokens + token.bytes.length := by
  simp [size]

theorem opened_le_of_length_le {before before' rest rest' : List Token}
    (e : before ++ rest = before' ++ rest') (h : before.length ≤ before'.length) :
    opened before ≤ opened before' := by
  have hp : before <+: before' :=
    List.prefix_of_prefix_length_le ⟨rest, e⟩ ⟨rest', rfl⟩ h
  exact hp.sublist.countP_le

/-- The closing braces in front of a place stand before it. -/
theorem closesAt_append_iff {pre rest before : List Token} (h : before.length < pre.length) :
    ClosesAt (pre ++ rest) before ↔ ClosesAt pre before := by
  constructor
  · rintro ⟨brace, after, e, hk⟩
    have hp : before ++ [brace] <+: pre := by
      refine @List.prefix_of_prefix_length_le _ _ _ (pre ++ rest) ⟨after, by simp [e]⟩
        ⟨rest, rfl⟩ ?_
      simp only [List.length_append, List.length_cons, List.length_nil]
      omega
    obtain ⟨between, hbetween⟩ := hp
    exact ⟨brace, between, by simp [← hbetween], hk⟩
  · rintro ⟨brace, after, e, hk⟩
    exact ⟨brace, after ++ rest, by simp [e], hk⟩

theorem ClosesAt.length_lt {tokens before : List Token} (h : ClosesAt tokens before) :
    before.length < tokens.length := by
  obtain ⟨brace, after, rfl, _⟩ := h
  simp only [List.length_append, List.length_cons]
  omega

theorem ClosesAt.closed_pos {tokens before : List Token} (h : ClosesAt tokens before) :
    0 < closed tokens := by
  obtain ⟨brace, after, rfl, hk⟩ := h
  simp only [closed, List.countP_append, List.countP_cons, hk, decide_true, ↓reduceIte]
  omega

/-- The tokens behind the walk while it is under way: `depth` braces are open, and no closing brace
gave the answer. -/
structure Pending (pre : List Token) (depth : Nat) : Prop where
  count : opened pre = closed pre + depth
  fresh : depth = 0 → opened pre = 0
  not_unmatched : ∀ b, ¬ Unmatched pre b
  not_balanced : ∀ b, ¬ Balanced pre b

theorem pending_nil : Pending [] 0 where
  count := rfl
  fresh := fun _ => rfl
  not_unmatched := by
    rintro b ⟨hc, _⟩
    exact absurd hc.length_lt (by simp)
  not_balanced := by
    rintro b ⟨hc, _⟩
    exact absurd hc.length_lt (by simp)

theorem closesAt_concat {pre before : List Token} {token : Token}
    (h : ClosesAt (pre ++ [token]) before) :
    ClosesAt pre before ∨ before = pre ∧ token.kind = .closing := by
  have hlt := h.length_lt
  simp only [List.length_append, List.length_cons, List.length_nil] at hlt
  rcases Nat.lt_or_ge before.length pre.length with hb | hb
  · exact .inl ((closesAt_append_iff hb).1 h)
  · right
    obtain ⟨brace, after, e, hk⟩ := h
    obtain ⟨hpre, htoken⟩ := List.append_inj e (by omega)
    exact ⟨hpre.symm, by rw [(List.cons.inj htoken).1, hk]⟩

/-- One more token that is not an answer. -/
theorem Pending.concat {pre : List Token} {depth depth' : Nat} {token : Token}
    (h : Pending pre depth)
    (hcount : opened (pre ++ [token]) = closed (pre ++ [token]) + depth')
    (hfresh : depth' = 0 → opened (pre ++ [token]) = 0)
    (hkind : token.kind = .closing → 1 < depth) : Pending (pre ++ [token]) depth' where
  count := hcount
  fresh := hfresh
  not_unmatched := by
    rintro b ⟨hc, ho, hcl⟩
    rcases closesAt_concat hc with hc | ⟨rfl, hk⟩
    · exact h.not_unmatched b ⟨hc, ho, hcl⟩
    · have := hkind hk
      have := h.count
      omega
  not_balanced := by
    rintro b ⟨hc, ho⟩
    rcases closesAt_concat hc with hc | ⟨rfl, hk⟩
    · exact h.not_balanced b ⟨hc, ho⟩
    · have := hkind hk
      have := h.count
      omega

theorem Pending.unmatched {pre rest : List Token} {token : Token} (h : Pending pre 0)
    (hk : token.kind = .closing) : Unmatched (pre ++ token :: rest) pre := by
  have ho := h.fresh rfl
  have hc := h.count
  exact ⟨⟨token, rest, rfl, hk⟩, ho, by omega⟩

theorem Pending.balanced {pre rest : List Token} {token : Token} (h : Pending pre 1)
    (hk : token.kind = .closing) :
    (∀ b, ¬ Unmatched (pre ++ token :: rest) b) ∧ Balanced (pre ++ token :: rest) pre ∧
      ∀ b, Balanced (pre ++ token :: rest) b → pre.length ≤ b.length := by
  have hcount := h.count
  refine ⟨?_, ⟨⟨token, rest, rfl, hk⟩, hcount⟩, ?_⟩
  · rintro b ⟨hc, ho, hcl⟩
    rcases Nat.lt_or_ge b.length pre.length with hb | hb
    · exact h.not_unmatched b ⟨(closesAt_append_iff hb).1 hc, ho, hcl⟩
    · obtain ⟨brace, after, e, _⟩ := hc
      have := opened_le_of_length_le e hb
      omega
  · rintro b ⟨hc, ho⟩
    refine Nat.le_of_not_lt fun hb => ?_
    exact h.not_balanced b ⟨(closesAt_append_iff hb).1 hc, ho⟩

/-- From any point of the walk on, by induction on the tokens that are left. -/
theorem matching_walk {text : List UInt8} {tokens : List Token} (hcut : Cut text tokens)
    {start : Nat} {pre : List Token} {depth : Nat} (h : Pending pre depth) :
    Matching start (pre ++ tokens)
      ((walk .code depth (start + size pre) (text.map Mark.ofByte)).toExcept start) := by
  induction hcut generalizing pre depth with
  | done =>
    rw [List.append_nil]
    exact .unterminated h.not_unmatched h.not_balanced h.count
  | @token text rest token tokens hfirst _ ih =>
    rw [walk_first hfirst]
    have hgo : ∀ depth', Pending (pre ++ [token]) depth' →
        Matching start (pre ++ token :: tokens)
          ((walk .code depth' (start + size pre + token.bytes.length)
            (rest.map Mark.ofByte)).toExcept start) := by
      intro depth' h'
      have := ih h'
      rwa [size_concat, List.append_assoc, ← Nat.add_assoc] at this
    have hcount := h.count
    have hfresh := h.fresh
    cases hk : token.kind with
    | opening =>
      simp only [walkBehind, hk]
      exact hgo _ (h.concat (by simp [hk]; omega) (by simp) (by simp [hk]))
    | closing =>
      match depth with
      | 0 =>
        simp only [walkBehind, hk]
        exact .unmatched (h.unmatched hk)
      | 1 =>
        simp only [walkBehind, hk]
        obtain ⟨hu, hb, hleast⟩ := h.balanced hk
        exact .closed hu hb hleast
      | depth + 2 =>
        simp only [walkBehind, hk]
        exact hgo _ (h.concat (by simp [hk]; omega) (by simp) (by simp))
    | _ =>
      simp only [walkBehind, hk]
      exact hgo _ (h.concat (by simp [hk, hcount]) (by simpa [hk] using hfresh) (by simp [hk]))

/-! ## Only one answer -/

theorem Unmatched.length_le {tokens before before' : List Token} (h : Unmatched tokens before)
    (h' : ClosesAt tokens before') : before.length ≤ before'.length := by
  refine Nat.le_of_not_lt fun hlt => ?_
  obtain ⟨⟨brace, after, rfl, _⟩, _, hclosed⟩ := h
  have := ((closesAt_append_iff hlt).1 h').closed_pos
  omega

theorem ClosesAt.eq_of_length_eq {tokens before before' : List Token} (h : ClosesAt tokens before)
    (h' : ClosesAt tokens before') (hlen : before.length = before'.length) : before = before' := by
  obtain ⟨brace, after, rfl, _⟩ := h
  obtain ⟨brace', after', e, _⟩ := h'
  exact (List.append_inj e hlen).1

theorem Matching.unique {start : Nat} {tokens : List Token} {answer answer' : Except Fault Nat}
    (h : Matching start tokens answer) (h' : Matching start tokens answer') : answer = answer' := by
  cases h with
  | unmatched hu =>
    cases h' with
    | unmatched hu' =>
      have hlen := Nat.le_antisymm (hu.length_le hu'.1) (hu'.length_le hu.1)
      rw [hu.1.eq_of_length_eq hu'.1 hlen]
    | closed hn => exact absurd hu (hn _)
    | unterminated hn => exact absurd hu (hn _)
  | closed hn hb hleast =>
    cases h' with
    | unmatched hu' => exact absurd hu' (hn _)
    | closed _ hb' hleast' =>
      have hlen := Nat.le_antisymm (hleast _ hb') (hleast' _ hb)
      rw [hb.1.eq_of_length_eq hb'.1 hlen]
    | unterminated _ hn' => exact absurd hb (hn' _)
  | unterminated hn hnb hd =>
    cases h' with
    | unmatched hu' => exact absurd hu' (hn _)
    | closed _ hb' => exact absurd hb' (hnb _)
    | unterminated _ _ hd' =>
      congr 2
      omega

/-- The offset given for a text is the one that the tokens behind `start` call for, and there is
just one way to cut the text into tokens. -/
theorem closingOffset_matches (text : String) (start : Nat) :
    (byteLength text.toList ≤ start →
      closingOffset text start = .error (.startOutside start (byteLength text.toList))) ∧
    (start < byteLength text.toList →
      ∃ tokens, (∀ ts, Cut ((bytes text.toList).drop start) ts ↔ ts = tokens) ∧
        ∀ answer, Matching start tokens answer ↔ closingOffset text start = answer) := by
  refine ⟨fun h => ?_, fun h => ?_⟩
  · rw [closingOffset, if_neg (by omega)]
  · obtain ⟨tokens, hcut⟩ := exists_cut ((bytes text.toList).drop start)
    -- The walk starts with nothing behind it, where the invariant holds for no reason.
    have hwalk : Matching start tokens (closingOffset text start) := by
      rw [closingOffset, if_pos h, marks, ← List.map_drop]
      have hstart : start + size [] = start := rfl
      rw [← hstart]
      exact matching_walk hcut pending_nil
    refine ⟨tokens, fun ts => ⟨fun h => h.unique hcut, ?_⟩, fun answer => ⟨hwalk.unique, ?_⟩⟩
    · rintro rfl
      exact hcut
    · rintro rfl
      exact hwalk

example : closingOffset "\x7b/*\x7d*//\x7d" 0 = .ok 7 := by rfl

end Brace
end SourceSplit
