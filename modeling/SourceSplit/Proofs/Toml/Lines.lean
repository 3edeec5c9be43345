import SourceSplit.Proofs.Toml.Spelled

/-!
# SourceSplit.Proofs.Toml.Lines

TOML documents that are made of lines `key = value`, with keys that need no quotes. Such a document
has the members that its lines give, in their order, if no key is given twice (`members?_lines`).

The reader takes one line and its end (`line_assignment`), so it takes all lines (`many_lines`);
each of them then adds its member to the table (`add_assign`, `foldlM_add`).
-/

namespace SourceSplit
namespace Toml
namespace Grammar

open Report.Grammar (Run Whole Halts halts_cons)

/-- `unquoted-key` -/
structure IsBare (key : String) : Prop where
  ne_nil : key.toList ≠ []
  all : ∀ c ∈ key.toList, isBareKeyChar c = true

/-- A key and the value that the text begins with, with one space on either side of the sign. -/
def assignment (key : String) (text : List Char) : List Char :=
  key.toList ++ ' ' :: '=' :: ' ' :: text

/-- Lines with one assignment each. The end of the text may end the last of them. -/
inductive Lines : List Char → Members → Prop where
  | none : Lines [] []
  | line {key : String} {text tail rest : List Char} {v : Value} {members : Members} :
      IsBare key → Spells text v tail → LineEnd tail rest → Lines rest members →
      Lines (assignment key text) ((key, v) :: members)

section

variable {key : String} {c : Char} {text tail rest : List Char} {v : Value} {members : Members}

/-! ## Spaces -/

theorem isSpace_eq_false {p : Char → Bool} (hc : p c = true) (hblank : p ' ' = false)
    (htab : p '\t' = false) : isSpace c = false := by
  simp [isSpace, ne_of_holds hc hblank, ne_of_holds hc htab]

theorem dropSpaces_of_halts (h : Halts isSpace text) : dropSpaces text = text := by
  cases text with
  | nil => rfl
  | cons c cs => rw [dropSpaces, List.dropWhile_cons, h c rfl, if_neg Bool.false_ne_true]

theorem dropSpaces_blank (h : Halts isSpace text) : dropSpaces (' ' :: text) = text :=
  dropSpaces_of_halts h

theorem Spells.halts (h : Spells text v tail) : Halts isSpace text := by
  cases h with
  | text _ | trueName | falseName => exact halts_cons rfl
  | decimal hwhole _ _ =>
    obtain ⟨c, cs, rfl, hc⟩ := exists_digit hwhole
    exact halts_cons (isSpace_eq_false hc rfl rfl)

/-! ## One line -/

theorem IsBare.exists_head (h : IsBare key) (text : List Char) :
    ∃ c cs, key.toList ++ text = c :: cs ∧ isBareKeyChar c = true := by
  cases hkey : key.toList with
  | nil => exact absurd hkey h.ne_nil
  | cons c cs => exact ⟨c, cs ++ text, rfl, h.all c (by simp [hkey])⟩

theorem IsBare.halts (h : IsBare key) (text : List Char) : Halts isSpace (key.toList ++ text) := by
  obtain ⟨c, cs, heq, hc⟩ := h.exists_head text
  rw [heq]
  exact halts_cons (isSpace_eq_false hc rfl rfl)

theorem simpleKey_bare (h : IsBare key) (rest : List Char) :
    simpleKey (key.toList ++ ' ' :: rest) = some (key, ' ' :: rest) := by
  have hrun : Run isBareKeyChar (key.toList ++ ' ' :: rest) key.toList (' ' :: rest) := ⟨rfl, h.all⟩
  have hhalts : Halts isBareKeyChar (' ' :: rest) := halts_cons rfl
  obtain ⟨c, cs, heq, hc⟩ := h.exists_head (' ' :: rest)
  rw [heq] at hrun ⊢
  unfold simpleKey
  split
  · exact absurd (List.cons.inj ‹_›).1 (ne_of_holds hc rfl)
  · exact absurd (List.cons.inj ‹_›).1 (ne_of_holds hc rfl)
  · rw [hrun.takeWhile_eq hhalts, hrun.dropWhile_eq hhalts]
    split
    · exact absurd ‹_› h.ne_nil
    · rw [String.ofList_toList]

theorem many_eq_nil {α : Type} {read : Reader α} (h : read text = none) :
    many read text = ([], text) := by
  rw [many, h]

theorem many_eq_cons {α : Type} {read : Reader α} {a : α} (h : read text = some (a, rest))
    (hlt : rest.length < text.length) :
    many read text = (a :: (many read rest).1, (many read rest).2) := by
  rw [many, h]
  simp only [if_pos hlt]

theorem keyPath_bare (h : IsBare key) (rest : List Char) :
    keyPath (key.toList ++ ' ' :: '=' :: rest) = some (⟨[], key⟩, '=' :: rest) := by
  have hspaced : spacedKey (key.toList ++ ' ' :: '=' :: rest) = some (key, '=' :: rest) := by
    rw [spacedKey, dropSpaces_of_halts (h.halts _), simpleKey_bare h]
    rfl
  have hmany : many dottedKey ('=' :: rest) = ([], '=' :: rest) := many_eq_nil rfl
  simp [keyPath, hspaced, hmany, depthLimit]

theorem member_assignment (h : IsBare key) (hv : Spells text v tail) (hend : LineEnd tail rest)
    (depth : Nat) :
    member (value depth) (assignment key text) = some ((⟨[], key⟩, v), tail) := by
  have hvalue : value depth (dropSpaces (' ' :: text)) = some (v, tail) := by
    rw [dropSpaces_blank hv.halts, value_spelled hv hend]
  have htail : dropSpaces tail = tail := dropSpaces_of_halts (hend.halts rfl rfl)
  simp only [member, assignment, keyPath_bare h, hvalue, Option.map_some, htail]

theorem content_assignment (h : IsBare key) (hv : Spells text v tail) (hend : LineEnd tail rest) :
    content (assignment key text) = some (some (.assign ⟨[], key⟩ v), tail) := by
  have hmember := member_assignment h hv hend (depthLimit - 1)
  obtain ⟨c, cs, heq, hc⟩ := h.exists_head (' ' :: '=' :: ' ' :: text)
  rw [assignment, heq] at hmember ⊢
  unfold content
  split
  · exact absurd (List.cons.inj ‹_›).1 (ne_of_holds hc rfl)
  · exact absurd (List.cons.inj ‹_›).1 (ne_of_holds hc rfl)
  · rw [hmember]
    rfl

theorem lineEnd?_bare (hc : isBareKeyChar c = true) (text : List Char) :
    lineEnd? (c :: text) = none := by
  have hdrop : dropSpaces (c :: text) = c :: text :=
    dropSpaces_of_halts (halts_cons (isSpace_eq_false hc rfl rfl))
  have hcomment : c ≠ '#' := ne_of_holds hc rfl
  have hnewline : c ≠ '\n' := ne_of_holds hc rfl
  have hreturn : c ≠ '\r' := ne_of_holds hc rfl
  simp only [lineEnd?, hdrop]
  split <;> simp_all

theorem LineEnd.lineEnd?_eq (h : LineEnd tail rest) : lineEnd? tail = some rest := by
  cases h <;> rfl

theorem line_assignment (h : IsBare key) (hv : Spells text v tail) (hend : LineEnd tail rest) :
    line (assignment key text) = some (some (.assign ⟨[], key⟩ v), rest) := by
  have hcontent := content_assignment h hv hend
  have hdrop := dropSpaces_of_halts (h.halts (' ' :: '=' :: ' ' :: text))
  obtain ⟨c, cs, heq, hc⟩ := h.exists_head (' ' :: '=' :: ' ' :: text)
  rw [assignment, heq] at hcontent ⊢
  rw [heq] at hdrop
  simp only [line, hdrop, lineEnd?_bare hc, hcontent, hend.lineEnd?_eq, Option.map_some]

/-! ## What is left of the text gets shorter -/

theorem Writes.length_lt (h : Writes text c rest) : rest.length < text.length := by
  cases h <;> simp only [List.length_cons] <;> omega

theorem Quoted.length_lt {cs : List Char} (h : Quoted text cs rest) :
    rest.length < text.length := by
  induction h with
  | close => simp
  | char hc _ ih => exact Nat.lt_trans ih hc.length_lt

theorem Spells.length_lt (h : Spells text v tail) : tail.length < text.length := by
  cases h with
  | text hquoted =>
    have hlt := hquoted.length_lt
    simp only [List.length_cons]
    omega
  | trueName | falseName =>
    simp only [List.length_cons]
    omega
  | decimal hwhole _ _ =>
    have hpos := List.length_pos_iff.2 hwhole.ne_nil
    simp only [hwhole.text_eq, List.length_append]
    omega

theorem LineEnd.length_le (h : LineEnd tail rest) : rest.length ≤ tail.length := by
  cases h <;> simp only [List.length_cons, List.length_nil] <;> omega

theorem length_lt_assignment (hv : Spells text v tail) (hend : LineEnd tail rest) :
    rest.length < (assignment key text).length := by
  have hlt := hv.length_lt
  have hle := hend.length_le
  simp only [assignment, List.length_append, List.length_cons]
  omega

/-! ## All lines -/

theorem many_lines (h : Lines text members) :
    many line text = (members.map fun m => some (.assign ⟨[], m.1⟩ m.2), []) := by
  induction h with
  | none => exact many_eq_nil rfl
  | line hkey hv hend _ ih =>
    rw [many_eq_cons (line_assignment hkey hv hend) (length_lt_assignment hv hend), ih]
    rfl

/-- A new key stands behind all others. -/
theorem add_assign {root : Members} (v : Value) (h : root.lookup key = none) :
    Draft.add ⟨root, []⟩ (.assign ⟨[], key⟩ v) = some ⟨root ++ [(key, v)], []⟩ := by
  simp [Draft.add, within, assign, h]

theorem foldlM_add (before : Members) (hkeys : ((before ++ members).map Prod.fst).Nodup) :
    (members.map fun m => Line.assign ⟨[], m.1⟩ m.2).foldlM Draft.add ⟨before, []⟩ =
      some ⟨before ++ members, []⟩ := by
  induction members generalizing before with
  | nil => simp
  | cons m members ih =>
    have hnew : before.lookup m.1 = none := by
      rw [List.lookup_eq_none_iff]
      intro p hp
      rw [List.map_append, List.nodup_append] at hkeys
      have hne : p.1 ≠ m.1 := hkeys.2.2 p.1 (List.mem_map_of_mem hp) m.1 (by simp)
      simpa using hne.symm
    have hkeys' : (((before ++ [m]) ++ members).map Prod.fst).Nodup := by simpa using hkeys
    simp only [List.map_cons, List.foldlM_cons, add_assign m.2 hnew]
    simpa using ih (before ++ [m]) hkeys'

theorem dropMark_lines (h : Lines text members) : dropMark text = text := by
  cases h with
  | none => rfl
  | @line _ behind _ _ _ _ hkey _ _ _ =>
    obtain ⟨c, cs, heq, hc⟩ := hkey.exists_head (' ' :: '=' :: ' ' :: behind)
    rw [assignment, heq]
    unfold dropMark
    split
    · exact absurd (List.cons.inj ‹_›).1 (ne_of_holds hc rfl)
    · rfl

theorem members?_lines {text : String} (h : Lines text.toList members)
    (hkeys : (members.map Prod.fst).Nodup) : members? text = some members := by
  have hlines : (members.map fun m => some (Line.assign ⟨[], m.1⟩ m.2)).filterMap id =
      members.map fun m => Line.assign ⟨[], m.1⟩ m.2 := by
    simp [List.filterMap_map]
  have hdraft := foldlM_add [] hkeys
  simp only [members?, dropMark_lines h, many_lines h, hlines]
  simp [ofLines?, hdraft, dropSpaces]

/-- All members that have a bare key and a value that can be written make a document. -/
theorem exists_lines (h : ∀ m ∈ members, IsBare m.1 ∧ ∀ tail, ∃ text, Spells text m.2 tail) :
    ∃ text, Lines text members := by
  induction members with
  | nil => exact ⟨_, .none⟩
  | cons m members ih =>
    rw [List.forall_mem_cons] at h
    obtain ⟨⟨hkey, hvalue⟩, hmembers⟩ := h
    obtain ⟨rest, hrest⟩ := ih hmembers
    obtain ⟨text, htext⟩ := hvalue ('\n' :: rest)
    exact ⟨_, .line hkey htext .newline hrest⟩

end

end Grammar
end Toml
end SourceSplit
