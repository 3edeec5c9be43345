import SourceSplit.Cli.Arguments
import SourceSplit.Proofs.Files.Leads

/-!
# SourceSplit.Proofs.Cli.Arguments

The flag for a dry run, through the reading of the arguments. No argument lowers a flag that was
raised, and `--dry-run` raises its own wherever it stands before `--`: it looks like no value, so
no option in front takes it for one (`asks_of_read`, `dryRun_of_mem`).
-/

namespace SourceSplit
namespace Cli

open Files (exists_of_bind_eq_ok)

section

variable {draft next after : Draft} {argument : String} {rest args : List String}

/-! ## Single arguments -/

theorem flags_of_set {slot : Slot} {value : String} (h : draft.set slot value = .ok after) :
    after.flags = draft.flags := by
  unfold Draft.set at h
  split at h
  · cases h
  · split at h <;> cases h
    rfl

theorem flags_of_addInput (h : draft.addInput argument = .ok after) :
    after.flags = draft.flags := by
  unfold Draft.addInput at h
  split at h
  · cases h
  · exact flags_of_set h

theorem flags_of_addLetter {letter : Char} (h : draft.addLetter letter = .ok after) :
    after.flags = draft.flags := by
  unfold Draft.addLetter at h
  split at h <;> cases h
  rfl

theorem flags_of_foldlM {α : Type} {add : Draft → α → Except Stop Draft}
    (hadd : ∀ {draft after : Draft} {x : α}, add draft x = .ok after → after.flags = draft.flags)
    {xs : List α} (h : xs.foldlM add draft = .ok after) : after.flags = draft.flags := by
  induction xs generalizing draft with
  | nil =>
    cases h
    rfl
  | cons x xs ih =>
    rw [List.foldlM_cons] at h
    obtain ⟨next, hnext, h⟩ := exists_of_bind_eq_ok h
    rw [ih h, hadd hnext]

theorem flags_of_raise {flag : Flag} (h : draft.raise flag = .ok after) :
    after.flags = draft.flags ++ [flag] := by
  unfold Draft.raise at h
  split at h <;> cases h
  rfl

/-- A name that stands alone lowers no flag, and raises its own. -/
theorem flags_of_addBare {name : LongName} (h : draft.addBare name = .ok after) :
    draft.flags ⊆ after.flags ∧ ∀ flag, name = .flag flag → flag ∈ after.flags := by
  cases name with
  | flag flag =>
    rw [flags_of_raise h]
    refine ⟨List.subset_append_left _ _, fun other hother => ?_⟩
    cases hother
    simp
  | verbose =>
    cases h
    exact ⟨List.Subset.refl _, nofun⟩
  | value _ | help | version => cases h

theorem eq_of_endOfOptions (h : Word.ofText argument = .endOfOptions) : argument = "--" := by
  unfold Word.ofText at h
  split at h
  · rename_i hl
    rw [← String.toList_inj, hl]
    rfl
  all_goals cases h

theorem ofText_dryRun : Word.ofText "--dry-run" = .long "dry-run" none := by decide +kernel

/-! ## All arguments -/

/-- Reading the arguments lowers no flag, and raises the one for a dry run if it is among them. -/
structure Asks (draft : Draft) (args : List String) (after : Draft) : Prop where
  kept : draft.flags ⊆ after.flags
  dryRun : "--dry-run" ∈ args → "--" ∉ args → Flag.dryRun ∈ after.flags

theorem Asks.cons (h : Asks next rest after) (hflags : draft.flags ⊆ next.flags)
    (hargument : argument = "--dry-run" → Flag.dryRun ∈ next.flags) :
    Asks draft (argument :: rest) after where
  kept := List.Subset.trans hflags h.kept
  dryRun := by
    intro hmem hend
    rcases List.mem_cons.1 hmem with heq | hmem
    · exact h.kept (hargument heq.symm)
    · exact h.dryRun hmem (List.not_mem_of_not_mem_cons hend)

/-- An argument that is not the flag and raises none. -/
theorem Asks.cons_other {word : Word} (h : Asks next rest after)
    (hflags : next.flags = draft.flags) (hargument : Word.ofText argument = word)
    (hne : word ≠ .long "dry-run" none) : Asks draft (argument :: rest) after := by
  refine h.cons (hflags ▸ List.Subset.refl _) ?_
  rintro rfl
  exact absurd (hargument.symm.trans ofText_dryRun) hne

theorem asks_of_read (h : draft.read args = .ok after) : Asks draft args after := by
  fun_induction Draft.read draft args with
  | case1 draft =>
    cases h
    exact ⟨List.Subset.refl _, nofun⟩
  | case2 draft argument rest hargument =>
    refine ⟨(flags_of_foldlM flags_of_addInput h) ▸ List.Subset.refl _, fun _ hend => ?_⟩
    rw [eq_of_endOfOptions hargument] at hend
    exact absurd (.head _) hend
  | case3 draft argument rest hargument ih =>
    obtain ⟨next, hnext, h⟩ := exists_of_bind_eq_ok h
    exact (ih next h).cons_other (flags_of_addInput hnext) hargument nofun
  | case4 draft argument rest letters hargument ih =>
    obtain ⟨next, hnext, h⟩ := exists_of_bind_eq_ok h
    exact (ih next h).cons_other (flags_of_foldlM flags_of_addLetter hnext) hargument nofun
  | case6 draft argument name slot value rest hname hargument ih =>
    obtain ⟨next, hnext, h⟩ := exists_of_bind_eq_ok h
    exact (ih next h).cons_other (flags_of_set hnext) hargument nofun
  | case7 draft argument name slot value rest hname hplain hargument ih =>
    -- The value is a plain word, and so not the flag.
    obtain ⟨next, hnext, h⟩ := exists_of_bind_eq_ok h
    have hvalue : Asks next (value :: rest) after := (ih next h).cons_other rfl hplain nofun
    refine hvalue.cons_other (flags_of_set hnext) hargument ?_
    rintro heq
    cases heq
    cases hname
  | case10 draft argument name bare rest hno hname hargument ih =>
    obtain ⟨next, hnext, h⟩ := exists_of_bind_eq_ok h
    obtain ⟨hkept, hraised⟩ := flags_of_addBare hnext
    refine (ih next h).cons hkept ?_
    rintro rfl
    cases hargument.symm.trans ofText_dryRun
    exact hraised _ (Option.some.inj hname).symm
  | case5 | case8 | case9 => cases h

/-- `--dry-run` asks for a dry run wherever it stands among the options. -/
theorem dryRun_of_mem {arguments : Arguments} (h : Arguments.read args = .ok arguments)
    (hmem : "--dry-run" ∈ args) (hend : "--" ∉ args) : arguments.dryRun = true := by
  obtain ⟨draft, hread, hfinish⟩ := exists_of_bind_eq_ok h
  have hraised := (asks_of_read hread).dryRun hmem hend
  simp only [Draft.finish] at hfinish
  split at hfinish <;> cases hfinish
  exact List.contains_iff_mem.2 hraised

end

end Cli
end SourceSplit
