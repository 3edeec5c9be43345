import Mathlib.Data.List.Nodup
import SourceSplit.Proofs.Files.Beside
import SourceSplit.Proofs.Toml.Lines
import SourceSplit.Split.Config

/-!
# SourceSplit.Proofs.Split.Settings

Options from a file that gives some of them, one on a line. They are the defaults with those
replaced that the file gives, whatever the order of its lines; and all options whose number fits
into TOML's integers can be had from a file (`loadOptions_overrides_defaults`).

One more member replaces one more option (`ofMembers?_cons`), so all members replace all of theirs
(`ofMembers?_settings`). Settings with different keys may trade places (`set_comm`), and all whose
numbers fit can be written (`exists_gives`).
-/

namespace SourceSplit
namespace Split

open Files (Tree)
open Toml (Members Value)
open Toml.Grammar (IsBare Spells Quoted Lines assignment letters)
open Report.Grammar (unit? whole_toDigits)

/-- A value for one of the options. -/
inductive Setting where
  | extension (value : String)
  | backupSuffix (value : String)
  | overwrite (value : Bool)
  | dryRun (value : Bool)
  | minClasses (value : Nat)
  deriving DecidableEq, Repr

namespace Setting

def key : Setting → String
  | .extension _ => "extension"
  | .backupSuffix _ => "backup_suffix"
  | .overwrite _ => "overwrite"
  | .dryRun _ => "dry_run"
  | .minClasses _ => "min_classes"

def value : Setting → Value
  | .extension value | .backupSuffix value => .text value
  | .overwrite value | .dryRun value => .boolean value
  | .minClasses value => .integer value

def member (setting : Setting) : String × Value :=
  (setting.key, setting.value)

/-- The options with this one replaced. -/
def set (setting : Setting) (o : Options) : Options :=
  match setting with
  | .extension value => { o with extension := value }
  | .backupSuffix value => { o with backupSuffix := value }
  | .overwrite value => { o with overwrite := value }
  | .dryRun value => { o with dryRun := value }
  | .minClasses value => { o with minClasses := value }

end Setting

/-- All options, each as a setting. -/
def Options.settings (o : Options) : List Setting :=
  [.extension o.extension, .backupSuffix o.backupSuffix, .overwrite o.overwrite, .dryRun o.dryRun,
    .minClasses o.minClasses]

/-- The text gives the settings, in their order, one on a line. -/
def Gives (text : String) (settings : List Setting) : Prop :=
  Lines text.toList (settings.map Setting.member)

/-- The path leads to a file with the text. -/
def HoldsText (tree : Tree) (path : Path) (text : String) : Prop :=
  ∃ place, Files.status tree path = .ok (.file place text.toUTF8)

section

variable {tree : Tree} {path : Path} {text : String} {members : Members} {o : Options}
  {settings lines : List Setting}

/-! ## Members as options -/

theorem field?_cons_self {α : Type} (key : String) (value : Value) (default : α)
    (read : Value → Option α) : field? ((key, value) :: members) key default read = read value := by
  simp [field?]

theorem field?_cons_of_ne {α : Type} {key other : String} (h : key ≠ other) (value : Value)
    (default : α) (read : Value → Option α) :
    field? ((other, value) :: members) key default read = field? members key default read := by
  have hbeq : (key == other) = false := by simp [h]
  simp only [field?, List.lookup_cons, hbeq]

/-- One more member replaces its option. -/
theorem ofMembers?_cons (setting : Setting) (h : Options.ofMembers? members = some o) :
    Options.ofMembers? (setting.member :: members) = some (setting.set o) := by
  simp only [Options.ofMembers?, bind, Option.bind_eq_some_iff, pure, Option.some.injEq] at h
  obtain ⟨extension, he, suffix, hs, overwrite, ho, dryRun, hd, minClasses, hm, rfl⟩ := h
  cases setting <;>
    simp [Options.ofMembers?, Setting.member, Setting.key, Setting.value, Setting.set,
      field?_cons_self, field?_cons_of_ne, he, hs, ho, hd, hm, textValue?, boolValue?, natValue?]

theorem ofMembers?_settings (settings : List Setting) :
    Options.ofMembers? (settings.map Setting.member) = some (settings.foldr Setting.set {}) := by
  induction settings with
  | nil => rfl
  | cons setting settings ih => exact ofMembers?_cons setting ih

/-! ## The order of the lines -/

theorem set_comm {a b : Setting} (h : a.key ≠ b.key) (o : Options) :
    a.set (b.set o) = b.set (a.set o) := by
  cases a <;> cases b <;> simp [Setting.key, Setting.set] at h ⊢

/-- Settings with different keys may stand in any order. -/
theorem foldr_set_perm (h : lines.Perm settings) (hkeys : (settings.map Setting.key).Nodup)
    (o : Options) : lines.foldr Setting.set o = settings.foldr Setting.set o := by
  have hlines : (lines.map Setting.key).Nodup := (h.map Setting.key).nodup_iff.2 hkeys
  refine h.foldr_eq' (fun a ha b hb o => ?_) o
  by_cases hkey : a.key = b.key
  · rw [List.inj_on_of_nodup_map hlines ha hb hkey]
  · exact (set_comm hkey o).symm

theorem ofText?_gives (h : Gives text lines) (horder : lines.Perm settings)
    (hkeys : (settings.map Setting.key).Nodup) :
    Options.ofText? text = some (settings.foldr Setting.set {}) := by
  have hfirst : (lines.map Setting.member).map Prod.fst = lines.map Setting.key := by
    simp [Function.comp_def, Setting.member]
  have hnodup : ((lines.map Setting.member).map Prod.fst).Nodup := by
    rw [hfirst]
    exact (horder.map Setting.key).nodup_iff.2 hkeys
  rw [Options.ofText?, Toml.Grammar.members?_lines h hnodup, Option.bind_some,
    ofMembers?_settings, foldr_set_perm horder hkeys]

/-- Among settings with different keys the one for a dry run has its way. -/
theorem dryRun_foldr_set {flag : Bool} (h : .dryRun flag ∈ settings)
    (hkeys : (settings.map Setting.key).Nodup) (o : Options) :
    (settings.foldr Setting.set o).dryRun = flag := by
  have horder := List.perm_cons_erase h
  rw [← foldr_set_perm horder.symm hkeys]
  rfl

/-! ## Files with all options -/

theorem foldr_set_settings (o : Options) : o.settings.foldr Setting.set {} = o := rfl

theorem nodup_keys_settings (o : Options) : (o.settings.map Setting.key).Nodup := by
  simp [Options.settings, Setting.key]

theorem isBare_key (setting : Setting) : IsBare setting.key := by
  cases setting with
  | extension _ | backupSuffix _ | overwrite _ | dryRun _ | minClasses _ =>
    simp only [Setting.key]
    exact ⟨by simp, List.all_eq_true.1 (by decide +kernel)⟩

theorem exists_spells_value (setting : Setting)
    (h : ∀ n, setting = .minClasses n → n ≤ 0x7FFFFFFFFFFFFFFF) (tail : List Char) :
    ∃ text, Spells text setting.value tail := by
  cases setting with
  | extension string | backupSuffix string =>
    obtain ⟨text, htext⟩ := Toml.Grammar.exists_quoted string.toList tail
    exact ⟨_, .text htext⟩
  | overwrite flag | dryRun flag =>
    cases flag with
    | false => exact ⟨_, .falseName⟩
    | true => exact ⟨_, .trueName⟩
  | minClasses n =>
    have hdigits : Nat.ofDigitChars 10 (Nat.toDigits 10 n) 0 = n :=
      Nat.ofDigitChars_toDigits (by decide) (by decide)
    exact ⟨_, .decimal (whole_toDigits n) hdigits (h n rfl)⟩

theorem exists_gives (h : ∀ n, .minClasses n ∈ settings → n ≤ 0x7FFFFFFFFFFFFFFF) :
    ∃ text, Gives text settings := by
  obtain ⟨cs, hcs⟩ : ∃ cs, Lines cs (settings.map Setting.member) := by
    refine Toml.Grammar.exists_lines fun m hm => ?_
    obtain ⟨setting, hmem, rfl⟩ := List.mem_map.1 hm
    refine ⟨isBare_key setting, exists_spells_value setting ?_⟩
    rintro n rfl
    exact h n hmem
  refine ⟨String.ofList cs, ?_⟩
  rwa [Gives, String.toList_ofList]

theorem exists_gives_all (h : o.minClasses ≤ 0x7FFFFFFFFFFFFFFF) :
    ∃ text, Gives text o.settings := by
  refine exists_gives fun n hn => ?_
  simp only [Options.settings, List.mem_cons, List.not_mem_nil, or_false, reduceCtorEq, false_or,
    Setting.minClasses.injEq] at hn
  rw [hn]
  exact h

/-! ## Files -/

theorem run_loadOptions (hfile : HoldsText tree path text) (h : Options.ofText? text = some o) :
    (loadOptions path).run tree = ⟨.ok o, tree, [.loadingOptions path]⟩ := by
  obtain ⟨place, hstatus⟩ := hfile
  have hread : Files.readText tree path = .ok text := by
    rw [Files.readText_eq_ok_iff, Files.readBytes, hstatus]
  have hload : (loadFile path).run tree = ⟨.ok text, tree, []⟩ := by
    simp [loadFile, hread]
  unfold loadOptions
  rw [Work.run_bind_of_ok rfl, Work.run_report, Work.run_bind_of_ok (congrArg Ran.result hload)]
  simp [hload, h]

theorem holdsText_of_leads {place : Files.Place} (h : tree.Plain)
    (hl : Files.Leads tree path place) (hfile : tree.get? place = some (.file text.toUTF8)) :
    HoldsText tree path text :=
  ⟨place, by simp only [Files.status, hl.locate h, Files.spotAt, hfile]⟩

/-- A tree with one file at its root. -/
def settingsTree (text : String) : Tree :=
  .ofEntries [(["s.toml"], .file text.toUTF8)]

theorem holdsText_settingsTree (text : String) :
    HoldsText (settingsTree text) ⟨"/s.toml"⟩ text :=
  holdsText_of_leads (Tree.plain_ofEntries (by simp)) (Files.leads_of_root "s.toml" (by decide))
    (by simp [settingsTree])

/-- Options from a file that gives some of them, each once, are the defaults with those replaced
that are given, whatever the order of the lines. All options can be had that way. -/
theorem loadOptions_overrides_defaults :
    (∀ {settings lines : List Setting} {text : String} {tree : Tree} {path : Path},
      (settings.map Setting.key).Nodup → lines.Perm settings → Gives text lines →
      HoldsText tree path text →
      (loadOptions path).run tree =
        ⟨.ok (settings.foldr Setting.set {}), tree, [.loadingOptions path]⟩) ∧
    ∀ o : Options, o.minClasses ≤ 0x7FFFFFFFFFFFFFFF →
      ∃ text, (∃ tree path, HoldsText tree path text) ∧
        ∀ tree path, HoldsText tree path text →
          (loadOptions path).run tree = ⟨.ok o, tree, [.loadingOptions path]⟩ := by
  constructor
  · intro settings lines text tree path hkeys horder hgives hfile
    exact run_loadOptions hfile (ofText?_gives hgives horder hkeys)
  · intro o hsmall
    obtain ⟨text, hgives⟩ := exists_gives_all hsmall
    refine ⟨text, ⟨_, _, holdsText_settingsTree text⟩, fun tree path hfile => ?_⟩
    have hread := ofText?_gives hgives (.refl _) (nodup_keys_settings o)
    rw [foldr_set_settings] at hread
    exact run_loadOptions hfile hread

end

/-- The largest number, and a suffix with every way to write a character. -/
def settingsText : String :=
  "min_classes = 9223372036854775807\r\nbackup_suffix = \"\\u00e9\\U0001F600\\t~\""

theorem spells_suffix :
    ∃ text, Spells text (.text "é😀\t~") [] ∧ "\"\\u00e9\\U0001F600\\t~\"".toList = text := by
  have hshort : unit? '0' '0' 'e' '9' = some 'é'.toNat := by decide
  have hhigh : unit? '0' '0' '0' '1' = some 0x1 := by decide
  have hlow : unit? 'F' '6' '0' '0' = some 0xF600 := by decide
  have hlong : 0x10000 * 0x1 + 0xF600 = '😀'.toNat := by decide
  have hletter : ('t', '\t') ∈ letters := by decide
  have hplain : Quoted ['~', '"'] ['~'] [] :=
    .char (.plain (by decide) (by decide) (by decide) (by decide)) .close
  have hquoted := Quoted.char (.short hshort)
    (.char (.long hhigh hlow hlong) (.char (.letter hletter) hplain))
  have hstring : "é😀\t~".toList = ['é', '😀', '\t', '~'] := by decide +kernel
  rw [← hstring] at hquoted
  exact ⟨_, .text hquoted, by decide +kernel⟩

theorem gives_settingsText :
    Gives settingsText [.minClasses 9223372036854775807, .backupSuffix "é😀\t~"] := by
  obtain ⟨text, hsuffix, htext⟩ := spells_suffix
  have hdigits : Nat.ofDigitChars 10 (Nat.toDigits 10 9223372036854775807) 0 =
      9223372036854775807 := Nat.ofDigitChars_toDigits (by decide) (by decide)
  have hlast : Lines (assignment "backup_suffix" text) [("backup_suffix", .text "é😀\t~")] :=
    .line (isBare_key (.backupSuffix "")) hsuffix .last .none
  have hlines := Lines.line (isBare_key (.minClasses 0))
    (.decimal (whole_toDigits _) hdigits (by decide)) .carriageReturn hlast
  have hall : settingsText.toList = assignment "min_classes"
      (Nat.toDigits 10 9223372036854775807 ++ '\r' :: '\n' :: assignment "backup_suffix" text) := by
    rw [← htext]
    decide +kernel
  rw [Gives, hall]
  exact hlines

theorem loadOptions_overrides_defaults_sample :
    (loadOptions ⟨"/s.toml"⟩).run (settingsTree settingsText) =
        ⟨.ok { backupSuffix := "é😀\t~", minClasses := 9223372036854775807 },
          settingsTree settingsText, [.loadingOptions ⟨"/s.toml"⟩]⟩ ∧
      ∃ tree path, ((loadOptions path).run tree).result =
        .ok ⟨"", "\"\\", false, true, 9223372036854775807⟩ := by
  constructor
  · have horder : [Setting.minClasses 9223372036854775807, .backupSuffix "é😀\t~"].Perm
        [.backupSuffix "é😀\t~", .minClasses 9223372036854775807] := .swap _ _ _
    exact loadOptions_overrides_defaults.1 (by decide) horder gives_settingsText
      (holdsText_settingsTree settingsText)
  · obtain ⟨text, ⟨tree, path, hfile⟩, hrun⟩ := loadOptions_overrides_defaults.2
      ⟨"", "\"\\", false, true, 9223372036854775807⟩ (by decide)
    exact ⟨tree, path, congrArg Ran.result (hrun tree path hfile)⟩

end Split
end SourceSplit
