import SourceSplit.Proofs.Source.Rendered
import SourceSplit.Proofs.Split.Planned
import SourceSplit.Report.Basic

/-!
# SourceSplit.Proofs.Report.Recorded

The record of class files that were planned for a document. A record takes the declaration from
the end of the class file; `ClassRecord.ofSource?` takes it from the source. They agree, since the
offsets of a declaration are in order and legal in its text (`Stands.placed`) and a class file ends
with its declaration (`lastBytes?_append`).
-/

namespace SourceSplit
namespace Source

open Text

/-- The offsets of a declaration are in order, and all of them are legal in the text. -/
structure Placed (doc : Document) (decl : Declaration) : Prop where
  start_lt_brace : decl.header.start < decl.header.brace
  brace_lt_stop : decl.header.brace < decl.stop
  stop_lt_length : decl.stop < byteLength doc.text.toList
  legal : ∀ offset ∈ [decl.header.start, decl.header.brace, decl.header.brace + 1, decl.stop,
    decl.stop + 1], (charsAt? offset doc.text.toList).isSome = true

section

variable {doc : Document} {decls : List Declaration} {decl : Declaration}
  {front behind body : List Char} {found : FoundHeader}

theorem Stands.placed (h : Stands doc decl front behind found body) : Placed doc decl := by
  have hopening : Char.utf8Size '\x7b' = 1 := by decide
  have hclosing : Char.utf8Size '\x7d' = 1 := by decide
  have hcomment : 0 < byteLength found.text := by
    obtain ⟨rest, hrest⟩ := opens_of_header? h.header
    cases htext : found.text with
    | nil =>
      rw [htext] at hrest
      exact absurd (List.cons.inj hrest).1 (by decide)
    | cons c cs =>
      have hpos := Char.utf8Size_pos c
      rw [byteLength_cons]
      omega
  have htext := h.text
  have hstart := h.start
  have hbrace := h.brace
  have hstop := h.stop
  refine ⟨by omega, by omega, ?_, ?_⟩
  · rw [htext]
    simp only [byteLength_append, byteLength_cons, hopening, hclosing]
    omega
  · simp only [List.forall_mem_cons, List.not_mem_nil, false_imp_iff, implies_true, and_true]
    refine ⟨?_, ?_, ?_, ?_, ?_⟩
    · exact isSome_charsAt? front _ htext hstart
    · refine isSome_charsAt? (front ++ found.text) ('\x7b' :: (body ++ '\x7d' :: behind)) ?_ ?_
      · simp [htext]
      · simp only [byteLength_append]
        omega
    · refine isSome_charsAt? (front ++ (found.text ++ ['\x7b'])) (body ++ '\x7d' :: behind) ?_ ?_
      · simp [htext]
      · simp only [byteLength_append, byteLength_cons, byteLength_nil, hopening]
        omega
    · refine isSome_charsAt? (front ++ (found.text ++ '\x7b' :: body)) ('\x7d' :: behind) ?_ ?_
      · simp [htext]
      · simp only [byteLength_append, byteLength_cons, hopening]
        omega
    · refine isSome_charsAt? (front ++ (found.text ++ '\x7b' :: (body ++ ['\x7d']))) behind ?_ ?_
      · simp [htext]
      · simp only [byteLength_append, byteLength_cons, byteLength_nil, hopening, hclosing]
        omega

theorem exists_slice (h : doc.declarations = .ok decls) (hd : decl ∈ decls) :
    Placed doc decl ∧ ∃ slice, decl.slice? doc.text = some slice ∧
      byteLength slice.toList = decl.stop + 1 - decl.header.start := by
  obtain ⟨front, behind, found, body, hstands⟩ := exists_stands h hd
  refine ⟨hstands.placed, _, hstands.slice?_eq, ?_⟩
  have hopening : Char.utf8Size '\x7b' = 1 := by decide
  have hclosing : Char.utf8Size '\x7d' = 1 := by decide
  have hstart := hstands.start
  have hbrace := hstands.brace
  have hstop := hstands.stop
  simp only [String.toList_ofList, byteLength_append, byteLength_cons, byteLength_nil, hopening,
    hclosing]
  omega

end

end Source

namespace Report

open Source Text
open Files (Tree)
open Split (ClassFile Options Outcome plan planFrom_eq_ok_iff)

/-- The record of a class file, with the digest of the declaration in the source. -/
def ClassRecord.ofSource? (doc : Document) (file : ClassFile) : Option ClassRecord :=
  (file.declaration.slice? doc.text).map fun slice =>
    ⟨file.declaration.header.name, file.path, file.declaration.header.start,
      file.declaration.stop, hashText slice.toList⟩

theorem lastBytes?_append (front cs : List Char) :
    lastBytes? (byteLength cs) (String.ofList (front ++ cs)) = some cs := by
  have hcut := slice?_append front cs []
  rw [List.append_nil] at hcut
  simp only [lastBytes?, String.toList_ofList, byteLength_append]
  rw [if_pos (Nat.le_add_left _ _), Nat.add_sub_cancel, hcut]

section

variable {doc : Document} {decls : List Declaration} {file : ClassFile} {files : List ClassFile}

/-- Counted back from the end of a class file, the declaration is the one in the source. -/
theorem ofFile_eq (h : doc.declarations = .ok decls) (hd : file.declaration ∈ decls)
    (hcontent : doc.render? file.declaration = some file.content)
    (hsize : byteLength doc.text.toList ≤ maxOffset) :
    ∃ record, ClassRecord.ofFile file = .ok record ∧
      ClassRecord.ofSource? doc file = some record := by
  obtain ⟨hplaced, slice, hslice, hlength⟩ := exists_slice h hd
  have horder : file.declaration.header.start ≤ file.declaration.stop + 1 ∧
      file.declaration.stop < maxOffset := by
    have hstart := hplaced.start_lt_brace
    have hbrace := hplaced.brace_lt_stop
    have hstop := hplaced.stop_lt_length
    omega
  have hlast : lastBytes? (file.declaration.stop + 1 - file.declaration.header.start)
      file.content = some slice.toList := by
    rw [Document.render?, hslice, Option.map_some, Option.some.injEq] at hcontent
    rw [← hlength, ← hcontent, ← String.ofList_toList (s := doc.preamble ++ slice),
      String.toList_append, lastBytes?_append]
  refine ⟨⟨file.declaration.header.name, file.path, file.declaration.header.start,
    file.declaration.stop, hashText slice.toList⟩, ?_, ?_⟩
  · simp only [ClassRecord.ofFile, if_pos horder, hlast]
  · simp only [ClassRecord.ofSource?, hslice, Option.map_some]

/-- Records that can be made one by one can be made of all files, in their order. -/
theorem exists_records (h : ∀ file ∈ files, ∃ record, ClassRecord.ofFile file = .ok record ∧
      ClassRecord.ofSource? doc file = some record) :
    ∃ records, files.mapM ClassRecord.ofFile = .ok records ∧
      files.map (ClassRecord.ofSource? doc) = records.map some := by
  induction files with
  | nil => exact ⟨[], rfl, rfl⟩
  | cons file files ih =>
    obtain ⟨record, hfile, hsource⟩ := h file (by simp)
    obtain ⟨records, hfiles, hsources⟩ := ih fun f hf => h f (by simp [hf])
    refine ⟨record :: records, ?_, ?_⟩
    · rw [List.mapM_cons, hfile, hfiles]
      rfl
    · rw [List.map_cons, hsource, hsources, List.map_cons]

/-- The declarations of a document lie in its text and can be rendered, and the class files planned
for them can be recorded: one record for each declaration, with its offsets and its digest in the
source. A text in memory has no more bytes than there are offsets. -/
theorem declarations_recorded (h : doc.declarations = .ok decls) :
    (∀ decl ∈ decls, Placed doc decl ∧ ∃ slice, decl.slice? doc.text = some slice ∧
      doc.render? decl = some (doc.preamble ++ slice)) ∧
    ∀ (o : Options) (tree : Tree) (source : Path) (outcome : Outcome),
      plan o tree source doc decls = .ok outcome.files →
      byteLength doc.text.toList ≤ maxOffset →
      outcome.files.map (·.declaration) = decls ∧
        ∃ records, FileRecord.ofOutcome outcome = .ok ⟨outcome.source, outcome.backup, records⟩ ∧
          outcome.files.map (ClassRecord.ofSource? doc) = records.map some := by
  constructor
  · intro decl hd
    obtain ⟨hplaced, slice, hslice, _⟩ := exists_slice h hd
    refine ⟨hplaced, slice, hslice, ?_⟩
    rw [Document.render?, hslice, Option.map_some]
  · intro o tree source outcome hplan hsize
    have hplanned := planFrom_eq_ok_iff.1 hplan
    obtain ⟨records, hrecords, hsources⟩ := exists_records fun file hf =>
      ofFile_eq h (hplanned.declarations ▸ List.mem_map_of_mem hf) (hplanned.content file hf) hsize
    refine ⟨hplanned.declarations, records, ?_, hsources⟩
    rw [FileRecord.ofOutcome, hrecords]
    rfl

end

/-! ## A declaration with characters of several bytes -/

def accentText : String :=
  "package p;/** ü */public class Ä\x7b\"\x7d€\"\x7d"

def accentFiles : List ClassFile := [
  ⟨⟨⟨"Ä", 10, 34⟩, 41⟩, ⟨"/Ä.java"⟩, "package p;\n\n\n\n/** ü */public class Ä\x7b\"\x7d€\"\x7d"⟩]

theorem renders_accent : Split.Renders "java" Split.sampleSource ⟨accentText, "p", []⟩
    accentFiles := by
  have hheaders : headers accentText = accentFiles.map (·.declaration.header) := by
    decide +kernel
  refine ⟨by decide +kernel, ?_, by decide +kernel, by decide +kernel, by decide +kernel,
    by decide +kernel⟩
  simp only [Document.declarations, hheaders]
  rfl

theorem declarations_recorded_accent :
    (∀ decl ∈ accentFiles.map (·.declaration), Placed ⟨accentText, "p", []⟩ decl) ∧
      ∃ records, FileRecord.ofOutcome ⟨Split.sampleSource, accentFiles, none⟩ =
          .ok ⟨Split.sampleSource, none, records⟩ ∧
        accentFiles.map (ClassRecord.ofSource? ⟨accentText, "p", []⟩) = records.map some := by
  have hplan : plan {} (Tree.bare []) Split.sampleSource ⟨accentText, "p", []⟩
      (accentFiles.map (·.declaration)) = .ok accentFiles := by
    refine planFrom_eq_ok_iff.2 ⟨rfl, renders_accent.path, renders_accent.content,
      fun file hf => ?_, renders_accent.apart⟩
    exact Split.isBarred_eq_false_iff.2
      ⟨renders_accent.beside file hf, List.forall_mem_nil _, nofun⟩
  obtain ⟨hdecls, hplans⟩ := declarations_recorded renders_accent.declarations
  obtain ⟨_, records, hrecord, hsources⟩ :=
    hplans {} (Tree.bare []) Split.sampleSource ⟨Split.sampleSource, accentFiles, none⟩ hplan
      (by decide +kernel)
  exact ⟨fun decl hd => (hdecls decl hd).1, records, hrecord, hsources⟩

end Report
end SourceSplit
