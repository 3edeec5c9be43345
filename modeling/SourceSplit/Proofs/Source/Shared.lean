import Mathlib.Data.List.DropRight
import SourceSplit.Proofs.Source.Rendered
import SourceSplit.Proofs.Source.Statement

/-!
# SourceSplit.Proofs.Source.Shared

The statements that a class file shares with its document. Package and imports may hold any
characters but a semicolon, keywords and line breaks among them; read again, the class file still
has the package of the document and all its imports, one behind the other and in their order
(`render_keeps_statements`).
-/

namespace SourceSplit

namespace Text

variable {c : Char} {cs : List Char}

theorem trim_cons (h : isBlank c = true) : trim (c :: cs) = trim cs := by
  rw [trim, List.dropWhile_cons_of_pos h, trim]

theorem trim_prefix_dropWhile (cs : List Char) : trim cs <+: cs.dropWhile isBlank :=
  List.rdropWhile_prefix isBlank (cs.dropWhile isBlank)

theorem mem_of_mem_trim (h : c ∈ trim cs) : c ∈ cs :=
  (List.dropWhile_suffix isBlank).subset ((trim_prefix_dropWhile cs).subset h)

theorem trim_trim (cs : List Char) : trim (trim cs) = trim cs := by
  have hstart : (trim cs).dropWhile isBlank = trim cs := by
    cases htrim : trim cs with
    | nil => rfl
    | cons c more =>
      obtain ⟨rest, hrest⟩ := trim_prefix_dropWhile cs
      have hhead := List.head?_dropWhile_not isBlank cs
      rw [← hrest, htrim] at hhead
      exact List.dropWhile_cons_of_neg (by simpa using hhead)
  calc trim (trim cs) = ((trim cs).dropWhile isBlank).rdropWhile isBlank := rfl
    _ = (trim cs).rdropWhile isBlank := by rw [hstart]
    _ = trim cs := List.rdropWhile_idempotent isBlank (cs.dropWhile isBlank)

end Text

namespace Source

open Text

/-- A statement as it stands in a text. -/
def written (keyword : String) (body : List Char) : List Char :=
  keyword.toList ++ body ++ [';']

section

variable {keyword : String} {inWord : Bool}

theorem statementsFrom_written {body : List Char} (hbody : Body body) (behind : List Char) :
    statementsFrom keyword false (written keyword body ++ behind) =
      body :: statementsFrom keyword false behind := by
  have hfound : statement? keyword (keyword.toList ++ (body ++ ';' :: behind)) =
      some (body, behind) := hbody.statement?_eq
  rw [← statementsFrom_of_some hfound]
  simp [written]

/-- Statements on lines of their own are all found. -/
theorem statementsFrom_lines (hkeyword : IsName keyword) {bodies : List (List Char)}
    (h : ∀ body ∈ bodies, Body body) (behind : List Char) :
    statementsFrom keyword false
        (['\n'].intercalate (bodies.map (written keyword)) ++ '\n' :: behind) =
      bodies ++ statementsFrom keyword false behind := by
  have hbreak : isWord '\n' = false := by decide
  induction bodies with
  | nil => exact statementsFrom_cons hkeyword hbreak
  | cons body bodies ih =>
    obtain ⟨hbody, hbodies⟩ := List.forall_mem_cons.1 h
    cases bodies with
    | nil =>
      rw [List.map_singleton, List.intercalate_singleton, statementsFrom_written hbody,
        statementsFrom_cons hkeyword hbreak]
      rfl
    | cons next bodies =>
      rw [List.map_cons, List.map_cons, List.intercalate_cons_cons, List.append_assoc,
        List.append_assoc, statementsFrom_written hbody, List.singleton_append,
        statementsFrom_cons hkeyword hbreak, ← List.map_cons, ih hbodies]
      rfl

end

section

variable {text : String} {doc : Document} {decls : List Declaration} {decl : Declaration}

theorem statements_of_ofText? (h : Document.ofText? text = some doc) :
    packageName? text = some doc.package ∧ doc.imports = imports text := by
  unfold Document.ofText? at h
  obtain ⟨package, hpackage, rfl⟩ := Option.map_eq_some_iff.1 h
  exact ⟨hpackage, rfl⟩

theorem exists_body_of_packageName? {package : String} (h : packageName? text = some package) :
    ∃ body, Body body ∧ package = String.ofList (trim body) := by
  obtain ⟨body, hhead, rfl⟩ := Option.map_eq_some_iff.1 h
  exact ⟨body, body_of_mem_statementsFrom (List.mem_of_head? hhead), rfl⟩

theorem toList_packageLine (package : String) :
    ("package " ++ package ++ ";").toList = written "package" (' ' :: package.toList) := by
  simp [written, String.toList_append]

theorem toList_importBlock (h : Document.ofText? text = some doc) :
    doc.importBlock.toList =
      ['\n'].intercalate ((statements "import" text).map (written "import")) := by
  rw [Document.importBlock, (statements_of_ofText? h).2, imports, String.toList_intercalate,
    List.map_map]
  congr 1
  refine List.map_congr_left fun body _ => ?_
  exact String.toList_ofList

/-- A class file is the package statement, the lines of the imports, and the declaration. -/
theorem toList_classFile (doc : Document) (slice : String) :
    (doc.preamble ++ slice).toList = written "package" (' ' :: doc.package.toList) ++
      '\n' :: '\n' :: (doc.importBlock.toList ++ '\n' :: '\n' :: slice.toList) := by
  rw [← toList_packageLine, Document.preamble]
  simp [String.toList_append]

/-- The package of a document is found in a text that begins with its package statement. -/
theorem packageName?_classFile (h : Document.ofText? text = some doc) (hne : doc.package ≠ "")
    (slice : String) : packageName? (doc.preamble ++ slice) = some doc.package := by
  obtain ⟨body, hbody, hpackage⟩ := exists_body_of_packageName? (statements_of_ofText? h).1
  have hname : doc.package.toList = trim body := by rw [hpackage, String.toList_ofList]
  have hblank : isBlank ' ' = true := by decide
  have hline : Body (' ' :: doc.package.toList) := by
    obtain ⟨c, more, hcons⟩ := List.exists_cons_of_ne_nil (mt String.toList_eq_nil_iff.1 hne)
    refine ⟨⟨' ', c, more, by rw [hcons], hblank⟩, ?_⟩
    refine List.not_mem_cons_of_ne_of_not_mem (by decide) fun hmem => ?_
    exact hbody.no_semicolon (mem_of_mem_trim (hname ▸ hmem))
  rw [packageName?, statements, toList_classFile, statementsFrom_written hline, List.head?_cons,
    Option.map_some, trim_cons hblank, hname, trim_trim, ← hname, String.ofList_toList]

/-- The imports found in a class file are those in the package name, all imports of the document,
and those in the declaration. -/
theorem imports_classFile (h : Document.ofText? text = some doc) (slice : String) :
    imports (doc.preamble ++ slice) =
      imports ("package " ++ doc.package ++ ";") ++ doc.imports ++ imports slice := by
  have hbreak : isWord '\n' = false := by decide
  have hbodies : ∀ body ∈ statements "import" text, Body body :=
    fun _ hbody => body_of_mem_statementsFrom hbody
  have hstatements : statements "import" (doc.preamble ++ slice) =
      statements "import" ("package " ++ doc.package ++ ";") ++ statements "import" text ++
        statements "import" slice := by
    rw [statements, toList_classFile, written, List.append_assoc, List.singleton_append,
      statementsFrom_append_semicolon isName_import, ← written, ← toList_packageLine,
      statementsFrom_cons isName_import hbreak, statementsFrom_cons isName_import hbreak,
      toList_importBlock h, statementsFrom_lines isName_import hbodies,
      statementsFrom_cons isName_import hbreak, List.append_assoc]
    rfl
  rw [(statements_of_ofText? h).2, imports, hstatements, List.map_append, List.map_append]
  rfl

/-- A class file, read again, has the package of its document, and all the imports of the document
stand in it one behind the other. -/
theorem render_keeps_statements (h : Document.ofText? text = some doc) (hne : doc.package ≠ "")
    (hdecls : doc.declarations = .ok decls) (hd : decl ∈ decls) :
    ∃ slice content, decl.slice? text = some slice ∧ doc.render? decl = some content ∧
      packageName? content = some doc.package ∧
      imports content =
        imports ("package " ++ doc.package ++ ";") ++ doc.imports ++ imports slice ∧
      packageName? text = some doc.package ∧ imports text = doc.imports := by
  obtain ⟨front, behind, found, body, hstands⟩ := exists_stands hdecls hd
  have hslice := hstands.slice?_eq
  obtain ⟨hpackage, himports⟩ := statements_of_ofText? h
  refine ⟨_, _, text_of_ofText? h ▸ hslice, ?_, packageName?_classFile h hne _,
    imports_classFile h _, hpackage, himports.symm⟩
  rw [Document.render?, hslice, Option.map_some]

/-- The empty name is the one that is lost: with one blank in front it makes no statement. -/
example : packageName? "package  ;" = some "" ∧ packageName? "package ;" = none := by
  decide +kernel

end

/-! ## A package name with an import in it -/

def importText : String :=
  "package a import b;import c;import c;/** */public class A\x7b\x7d"

def importDocument : Document :=
  ⟨importText, "a import b", ["import b;", "import c;", "import c;"]⟩

theorem render_keeps_statements_import :
    ∃ content, importDocument.render? ⟨⟨"A", 37, 57⟩, 58⟩ = some content ∧
      packageName? content = some "a import b" ∧
      imports content = ["import b;", "import b;", "import c;", "import c;"] := by
  have hdocument : Document.ofText? importText = some importDocument := by decide +kernel
  have hdecls : importDocument.declarations = .ok [⟨⟨"A", 37, 57⟩, 58⟩] := by
    have hheaders : headers importDocument.text = [⟨"A", 37, 57⟩] := by decide +kernel
    simp only [Document.declarations, hheaders]
    rfl
  obtain ⟨slice, content, hslice, hrender, hpackage, himports, -⟩ :=
    render_keeps_statements hdocument (by decide) hdecls List.mem_cons_self
  refine ⟨content, hrender, hpackage, ?_⟩
  have hcut : Declaration.slice? ⟨⟨"A", 37, 57⟩, 58⟩ importText =
      some "/** */public class A\x7b\x7d" := by
    decide +kernel
  obtain rfl := Option.some.inj (hcut.symm.trans hslice)
  rw [himports]
  decide +kernel

end Source
end SourceSplit
