import SourceSplit.Proofs.Source.Rendered
import SourceSplit.Proofs.Split.Planned

/-!
# SourceSplit.Proofs.Split.Refused

A class file is not split again. Its first class is the one it was made for, so that the class file
of that class would be the source itself (`same_target_sibling`), and the split fails before
anything is written (`splitFile_refuses`).
-/

namespace SourceSplit
namespace Split

open Source Text
open Files (Tree readText)

section

variable {o : Options} {doc : Document} {decls : List Declaration} {decl : Declaration}

/-- In a class file, the target of a class of the same name is the class file. -/
theorem same_target_sibling {source : Path} {other : Declaration} (h : IsName decl.header.name)
    (hslash : '/' ∉ o.extension.toList) (hname : other.header.name = decl.header.name) :
    (target o (source.sibling decl.header.name o.extension) other).same
      (source.sibling decl.header.name o.extension) = true := by
  have hnoslash := not_mem_slash_of_isName h hslash
  have hnames : Path.Names (decl.header.name ++ "." ++ o.extension).toList := names_of_isName h
  rw [target, hname, Path.sibling_same_self_iff hnoslash hnames,
    Path.fileName?_sibling hnoslash hnames]

/-- A source whose first class would be written over it is not split. -/
theorem ending_splitFile_of_head {tree : Tree} {source : Path} {text : String} {header : Header}
    (hread : readText tree source = .ok text) (hhead : (headers text).head? = some header)
    (hsame : ∀ other : Declaration, other.header = header →
      (target o source other).same source = true) :
    ∃ failure, (splitFile o source).ending tree = (.error failure, tree) := by
  rw [ending_splitFile]
  cases hprepare : prepare o tree source with
  | error failure => exact ⟨failure, rfl⟩
  | ok files =>
    obtain ⟨text', doc, decls, hread', hdoc, hdecls, hplan⟩ := prepare_eq_ok_iff.1 hprepare
    obtain rfl : text' = text := Except.ok.inj (hread'.symm.trans hread)
    have hplanned := planFrom_eq_ok_iff.1 hplan
    have hheaders := map_header_of_declarations hdecls
    rw [text_of_ofText? hdoc, ← hplanned.declarations, List.map_map] at hheaders
    rw [← hheaders] at hhead
    cases files with
    | nil => cases hhead
    | cons file files =>
      have hfree := (isBarred_eq_false_iff.1 (hplanned.free file (by simp))).1
      rw [hplanned.path file (by simp), hsame _ (Option.some.inj hhead)] at hfree
      cases hfree

/-- Where a rendered declaration is the file of its class, it is left alone. -/
theorem splitFile_refuses (h : doc.declarations = .ok decls) (hd : decl ∈ decls)
    (hslash : '/' ∉ o.extension.toList) (hopen : ¬ "/**".toList <:+: doc.preamble.toList) :
    ∃ slice, decl.slice? doc.text = some slice ∧
      doc.render? decl = some (doc.preamble ++ slice) ∧
      (headers (doc.preamble ++ slice)).head? = some ⟨decl.header.name,
        byteLength doc.preamble.toList,
        byteLength doc.preamble.toList + decl.header.brace - decl.header.start⟩ ∧
      Brace.closingOffset (doc.preamble ++ slice)
          (byteLength doc.preamble.toList + decl.header.brace - decl.header.start) =
        .ok (byteLength (doc.preamble ++ slice).toList - 1) ∧
      ∀ (source : Path) (tree : Tree),
        readText tree (source.sibling decl.header.name o.extension) =
          .ok (doc.preamble ++ slice) →
        ∃ failure, (splitFile o (source.sibling decl.header.name o.extension)).ending tree =
          (.error failure, tree) := by
  obtain ⟨slice, hslice, hrender, hhead, hcloses⟩ := exists_rendered h hd hopen
  refine ⟨slice, hslice, hrender, hhead, hcloses, fun source tree hread => ?_⟩
  refine ending_splitFile_of_head hread hhead fun other hother => ?_
  exact same_target_sibling (isName_of_declarations h hd) hslash (by rw [hother])

end

/-- The first class file of the sample. -/
def renderedText : String :=
  "package p;\n\n\n\n/** */public class A\x7b\x7d"

def renderedTree : Tree :=
  .ofEntries [(["A.java"], .file renderedText.toUTF8)]

theorem readText_renderedTree : readText renderedTree ⟨"/A.java"⟩ = .ok renderedText := by
  have hplain : renderedTree.Plain := Tree.plain_ofEntries (by simp)
  exact (leads_sample "A.java" (by simp)).readText hplain (by simp [renderedTree])

theorem splitFile_refuses_sample :
    ∃ failure, (splitFile {} ⟨"/A.java"⟩).ending renderedTree = (.error failure, renderedTree) := by
  obtain ⟨file, rest, hfiles, hpath, hcontent⟩ : ∃ file rest, sampleFiles = file :: rest ∧
      file.path = ⟨"/A.java"⟩ ∧ file.content = renderedText := ⟨_, _, rfl, rfl, rfl⟩
  have hmem : file ∈ sampleFiles := by simp [hfiles]
  have hslash : '/' ∉ ({} : Options).extension.toList := by decide
  have hopen : ¬ "/**".toList <:+: (Document.preamble ⟨sampleText, "p", []⟩).toList := by
    decide +kernel
  obtain ⟨slice, _, hrender, _, _, hrefuses⟩ :=
    splitFile_refuses renders_sample.declarations (List.mem_map_of_mem hmem) hslash hopen
  have hrefused := hrefuses sampleSource renderedTree
  rw [renders_sample.content file hmem, hcontent, Option.some.injEq] at hrender
  have hsource : sampleSource.sibling file.declaration.header.name ({} : Options).extension =
      ⟨"/A.java"⟩ :=
    (renders_sample.path file hmem).symm.trans hpath
  rw [← hrender, hsource] at hrefused
  exact hrefused readText_renderedTree

end Split
end SourceSplit
