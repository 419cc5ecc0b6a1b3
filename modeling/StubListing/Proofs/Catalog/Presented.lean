import StubListing.Proofs.Catalog.Loading
import StubListing.Proofs.Catalog.RoundTrip
import StubListing.Proofs.Json.Spelling
/-!
# Catalogs in every presentation

A file of JSON gives the document that its text presents. The text may have its members in any order
and with others among them, it may leave out what is taken anyway, and it may have white space wherever
that may stand.
-/
namespace StubListing

/-! ## Presentations in JSON -/

namespace Json
open StubListing.Catalog (Rendering)

/-- Values as the trees of their texts. Whatever has a text may be passed over. -/
def rendering : Rendering Node where
  node := Value.node
  list nodes := .array nodes none
  object shown := .object (shown.map fun x => (.text (some x.1), x.2)) none
  whole node := ∃ s, Denotes node s
  node_array items := by rw [Value.node, Value.nodes_eq_map]
  node_object members := by
    rw [Value.node, Value.memberNodes_eq_map, List.map_map]
    rfl

theorem rendering_faithful : rendering.Faithful source where
  text _ _ := rfl
  boolean _ := rfl
  word room known s a h := by
    show asVariant room known (.text (some s)) = .ok a
    rw [asVariant, asVariant.resolve, h]
  absent := rfl
  present _ := rfl
  presentObject _ := rfl
  items _ _ := rfl
  record _ _ _ := rfl
  key _ := rfl
  skip h := by
    obtain ⟨s, hs⟩ := h
    exact asSkipped_of_denotes hs

end Json

/-! ## Files -/

namespace Catalog
open StubListing.Json (Value Denotes Gap)

/-- The text presents the document in JSON, with white space around it perhaps. -/
def Document.PresentedBy (d : Document) (text : String) : Prop :=
  ∃ node before s after, Presents Json.rendering (.record .document) d.value node ∧
    Denotes node s ∧ Gap before ∧ Gap after ∧ text.toList = before ++ (s ++ after)

/-- A file of JSON gives the document that its text presents. -/
theorem loadFile_of_presented {d : Document} {text : String} {w : Workplace} {p : Path}
    (hdepth : d.value.depth ≤ Json.nesting) (htext : d.PresentedBy text)
    (hextension : hasExtension p "json" = true) (hread : w.disk.text p = .ok text) :
    (loadFile p).Returns w d w := by
  obtain ⟨node, before, s, after, hpresents, hdenotes, hbefore, hafter, hchars⟩ := htext
  have hform : notationOf? p = some .json := by rw [notationOf?, if_pos hextension]
  have hparse : parse .json text = .ok d := by
    have hdata := d.read_shown Json.rendering_faithful Json.nesting node hdepth hpresents
    rw [parse, Json.decode_of_denotes hchars hbefore hdenotes hafter hdata]
  exact returns_loadFile.mpr ⟨⟨text, .json, hread, hform, hparse⟩, rfl⟩

/-! ## A document in disorder -/

/-- A module with one type in it, which says its base type alone. -/
def smallDocument : Document :=
  ⟨[⟨"M", [⟨"A", none, .plainClass, some ⟨"C", some "B", []⟩, [], [], [], [], []⟩]⟩]⟩

/-- The document with its members in another order, without such as are taken anyway, and with two that
have no meaning. -/
def disordered : Value :=
  .object [("version", .number 2), ("modules", .array [.object [
    ("types", .array [.object [
      ("base_type", .object [("namespace", .text "B"), ("name", .text "C")]),
      ("note", .array [.null, .text "null"]), ("name", .text "A")]]),
    ("name", .text "M")]])]

def disorderedText : String := "\n" ++ disordered.pretty ++ "\n"

def disorderedDisk : Disk := ⟨[(["cat.JSON"], .file disorderedText.toUTF8)], []⟩

/-- One of the members that are left is shown next. -/
theorem PresentsMembers.pick {N : Type} {R : Rendering N} {sort : RecordSort} {name : String}
    {v : Value} {node : N} (before : List (String × Value)) {after : List (String × Value)}
    {shown : List (String × N)} (h : Presents R (sort.contentOf name) v node)
    (hrest : PresentsMembers R sort (before ++ after) shown) :
    PresentsMembers R sort (before ++ (name, v) :: after) ((name, node) :: shown) :=
  .member List.perm_middle h hrest

theorem presents_disordered :
    Presents Json.rendering (.record .document) smallDocument.value disordered.node := by
  have hbase : Presents Json.rendering (.record .mention) (TypeRef.value ⟨"C", some "B", []⟩)
      (Value.object [("namespace", .text "B"), ("name", .text "C")]).node :=
    .record <| .pick [_] .same <| .pick [] .same <| .done (by simp)
  have htype : Presents Json.rendering (.record .type)
      (TypeDecl.value ⟨"A", none, .plainClass, some ⟨"C", some "B", []⟩, [], [], [], [], []⟩)
      (Value.object [("base_type", .object [("namespace", .text "B"), ("name", .text "C")]),
        ("note", .array [.null, .text "null"]), ("name", .text "A")]).node := by
    refine .record <| .pick [_, _, _] hbase <| .other (by decide) ?_ <| .pick [] .same <| .done ?_
    · exact ⟨_, (Json.spells_compactChars (.array [.null, .text "null"])).denotes⟩
    · simp only [List.nil_append, List.append_eq, List.cons_append, List.forall_mem_cons]
      exact ⟨rfl, rfl, rfl, rfl, rfl, rfl, rfl, List.forall_mem_nil _⟩
  have hmodule : Presents Json.rendering (.record .module)
      (Module.value ⟨"M", [⟨"A", none, .plainClass, some ⟨"C", some "B", []⟩, [], [], [], [], []⟩]⟩) _ :=
    .record <| .pick [_] (.records (.cons htype .nil)) <| .pick [] .same <| .done (by simp)
  refine .record <| .other ?_ ?_ <|
    .pick [] (.records (.cons hmodule .nil)) <| .done (by simp)
  · decide
  · exact ⟨_, (Json.spells_compactChars (.number 2)).denotes⟩

theorem loadFile_disordered :
    smallDocument.value.depth ≤ Json.nesting ∧ smallDocument.PresentedBy disorderedText ∧
      hasExtension ⟨"cat.JSON"⟩ "json" = true ∧
      disorderedDisk.text ⟨"cat.JSON"⟩ = .ok disorderedText ∧
      (loadFile ⟨"cat.JSON"⟩).Returns ⟨disorderedDisk, []⟩ smallDocument ⟨disorderedDisk, []⟩ := by
  have hdepth : smallDocument.value.depth ≤ Json.nesting := by decide
  have htext : smallDocument.PresentedBy disorderedText := by
    refine ⟨_, ['\n'], _, ['\n'], presents_disordered, (Json.spells_prettyChars disordered 0).denotes,
      Json.gap_newLine 0, Json.gap_newLine 0, ?_⟩
    simp [disorderedText, Value.pretty, String.toList_append]
  have hextension : hasExtension ⟨"cat.JSON"⟩ "json" = true := by decide +kernel
  have hfind : disorderedDisk.find ⟨"cat.JSON"⟩ = .ok ["cat.JSON"] := by decide +kernel
  have hread : disorderedDisk.text ⟨"cat.JSON"⟩ = .ok disorderedText :=
    Disk.text_of_content (Disk.content_eq_ok.mpr ⟨_, hfind, rfl⟩)
  exact ⟨hdepth, htext, hextension, hread,
    loadFile_of_presented hdepth htext hextension hread⟩

end Catalog

end StubListing
