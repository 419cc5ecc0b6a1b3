import StubListing.Proofs.Catalog.Presented
import StubListing.Proofs.Yaml.Parsing
/-!
# One text for both notations

The compact text of a document is JSON, and it is YAML too. As long as its characters are ASCII without
DEL, a file with that text gives the document whichever of the two it is read as.
-/
namespace StubListing

/-! ## Values in YAML -/

namespace Yaml
open StubListing.Catalog (Rendering)
open StubListing.Json (Value)

theorem itemNodes_eq_map (items : List Value) : itemNodes items = items.map nodeOf := by
  induction items with
  | nil => rfl
  | cons item items ih => rw [itemNodes, ih, List.map_cons]

theorem memberNodes_eq_map (members : List (String × Value)) :
    memberNodes members = members.map fun x => (.scalar none x.1 .quoted, nodeOf x.2) := by
  induction members with
  | nil => rfl
  | cons x members ih => rw [memberNodes, ih, List.map_cons]

/-- Values as the nodes of their texts. Everything may be passed over. -/
def rendering : Rendering Node where
  node := nodeOf
  list nodes := .list none nodes
  object shown := .object none (shown.map fun x => (.scalar none x.1 .quoted, x.2))
  whole _ := True
  node_array items := by rw [nodeOf, itemNodes_eq_map]
  node_object members := by
    rw [nodeOf, memberNodes_eq_map, List.map_map]
    rfl

theorem rendering_faithful (d : Document) : rendering.Faithful (source d) where
  text _ _ := rfl
  boolean b := by cases b <;> rfl
  word room known s a h := by
    show meaning known s = pure a
    rw [meaning, h]
  absent := rfl
  present _ := rfl
  presentObject _ := rfl
  items _ _ := rfl
  record _ _ _ := rfl
  key _ := rfl
  skip _ := rfl

end Yaml

namespace Catalog
open StubListing.Json (Value)

/-! ## Keys of documents -/

/-- The names of the members of all records. -/
def memberNames : List String :=
  [RecordSort.mention, .flags, .dataMember, .parameter, .method, .type, .module, .document].flatMap
    RecordSort.names

theorem keys_text (s : String) : (Value.text s).keys ⊆ memberNames := List.nil_subset _

theorem keys_optionalMember {α : Type} {name : String} {f : α → Value} {o : Option α}
    (hname : name ∈ memberNames) (hf : ∀ a, (f a).keys ⊆ memberNames) :
    ∀ x ∈ optionalMember name f o, x.1 ∈ memberNames ∧ x.2.keys ⊆ memberNames := by
  cases o with
  | none => exact List.forall_mem_nil _
  | some a => exact List.forall_mem_singleton.mpr ⟨hname, hf a⟩

theorem keys_ofOption {α : Type} {f : α → Value} (hf : ∀ a, (f a).keys ⊆ memberNames) (o : Option α) :
    (Value.ofOption f o).keys ⊆ memberNames := by
  cases o with
  | none => exact List.nil_subset _
  | some a => exact hf a

theorem keys_map {α : Type} {f : α → Value} (hf : ∀ a, (f a).keys ⊆ memberNames) (values : List α) :
    (Value.array (values.map f)).keys ⊆ memberNames :=
  Value.keys_array_subset (List.forall_mem_map.mpr fun a _ => hf a)

mutual

theorem TypeRef.keys_value : ∀ t : TypeRef, t.value.keys ⊆ memberNames
  | ⟨name, ns, arguments⟩ => by
    have harguments := TypeRef.keys_values arguments
    rw [TypeRef.value_eq]
    refine Value.keys_object_subset ?_
    simp only [List.forall_mem_cons, List.forall_mem_append]
    refine ⟨⟨by decide, keys_text name⟩, keys_optionalMember (by decide) keys_text, ?_⟩
    cases arguments with
    | nil => exact List.forall_mem_nil _
    | cons first rest =>
      have hname : "generic_arguments" ∈ memberNames := by decide
      exact List.forall_mem_singleton.mpr
        ⟨hname, Value.keys_array_subset (List.forall_mem_map.mpr harguments)⟩

theorem TypeRef.keys_values : ∀ ts : List TypeRef, ∀ t ∈ ts, t.value.keys ⊆ memberNames
  | [] => List.forall_mem_nil _
  | t :: rest => List.forall_mem_cons.mpr ⟨t.keys_value, TypeRef.keys_values rest⟩

end

theorem Flags.keys_value (f : Flags) : f.value.keys ⊆ memberNames := by
  refine Value.keys_object_subset ?_
  simp only [List.forall_mem_cons]
  have hflag : ∀ b : Bool, (Value.boolean b).keys ⊆ memberNames := fun _ => List.nil_subset _
  exact ⟨⟨by decide, hflag _⟩, ⟨by decide, hflag _⟩, ⟨by decide, hflag _⟩, ⟨by decide, hflag _⟩,
    ⟨by decide, hflag _⟩, ⟨by decide, hflag _⟩, List.forall_mem_nil _⟩

theorem DataMember.keys_value (d : DataMember) : d.value.keys ⊆ memberNames := by
  refine Value.keys_object_subset ?_
  simp only [List.forall_mem_append, List.forall_mem_cons]
  exact ⟨⟨⟨by decide, keys_text _⟩, ⟨by decide, d.type.keys_value⟩, ⟨by decide, d.flags.keys_value⟩,
    List.forall_mem_nil _⟩, keys_optionalMember (by decide) keys_text⟩

theorem Parameter.keys_value (p : Parameter) : p.value.keys ⊆ memberNames := by
  refine Value.keys_object_subset ?_
  simp only [List.forall_mem_cons]
  exact ⟨⟨by decide, keys_text _⟩, ⟨by decide, p.type.keys_value⟩, List.forall_mem_nil _⟩

theorem Method.keys_value (d : Method) : d.value.keys ⊆ memberNames := by
  rw [Method.value_eq]
  refine Value.keys_object_subset ?_
  simp only [List.forall_mem_append, List.forall_mem_cons]
  exact ⟨⟨by decide, keys_text _⟩, keys_optionalMember (by decide) TypeRef.keys_value,
    ⟨by decide, d.flags.keys_value⟩, ⟨by decide, keys_map Parameter.keys_value _⟩,
    keys_optionalMember (by decide) keys_text⟩

theorem TypeDecl.keys_value (t : TypeDecl) : t.value.keys ⊆ memberNames := by
  refine Value.keys_object_subset ?_
  simp only [List.forall_mem_cons]
  exact ⟨⟨by decide, keys_text _⟩, ⟨by decide, keys_ofOption keys_text _⟩,
    ⟨by decide, keys_text _⟩, ⟨by decide, keys_ofOption TypeRef.keys_value _⟩,
    ⟨by decide, keys_map keys_text _⟩, ⟨by decide, keys_map TypeRef.keys_value _⟩,
    ⟨by decide, keys_map DataMember.keys_value _⟩, ⟨by decide, keys_map DataMember.keys_value _⟩,
    ⟨by decide, keys_map Method.keys_value _⟩, List.forall_mem_nil _⟩

theorem Module.keys_value (d : Module) : d.value.keys ⊆ memberNames := by
  refine Value.keys_object_subset ?_
  simp only [List.forall_mem_cons]
  exact ⟨⟨by decide, keys_text _⟩, ⟨by decide, keys_map TypeDecl.keys_value _⟩,
    List.forall_mem_nil _⟩

theorem Document.keys_value (d : Document) : d.value.keys ⊆ memberNames := by
  refine Value.keys_object_subset ?_
  simp only [List.forall_mem_cons]
  exact ⟨⟨by decide, keys_map Module.keys_value _⟩, List.forall_mem_nil _⟩

theorem small_of_all {texts : List String}
    (h : (texts.all fun s => s.toList.all fun c => decide (c.toNat < 0x7F)) = true) :
    ∀ s ∈ texts, ∀ c ∈ s.toList, c.toNat < 0x7F := by
  simpa only [List.all_eq_true, decide_eq_true_eq] using h

/-- The keys of a document are short, and so YAML takes them for keys. -/
theorem Document.legible {d : Document} (h : ∀ s ∈ d.value.strings, ∀ c ∈ s.toList, c.toNat < 0x7F) :
    Yaml.Cutting.Legible d.value.strings d.value.keys where
  text := h
  key s hs := by
    have hall : ∀ name ∈ memberNames, ∀ c ∈ name.toList, c.toNat < 0x7F := small_of_all (by decide)
    exact hall s (d.keys_value hs)
  short s hs := by
    have hall : ∀ name ∈ memberNames, (Json.writtenText name).length ≤ Yaml.keyReach := by decide
    exact hall s (d.keys_value hs)

/-! ## Files -/

theorem parse_compact_json {d : Document} (hdepth : d.value.depth ≤ Json.nesting) :
    parse .json d.value.compact = .ok d := by
  have htext : d.value.compact.toList = [] ++ (d.value.compactChars ++ []) := by
    rw [Value.compact, String.toList_ofList, List.nil_append, List.append_nil]
  have hdata := d.read_shown Json.rendering_faithful Json.nesting _ hdepth .same
  have hdecode := Json.decode_of_denotes htext Json.gap_nil
    (Json.spells_compactChars d.value).denotes Json.gap_nil hdata
  rw [parse, hdecode]

theorem parse_compact_yaml {d : Document} (hdepth : d.value.depth ≤ Yaml.nesting)
    (hascii : ∀ s ∈ d.value.strings, ∀ c ∈ s.toList, c.toNat < 0x7F) :
    parse .yaml d.value.compact = .ok d := by
  have htree := Yaml.ofText?_compactChars (Document.legible hascii) (Nat.succ_ne_zero _)
  have hdata := d.read_shown (Yaml.rendering_faithful ⟨Yaml.nodeOf d.value, []⟩) Yaml.nesting _ hdepth
    .same
  have hdecode : Yaml.decode Document.read d.value.compact = some d := by
    rw [Yaml.decode, Value.compact, String.toList_ofList, htree, Option.bind_eq_bind, Option.bind_some]
    show ((Document.read (Yaml.source ⟨Yaml.nodeOf d.value, []⟩) Yaml.nesting
      (Yaml.rendering.node d.value)).run 0).bind _ = some d
    rw [hdata]
    rfl
  rw [parse, hdecode]

/-- A file with the compact text of a document gives that document, by whichever of its extensions it
is taken for JSON or for YAML. -/
theorem loadFile_of_compact {d : Document} {w : Workplace} {p : Path}
    (hascii : ∀ s ∈ d.value.strings, ∀ c ∈ s.toList, c.toNat < 0x7F)
    (hdepth : d.value.depth ≤ Json.nesting) (hextension : hasAnyExtension p catalogExtensions = true)
    (hread : w.disk.text p = .ok d.value.compact) : (loadFile p).Returns w d w := by
  obtain ⟨form, hform⟩ := Option.isSome_iff_exists.mp (notationOf?_isSome hextension)
  have hparse : parse form d.value.compact = .ok d := by
    cases form with
    | json => exact parse_compact_json hdepth
    | yaml => exact parse_compact_yaml (Nat.le_trans hdepth (by decide)) hascii
  exact returns_loadFile.mpr ⟨⟨_, form, hread, hform, hparse⟩, rfl⟩

/-! ### A document with words and signs that mean something elsewhere -/

/-- A document with texts that are words of YAML without quotes, or hold signs and what is escaped. -/
def trickyDocument : Document :=
  ⟨[⟨"null", [⟨"a\"b\\c\n\x00", some "true", .interface, some ⟨"~", some "", [⟨"[]", none, []⟩]⟩,
    ["", " - x: y ", "\t\x08\x0c\r\x1f"], [],
    [⟨"&m,*n", ⟨"1", none, []⟩, ⟨true, false, false, false, false, false⟩, some "!"⟩], [], []⟩]⟩]⟩

/-- A directory with its text in two files. -/
def trickyDisk : Disk :=
  ⟨[(["cat.JSON"], .file trickyDocument.value.compact.toUTF8),
    (["cat.Yml"], .file trickyDocument.value.compact.toUTF8)], []⟩

/-- Both files give the document. -/
theorem loadFile_tricky :
    (∀ s ∈ trickyDocument.value.strings, ∀ c ∈ s.toList, c.toNat < 0x7F) ∧
      trickyDocument.value.depth ≤ Json.nesting ∧
      ∀ p ∈ [Path.mk "cat.JSON", Path.mk "cat.Yml"], hasAnyExtension p catalogExtensions = true ∧
        trickyDisk.text p = .ok trickyDocument.value.compact ∧
        (loadFile p).Returns ⟨trickyDisk, []⟩ trickyDocument ⟨trickyDisk, []⟩ := by
  have hascii : ∀ s ∈ trickyDocument.value.strings, ∀ c ∈ s.toList, c.toNat < 0x7F :=
    small_of_all (by decide +kernel)
  have hdepth : trickyDocument.value.depth ≤ Json.nesting := by decide +kernel
  refine ⟨hascii, hdepth, ?_⟩
  have hfile : ∀ p, hasAnyExtension p catalogExtensions = true →
      trickyDisk.text p = .ok trickyDocument.value.compact →
      hasAnyExtension p catalogExtensions = true ∧
        trickyDisk.text p = .ok trickyDocument.value.compact ∧
        (loadFile p).Returns ⟨trickyDisk, []⟩ trickyDocument ⟨trickyDisk, []⟩ := fun p hextension hread =>
    ⟨hextension, hread, loadFile_of_compact hascii hdepth hextension hread⟩
  refine List.forall_mem_cons.mpr ⟨?_, List.forall_mem_singleton.mpr ?_⟩
  · have hfind : trickyDisk.find ⟨"cat.JSON"⟩ = .ok ["cat.JSON"] := by decide +kernel
    exact hfile _ (by decide +kernel)
      (Disk.text_of_content (Disk.content_eq_ok.mpr ⟨_, hfind, rfl⟩))
  · have hfind : trickyDisk.find ⟨"cat.Yml"⟩ = .ok ["cat.Yml"] := by decide +kernel
    exact hfile _ (by decide +kernel)
      (Disk.text_of_content (Disk.content_eq_ok.mpr ⟨_, hfind, rfl⟩))

end Catalog

end StubListing
