import Mathlib.Data.List.Forall2
import StubListing.Catalog.Reading
import StubListing.Catalog.Writing
import StubListing.Proofs.Json.Measure
/-!
# Ways to present a catalog

A record of a catalog need not be written as the writer does it. Its members may stand in any order, a
member may be left out where its value is the one that is taken anyway, and members of other names may
stand between them. So it is with the records inside it. Whatever notation a catalog is read from, it
makes no difference to what is read.
-/
namespace StubListing.Catalog
open StubListing.Decode
open StubListing.Json (Value)

/-! ## Records and their members -/

/-- The sorts of records in a catalog. -/
inductive RecordSort where
  | mention
  | flags
  | dataMember
  | parameter
  | method
  | type
  | module
  | document

/-- What is presented: something for which there is one way only, a record, or a list of records. -/
inductive Content where
  | plain
  | record (sort : RecordSort)
  | records (sort : RecordSort)

/-- A member of a record: its name, the value that is taken where it is left out, unless it has to be
there, and what it holds. -/
structure Member where
  name : String
  standard : Option Value
  content : Content

namespace RecordSort

/-- The members of a record. -/
def members : RecordSort → List Member
  | .mention => [⟨"name", none, .plain⟩, ⟨"namespace", some .null, .plain⟩,
      ⟨"generic_arguments", some (.array []), .records .mention⟩]
  | .flags => ["public", "private", "static", "virtual", "abstract", "constructor"].map
      fun name => ⟨name, some (.boolean false), .plain⟩
  | .dataMember => [⟨"name", none, .plain⟩, ⟨"type", none, .record .mention⟩,
      ⟨"flags", some Flags.none.value, .record .flags⟩, ⟨"declaring_type", some .null, .plain⟩]
  | .parameter => [⟨"name", none, .plain⟩, ⟨"type", none, .record .mention⟩]
  | .method => [⟨"name", none, .plain⟩, ⟨"return_type", some .null, .record .mention⟩,
      ⟨"flags", some Flags.none.value, .record .flags⟩,
      ⟨"parameters", some (.array []), .records .parameter⟩,
      ⟨"declaring_type", some .null, .plain⟩]
  | .type => [⟨"name", none, .plain⟩, ⟨"namespace", some .null, .plain⟩,
      ⟨"kind", some (.text "class"), .plain⟩, ⟨"base_type", some .null, .record .mention⟩,
      ⟨"attributes", some (.array []), .plain⟩,
      ⟨"generic_arguments", some (.array []), .records .mention⟩,
      ⟨"properties", some (.array []), .records .dataMember⟩,
      ⟨"fields", some (.array []), .records .dataMember⟩,
      ⟨"methods", some (.array []), .records .method⟩]
  | .module => [⟨"name", none, .plain⟩, ⟨"types", some (.array []), .records .type⟩]
  | .document => [⟨"modules", some (.array []), .records .module⟩]

def names (sort : RecordSort) : List String := sort.members.map (·.name)

def member? (sort : RecordSort) (name : String) : Option Member :=
  sort.members.find? fun x => x.name == name

/-- The value that is taken for a member that is left out. -/
def standard? (sort : RecordSort) (name : String) : Option Value :=
  (sort.member? name).bind (·.standard)

def contentOf (sort : RecordSort) (name : String) : Content :=
  ((sort.member? name).map (·.content)).getD .plain

end RecordSort

/-! ## Presentations -/

/-- How a notation with nodes of type `N` writes values, and which nodes may be passed over. -/
structure Rendering (N : Type) where
  node : Value → N
  list : List N → N
  object : List (String × N) → N
  whole : N → Prop
  node_array (items : List Value) : node (.array items) = list (items.map node)
  node_object (members : List (String × Value)) :
    node (.object members) = object (members.map fun x => (x.1, node x.2))

variable {N : Type}

mutual

/-- The node presents the value: as it is written, or as a record or a list of records otherwise. -/
inductive Presents (R : Rendering N) : Content → Value → N → Prop
  | same {content : Content} {v : Value} : Presents R content v (R.node v)
  | record {sort : RecordSort} {members : List (String × Value)} {shown : List (String × N)} :
      PresentsMembers R sort members shown →
      Presents R (.record sort) (.object members) (R.object shown)
  | records {sort : RecordSort} {values : List Value} {nodes : List N} :
      PresentsAll R sort values nodes → Presents R (.records sort) (.array values) (R.list nodes)

/-- The nodes present the values one by one. -/
inductive PresentsAll (R : Rendering N) : RecordSort → List Value → List N → Prop
  | nil {sort : RecordSort} : PresentsAll R sort [] []
  | cons {sort : RecordSort} {v : Value} {node : N} {values : List Value} {nodes : List N} :
      Presents R (.record sort) v node → PresentsAll R sort values nodes →
      PresentsAll R sort (v :: values) (node :: nodes)

/-- What is shown presents the members that are left: one of them that is taken from any place, or a
member of another name that is not looked at. At the end only such may be left as are taken anyway. -/
inductive PresentsMembers (R : Rendering N) :
    RecordSort → List (String × Value) → List (String × N) → Prop
  | done {sort : RecordSort} {left : List (String × Value)} :
      (∀ x ∈ left, sort.standard? x.1 = some x.2) → PresentsMembers R sort left []
  | member {sort : RecordSort} {left rest : List (String × Value)} {name : String} {v : Value}
      {node : N} {shown : List (String × N)} : left.Perm ((name, v) :: rest) →
      Presents R (sort.contentOf name) v node → PresentsMembers R sort rest shown →
      PresentsMembers R sort left ((name, node) :: shown)
  | other {sort : RecordSort} {left : List (String × Value)} {name : String} {node : N}
      {shown : List (String × N)} : name ∉ sort.names → R.whole node →
      PresentsMembers R sort left shown → PresentsMembers R sort left ((name, node) :: shown)

end

/-! ## Taking presentations apart -/

section
variable {R : Rendering N} {content : Content} {sort : RecordSort} {v : Value} {node : N}

theorem Presents.eq_node (h : Presents R .plain v node) : node = R.node v := by
  cases h
  rfl

theorem presentsMembers_self (members : List (String × Value)) :
    PresentsMembers R sort members (members.map fun x => (x.1, R.node x.2)) := by
  induction members with
  | nil => exact .done (fun _ hm => absurd hm List.not_mem_nil)
  | cons x members ih => exact .member (.refl _) .same ih

theorem Presents.members {members : List (String × Value)}
    (h : Presents R (.record sort) (.object members) node) :
    ∃ shown, node = R.object shown ∧ PresentsMembers R sort members shown := by
  cases h with
  | same => exact ⟨_, R.node_object members, presentsMembers_self members⟩
  | record hmembers => exact ⟨_, rfl, hmembers⟩

theorem presentsAll_self (values : List Value) : PresentsAll R sort values (values.map R.node) := by
  induction values with
  | nil => exact .nil
  | cons v values ih => exact .cons .same ih

theorem Presents.items {values : List Value}
    (h : Presents R (.records sort) (.array values) node) :
    ∃ nodes, node = R.list nodes ∧ PresentsAll R sort values nodes := by
  cases h with
  | same => exact ⟨_, R.node_array values, presentsAll_self values⟩
  | records hall => exact ⟨_, rfl, hall⟩

end

/-! ## Reading what is presented -/

variable {m : Type → Type} [Monad m] {α β : Type}

/-- The source gives back what is written. -/
structure Rendering.Faithful (R : Rendering N) (source : Source m N) : Prop where
  text (expected : Expected) (s : String) : source.text expected (R.node (.text s)) = pure s
  boolean (b : Bool) : source.boolean (R.node (.boolean b)) = pure b
  word {α : Type} (room : Nat) {known : List (String × α)} {s : String} {a : α} :
    known.lookup s = some a → source.variant room known (R.node (.text s)) = pure a
  absent : source.optional (R.node .null) = pure none
  present (s : String) : source.optional (R.node (.text s)) = pure (some (R.node (.text s)))
  presentObject (shown : List (String × N)) :
    source.optional (R.object shown) = pure (some (R.object shown))
  items (room : Nat) (nodes : List N) :
    source.items (room + 1) (R.list nodes) = pure (nodes, pure ())
  record (room : Nat) (name : String) (shown : List (String × N)) :
    source.record (room + 1) name (R.object shown) =
      pure (.named (shown.map fun x => (R.node (.text x.1), x.2)) (pure ()))
  key (name : String) : source.key (R.node (.text name)) = pure name
  skip {node : N} : R.whole node → source.skip node = pure ()

variable [LawfulMonad m] {R : Rendering N} {source : Source m N} (hR : R.Faithful source)
include hR

/-! ### Records -/

/-- Filling in what is shown, in its order, takes the draft that has the members seen before to one that
has all members, but for such as are taken anyway. `draft` tells the draft by the members it has. -/
theorem fillNamed_shown {sort : RecordSort} {fields : List (Field m N α)}
    {members : List (String × Value)} {draft : List String → α}
    (hnames : fields.map (·.name) = sort.names)
    (hfill : ∀ f ∈ fields, ∀ v, (f.name, v) ∈ members → ∀ node seen,
      Presents R (sort.contentOf f.name) v node →
        f.fill node (draft seen) = pure (draft (f.name :: seen)))
    {shown : List (String × N)} {left : List (String × Value)} {seen : List String}
    (h : PresentsMembers R sort left shown) (hleft : left ⊆ members)
    (hknown : ∀ x ∈ left, x.1 ∈ sort.names) (hnodup : (left.map (·.1)).Nodup)
    (hnew : ∀ x ∈ left, x.1 ∉ seen) :
    ∃ seen', Schema.fillNamed source fields (shown.map fun x => (R.node (.text x.1), x.2)) seen
        (draft seen) = pure (seen', draft seen') ∧ seen ⊆ seen' ∧
      ∀ x ∈ left, x.1 ∈ seen' ∨ sort.standard? x.1 = some x.2 := by
  induction shown generalizing left seen with
  | nil =>
    cases h with
    | done hstandard =>
      exact ⟨seen, rfl, List.Subset.refl _, fun x hx => Or.inr (hstandard x hx)⟩
  | cons first shown ih =>
    cases h with
    | @member _ _ rest name v node _ hperm hpresents hrest =>
      have hfirst := hperm.mem_iff.mpr List.mem_cons_self
      have hsub : ∀ x ∈ rest, x ∈ left := fun x hx => hperm.mem_iff.mpr (List.mem_cons_of_mem _ hx)
      have hsplit := (hperm.map (·.1)).nodup_iff.mp hnodup
      rw [List.map_cons, List.nodup_cons] at hsplit
      obtain ⟨f, hfind, hf, hname⟩ : ∃ f, fields.find? (fun f => f.name == name) = some f ∧
          f ∈ fields ∧ f.name = name := by
        have hmem := hknown _ hfirst
        rw [← hnames, List.mem_map] at hmem
        obtain ⟨g, hg, hname⟩ := hmem
        have hsome : (fields.find? fun f => f.name == name).isSome = true :=
          List.find?_isSome.mpr ⟨g, hg, by simpa using hname⟩
        obtain ⟨f, hfind⟩ := Option.isSome_iff_exists.mp hsome
        exact ⟨f, hfind, List.mem_of_find?_eq_some hfind, by simpa using List.find?_some hfind⟩
      subst hname
      have hgo : ¬ seen.contains f.name = true := by simpa using hnew _ hfirst
      have hfresh : ∀ x ∈ rest, x.1 ∉ f.name :: seen := by
        intro x hx hseen
        rcases List.mem_cons.mp hseen with heq | hseen
        · exact hsplit.1 (heq ▸ List.mem_map.mpr ⟨x, hx, rfl⟩)
        · exact hnew x (hsub x hx) hseen
      obtain ⟨seen', hread, hgrow, hall⟩ := ih hrest (fun x hx => hleft (hsub x hx))
        (fun x hx => hknown x (hsub x hx)) hsplit.2 hfresh
      refine ⟨seen', ?_, fun x hx => hgrow (List.mem_cons_of_mem _ hx), fun x hx => ?_⟩
      · rw [List.map_cons, Schema.fillNamed]
        simp only [hR.key, pure_bind, hfind, if_neg hgo, hfill f hf v (hleft hfirst) node seen hpresents,
          hread]
      · rcases List.mem_cons.mp (hperm.mem_iff.mp hx) with rfl | hx
        · exact Or.inl (hgrow List.mem_cons_self)
        · exact hall x hx
    | @other _ _ name node _ hother hwhole hrest =>
      -- no field has the name, so the node is passed over and the draft stays
      have hfind : fields.find? (fun f => f.name == name) = none := by
        rw [List.find?_eq_none]
        intro f hf
        have hne : f.name ≠ name := by
          rintro rfl
          exact hother (hnames ▸ List.mem_map_of_mem hf)
        simpa using hne
      obtain ⟨seen', hread, hgrow, hall⟩ := ih hrest hleft hknown hnodup hnew
      refine ⟨seen', ?_, hgrow, hall⟩
      rw [List.map_cons, Schema.fillNamed]
      simp only [hR.key, pure_bind, hfind, hR.skip hwhole, hread]

/-- The members are those of the fields, in their order and perhaps without some that need not be there,
and filling in what presents a member takes the draft to one that has that member too. -/
inductive Tells (R : Rendering N) (sort : RecordSort) (draft : List String → α) :
    List (Field m N α) → List (String × Value) → Prop
  | nil : Tells R sort draft [] []
  | field {f : Field m N α} {fields : List (Field m N α)} {v : Value}
      {members : List (String × Value)} :
      (∀ seen node, Presents R (sort.contentOf f.name) v node →
        f.fill node (draft seen) = pure (draft (f.name :: seen))) →
      (f.required = true → sort.standard? f.name = none) → Tells R sort draft fields members →
      Tells R sort draft (f :: fields) ((f.name, v) :: members)
  | absent {f : Field m N α} {fields : List (Field m N α)} {members : List (String × Value)} :
      f.required = false → Tells R sort draft fields members →
      Tells R sort draft (f :: fields) members

section Tells

variable {sort : RecordSort} {draft : List String → α} {fields : List (Field m N α)}
  {members : List (String × Value)} (h : Tells R sort draft fields members)
omit [LawfulMonad m] hR
include h

theorem Tells.sublist : (members.map (·.1)).Sublist (fields.map (·.name)) := by
  induction h with
  | nil => exact .slnil
  | field _ _ _ ih => exact ih.cons_cons _
  | absent _ _ ih => exact ih.cons _

theorem Tells.fill (hnodup : (fields.map (·.name)).Nodup) {f : Field m N α} (hf : f ∈ fields)
    {v : Value} (hv : (f.name, v) ∈ members) (seen : List String) {node : N}
    (hnode : Presents R (sort.contentOf f.name) v node) :
    f.fill node (draft seen) = pure (draft (f.name :: seen)) := by
  induction h with
  | nil => cases hf
  | @field g fields w members hfill _ hrest ih =>
    rw [List.map_cons, List.nodup_cons] at hnodup
    rcases List.mem_cons.mp hf with rfl | hf <;> rcases List.mem_cons.mp hv with heq | hv
    · cases heq
      exact hfill seen node hnode
    · exact absurd (hrest.sublist.subset (List.mem_map.mpr ⟨_, hv, rfl⟩)) hnodup.1
    · exact absurd (List.mem_map.mpr ⟨f, hf, congrArg Prod.fst heq⟩) hnodup.1
    · exact ih hnodup.2 hf hv
  | @absent g fields members _ hrest ih =>
    rw [List.map_cons, List.nodup_cons] at hnodup
    rcases List.mem_cons.mp hf with rfl | hf
    · exact absurd (hrest.sublist.subset (List.mem_map.mpr ⟨_, hv, rfl⟩)) hnodup.1
    · exact ih hnodup.2 hf hv

theorem Tells.needed {f : Field m N α} (hf : f ∈ fields) (hrequired : f.required = true) :
    (∃ v, (f.name, v) ∈ members) ∧ sort.standard? f.name = none := by
  induction h with
  | nil => cases hf
  | field _ hstandard _ ih =>
    rcases List.mem_cons.mp hf with rfl | hf
    · exact ⟨⟨_, List.mem_cons_self⟩, hstandard hrequired⟩
    · obtain ⟨⟨v, hv⟩, hno⟩ := ih hf
      exact ⟨⟨v, List.mem_cons_of_mem _ hv⟩, hno⟩
  | absent hoptional _ ih =>
    rcases List.mem_cons.mp hf with rfl | hf
    · rw [hoptional] at hrequired
      cases hrequired
    · exact ih hf

end Tells

/-- A record is read as `a` from everything that presents its members. -/
theorem read_shown {sort : RecordSort} {schema : Schema m N α} {members : List (String × Value)}
    {a : α} (draft : List String → α) (hnames : schema.fields.map (·.name) = sort.names)
    (hnodup : sort.names.Nodup) (hblank : draft [] = schema.blank)
    (htells : Tells R sort draft schema.fields members)
    (hend : ∀ seen, (∀ x ∈ members, x.1 ∈ seen ∨ sort.standard? x.1 = some x.2) → draft seen = a)
    {node : N} (h : Presents R (.record sort) (.object members) node) (room : Nat) :
    schema.read source (room + 1) node = pure a := by
  obtain ⟨shown, rfl, hshown⟩ := h.members
  rw [← hnames] at hnodup
  have hnone : ∀ x ∈ members, x.1 ∉ ([] : List String) := fun _ _ => List.not_mem_nil
  have hknown : ∀ x ∈ members, x.1 ∈ sort.names := fun x hx =>
    hnames ▸ htells.sublist.subset (List.mem_map.mpr ⟨x, hx, rfl⟩)
  obtain ⟨seen, hread, -, hall⟩ :=
    fillNamed_shown hR hnames (fun f hf v hv node seen => htells.fill hnodup hf hv seen) hshown
      (List.Subset.refl _) hknown (hnodup.sublist htells.sublist) hnone
  have hmissing : schema.fields.find? (fun f => f.required && !seen.contains f.name) = none := by
    rw [List.find?_eq_none]
    intro f hf hmissing
    obtain ⟨hrequired, hunseen⟩ := (Bool.and_eq_true _ _).mp hmissing
    obtain ⟨⟨v, hv⟩, hno⟩ := htells.needed hf hrequired
    rcases hall _ hv with hseen | hstandard
    · simp [hseen] at hunseen
    · rw [hno] at hstandard
      cases hstandard
  unfold Schema.read
  rw [hblank] at hread
  simp only [hR.record, pure_bind, hread, hmissing, hend seen hall]

/-! ### Lists and values that may be absent -/

omit hR in
theorem mapM_shown {f : α → Value} {sort : RecordSort} {read : N → m α} {values : List α}
    (hread : ∀ a ∈ values, ∀ node, Presents R (.record sort) (f a) node → read node = pure a)
    {nodes : List N} (h : PresentsAll R sort (values.map f) nodes) :
    nodes.mapM read = pure values := by
  induction values generalizing nodes with
  | nil =>
    cases h
    rfl
  | cons a values ih =>
    rw [List.forall_mem_cons] at hread
    cases h with
    | cons hfirst hrest =>
      rw [List.mapM_cons, hread.1 _ hfirst, pure_bind, ih hread.2 hrest, pure_bind]

theorem elements_shown {f : α → Value} {sort : RecordSort} {read : N → m α} {values : List α}
    (hread : ∀ a ∈ values, ∀ node, Presents R (.record sort) (f a) node → read node = pure a)
    {node : N} (h : Presents R (.records sort) (.array (values.map f)) node) (room : Nat) :
    source.elements (room + 1) read node = pure values := by
  obtain ⟨nodes, rfl, hnodes⟩ := h.items
  simp only [Source.elements, hR.items, pure_bind, mapM_shown hread hnodes]

theorem listOf_shown {f : α → Value} {sort : RecordSort} {read : Nat → N → m α} {values : List α}
    {room : Nat} (hdepth : (Value.array (values.map f)).depth ≤ room)
    (hread : ∀ a ∈ values, ∀ room node, (f a).depth ≤ room →
      Presents R (.record sort) (f a) node → read room node = pure a)
    {node : N} (h : Presents R (.records sort) (.array (values.map f)) node) :
    source.listOf read room node = pure values := by
  cases room with
  | zero => simp [Value.depth] at hdepth
  | succ room =>
    rw [Value.depth_array_le_iff, List.forall_mem_map] at hdepth
    exact elements_shown hR (fun a ha node => hread a ha room node (hdepth a ha)) h room

theorem mapM_texts (values : List String) :
    ((values.map Value.text).map R.node).mapM (source.text .text) = pure values := by
  induction values with
  | nil => rfl
  | cons s values ih =>
    rw [List.map_cons, List.map_cons, List.mapM_cons, hR.text, pure_bind, ih, pure_bind]

theorem listOf_texts {values : List String} {room : Nat} (hdepth : (Value.texts values).depth ≤ room)
    {node : N} (h : Presents R .plain (Value.texts values) node) :
    source.listOf (fun _ => source.text .text) room node = pure values := by
  cases room with
  | zero => simp [Value.texts, Value.depth] at hdepth
  | succ room =>
    rw [h.eq_node, Value.texts, R.node_array]
    simp only [Source.listOf, Source.elements, hR.items, pure_bind, mapM_texts hR]

theorem optionOf_text {o : Option String} {node : N}
    (h : Presents R .plain (.ofOption .text o) node) :
    source.optionOf (source.text .text) node = pure o := by
  rw [h.eq_node]
  cases o with
  | none => simp only [Value.ofOption, Source.optionOf, hR.absent, pure_bind]
  | some s => simp only [Value.ofOption, Source.optionOf, hR.present, hR.text, pure_bind]

theorem optionOf_record {f : α → Value} {sort : RecordSort} {read : N → m α} {o : Option α}
    (hobject : ∀ a, ∃ members, f a = .object members)
    (hread : ∀ a, o = some a → ∀ node, Presents R (.record sort) (f a) node → read node = pure a)
    {node : N} (h : Presents R (.record sort) (.ofOption f o) node) :
    source.optionOf read node = pure o := by
  cases o with
  | none =>
    cases h
    simp only [Value.ofOption, Source.optionOf, hR.absent, pure_bind]
  | some a =>
    have hfound := hread a rfl node h
    obtain ⟨members, heq⟩ := hobject a
    rw [Value.ofOption, heq] at h
    obtain ⟨shown, rfl, -⟩ := h.members
    simp only [Source.optionOf, hR.presentObject, pure_bind, hfound]

/-! ## Drafts -/

/-- What a draft says of a member: what is told, once the member has been seen. -/
def told (seen : List String) (name : String) (value standard : β) : β :=
  if name ∈ seen then value else standard

omit hR in
@[simp] theorem told_nil (name : String) (value standard : β) :
    told [] name value standard = standard := by
  simp [told]

omit hR in
@[simp] theorem told_self (seen : List String) (name : String) (value standard : β) :
    told (name :: seen) name value standard = value := by
  simp [told]

omit hR in
@[simp] theorem told_other (seen : List String) {name other : String} (h : name ≠ other)
    (value standard : β) : told (other :: seen) name value standard = told seen name value standard := by
  simp [told, h]

omit hR in
theorem told_eq {seen : List String} {name : String} {value standard : β}
    (h : name ∈ seen ∨ value = standard) : told seen name value standard = value := by
  unfold told
  split
  · rfl
  · rename_i hno
    exact (h.resolve_left hno).symm

end StubListing.Catalog
