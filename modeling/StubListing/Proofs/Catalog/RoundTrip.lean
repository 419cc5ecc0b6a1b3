import StubListing.Proofs.Catalog.Presenting
/-!
# Reading back a catalog

A catalog is read back from everything that presents it, in any notation that gives back what is
written, as long as it is not nested deeper than the notation allows.
-/
namespace StubListing.Catalog
open StubListing.Decode
open StubListing.Json (Value)

variable {m : Type → Type} [Monad m] [LawfulMonad m] {N α β : Type} {R : Rendering N}
  {source : Source m N} (hR : R.Faithful source) {sort : RecordSort} {draft : List String → α}
  {fields : List (Field m N α)} {members : List (String × Value)} {name : String}

/-! ## Mentions of types -/

namespace TypeRef

def argumentsMember : List TypeRef → List (String × Value)
  | [] => []
  | first :: rest => [("generic_arguments", .array ((first :: rest).map TypeRef.value))]

theorem value_eq (t : TypeRef) : t.value = .object
    (("name", .text t.name) ::
      (optionalMember "namespace" .text t.ns ++ argumentsMember t.arguments)) := by
  obtain ⟨name, ns, arguments⟩ := t
  cases arguments with
  | nil => rfl
  | cons first rest => simp [TypeRef.value, argumentsMember, TypeRef.values_eq_map]

theorem exists_members (t : TypeRef) : ∃ members, t.value = .object members := ⟨_, t.value_eq⟩

theorem value_ne_null (t : TypeRef) : t.value ≠ .null := by
  rw [value_eq]
  exact nofun

end TypeRef

/-! ## Fields -/

section Fields
include hR

theorem Tells.text {s : String} {set : String → α → α} (hcontent : sort.contentOf name = .plain)
    (hstandard : sort.standard? name = none)
    (hset : ∀ seen, set s (draft seen) = draft (name :: seen)) (h : Tells R sort draft fields members) :
    Tells R sort draft (textField source name set :: fields) ((name, .text s) :: members) := by
  refine .field (fun seen node hnode => ?_) (fun _ => hstandard) h
  have hplain : Presents R .plain (.text s) node := hcontent ▸ hnode
  rw [hplain.eq_node]
  simp only [textField, hR.text, pure_bind, hset]

omit hR in
theorem Tells.default {v : Value} {b : β} {read : N → m β} {set : β → α → α}
    (hread : ∀ node, Presents R (sort.contentOf name) v node → read node = pure b)
    (hset : ∀ seen, set b (draft seen) = draft (name :: seen)) (h : Tells R sort draft fields members) :
    Tells R sort draft (defaultField name read set :: fields) ((name, v) :: members) := by
  refine .field (fun seen node hnode => ?_) nofun h
  simp only [defaultField, hread node hnode, pure_bind, hset]

omit hR in
theorem Tells.need {v : Value} {b : β} {read : N → m β} {set : β → α → α}
    (hstandard : sort.standard? name = none)
    (hread : ∀ node, Presents R (sort.contentOf name) v node → read node = pure b)
    (hset : ∀ seen, set b (draft seen) = draft (name :: seen)) (h : Tells R sort draft fields members) :
    Tells R sort draft (neededField name read set :: fields) ((name, v) :: members) := by
  refine .field (fun seen node hnode => ?_) (fun _ => hstandard) h
  simp only [neededField, hread node hnode, pure_bind, hset]

theorem Tells.optionalText {o : Option String} {set : Option String → α → α}
    (hcontent : sort.contentOf name = .plain)
    (hset : ∀ seen, set o (draft seen) = draft (name :: seen)) (h : Tells R sort draft fields members) :
    Tells R sort draft (optionalTextField source name set :: fields)
      ((name, .ofOption .text o) :: members) := by
  refine .field (fun seen node hnode => ?_) nofun h
  simp only [optionalTextField, optionOf_text hR (hcontent ▸ hnode), pure_bind, hset]

theorem Tells.optionalMember {o : Option String} {set : Option String → α → α}
    (hcontent : sort.contentOf name = .plain)
    (hset : ∀ seen, set o (draft seen) = draft (name :: seen)) (h : Tells R sort draft fields members) :
    Tells R sort draft (optionalTextField source name set :: fields)
      (optionalMember name .text o ++ members) := by
  cases o with
  | none => exact .absent rfl h
  | some s => exact .optionalText hR hcontent hset h

theorem Tells.optionalLast {o : Option String} {set : Option String → α → α}
    (hcontent : sort.contentOf name = .plain)
    (hset : ∀ seen, set o (draft seen) = draft (name :: seen)) :
    Tells R sort draft [optionalTextField source name set]
      (Catalog.optionalMember name .text o) := by
  have htells := Tells.optionalMember hR (o := o) hcontent hset (.nil : Tells R sort draft [] [])
  rwa [List.append_nil] at htells

/-- A member that may be absent and holds a mention of a type. -/
theorem Tells.optionalMention {o : Option TypeRef} {read : N → m TypeRef}
    {set : Option TypeRef → α → α} (hcontent : sort.contentOf name = .record .mention)
    (hread : ∀ t, o = some t → ∀ node, Presents R (.record .mention) t.value node →
      read node = pure t)
    (hset : ∀ seen, set o (draft seen) = draft (name :: seen)) (h : Tells R sort draft fields members) :
    Tells R sort draft (defaultField name (source.optionOf read) set :: fields)
      (Catalog.optionalMember name TypeRef.value o ++ members) := by
  cases o with
  | none => exact .absent rfl h
  | some t =>
    refine .default (fun node hnode => ?_) hset h
    rw [hcontent] at hnode
    exact optionOf_record hR TypeRef.exists_members hread hnode

end Fields

/-! ## Drafts that are complete -/

section Complete

variable {seen : List String} {v w : Value}

theorem told_needed {b standard : β} (hstandard : sort.standard? name = none)
    (h : name ∈ seen ∨ sort.standard? name = some v) : told seen name b standard = b := by
  refine told_eq (h.imp_right fun hv => ?_)
  rw [hstandard] at hv
  cases hv

theorem told_standard {b standard : β} (hstandard : sort.standard? name = some w)
    (hsame : v = w → b = standard) (h : name ∈ seen ∨ sort.standard? name = some v) :
    told seen name b standard = b := by
  refine told_eq (h.imp_right fun hv => hsame ?_)
  rw [hstandard] at hv
  exact (Option.some.inj hv).symm

theorem told_list {f : β → Value} {values : List β} (hstandard : sort.standard? name = some (.array []))
    (h : name ∈ seen ∨ sort.standard? name = some (.array (values.map f))) :
    told seen name values [] = values :=
  told_standard hstandard (fun heq => List.map_eq_nil_iff.mp (Value.array.inj heq)) h

theorem told_option {f : β → Value} (hf : ∀ b, f b ≠ .null) {o : Option β}
    (hstandard : sort.standard? name = some .null)
    (h : name ∈ seen ∨ sort.standard? name = some (.ofOption f o)) : told seen name o none = o := by
  refine told_standard hstandard (fun heq => ?_) h
  cases o with
  | none => rfl
  | some b => exact absurd heq (hf b)

theorem told_optionalMember {f : β → Value} (hf : ∀ b, f b ≠ .null) {o : Option β}
    (hstandard : sort.standard? name = some .null)
    (h : ∀ x ∈ optionalMember name f o, x.1 ∈ seen ∨ sort.standard? x.1 = some x.2) :
    told seen name o none = o := by
  cases o with
  | none => exact told_eq (Or.inr rfl)
  | some b => exact told_option hf hstandard (h (name, f b) (List.mem_singleton_self _))

end Complete

/-! ## Records of which some members are known

A draft has those members that have been seen, and what is taken anyway in place of the others. -/

def TypeRef.upTo (t : TypeRef) (seen : List String) : TypeRef :=
  ⟨told seen "name" t.name "", told seen "namespace" t.ns none,
    told seen "generic_arguments" t.arguments []⟩

def Flags.upTo (f : Flags) (seen : List String) : Flags :=
  ⟨told seen "public" f.isPublic false, told seen "private" f.isPrivate false,
    told seen "static" f.isStatic false, told seen "virtual" f.isVirtual false,
    told seen "abstract" f.isAbstract false, told seen "constructor" f.isConstructor false⟩

def DataMember.upTo (d : DataMember) (seen : List String) : DataMember :=
  ⟨told seen "name" d.name "", told seen "type" d.type ⟨"", none, []⟩,
    told seen "flags" d.flags Flags.none, told seen "declaring_type" d.declaredBy none⟩

def Parameter.upTo (p : Parameter) (seen : List String) : Parameter :=
  ⟨told seen "name" p.name "", told seen "type" p.type ⟨"", none, []⟩⟩

def Method.upTo (d : Method) (seen : List String) : Method :=
  ⟨told seen "name" d.name "", told seen "return_type" d.result none,
    told seen "flags" d.flags Flags.none, told seen "parameters" d.parameters [],
    told seen "declaring_type" d.declaredBy none⟩

def TypeDecl.upTo (t : TypeDecl) (seen : List String) : TypeDecl :=
  ⟨told seen "name" t.name "", told seen "namespace" t.ns none,
    told seen "kind" t.kind .plainClass, told seen "base_type" t.base none,
    told seen "attributes" t.attributes [], told seen "generic_arguments" t.arguments [],
    told seen "properties" t.properties [], told seen "fields" t.fields [],
    told seen "methods" t.methods []⟩

def Module.upTo (d : Module) (seen : List String) : Module :=
  ⟨told seen "name" d.name "", told seen "types" d.types []⟩

def Document.upTo (d : Document) (seen : List String) : Document := ⟨told seen "modules" d.modules []⟩

/-! ## What is written -/

theorem Flags.eq_none_of_value {f : Flags} (h : f.value = Flags.none.value) : f = Flags.none := by
  obtain ⟨_, _, _, _, _, _⟩ := f
  simpa [Flags.value, Flags.none] using h

theorem Method.value_eq (d : Method) : d.value = .object (("name", .text d.name) ::
    (optionalMember "return_type" TypeRef.value d.result ++ ("flags", d.flags.value) ::
      ("parameters", .array (d.parameters.map Parameter.value)) ::
        optionalMember "declaring_type" .text d.declaredBy)) := by
  simp [Method.value]

theorem TypeKind.lookup_word (kind : TypeKind) : TypeKind.words.lookup kind.word = some kind := by
  cases kind <;> rfl

theorem TypeKind.eq_plainClass_of_word {kind : TypeKind} (h : kind.word = "class") :
    kind = .plainClass := by
  cases kind with
  | plainClass => rfl
  | interface => exact absurd h (by decide)
  | struct => exact absurd h (by decide)
  | enumeration => exact absurd h (by decide)

theorem TypeRef.one_le_depth (t : TypeRef) : 1 ≤ t.value.depth := by
  rw [value_eq, Value.depth]
  omega

theorem TypeRef.depth_arguments {t : TypeRef} {room : Nat} (ht : t.arguments ≠ [])
    (h : t.value.depth ≤ room + 1) :
    (Value.array (t.arguments.map TypeRef.value)).depth ≤ room := by
  obtain ⟨first, rest, hlist⟩ := List.exists_cons_of_ne_nil ht
  rw [value_eq, Value.depth_object_le_iff] at h
  refine h ("generic_arguments", .array (t.arguments.map TypeRef.value)) ?_
  simp [hlist, argumentsMember]

/-! ## Reading mentions and flags -/

include hR

theorem TypeRef.read_schema_shown (t : TypeRef) {arguments : N → m (List TypeRef)}
    (harguments : t.arguments ≠ [] → ∀ node,
      Presents R (.records .mention) (.array (t.arguments.map TypeRef.value)) node →
        arguments node = pure t.arguments)
    {node : N} (h : Presents R (.record .mention) t.value node) (room : Nat) :
    (TypeRef.schema source arguments).read source (room + 1) node = pure t := by
  rw [value_eq] at h
  refine Catalog.read_shown hR t.upTo rfl (by decide) rfl ?_ (fun seen hseen => ?_) h room
  · refine .text hR rfl rfl (fun seen => by simp [upTo]) <|
      .optionalMember hR rfl (fun seen => by simp [upTo]) ?_
    cases hlist : t.arguments with
    | nil => exact .absent rfl .nil
    | cons first rest =>
      rw [hlist] at harguments
      exact .default (harguments (List.cons_ne_nil _ _)) (fun seen => by simp [upTo, hlist]) .nil
  · simp only [List.forall_mem_cons, List.forall_mem_append] at hseen
    obtain ⟨hname, hns, hrest⟩ := hseen
    have harguments : told seen "generic_arguments" t.arguments [] = t.arguments := by
      cases hlist : t.arguments with
      | nil => exact told_eq (Or.inr rfl)
      | cons first rest =>
        rw [hlist] at hrest
        exact told_list (f := TypeRef.value) rfl (hrest _ (List.mem_singleton_self _))
    rw [upTo, told_needed rfl hname, told_optionalMember nofun rfl hns, harguments]
    obtain ⟨_, _, _⟩ := t
    rfl

/-- A mention of a type is read back; each level of its arguments takes two levels of nesting. -/
theorem TypeRef.read_shown : ∀ (room : Nat) (t : TypeRef) (node : N), t.value.depth ≤ room →
    Presents R (.record .mention) t.value node → TypeRef.read source room node = pure t
  | 0, t, _, hdepth, _ => absurd (Nat.le_trans t.one_le_depth hdepth) (by decide)
  | 1, t, node, hdepth, h => by
    refine TypeRef.read_schema_shown hR t (fun hne => ?_) h 0
    have := TypeRef.depth_arguments hne hdepth
    simp [Value.depth] at this
  | room + 2, t, node, hdepth, h => by
    refine TypeRef.read_schema_shown hR t (fun hne node' h' => ?_) h (room + 1)
    have harguments := TypeRef.depth_arguments hne hdepth
    rw [Value.depth_array_le_iff, List.forall_mem_map] at harguments
    exact elements_shown hR (fun a ha node => TypeRef.read_shown room a node (harguments a ha)) h' room

theorem Flags.read_shown (f : Flags) (room : Nat) (node : N) (hdepth : f.value.depth ≤ room)
    (h : Presents R (.record .flags) f.value node) : Flags.read source room node = pure f := by
  obtain ⟨room, rfl, -⟩ := Value.exists_room hdepth
  have hflag : ∀ {b : Bool} (node : N), Presents R .plain (.boolean b) node →
      source.boolean node = pure b := by
    intro b node hnode
    rw [hnode.eq_node, hR.boolean]
  refine Catalog.read_shown hR f.upTo rfl (by decide) rfl ?_ (fun seen hseen => ?_) h room
  · refine .default hflag (fun seen => by simp [upTo]) <|
      .default hflag (fun seen => by simp [upTo]) <|
      .default hflag (fun seen => by simp [upTo]) <|
      .default hflag (fun seen => by simp [upTo]) <|
      .default hflag (fun seen => by simp [upTo]) <|
      .default hflag (fun seen => by simp [upTo]) .nil
  · have htold : ∀ {name : String} {b : Bool},
        RecordSort.flags.standard? name = some (.boolean false) →
        name ∈ seen ∨ RecordSort.flags.standard? name = some (.boolean b) →
        told seen name b false = b := fun hstandard => told_standard hstandard Value.boolean.inj
    simp only [List.forall_mem_cons] at hseen
    obtain ⟨h₁, h₂, h₃, h₄, h₅, h₆, -⟩ := hseen
    rw [upTo, htold rfl h₁, htold rfl h₂, htold rfl h₃, htold rfl h₄, htold rfl h₅, htold rfl h₆]

/-! ## Members of types -/

theorem DataMember.read_shown (record : String) (d : DataMember) (room : Nat) (node : N)
    (hdepth : d.value.depth ≤ room) (h : Presents R (.record .dataMember) d.value node) :
    DataMember.read source record room node = pure d := by
  obtain ⟨room, rfl, hroom⟩ := Value.exists_room hdepth
  simp only [List.forall_mem_append, List.forall_mem_cons] at hroom
  obtain ⟨⟨-, htype, hflags, -⟩, -⟩ := hroom
  refine Catalog.read_shown hR d.upTo rfl (by decide) rfl ?_ (fun seen hseen => ?_) h room
  · refine .text hR rfl rfl (fun seen => by simp [upTo]) <|
      .need rfl (fun node => d.type.read_shown hR room node htype) (fun seen => by simp [upTo]) <|
      .default (fun node => d.flags.read_shown hR room node hflags) (fun seen => by simp [upTo]) <|
      .optionalLast hR rfl (fun seen => by simp [upTo])
  · simp only [List.forall_mem_append, List.forall_mem_cons] at hseen
    obtain ⟨⟨hname, htype, hflags, -⟩, hdeclared⟩ := hseen
    rw [upTo, told_needed rfl hname, told_needed rfl htype,
      told_standard rfl Flags.eq_none_of_value hflags, told_optionalMember nofun rfl hdeclared]

theorem Parameter.read_shown (p : Parameter) (room : Nat) (node : N) (hdepth : p.value.depth ≤ room)
    (h : Presents R (.record .parameter) p.value node) : Parameter.read source room node = pure p := by
  obtain ⟨room, rfl, hroom⟩ := Value.exists_room hdepth
  simp only [List.forall_mem_cons] at hroom
  obtain ⟨-, htype, -⟩ := hroom
  refine Catalog.read_shown hR p.upTo rfl (by decide) rfl ?_ (fun seen hseen => ?_) h room
  · refine .text hR rfl rfl (fun seen => by simp [upTo]) <|
      .need rfl (fun node => p.type.read_shown hR room node htype) (fun seen => by simp [upTo]) .nil
  · simp only [List.forall_mem_cons] at hseen
    obtain ⟨hname, htype, -⟩ := hseen
    rw [upTo, told_needed rfl hname, told_needed rfl htype]

theorem Method.read_shown (d : Method) (room : Nat) (node : N) (hdepth : d.value.depth ≤ room)
    (h : Presents R (.record .method) d.value node) : Method.read source room node = pure d := by
  rw [Method.value_eq] at h hdepth
  obtain ⟨room, rfl, hroom⟩ := Value.exists_room hdepth
  simp only [List.forall_mem_append, List.forall_mem_cons] at hroom
  obtain ⟨-, hresult, hflags, hparameters, -⟩ := hroom
  refine Catalog.read_shown hR d.upTo rfl (by decide) rfl ?_ (fun seen hseen => ?_) h room
  · refine .text hR rfl rfl (fun seen => by simp [upTo]) <|
      .optionalMention hR rfl (fun t ht node => t.read_shown hR room node ?_)
        (fun seen => by simp [upTo]) <|
      .default (fun node => d.flags.read_shown hR room node hflags) (fun seen => by simp [upTo]) <|
      .default (fun node => listOf_shown hR hparameters fun p _ => p.read_shown hR)
        (fun seen => by simp [upTo]) <|
      .optionalLast hR rfl (fun seen => by simp [upTo])
    exact hresult ("return_type", t.value) (by simp [ht, optionalMember])
  · simp only [List.forall_mem_append, List.forall_mem_cons] at hseen
    obtain ⟨hname, hresult, hflags, hparameters, hdeclared⟩ := hseen
    rw [upTo, told_needed rfl hname, told_optionalMember TypeRef.value_ne_null rfl hresult,
      told_standard rfl Flags.eq_none_of_value hflags, told_list (f := Parameter.value) rfl hparameters,
      told_optionalMember nofun rfl hdeclared]

theorem TypeDecl.read_shown (t : TypeDecl) (room : Nat) (node : N) (hdepth : t.value.depth ≤ room)
    (h : Presents R (.record .type) t.value node) : TypeDecl.read source room node = pure t := by
  obtain ⟨room, rfl, hroom⟩ := Value.exists_room hdepth
  simp only [List.forall_mem_cons] at hroom
  obtain ⟨-, -, -, hbase, hattributes, harguments, hproperties, hfields, hmethods, -⟩ := hroom
  have hkind : ∀ node : N, Presents R .plain (.text t.kind.word) node →
      source.variant room TypeKind.words node = pure t.kind := by
    intro node hnode
    rw [hnode.eq_node]
    exact hR.word room t.kind.lookup_word
  have hmention : ∀ node : N, Presents R (.record .mention) (.ofOption TypeRef.value t.base) node →
      source.optionOf (TypeRef.read source room) node = pure t.base := by
    intro node hnode
    refine optionOf_record hR TypeRef.exists_members (fun base h node => ?_) hnode
    rw [h] at hbase
    exact base.read_shown hR room node hbase
  refine Catalog.read_shown hR t.upTo rfl (by decide) rfl ?_ (fun seen hseen => ?_) h room
  · refine .text hR rfl rfl (fun seen => by simp [upTo]) <|
      .optionalText hR rfl (fun seen => by simp [upTo]) <|
      .default hkind (fun seen => by simp [upTo]) <|
      .default hmention (fun seen => by simp [upTo]) <|
      .default (fun node => listOf_texts hR hattributes) (fun seen => by simp [upTo]) <|
      .default (fun node => listOf_shown hR harguments fun t _ => t.read_shown hR)
        (fun seen => by simp [upTo]) <|
      .default (fun node => listOf_shown hR hproperties fun d _ => d.read_shown hR _)
        (fun seen => by simp [upTo]) <|
      .default (fun node => listOf_shown hR hfields fun d _ => d.read_shown hR _)
        (fun seen => by simp [upTo]) <|
      .default (fun node => listOf_shown hR hmethods fun d _ => d.read_shown hR)
        (fun seen => by simp [upTo]) .nil
  · simp only [List.forall_mem_cons] at hseen
    obtain ⟨hname, hns, hkind, hbase, hattributes, harguments, hproperties, hfields, hmethods, -⟩ :=
      hseen
    rw [upTo, told_needed rfl hname, told_option nofun rfl hns,
      told_standard rfl (fun heq => TypeKind.eq_plainClass_of_word (Value.text.inj heq)) hkind,
      told_option TypeRef.value_ne_null rfl hbase, told_list (f := Value.text) rfl hattributes,
      told_list (f := TypeRef.value) rfl harguments, told_list (f := DataMember.value) rfl hproperties,
      told_list (f := DataMember.value) rfl hfields, told_list (f := Method.value) rfl hmethods]

/-! ## Modules and documents -/

theorem Module.read_shown (d : Module) (room : Nat) (node : N) (hdepth : d.value.depth ≤ room)
    (h : Presents R (.record .module) d.value node) : Module.read source room node = pure d := by
  obtain ⟨room, rfl, hroom⟩ := Value.exists_room hdepth
  simp only [List.forall_mem_cons] at hroom
  obtain ⟨-, htypes, -⟩ := hroom
  refine Catalog.read_shown hR d.upTo rfl (by decide) rfl ?_ (fun seen hseen => ?_) h room
  · refine .text hR rfl rfl (fun seen => by simp [upTo]) <|
      .default (fun node => listOf_shown hR htypes fun t _ => t.read_shown hR)
        (fun seen => by simp [upTo]) .nil
  · simp only [List.forall_mem_cons] at hseen
    obtain ⟨hname, htypes, -⟩ := hseen
    rw [upTo, told_needed rfl hname, told_list (f := TypeDecl.value) rfl htypes]

/-- A document is read back from everything that presents it. -/
theorem Document.read_shown (d : Document) (room : Nat) (node : N) (hdepth : d.value.depth ≤ room)
    (h : Presents R (.record .document) d.value node) : Document.read source room node = pure d := by
  obtain ⟨room, rfl, hroom⟩ := Value.exists_room hdepth
  simp only [List.forall_mem_cons] at hroom
  obtain ⟨hmodules, -⟩ := hroom
  refine Catalog.read_shown hR d.upTo rfl (by decide) rfl ?_ (fun seen hseen => ?_) h room
  · exact .default (fun node => listOf_shown hR hmodules fun d _ => d.read_shown hR)
      (fun seen => by simp [upTo]) .nil
  · simp only [List.forall_mem_cons] at hseen
    obtain ⟨hmodules, -⟩ := hseen
    rw [upTo, told_list (f := Module.value) rfl hmodules]

end StubListing.Catalog
