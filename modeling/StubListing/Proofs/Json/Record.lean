import StubListing.Decode.Record
import StubListing.Proofs.Json.Spelling
/-!
# Reading back what was written

A record that is written with its fields in the order of the schema, and a list of records, are read
back from their trees.
-/
namespace StubListing.Json
open StubListing.Decode

variable {α β : Type}

theorem asCount_node {n : Nat} (hn : n < UInt64.size) : asCount (Value.number n).node = .ok n := by
  simp only [Value.node, asCount, value_toDigits hn]

/-! ## Records -/

/-- The members are the values of the fields, one after the other, and filling them in takes the
draft to the result. -/
inductive Fills : List (Field (Except Fault) Node α) → List (String × Value) → α → α → Prop
  | none (draft : α) : Fills [] [] draft draft
  | next {f : Field (Except Fault) Node α} {fields : List (Field (Except Fault) Node α)} {v : Value}
      {members : List (String × Value)} {draft filled result : α} :
      f.fill v.node draft = .ok filled → Fills fields members filled result →
      Fills (f :: fields) ((f.name, v) :: members) draft result

theorem find?_field {front fields : List (Field (Except Fault) Node α)}
    {f : Field (Except Fault) Node α}
    (h : ((front ++ f :: fields).map (·.name)).Nodup) :
    (front ++ f :: fields).find? (fun g => g.name == f.name) = some f := by
  rw [List.find?_append, List.find?_eq_none.mpr]
  · simp
  · intro g hg
    rw [List.map_append, List.nodup_append] at h
    have := h.2.2 g.name (List.mem_map.mpr ⟨g, hg, rfl⟩) f.name (by simp)
    simpa using this

/-- Filling in the members one by one gives the result, and every field has been seen. -/
theorem fillNamed_of_fills {fields : List (Field (Except Fault) Node α)}
    {members : List (String × Value)} {draft result : α} (h : Fills fields members draft result) :
    ∀ (all front : List (Field (Except Fault) Node α)) (seen : List String),
      all = front ++ fields → (all.map (·.name)).Nodup →
      (∀ name, name ∈ seen ↔ name ∈ front.map (·.name)) →
      ∃ seen', Schema.fillNamed source all (Value.memberNodes members) seen draft =
          .ok (seen', result) ∧ ∀ f ∈ all, f.name ∈ seen' := by
  induction h with
  | none draft =>
    intro all front seen hall _ hseen
    refine ⟨seen, rfl, fun f hf => (hseen f.name).mpr ?_⟩
    rw [hall, List.append_nil] at hf
    exact List.mem_map.mpr ⟨f, hf, rfl⟩
  | next hfill hmore ih =>
    rename_i f fields v members draft filled result
    intro all front seen hall hnodup hseen
    have hnew : f.name ∉ seen := by
      rw [hseen]
      rw [hall, List.map_append, List.nodup_append] at hnodup
      exact fun hm => hnodup.2.2 f.name hm f.name (by simp) rfl
    have hfound := find?_field (hall ▸ hnodup)
    rw [← hall] at hfound
    obtain ⟨seen', hrest, hall'⟩ := ih all (front ++ [f]) (f.name :: seen)
      (by rw [hall]; simp) hnodup (fun name => by simp [hseen, or_comm])
    refine ⟨seen', ?_, hall'⟩
    have hkey : source.key (Node.text (some f.name)) = .ok f.name := rfl
    have hcontains : ¬ seen.contains f.name = true := by simpa using hnew
    rw [Value.memberNodes, Schema.fillNamed]
    simp only [hkey, bind, Except.bind, hfound, if_neg hcontains, hfill, hrest]

/-- A record whose members are written in the order of its fields is read back. -/
theorem read_object {schema : Schema (Except Fault) Node α} {members : List (String × Value)}
    {result : α} (hnames : (schema.fields.map (·.name)).Nodup)
    (h : Fills schema.fields members schema.blank result) (room : Nat) :
    Schema.read source (room + 1) schema (Value.object members).node = .ok result := by
  obtain ⟨seen, hfill, hseen⟩ := fillNamed_of_fills h schema.fields [] [] rfl hnames (by simp)
  have hmissing : schema.fields.find? (fun f => f.required && !seen.contains f.name) = none := by
    rw [List.find?_eq_none]
    intro f hf
    simp [hseen f hf]
  have hrecord : source.record (room + 1) schema.name (Value.object members).node =
      .ok (.named (Value.memberNodes members) (.ok ())) := rfl
  simp only [Schema.read, hrecord, bind, Except.bind, hfill, hmissing]
  rfl

/-! ## Lists -/

theorem mapM_of_forall {read : Node → Except Fault α} (node : α → Node) {values : List α}
    (h : ∀ a ∈ values, read (node a) = .ok a) : (values.map node).mapM read = .ok values := by
  induction values with
  | nil => rfl
  | cons a values ih =>
    rw [List.map_cons, List.mapM_cons, h a (by simp), ih fun b hb => h b (List.mem_cons_of_mem _ hb)]
    rfl

/-- A list is read back if its elements are. -/
theorem listOf_array {read : Nat → Node → Except Fault α} {f : α → Value} {values : List α}
    {room : Nat} (h : ∀ a ∈ values, read room (f a).node = .ok a) :
    source.listOf read (room + 1) (Value.array (values.map f)).node = .ok values := by
  have hmap := mapM_of_forall (Value.node ∘ f) h
  show ((Value.nodes (values.map f)).mapM (read room) >>= fun x => _) = _
  rw [Value.nodes_eq_map, List.map_map, hmap]
  rfl

theorem listOf_texts (values : List String) (room : Nat) :
    source.listOf (fun _ => source.text .text) (room + 1) (Value.texts values).node = .ok values :=
  listOf_array fun _ _ => rfl

end StubListing.Json
