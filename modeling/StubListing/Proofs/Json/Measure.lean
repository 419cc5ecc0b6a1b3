import StubListing.Json.Value
/-!
# What a value is made of

How many arrays and objects stand inside each other, the texts, and the keys of members.
-/
namespace StubListing.Json.Value

/-! ## Depth -/

mutual

/-- How many arrays and objects are inside each other. -/
def depth : Value → Nat
  | .array items => depths items + 1
  | .object members => memberDepths members + 1
  | _ => 0

/-- How deep the deepest item is nested. -/
def depths : List Value → Nat
  | [] => 0
  | item :: items => max (depth item) (depths items)

/-- How deep the deepest member is nested. -/
def memberDepths : List (String × Value) → Nat
  | [] => 0
  | (_, value) :: members => max (depth value) (memberDepths members)

end

theorem depths_le_iff {items : List Value} {n : Nat} : depths items ≤ n ↔ ∀ v ∈ items, v.depth ≤ n := by
  induction items with
  | nil => simp [depths]
  | cons v items ih => rw [depths, Nat.max_le, ih, List.forall_mem_cons]

theorem memberDepths_le_iff {members : List (String × Value)} {n : Nat} :
    memberDepths members ≤ n ↔ ∀ x ∈ members, x.2.depth ≤ n := by
  induction members with
  | nil => simp [memberDepths]
  | cons x members ih => rw [memberDepths, Nat.max_le, ih, List.forall_mem_cons]

theorem depth_array_le_iff {items : List Value} {n : Nat} :
    (Value.array items).depth ≤ n + 1 ↔ ∀ v ∈ items, v.depth ≤ n := by
  rw [depth, Nat.add_le_add_iff_right, depths_le_iff]

theorem depth_object_le_iff {members : List (String × Value)} {n : Nat} :
    (Value.object members).depth ≤ n + 1 ↔ ∀ x ∈ members, x.2.depth ≤ n := by
  rw [depth, Nat.add_le_add_iff_right, memberDepths_le_iff]

/-- What is in an object is nested one level less. -/
theorem exists_room {members : List (String × Value)} {n : Nat}
    (h : (Value.object members).depth ≤ n) : ∃ room, n = room + 1 ∧ ∀ x ∈ members, x.2.depth ≤ room := by
  cases n with
  | zero => simp [depth] at h
  | succ room => exact ⟨room, rfl, depth_object_le_iff.mp h⟩

/-! ## Texts and keys -/

mutual

/-- The texts in a value, without the keys of its members. -/
def strings : Value → List String
  | .text s => [s]
  | .array items => itemStrings items
  | .object members => memberStrings members
  | _ => []

def itemStrings : List Value → List String
  | [] => []
  | item :: items => strings item ++ itemStrings items

def memberStrings : List (String × Value) → List String
  | [] => []
  | (_, value) :: members => strings value ++ memberStrings members

end

mutual

/-- The keys of all members in a value. -/
def keys : Value → List String
  | .array items => itemKeys items
  | .object members => memberKeys members
  | _ => []

def itemKeys : List Value → List String
  | [] => []
  | item :: items => keys item ++ itemKeys items

def memberKeys : List (String × Value) → List String
  | [] => []
  | (key, value) :: members => key :: (keys value ++ memberKeys members)

end

theorem keys_array_subset {items : List Value} {names : List String}
    (h : ∀ v ∈ items, v.keys ⊆ names) : (Value.array items).keys ⊆ names := by
  rw [keys]
  induction items with
  | nil => exact List.nil_subset _
  | cons v items ih =>
    rw [List.forall_mem_cons] at h
    exact List.append_subset.mpr ⟨h.1, ih h.2⟩

theorem keys_object_subset {members : List (String × Value)} {names : List String}
    (h : ∀ x ∈ members, x.1 ∈ names ∧ x.2.keys ⊆ names) : (Value.object members).keys ⊆ names := by
  rw [keys]
  induction members with
  | nil => exact List.nil_subset _
  | cons x members ih =>
    rw [List.forall_mem_cons] at h
    exact List.cons_subset.mpr ⟨h.1.1, List.append_subset.mpr ⟨h.1.2, ih h.2⟩⟩

end StubListing.Json.Value
