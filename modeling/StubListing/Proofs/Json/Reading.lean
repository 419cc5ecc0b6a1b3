import StubListing.Proofs.Json.Record
/-!
# What data can be

What is known of data that was read: a count fits into sixty-four bits, what every field keeps is
kept by the record, and every element of a list was read. It holds of whatever text the data comes
from, with members in any order, members passed over and records written by position.
-/
namespace StubListing.Json
open StubListing.Decode StubListing.Text

variable {α β : Type}

theorem bind_eq_ok {x : Except Fault α} {next : α → Except Fault β} {b : β} :
    (x >>= next) = .ok b ↔ ∃ a, x = .ok a ∧ next a = .ok b := by
  constructor
  · cases x with
    | error fault => exact nofun
    | ok a => exact fun h => ⟨a, rfl, h⟩
  · rintro ⟨a, rfl, hnext⟩
    exact hnext

/-! ## Counts -/

/-- Digits are collected only while the number fits. -/
theorem collect_lt {n : Nat} (digits : List Char) (hn : n < UInt64.size) :
    (Numeral.collect n digits).1 < UInt64.size := by
  induction digits generalizing n with
  | nil => exact hn
  | cons c digits ih =>
    unfold Numeral.collect
    dsimp only
    split
    · rename_i hnext
      exact ih hnext
    · exact hn

theorem toDouble_ne_natural (n : Numeral) (significand : Nat) (shift : Int) (m : Nat) :
    n.toDouble significand shift ≠ .natural m := by
  unfold Numeral.toDouble
  dsimp only
  repeat' split
  all_goals simp

theorem natural_lt {n : Numeral} {m : Nat} (h : n.value = .natural m) : m < UInt64.size := by
  have hwhole := collect_lt n.whole (n := 0) (by decide)
  unfold Numeral.value at h
  dsimp only at h
  split at h
  · split at h
    · exact absurd h (toDouble_ne_natural _ _ _ _)
    · split at h
      · cases h
        exact hwhole
      · split at h <;> cases h
  · exact absurd h (toDouble_ne_natural _ _ _ _)
  · exact absurd h (toDouble_ne_natural _ _ _ _)

/-- A count fits into sixty-four bits. -/
theorem asCount_lt {node : Node} {n : Nat} (h : asCount node = .ok n) : n < UInt64.size := by
  unfold asCount at h
  split at h
  · split at h
    · rename_i hvalue
      cases h
      exact natural_lt hvalue
    · cases h
    · cases h
  · cases h

/-! ## Records -/

/-- Filling in any of the fields keeps the property, which may go by the names that have been
filled in. -/
def KeptBy (fields : List (Field (Except Fault) Node α)) (P : List String → α → Prop) : Prop :=
  ∀ f ∈ fields, ∀ {seen : List String} {node : Node} {draft filled : α}, P seen draft →
    f.fill node draft = .ok filled → P (f.name :: seen) filled

variable {fields : List (Field (Except Fault) Node α)} {P : List String → α → Prop}

theorem keptBy_nil : KeptBy [] P := by
  intro f hf
  cases hf

theorem keptBy_cons {f : Field (Except Fault) Node α}
    (hfirst : ∀ {seen : List String} {node : Node} {draft filled : α}, P seen draft →
      f.fill node draft = .ok filled → P (f.name :: seen) filled)
    (hrest : KeptBy fields P) : KeptBy (f :: fields) P := by
  intro g hg seen node draft filled hdraft hfill
  rcases List.mem_cons.mp hg with rfl | hg
  · exact hfirst hdraft hfill
  · exact hrest g hg hdraft hfill

theorem fillNamed_keeps (hkept : KeptBy fields P) {members : List (Node × Node)}
    {seen seen' : List String} {draft result : α} (hdraft : P seen draft)
    (h : Schema.fillNamed source fields members seen draft = .ok (seen', result)) :
    P seen' result := by
  induction members generalizing seen draft with
  | nil =>
    cases h
    exact hdraft
  | cons member rest ih =>
    obtain ⟨key, value⟩ := member
    obtain ⟨name, -, h⟩ := bind_eq_ok.mp h
    split at h
    · obtain ⟨_, -, hrest⟩ := bind_eq_ok.mp h
      exact ih hdraft hrest
    · rename_i f hf
      have hname : f.name = name := by simpa using List.find?_some hf
      split at h
      · cases h
      · obtain ⟨filled, hfill, hrest⟩ := bind_eq_ok.mp h
        rw [← hname] at hrest
        exact ih (hkept f (List.mem_of_find?_eq_some hf) hdraft hfill) hrest

/-- The fields that are left were not filled in, and the others were. -/
theorem fillPositional_keeps {schema : Schema (Except Fault) Node α}
    (hkept : KeptBy schema.fields P) {left : List (Field (Except Fault) Node α)} {given : Nat}
    {items : List Node} {close : Except Fault Unit} {seen : List String} {draft result : α}
    (hleft : ∀ f ∈ left, f ∈ schema.fields)
    (hseen : ∀ f ∈ schema.fields, f ∈ left ∨ f.name ∈ seen) (hdraft : P seen draft)
    (h : Schema.fillPositional source schema left given items close draft = .ok result) :
    ∃ seen', P seen' result ∧ ∀ f ∈ schema.fields, f.required = true → f.name ∈ seen' := by
  induction left generalizing given items seen draft with
  | nil =>
    cases items with
    | cons item items => cases h
    | nil =>
      obtain ⟨_, -, hpure⟩ := bind_eq_ok.mp h
      cases hpure
      exact ⟨seen, hdraft, fun f hf _ => (hseen f hf).resolve_left (by simp)⟩
  | cons f rest ih =>
    cases items with
    | nil =>
      obtain ⟨_, -, hend⟩ := bind_eq_ok.mp h
      split at hend
      · rename_i hoptional
        cases hend
        refine ⟨seen, hdraft, fun g hg hrequired => (hseen g hg).resolve_left fun hin => ?_⟩
        have := List.findIdx?_eq_none_iff.mp hoptional g hin
        rw [hrequired] at this
        cases this
      · cases hend
    | cons item items =>
      obtain ⟨filled, hfill, hmore⟩ := bind_eq_ok.mp h
      refine ih (fun g hg => hleft g (List.mem_cons_of_mem _ hg)) (fun g hg => ?_)
        (hkept f (hleft f List.mem_cons_self) hdraft hfill) hmore
      rcases hseen g hg with hin | hin
      · rcases List.mem_cons.mp hin with rfl | hin
        · exact Or.inr List.mem_cons_self
        · exact Or.inl hin
      · exact Or.inr (List.mem_cons_of_mem _ hin)

/-- What every field keeps holds of the record, and the fields that have to be there have been
filled in. -/
theorem read_keeps {schema : Schema (Except Fault) Node α} {room : Nat} {node : Node} {result : α}
    (hkept : KeptBy schema.fields P) (hblank : P [] schema.blank)
    (h : Schema.read source room schema node = .ok result) :
    ∃ seen, P seen result ∧ ∀ f ∈ schema.fields, f.required = true → f.name ∈ seen := by
  obtain ⟨contents, -, h⟩ := bind_eq_ok.mp h
  cases contents with
  | named members close =>
    obtain ⟨⟨seen, value⟩, hfill, h⟩ := bind_eq_ok.mp h
    obtain ⟨_, -, hend⟩ := bind_eq_ok.mp h
    split at hend
    · rename_i hcomplete
      cases hend
      refine ⟨seen, fillNamed_keeps hkept hblank hfill, fun f hf hrequired => ?_⟩
      have := List.find?_eq_none.mp hcomplete f hf
      simpa [hrequired] using this
    · cases hend
  | positional items close =>
    exact fillPositional_keeps hkept (fun _ hf => hf) (fun _ hf => Or.inl hf) hblank h

/-! ## Lists -/

theorem mem_of_mapM {read : Node → Except Fault α} {nodes : List Node} {values : List α}
    (h : nodes.mapM read = .ok values) {v : α} (hv : v ∈ values) :
    ∃ node, read node = .ok v := by
  induction nodes generalizing values with
  | nil =>
    cases h
    cases hv
  | cons node nodes ih =>
    rw [List.mapM_cons] at h
    obtain ⟨first, hfirst, h⟩ := bind_eq_ok.mp h
    obtain ⟨others, hothers, h⟩ := bind_eq_ok.mp h
    cases h
    rcases List.mem_cons.mp hv with rfl | hv
    · exact ⟨node, hfirst⟩
    · exact ih hothers hv

/-- Every element of a list was read. -/
theorem mem_of_listOf {read : Nat → Node → Except Fault α} {room : Nat} {node : Node}
    {values : List α} (h : source.listOf read room node = .ok values) {v : α} (hv : v ∈ values) :
    ∃ depth item, read depth item = .ok v := by
  obtain ⟨⟨items, close⟩, -, h⟩ := bind_eq_ok.mp h
  obtain ⟨found, hfound, h⟩ := bind_eq_ok.mp h
  obtain ⟨_, -, h⟩ := bind_eq_ok.mp h
  cases h
  obtain ⟨item, hitem⟩ := mem_of_mapM hfound hv
  cases room with
  | zero => cases hitem
  | succ room => exact ⟨room, item, hitem⟩

end StubListing.Json
