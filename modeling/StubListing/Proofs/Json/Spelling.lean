import StubListing.Proofs.Json.Grammar
/-!
# Texts that spell a value

One value has many texts, which differ in the white space between their parts. Every one of them
is read as the tree of the value, and the two texts that are written are among them.
-/
namespace StubListing.Json
open StubListing.Text

/-! ## Trees of values -/

namespace Value

mutual

/-- The tree that a text of the value is read as. -/
def node : Value → Node
  | .null => .null
  | .boolean b => .boolean b
  | .number n => .number ⟨false, Nat.toDigits 10 n, none, none⟩
  | .text s => .text (some s)
  | .array items => .array (nodes items) none
  | .object members => .object (memberNodes members) none

def nodes : List Value → List Node
  | [] => []
  | item :: items => node item :: nodes items

def memberNodes : List (String × Value) → List (Node × Node)
  | [] => []
  | (key, value) :: members => (.text (some key), node value) :: memberNodes members

end

theorem nodes_eq_map (items : List Value) : nodes items = items.map node := by
  induction items with
  | nil => rfl
  | cons item items ih => rw [nodes, ih, List.map_cons]

theorem memberNodes_eq_map (members : List (String × Value)) :
    memberNodes members = members.map fun x => (.text (some x.1), x.2.node) := by
  induction members with
  | nil => rfl
  | cons x members ih => rw [memberNodes, ih, List.map_cons]

end Value

/-! ## Texts of values -/

mutual

/-- The text spells the value, with no white space around it. -/
inductive Spells : Value → List Char → Prop
  | null : Spells .null ['n', 'u', 'l', 'l']
  | yes : Spells (.boolean true) ['t', 'r', 'u', 'e']
  | no : Spells (.boolean false) ['f', 'a', 'l', 's', 'e']
  | number (n : Nat) : Spells (.number n) (Nat.toDigits 10 n)
  | text (s : String) : Spells (.text s) (writtenText s)
  | emptyArray {gap : List Char} : Gap gap → Spells (.array []) ('[' :: (gap ++ [']']))
  | array {items : List Value} {s : List Char} :
      SpellsItems items s → Spells (.array items) ('[' :: s)
  | emptyObject {gap : List Char} : Gap gap → Spells (.object []) ('\x7b' :: (gap ++ ['\x7d']))
  | object {members : List (String × Value)} {s : List Char} :
      SpellsMembers members s → Spells (.object members) ('\x7b' :: s)

/-- The text spells the elements of an array, at least one, and its end. -/
inductive SpellsItems : List Value → List Char → Prop
  | last {item : Value} {before s after : List Char} : Gap before → Spells item s → Gap after →
      SpellsItems [item] (before ++ (s ++ (after ++ [']'])))
  | more {item : Value} {items : List Value} {before s after t : List Char} : Gap before →
      Spells item s → Gap after → SpellsItems items t →
      SpellsItems (item :: items) (before ++ (s ++ (after ++ ',' :: t)))

/-- The text spells the members of an object, at least one, and its end. -/
inductive SpellsMembers : List (String × Value) → List Char → Prop
  | last {key : String} {value : Value} {front behind before s after : List Char} : Gap front →
      Gap behind → Gap before → Spells value s → Gap after →
      SpellsMembers [(key, value)]
        (front ++ (writtenText key ++ (behind ++ ':' :: (before ++ (s ++ (after ++ ['\x7d']))))))
  | more {key : String} {value : Value} {members : List (String × Value)}
      {front behind before s after t : List Char} : Gap front → Gap behind → Gap before →
      Spells value s → Gap after → SpellsMembers members t →
      SpellsMembers ((key, value) :: members)
        (front ++ (writtenText key ++ (behind ++ ':' :: (before ++ (s ++ (after ++ ',' :: t))))))

end

mutual

/-- What spells a value denotes the tree of the value. -/
theorem Spells.denotes : ∀ {v : Value} {s : List Char}, Spells v s → Denotes v.node s
  | _, _, .null => .null
  | _, _, .yes => .yes
  | _, _, .no => .no
  | _, _, .number n => .number (spellsNumeral_toDigits n)
  | _, _, .text s => .text (spellsText_writtenText s)
  | _, _, .emptyArray hgap => .emptyArray hgap
  | _, _, .array hitems => .array hitems.denotes
  | _, _, .emptyObject hgap => .emptyObject hgap
  | _, _, .object hmembers => .object hmembers.denotes

theorem SpellsItems.denotes : ∀ {items : List Value} {s : List Char}, SpellsItems items s →
    DenotesItems (Value.nodes items) s
  | _, _, .last hbefore hitem hafter => .last hbefore hitem.denotes hafter
  | _, _, .more hbefore hitem hafter hitems => .more hbefore hitem.denotes hafter hitems.denotes

theorem SpellsMembers.denotes : ∀ {members : List (String × Value)} {s : List Char},
    SpellsMembers members s → DenotesMembers (Value.memberNodes members) s
  | _, _, .last hfront hbehind hbefore hvalue hafter =>
    .last hfront (spellsText_writtenText _) hbehind hbefore hvalue.denotes hafter
  | _, _, .more hfront hbehind hbefore hvalue hafter hmembers =>
    .more hfront (spellsText_writtenText _) hbehind hbefore hvalue.denotes hafter hmembers.denotes

end

/-- What spells a value is read as the tree of the value, and what follows is left. -/
theorem value_of_spells {v : Value} {s : List Char} (h : Spells v s) (fuel : Nat)
    (rest : List Char) {gap : List Char} (hgap : Gap gap) (hrest : Ends rest)
    (hfuel : 2 * s.length + 1 ≤ fuel) : value fuel (gap ++ (s ++ rest)) = (v.node, .ok rest) :=
  value_of_denotes h.denotes fuel rest hgap hrest hfuel

/-! ## The two written texts -/

theorem gap_newLine (depth : Nat) : Gap (Value.newLine depth) := by
  intro c hc
  rcases List.mem_cons.mp hc with rfl | hblank
  · rfl
  · rw [List.eq_of_mem_replicate hblank]
    rfl

theorem gap_blank : Gap [' '] := by
  intro c hc
  rw [List.mem_singleton.mp hc]
  rfl

mutual

theorem spells_prettyChars : ∀ (v : Value) (depth : Nat), Spells v (v.prettyChars depth)
  | .null, _ => .null
  | .boolean true, _ => .yes
  | .boolean false, _ => .no
  | .number n, _ => .number n
  | .text s, _ => .text s
  | .array [], _ => .emptyArray gap_nil
  | .array (item :: items), depth => by
    rw [Value.prettyChars, List.append_assoc]
    exact .array (spells_prettyItems items depth (gap_newLine _) (spells_prettyChars item _))
  | .object [], _ => .emptyObject gap_nil
  | .object ((key, v) :: members), depth => by
    rw [Value.prettyChars, List.append_assoc]
    exact .object (spells_prettyMembers members depth key (gap_newLine _) (spells_prettyChars v _))

theorem spells_prettyItems : ∀ (items : List Value) (depth : Nat) {item : Value}
    {before s : List Char}, Gap before → Spells item s →
      SpellsItems (item :: items) (before ++ (s ++ Value.prettyItems depth items))
  | [], depth, _, _, _, hbefore, h => .last hbefore h (gap_newLine depth)
  | next :: items, depth, _, _, _, hbefore, h => by
    have hmore := spells_prettyItems items depth (gap_newLine (depth + 1))
      (spells_prettyChars next (depth + 1))
    rw [Value.prettyItems, List.append_assoc]
    exact .more hbefore h gap_nil hmore

theorem spells_prettyMembers : ∀ (members : List (String × Value)) (depth : Nat) (key : String)
    {v : Value} {front s : List Char}, Gap front → Spells v s →
      SpellsMembers ((key, v) :: members)
        (front ++ (writtenText key ++ ':' :: ' ' :: (s ++ Value.prettyMembers depth members)))
  | [], depth, _, _, _, _, hfront, h =>
    .last hfront gap_nil gap_blank h (gap_newLine depth)
  | (key, next) :: members, depth, _, _, _, _, hfront, h => by
    have hmore := spells_prettyMembers members depth key (gap_newLine (depth + 1))
      (spells_prettyChars next (depth + 1))
    rw [Value.prettyMembers, List.append_assoc]
    exact .more hfront gap_nil gap_blank h gap_nil hmore

end

mutual

theorem spells_compactChars : ∀ v : Value, Spells v v.compactChars
  | .null => .null
  | .boolean true => .yes
  | .boolean false => .no
  | .number n => .number n
  | .text s => .text s
  | .array [] => .emptyArray gap_nil
  | .array (item :: items) => .array (spells_compactItems items (spells_compactChars item))
  | .object [] => .emptyObject gap_nil
  | .object ((key, v) :: members) =>
    .object (spells_compactMembers members key (spells_compactChars v))

theorem spells_compactItems : ∀ (items : List Value) {item : Value} {s : List Char},
    Spells item s → SpellsItems (item :: items) (s ++ Value.compactItems items)
  | [], _, _, h => .last gap_nil h gap_nil
  | next :: items, _, _, h =>
    .more gap_nil h gap_nil (spells_compactItems items (spells_compactChars next))

theorem spells_compactMembers : ∀ (members : List (String × Value)) (key : String) {v : Value}
    {s : List Char}, Spells v s →
      SpellsMembers ((key, v) :: members)
        (writtenText key ++ ':' :: (s ++ Value.compactMembers members))
  | [], _, _, _, h => .last gap_nil gap_nil gap_nil h gap_nil
  | (key, next) :: members, _, _, _, h =>
    .more gap_nil gap_nil gap_nil h gap_nil
      (spells_compactMembers members key (spells_compactChars next))

end

/-- Data is read from the text in lines as from the tree of the value. -/
theorem decode_pretty {α : Type}
    {readData : Decode.Source (Except Fault) Node → Nat → Node → Except Fault α} {v : Value} {a : α}
    (ha : readData source nesting v.node = .ok a) : decode readData v.pretty = .ok a := by
  have htext : v.pretty.toList = [] ++ (v.prettyChars 0 ++ []) := by
    rw [Value.pretty, String.toList_ofList, List.nil_append, List.append_nil]
  exact decode_of_denotes htext gap_nil (spells_prettyChars v 0).denotes gap_nil ha

end StubListing.Json
