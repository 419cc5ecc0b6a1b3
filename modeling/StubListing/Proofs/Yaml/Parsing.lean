import StubListing.Proofs.Yaml.Cutting
import StubListing.Yaml.Node
/-!
# Documents of JSON

The tokens of a text of JSON make up the document with the tree of its value. No node of it has a name,
so nothing in it is mentioned elsewhere.
-/
namespace StubListing.Yaml
open StubListing.Json (Value)
open StubListing.Yaml.Cutting (tokensOf itemTokens memberTokens)

/-! ## Trees and nodes of values -/

mutual

/-- The tree that a value is read as: texts are quoted, and words are not. -/
def treeOf : Value → Tree
  | .null => .scalar .none "null" .plain
  | .boolean true => .scalar .none "true" .plain
  | .boolean false => .scalar .none "false" .plain
  | .number n => .scalar .none (String.ofList (Nat.toDigits 10 n)) .plain
  | .text s => .scalar .none s .quoted
  | .array items => .list .none (itemTrees items)
  | .object members => .object .none (memberTrees members)

def itemTrees : List Value → List Tree
  | [] => []
  | item :: items => treeOf item :: itemTrees items

def memberTrees : List (String × Value) → List (Tree × Tree)
  | [] => []
  | (key, value) :: members => (.scalar .none key .quoted, treeOf value) :: memberTrees members

end

mutual

/-- The node that a value is read as. -/
def nodeOf : Value → Node
  | .null => .scalar none "null" .plain
  | .boolean true => .scalar none "true" .plain
  | .boolean false => .scalar none "false" .plain
  | .number n => .scalar none (String.ofList (Nat.toDigits 10 n)) .plain
  | .text s => .scalar none s .quoted
  | .array items => .list none (itemNodes items)
  | .object members => .object none (memberNodes members)

def itemNodes : List Value → List Node
  | [] => []
  | item :: items => nodeOf item :: itemNodes items

def memberNodes : List (String × Value) → List (Node × Node)
  | [] => []
  | (key, value) :: members => (.scalar none key .quoted, nodeOf value) :: memberNodes members

end

/-! ## Parsing -/

/-- The tokens begin with a text or with an opening bracket. -/
inductive BeginsNode : List Token → Prop
  | scalar {text : String} {style : Style} {rest : List Token} :
      BeginsNode (.scalar text style :: rest)
  | list {rest : List Token} : BeginsNode (.listOpen :: rest)
  | object {rest : List Token} : BeginsNode (.objectOpen :: rest)

theorem beginsNode_tokensOf (v : Value) (rest : List Token) : BeginsNode (tokensOf v ++ rest) := by
  cases v with
  | null => exact .scalar
  | boolean b => cases b <;> exact .scalar
  | number n => exact .scalar
  | text s => exact .scalar
  | array items => cases items <;> exact .list
  | object members =>
    cases members with
    | nil => exact .object
    | cons x members => exact .object

section

variable {handles : Handles} {fuel : Nat} {indented loose : Bool} {tokens rest : List Token}
  {tree : Tree}

theorem node_listOpen {items : List Tree}
    (h : bracketItems handles fuel true tokens = some (items, rest)) :
    node handles (fuel + 1) indented loose (.listOpen :: tokens) = some (.list .none items, rest) := by
  unfold node
  simp [property, h]

theorem node_objectOpen {members : List (Tree × Tree)}
    (h : bracketMembers handles fuel true tokens = some (members, rest)) :
    node handles (fuel + 1) indented loose (.objectOpen :: tokens) =
      some (.object .none members, rest) := by
  unfold node
  simp [property, h]

/-- An element in brackets, and those behind it. -/
theorem bracketItems_cons (h : BeginsNode tokens) {items : List Tree} {more : List Token}
    (hnode : node handles fuel false false tokens = some (tree, more))
    (hitems : bracketItems handles fuel false more = some (items, rest)) :
    bracketItems handles (fuel + 1) true tokens = some (tree :: items, rest) ∧
      bracketItems handles (fuel + 1) false (.comma :: tokens) = some (tree :: items, rest) := by
  cases h <;> simp [bracketItems, afterComma, hnode, hitems]

/-- A member in brackets, and those behind it. -/
theorem bracketMembers_cons (h : BeginsNode tokens) {key : String} {members : List (Tree × Tree)}
    {more : List Token} (hnode : node handles fuel false false tokens = some (tree, more))
    (hmembers : bracketMembers handles (fuel + 1) false more = some (members, rest)) :
    bracketMembers handles (fuel + 2) true (.key :: .scalar key .quoted :: .value :: tokens) =
        some ((.scalar .none key .quoted, tree) :: members, rest) ∧
      bracketMembers handles (fuel + 2) false
          (.comma :: .key :: .scalar key .quoted :: .value :: tokens) =
        some ((.scalar .none key .quoted, tree) :: members, rest) := by
  have hkey : node handles (fuel + 1) false false (.scalar key .quoted :: .value :: tokens) =
      some (.scalar .none key .quoted, .value :: tokens) := by
    simp [node, property, Property.ofScalar, Property.none]
  have hvalue : bracketValue handles (fuel + 1) .objectClose (.value :: tokens) =
      some (tree, more) := by
    have hends : endsPart .objectClose tokens = false := by
      cases h <;> rfl
    simp [bracketValue, hends, hnode]
  constructor
  · unfold bracketMembers
    simp [endsPart, beginsValue, hkey, hvalue, hmembers]
  · unfold bracketMembers
    simp [afterComma, endsPart, beginsValue, hkey, hvalue, hmembers]

end

mutual

/-- The tokens of a value are read as its tree, and what follows is left. -/
theorem node_tokensOf (handles : Handles) : ∀ (v : Value) (fuel : Nat) (indented loose : Bool)
    (rest : List Token), 2 * (tokensOf v).length ≤ fuel →
      node handles fuel indented loose (tokensOf v ++ rest) = some (treeOf v, rest)
  | .null, _ + 1, _, _, _, _ => rfl
  | .boolean true, _ + 1, _, _, _, _ => rfl
  | .boolean false, _ + 1, _, _, _, _ => rfl
  | .number _, _ + 1, _, _, _, _ => rfl
  | .text _, _ + 1, _, _, _, _ => rfl
  | .array [], _ + 2, _, _, _, _ => rfl
  | .array (item :: items), fuel + 2, _, _, rest, h => by
    simp only [tokensOf, List.length_cons, List.length_append] at h
    have hitem := node_tokensOf handles item fuel false false (itemTokens items ++ rest)
      (by omega)
    have hitems := bracketItems_itemTokens handles items fuel rest (by omega)
    simp only [tokensOf, List.cons_append, List.append_assoc]
    exact node_listOpen (bracketItems_cons (beginsNode_tokensOf item _) hitem hitems).1
  | .object [], _ + 2, _, _, _, _ => rfl
  | .object ((key, v) :: members), fuel + 3, _, _, rest, h => by
    simp only [tokensOf, List.length_cons, List.length_append] at h
    have hvalue := node_tokensOf handles v fuel false false (memberTokens members ++ rest)
      (by omega)
    have hmembers := bracketMembers_memberTokens handles members (fuel + 1) rest (by omega)
    simp only [tokensOf, List.cons_append, List.append_assoc]
    exact node_objectOpen (bracketMembers_cons (beginsNode_tokensOf v _) hvalue hmembers).1

theorem bracketItems_itemTokens (handles : Handles) : ∀ (items : List Value) (fuel : Nat)
    (rest : List Token), 2 * (itemTokens items).length ≤ fuel →
      bracketItems handles fuel false (itemTokens items ++ rest) = some (itemTrees items, rest)
  | [], _ + 1, _, _ => rfl
  | item :: items, fuel + 1, rest, h => by
    simp only [itemTokens, List.length_cons, List.length_append] at h
    have hitem := node_tokensOf handles item fuel false false (itemTokens items ++ rest)
      (by omega)
    have hitems := bracketItems_itemTokens handles items fuel rest (by omega)
    simp only [itemTokens, List.cons_append, List.append_assoc]
    exact (bracketItems_cons (beginsNode_tokensOf item _) hitem hitems).2

theorem bracketMembers_memberTokens (handles : Handles) : ∀ (members : List (String × Value))
    (fuel : Nat) (rest : List Token), 2 * (memberTokens members).length ≤ fuel →
      bracketMembers handles fuel false (memberTokens members ++ rest) =
        some (memberTrees members, rest)
  | [], _ + 1, _, _ => rfl
  | (key, v) :: members, fuel + 2, rest, h => by
    simp only [memberTokens, List.length_cons, List.length_append] at h
    have hvalue := node_tokensOf handles v fuel false false (memberTokens members ++ rest)
      (by omega)
    have hmembers := bracketMembers_memberTokens handles members (fuel + 1) rest (by omega)
    simp only [memberTokens, List.cons_append, List.append_assoc]
    exact (bracketMembers_cons (beginsNode_tokensOf v _) hvalue hmembers).2

end

/-- A node and the end of the text make up one document. -/
theorem document_of_node {tokens : List Token} {tree : Tree} (h : BeginsNode tokens)
    (hnode : node standardHandles (3 * tokens.length + 3) true false tokens =
      some (tree, [.textEnd])) : document tokens = some (some tree) := by
  have hover : isOver [.textEnd] = true := by decide
  cases h <;>
    simp only [document, directives, List.nil_append, hnode, Option.bind_eq_bind, Option.bind_some,
      hover, Bool.false_eq_true, if_false, if_true, Option.pure_def]

theorem document_tokensOf (v : Value) :
    document (tokensOf v ++ [.textEnd]) = some (some (treeOf v)) := by
  refine document_of_node (beginsNode_tokensOf v _) (node_tokensOf standardHandles v _ true false _ ?_)
  rw [List.length_append]
  omega

/-! ## Names -/

mutual

/-- Nothing in the tree of a value has a name. -/
theorem numbered_treeOf : ∀ (v : Value) (names : Names),
    (treeOf v).numbered names = some (nodeOf v, names)
  | .null, _ => rfl
  | .boolean true, _ => rfl
  | .boolean false, _ => rfl
  | .number _, _ => rfl
  | .text _, _ => rfl
  | .array items, names => by
    simp [treeOf, nodeOf, Tree.numbered, Names.begin, Names.complete, Property.none,
      numberedItems_itemTrees items names]
  | .object members, names => by
    simp [treeOf, nodeOf, Tree.numbered, Names.begin, Names.complete, Property.none,
      numberedMembers_memberTrees members names]

theorem numberedItems_itemTrees : ∀ (items : List Value) (names : Names),
    Tree.numberedItems (itemTrees items) names = some (itemNodes items, names)
  | [], _ => rfl
  | item :: items, names => by
    simp [itemTrees, itemNodes, Tree.numberedItems, numbered_treeOf item names,
      numberedItems_itemTrees items names]

theorem numberedMembers_memberTrees : ∀ (members : List (String × Value)) (names : Names),
    Tree.numberedMembers (memberTrees members) names = some (memberNodes members, names)
  | [], _ => rfl
  | (key, v) :: members, names => by
    simp [memberTrees, memberNodes, Tree.numberedMembers, Tree.numbered, Names.begin, Names.complete,
      Property.none, numbered_treeOf v names, numberedMembers_memberTrees members names]

end

/-- The compact text of a list or an object is a document with the node of its value, in which nothing
is mentioned. -/
theorem ofText?_compactChars {v : Value} (h : Cutting.Legible v.strings v.keys) (hdepth : v.depth ≠ 0) :
    Document.ofText? v.compactChars = some ⟨nodeOf v, []⟩ := by
  simp [Document.ofText?, tokens_compactChars h hdepth, document_tokensOf, numbered_treeOf, Names.none]

end StubListing.Yaml
