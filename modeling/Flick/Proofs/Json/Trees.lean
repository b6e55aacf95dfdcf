import Flick.Node.Datum
import Flick.Proofs.Json.Unambiguity
import Mathlib.Data.List.Forall2

/-!
# Trees as JSON

The JSON of a program is read back as the program.  The way there and back
has two halves.

Printing: `Datum.toJson` is the value that a datum has in JSON, and the
printed datum spells it, at any indentation (`Datum.written_json`).  The
escapes of the printer are spellings of their characters, and its lines are
lists with commas between them.  `Node.toJson` gives the object of a node
without a detour: the name of its variant and exactly its own fields.

Reading: `Node.ofJson?` and `Program.ofJson?` take such objects apart again.
They accept the objects of trees and no others, so `Program.ofText?` reads a
program off exactly those texts that denote its object
(`Program.ofText?_eq_some_iff`).

`format_json_determines` puts the halves together.
-/

namespace Flick

open Json

/-! ## Lists on lines -/

/-- Parts on lines of their own are a list with commas between them. -/
theorem Json.Separated.lines {α : Type} {Part One : α → List Char → Prop}
    {Many : List α → List Char → Prop} (hsep : Separated One Many)
    (hone : ∀ {part text before after}, Blank before → Blank after → Part part text →
      One part (before ++ text ++ after))
    {before after : List Char} (hbefore : Blank before) (hafter : Blank after) {parts : List α}
    {texts : List (List Char)} (h : List.Forall₂ Part parts texts) (hne : parts ≠ []) :
    Many parts (before ++ (',' :: before).intercalate texts ++ after) := by
  induction h with
  | nil => exact absurd rfl hne
  | @cons part text parts texts hpart hparts ih =>
    cases hparts with
    | nil =>
      rw [List.intercalate_singleton]
      exact hsep.last (hone hbefore hafter hpart)
    | cons =>
      -- The line break behind the comma is the blank in front of the next part.
      have hhead : One part (before ++ text ++ []) := hone hbefore blank_nil hpart
      rw [List.append_nil] at hhead
      rw [List.intercalate_cons_cons]
      have htail := hsep.more hhead (ih (by simp))
      simpa using htail

/-! ## Printed data -/

namespace Datum

mutual

/-- The value that the JSON of a datum denotes.  A record is an object whose
first member is its name. -/
def toJson : Datum → Json
  | .text value => .string value
  | .list items => .array (toJsonItems items)
  | .record name fields => .object (("type", .string name) :: toJsonMembers fields)

/-- The values of the items of a list. -/
def toJsonItems : List Datum → List Json
  | [] => []
  | item :: items => item.toJson :: toJsonItems items

/-- The members for the fields of a record. -/
def toJsonMembers : List (String × Datum) → List (String × Json)
  | [] => []
  | (name, value) :: fields => (name, value.toJson) :: toJsonMembers fields

end

/-! ### Strings -/

theorem unit?_of_lt : ∀ n < 0x20,
    unit? ['0', '0', Nat.digitChar (n / 16), Nat.digitChar (n % 16)] = some n := by
  decide

theorem exists_named_of_shortEscape? {c : Char} {escaped : List Char}
    (h : Text.shortEscape? c = some escaped) :
    ∃ mark, escaped = ['\\', mark] ∧ named? mark = some c := by
  simp only [Text.shortEscape?, Text.backslash] at h
  split_ifs at h with hc hc hc hc hc hc hc
  all_goals
    subst hc
    cases h
    exact ⟨_, rfl, rfl⟩

theorem isPlain_of_shortEscape? {c : Char} (h : Text.shortEscape? c = none)
    (hc : ¬ c.toNat < 0x20) : isPlain c = true := by
  simp only [Text.shortEscape?] at h
  split_ifs at h with hquote hbackslash
  simpa [isPlain, hquote, hbackslash] using hc

/-- The printer's escape of a character spells that character. -/
theorem letter_jsonEscape (c : Char) : Letter c (jsonEscape c) := by
  rw [jsonEscape]
  split
  next escaped h =>
    obtain ⟨mark, rfl, hmark⟩ := exists_named_of_shortEscape? h
    exact .named hmark
  next h =>
    split
    next hc =>
      have hvalid : single? c.toNat = some c := by
        rw [single?, if_pos (.inl (by omega)), Char.ofNat_toNat]
      exact .coded (unit?_of_lt c.toNat hc) hvalid
    next hc => exact .plain (isPlain_of_shortEscape? h hc)

theorem letters_jsonEscape (value : List Char) : Letters value (value.flatMap jsonEscape) := by
  induction value with
  | nil => exact .nil
  | cons c value ih => exact .cons (letter_jsonEscape c) ih

theorem quoted_jsonString (value : String) : Quoted value (jsonString value).toList := by
  rw [jsonString, Text.quoted, String.toList_ofList]
  exact .intro (letters_jsonEscape value.toList)

/-! ### Brackets -/

theorem blank_lineBreak (indent : Nat) : Blank (lineBreak indent).toList := by
  intro c hc
  simp only [lineBreak, String.toList_append, String.toList_ofList, List.mem_append,
    List.mem_replicate] at hc
  obtain hc | ⟨-, rfl⟩ := hc
  · obtain rfl : c = '\n' := by simpa using hc
    decide
  · decide

theorem toList_enclosed {opening closing : String} (first last : Char)
    (hopening : opening.toList = [first]) (hclosing : closing.toList = [last]) (indent : Nat)
    {parts : List String} (h : parts ≠ []) :
    (enclosed opening closing indent parts).toList =
      first :: ((lineBreak (indent + 2)).toList ++
        (',' :: (lineBreak (indent + 2)).toList).intercalate (parts.map String.toList) ++
        (lineBreak indent).toList ++ [last]) := by
  rw [enclosed, if_neg (by simpa using h)]
  simp [String.toList_intercalate, hopening, hclosing]

/-- The text of a member without blanks around it. -/
def MemberText (member : String × Json) (text : List Char) : Prop :=
  ∃ quoted value, Quoted member.1 quoted ∧ Written (.value member.2) value ∧
    text = quoted ++ ':' :: ' ' :: value

theorem MemberText.written {member : String × Json} {text before after : List Char}
    (hbefore : Blank before) (hafter : Blank after) (h : MemberText member text) :
    Written (.member member.1 member.2) (before ++ text ++ after) := by
  obtain ⟨quoted, value, hname, hvalue, rfl⟩ := h
  have helement : Written (.element member.2) ([' '] ++ value ++ after) :=
    .element (by simp [Blank, isBlank]) hafter hvalue
  have hmember := Written.member hbefore hname blank_nil helement
  simpa using hmember

mutual

/-- The JSON of a datum is JSON, and denotes the value of the datum. -/
theorem written_json (indent : Nat) : (datum : Datum) →
    Written (.value datum.toJson) (datum.json indent).toList
  | .text value => .string (quoted_jsonString value)
  | .list items => by
    rw [toJson, json]
    cases items with
    | nil =>
      have htext : (enclosed "[" "]" indent []).toList = '[' :: ([] ++ [']']) := by simp [enclosed]
      rw [toJsonItems, jsonItems, htext]
      exact .emptyArray blank_nil
    | cons item items =>
      rw [toList_enclosed '[' ']' (by decide) (by decide) _ (by simp [jsonItems])]
      exact .array (separated_elements.lines .element (blank_lineBreak _) (blank_lineBreak _)
        (written_jsonItems (indent + 2) (item :: items)) (by simp [toJsonItems]))
  | .record name fields => by
    rw [toJson, json, toList_enclosed '\x7b' '\x7d' (by decide) (by decide) _ (by simp)]
    refine .object (separated_members.lines MemberText.written (blank_lineBreak _)
      (blank_lineBreak _) (.cons ?_ (written_jsonMembers (indent + 2) fields)) (by simp))
    have htype : jsonString "type" = "\"type\"" := by decide
    exact ⟨_, _, quoted_jsonString "type", .string (quoted_jsonString name), by simp [htype]⟩

theorem written_jsonItems (indent : Nat) : (items : List Datum) →
    List.Forall₂ (fun value => Written (.value value)) (toJsonItems items)
      ((jsonItems indent items).map String.toList)
  | [] => .nil
  | item :: items => .cons (written_json indent item) (written_jsonItems indent items)

theorem written_jsonMembers (indent : Nat) : (fields : List (String × Datum)) →
    List.Forall₂ MemberText (toJsonMembers fields)
      ((jsonMembers indent fields).map String.toList)
  | [] => .nil
  | (name, value) :: fields =>
    .cons ⟨_, _, quoted_jsonString name, written_json indent value, by simp⟩
      (written_jsonMembers indent fields)

end

end Datum

/-! ## Trees as values -/

namespace Node

mutual

/-- The fields of a node, by name. -/
def fields : Node → List (String × Json)
  | .leaf _ text => [("value", .string text)]
  | .group _ body => [("body", .array (objects body))]
  | .assignment name body => [("name", .string name), ("body", .array (objects body))]
  | .conditional condition body =>
    [("condition", .array (objects condition)), ("body", .array (objects body))]
  | .operator symbol operand =>
    [("value", .string symbol),
      ("operand", .object (("type", .string operand.typeName) :: operand.fields))]

/-- The objects of the nodes of a body. -/
def objects : List Node → List Json
  | [] => []
  | node :: nodes => .object (("type", .string node.typeName) :: node.fields) :: objects nodes

end

/-- The object of a node: the name of its variant, and its fields. -/
def toJson (node : Node) : Json := .object (("type", .string node.typeName) :: node.fields)

theorem objects_cons (node : Node) (nodes : List Node) :
    objects (node :: nodes) = node.toJson :: objects nodes := by
  rw [objects, toJson]

theorem objects_eq_map (nodes : List Node) : objects nodes = nodes.map toJson := by
  induction nodes with
  | nil => rfl
  | cons node nodes ih => rw [objects_cons, ih, List.map_cons]

section Shapes

variable (name : String) (condition body : List Node)

theorem toJson_leaf (kind : Leaf) (text : String) :
    (leaf kind text).toJson =
      .object [("type", .string kind.typeName), ("value", .string text)] := rfl

theorem toJson_group (form : Form) :
    (group form body).toJson =
      .object [("type", .string form.typeName), ("body", .array (objects body))] := rfl

theorem toJson_assignment :
    (assignment name body).toJson =
      .object [("type", .string "AssignExpression"), ("name", .string name),
        ("body", .array (objects body))] := rfl

theorem toJson_conditional :
    (conditional condition body).toJson =
      .object [("type", .string "IfStatement"), ("condition", .array (objects condition)),
        ("body", .array (objects body))] := rfl

theorem toJson_operator (symbol : String) (operand : Node) :
    (operator symbol operand).toJson =
      .object [("type", .string "Operator"), ("value", .string symbol),
        ("operand", operand.toJson)] := rfl

end Shapes

mutual

/-- The data of a tree and the tree have the same value. -/
theorem toJson_toDatum : (node : Node) → node.toDatum.toJson = node.toJson
  | .leaf .. => rfl
  | .group form body => by
    simp only [toDatum, Datum.toJson, Datum.toJsonMembers, toJsonItems_toData body, toJson_group]
  | .assignment name body => by
    simp only [toDatum, Datum.toJson, Datum.toJsonMembers, toJsonItems_toData body,
      toJson_assignment]
  | .conditional condition body => by
    simp only [toDatum, Datum.toJson, Datum.toJsonMembers, toJsonItems_toData condition,
      toJsonItems_toData body, toJson_conditional]
  | .operator symbol operand => by
    simp only [toDatum, Datum.toJson, Datum.toJsonMembers, toJson_toDatum operand,
      toJson_operator]

theorem toJsonItems_toData : (nodes : List Node) →
    Datum.toJsonItems (toData nodes) = objects nodes
  | [] => rfl
  | node :: nodes => by
    rw [toData, Datum.toJsonItems, toJson_toDatum node, toJsonItems_toData nodes, objects_cons]

end

end Node

/-- The object of a program. -/
def Program.toJson (program : Program) : Json :=
  .object [("type", .string "Program"), ("body", .array (program.body.map Node.toJson))]

theorem Program.toJson_toDatum (program : Program) : program.toDatum.toJson = program.toJson := by
  rw [toDatum, Datum.toJson, Datum.toJsonMembers, Datum.toJsonMembers, Datum.toJson,
    Node.toJsonItems_toData, Node.objects_eq_map, toJson]

/-- The JSON of a program denotes the object of the program. -/
theorem Program.denotes_format (program : Program) :
    Denotes (program.format .json) program.toJson := by
  have hwritten := program.toDatum.written_json 0
  rw [program.toJson_toDatum] at hwritten
  have helement := Written.element blank_nil blank_nil hwritten
  rwa [List.nil_append, List.append_nil] at helement

/-! ## Values as trees -/

/-- The leaf with that name. -/
def Leaf.ofTypeName? (name : String) : Option Leaf :=
  [Leaf.string, .number, .ident].find? (·.typeName = name)

/-- The group with that name. -/
def Form.ofTypeName? (name : String) : Option Form :=
  [Form.topLevelFunction, .function, .returnExpression, .bracketed .square, .bracketed .curly,
    .bracketed .round, .elseStatement].find? (·.typeName = name)

theorem Leaf.ofTypeName?_eq_some_iff {name : String} {kind : Leaf} :
    Leaf.ofTypeName? name = some kind ↔ kind.typeName = name := by
  constructor
  · intro h
    simpa using List.find?_some h
  · rintro rfl
    cases kind <;> decide

theorem Form.ofTypeName?_eq_some_iff {name : String} {form : Form} :
    Form.ofTypeName? name = some form ↔ form.typeName = name := by
  constructor
  · intro h
    simpa using List.find?_some h
  · rintro rfl
    cases form with
    | bracketed bracket => cases bracket <;> decide
    | _ => decide

namespace Node

mutual

/-- The node that an object is of. -/
def ofJson? : Json → Option Node
  | .object [("type", .string name), ("value", .string text)] =>
    (Leaf.ofTypeName? name).map (.leaf · text)
  | .object [("type", .string name), ("body", .array body)] => do
    return .group (← Form.ofTypeName? name) (← ofObjects? body)
  | .object [("type", .string "AssignExpression"), ("name", .string name),
      ("body", .array body)] => do
    return .assignment name (← ofObjects? body)
  | .object [("type", .string "IfStatement"), ("condition", .array condition),
      ("body", .array body)] => do
    return .conditional (← ofObjects? condition) (← ofObjects? body)
  | .object [("type", .string "Operator"), ("value", .string symbol), ("operand", operand)] => do
    return .operator symbol (← ofJson? operand)
  | _ => none

/-- The nodes that objects are of. -/
def ofObjects? : List Json → Option (List Node)
  | [] => some []
  | value :: values => do return (← ofJson? value) :: (← ofObjects? values)

end

mutual

theorem ofJson?_toJson : (node : Node) → ofJson? node.toJson = some node
  | .leaf kind text => by
    simp [toJson_leaf, ofJson?, Leaf.ofTypeName?_eq_some_iff]
  | .group form body => by
    have hform : Form.ofTypeName? form.typeName = some form := Form.ofTypeName?_eq_some_iff.mpr rfl
    simp [toJson_group, ofJson?, hform, ofObjects?_objects body]
  | .assignment name body => by
    simp [toJson_assignment, ofJson?, ofObjects?_objects body]
  | .conditional condition body => by
    simp [toJson_conditional, ofJson?, ofObjects?_objects condition, ofObjects?_objects body]
  | .operator symbol operand => by
    simp [toJson_operator, ofJson?, ofJson?_toJson operand]

theorem ofObjects?_objects : (nodes : List Node) → ofObjects? (objects nodes) = some nodes
  | [] => rfl
  | node :: nodes => by
    simp [objects_cons, ofObjects?, ofJson?_toJson node, ofObjects?_objects nodes]

end

/-- An object that a node is read from is the object of that node. -/
theorem toJson_eq_and_objects_eq :
    (∀ json node, ofJson? json = some node → node.toJson = json) ∧
      ∀ values nodes, ofObjects? values = some nodes → objects nodes = values := by
  -- The cases are those of the two functions, each with what holds of the calls it makes.
  apply ofJson?.mutual_induct
  case case1 =>
    intro name text node h
    simp only [ofJson?, Option.map_eq_some_iff, Leaf.ofTypeName?_eq_some_iff] at h
    obtain ⟨kind, rfl, rfl⟩ := h
    rfl
  case case2 =>
    intro name body ih node h
    simp only [ofJson?, Option.bind_eq_bind, Option.pure_def,
      Option.bind_eq_some_iff, Option.some.injEq, Form.ofTypeName?_eq_some_iff] at h
    obtain ⟨form, rfl, nodes, hnodes, rfl⟩ := h
    rw [toJson_group, ih nodes hnodes]
  case case3 =>
    intro name body ih node h
    simp only [ofJson?, Option.bind_eq_bind, Option.pure_def,
      Option.bind_eq_some_iff, Option.some.injEq] at h
    obtain ⟨nodes, hnodes, rfl⟩ := h
    rw [toJson_assignment, ih nodes hnodes]
  case case4 =>
    intro condition body ihcondition ihbody node h
    simp only [ofJson?, Option.bind_eq_bind, Option.pure_def,
      Option.bind_eq_some_iff, Option.some.injEq] at h
    obtain ⟨first, hfirst, second, hsecond, rfl⟩ := h
    rw [toJson_conditional, ihcondition first hfirst, ihbody second hsecond]
  case case5 =>
    intro symbol operand ih node h
    simp only [ofJson?, Option.bind_eq_bind, Option.pure_def,
      Option.bind_eq_some_iff, Option.some.injEq] at h
    obtain ⟨inner, hinner, rfl⟩ := h
    rw [toJson_operator, ih inner hinner]
  case case6 =>
    intro json _ _ _ _ _ node h
    simp [ofJson?] at h
  case case7 =>
    intro nodes h
    simp only [ofObjects?, Option.some.injEq] at h
    rw [← h, objects]
  case case8 =>
    intro value values ihvalue ihvalues nodes h
    simp only [ofObjects?, Option.bind_eq_bind, Option.pure_def,
      Option.bind_eq_some_iff, Option.some.injEq] at h
    obtain ⟨head, hhead, tail, htail, rfl⟩ := h
    rw [objects_cons, ihvalue head hhead, ihvalues tail htail]

end Node

namespace Program

/-- The program that an object is of. -/
def ofJson? : Json → Option Program
  | .object [("type", .string "Program"), ("body", .array body)] =>
    (Node.ofObjects? body).map (⟨·⟩)
  | _ => none

theorem ofJson?_eq_some_iff {json : Json} {program : Program} :
    ofJson? json = some program ↔ json = program.toJson := by
  constructor
  · intro h
    unfold ofJson? at h
    split at h
    next body =>
      simp only [Option.map_eq_some_iff] at h
      obtain ⟨nodes, hnodes, rfl⟩ := h
      rw [toJson, ← Node.objects_eq_map,
        Node.toJson_eq_and_objects_eq.2 body nodes hnodes]
    next => exact absurd h (by simp)
  · rintro rfl
    rw [toJson, ← Node.objects_eq_map, ofJson?, Node.ofObjects?_objects, Option.map_some]

/-- The program that a text of JSON says. -/
def ofText? (text : String) : Option Program := (read? text).bind ofJson?

/-- A program is read off exactly the texts that denote its object. -/
theorem ofText?_eq_some_iff {text : String} {program : Program} :
    ofText? text = some program ↔ Denotes text program.toJson := by
  rw [ofText?, Option.bind_eq_some_iff]
  constructor
  · rintro ⟨json, hread, hprogram⟩
    rw [ofJson?_eq_some_iff] at hprogram
    exact hprogram ▸ read?_eq_some_iff.mp hread
  · intro h
    exact ⟨program.toJson, read?_eq_some_iff.mpr h, ofJson?_eq_some_iff.mpr rfl⟩

end Program

/-- The JSON of a program determines it.  The text is JSON and denotes one
value, the object of the program, with the objects of its nodes as the body.
The program is read back from it, so no other program has the same JSON. -/
theorem format_json_determines (program : Program) :
    (∀ value, Denotes (program.format .json) value ↔
      value = .object
        [("type", .string "Program"), ("body", .array (program.body.map Node.toJson))]) ∧
    Program.ofText? (program.format .json) = some program ∧
    ∀ other : Program, other.format .json = program.format .json ↔ other = program := by
  have hdenotes := program.denotes_format
  have hread := Program.ofText?_eq_some_iff.mpr hdenotes
  refine ⟨fun value => ⟨fun h => h.unique hdenotes, ?_⟩, hread, fun other => ⟨?_, ?_⟩⟩
  · rintro rfl
    exact hdenotes
  · intro h
    have hother := Program.ofText?_eq_some_iff.mpr other.denotes_format
    rw [h, hread] at hother
    exact (Option.some.inj hother).symm
  · rintro rfl
    rfl

end Flick
