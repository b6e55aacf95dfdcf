import Flick.Proofs.Json.Trees
import Flick.Proofs.Legibility
import Flick.Token.Listing

/-!
# Outlines and listings

An outline determines its tree, and a listing its tokens, although both
hold texts that may look like anything.  This does not depend on which
characters are written by their code points.  So it is proved of all the
outlines and listings that quote in some way, `IsOutline` and `IsListing`,
and the printers write such texts.

Outlines: the names in the data of a tree are made of letters (`WellNamed`),
so a name ends at the mark behind it.  An entry is deeper than the bracket
that closes its list, so the indentation tells the two apart.  With that
`WellNamed.legible` goes by induction on the datum.

Listings: a quoted text has no line end (`Quotes.not_mem`), so the line ends
of a listing are those of its lines, and the line of a token is legible
(`Token.legible_isLine`).

`printed_text_determines` puts the two together.
-/

namespace Flick

open Text

/-! ## Names -/

/-- A name that is made of letters. -/
def IsName (name : String) : Prop := name.toList.all Char.isAlpha = true

instance : DecidablePred IsName := fun name =>
  inferInstanceAs (Decidable (name.toList.all Char.isAlpha = true))

theorem IsName.not_mem {name : String} {c : Char} (h : IsName name) (hc : c.isAlpha = false) :
    c ∉ name.toList := by
  intro hmem
  rw [List.all_eq_true.mp h c hmem] at hc
  exact Bool.noConfusion hc

/-- A name and a blank do not begin with a mark. -/
theorem IsName.append_ne {name : String} {c : Char} {rest more : List Char} (h : IsName name)
    (hc : c.isAlpha = false) (hblank : c ≠ ' ') : name.toList ++ ' ' :: rest ≠ c :: more := by
  have hmem := h.not_mem hc
  cases hname : name.toList with
  | nil => simpa using fun heq _ => hblank heq.symm
  | cons d chars =>
    rw [hname] at hmem
    intro heq
    exact List.ne_of_not_mem_cons hmem (List.head_eq_of_cons_eq heq).symm

theorem Leaf.isName_typeName (kind : Leaf) : IsName kind.typeName := by
  cases kind <;> decide

theorem Form.isName_typeName (form : Form) : IsName form.typeName := by
  cases form with
  | bracketed bracket => cases bracket <;> decide
  | _ => decide

theorem TokenKind.mem_all (kind : TokenKind) : kind ∈ all := by
  cases kind with
  | opening bracket | closing bracket => cases bracket <;> decide
  | _ => decide

theorem TokenKind.isName_name (kind : TokenKind) : IsName kind.name := by
  have hall : ∀ kind ∈ all, IsName kind.name := by decide
  exact hall kind kind.mem_all

theorem TokenKind.name_injective {kind other : TokenKind} (h : kind.name = other.name) :
    kind = other := by
  have hall : ∀ kind ∈ all, ∀ other ∈ all, kind.name = other.name → kind = other := by
    decide +kernel
  exact hall kind kind.mem_all other other.mem_all h

namespace Datum

/-! ## Outlines -/

mutual

/-- The text is an outline of the datum.  The layout is that of the printer,
and the texts are quoted in any way. -/
def IsOutline (indent : Nat) : Datum → String → Prop
  | .text value, printed => Quotes value printed
  | .list items, printed =>
    ∃ entries, AreOutlines (indent + 4) items entries ∧ printed = outlined "[" "]" indent entries
  | .record name fields, printed =>
    ∃ entries, AreFields (indent + 4) fields entries ∧
      printed = outlined (name ++ " \x7b") "\x7d" indent entries

/-- The entries are outlines of the items of a list, one by one. -/
def AreOutlines (indent : Nat) : List Datum → List String → Prop
  | [], entries => entries = []
  | item :: items, entries =>
    ∃ printed others, IsOutline indent item printed ∧ AreOutlines indent items others ∧
      entries = printed :: others

/-- The entries are the fields of a record, one by one. -/
def AreFields (indent : Nat) : List (String × Datum) → List String → Prop
  | [], entries => entries = []
  | (name, value) :: fields, entries =>
    ∃ printed others, IsOutline indent value printed ∧ AreFields indent fields others ∧
      entries = (name ++ ": " ++ printed) :: others

end

/-- The entry is a field with its name. -/
def IsField (indent : Nat) (field : String × Datum) (entry : String) : Prop :=
  ∃ printed, IsOutline indent field.2 printed ∧ entry = field.1 ++ ": " ++ printed

variable {indent : Nat} {datum : Datum} {items : List Datum} {fields : List (String × Datum)}
  {entries : List String}

theorem areOutlines_iff :
    AreOutlines indent items entries ↔ List.Forall₂ (IsOutline indent) items entries := by
  induction items generalizing entries with
  | nil => simp [AreOutlines]
  | cons item items ih => simp only [AreOutlines, ih, List.forall₂_cons_left_iff, exists_and_left]

theorem areFields_iff :
    AreFields indent fields entries ↔ List.Forall₂ (IsField indent) fields entries := by
  induction fields generalizing entries with
  | nil => simp [AreFields]
  | cons field fields ih =>
    simp only [AreFields, ih, List.forall₂_cons_left_iff, IsField]
    constructor
    · rintro ⟨printed, others, hprinted, hothers, rfl⟩
      exact ⟨_, others, ⟨printed, hprinted, rfl⟩, hothers, rfl⟩
    · rintro ⟨_, others, ⟨printed, hprinted, rfl⟩, hothers, rfl⟩
      exact ⟨printed, others, hprinted, hothers, rfl⟩

mutual

/-- The printer writes an outline. -/
theorem isOutline_outline (indent : Nat) : (datum : Datum) →
    IsOutline indent datum (datum.outline indent)
  | .text value => quotes_outlineString value
  | .list items => ⟨_, areOutlines_outlineItems (indent + 4) items, rfl⟩
  | .record _ fields => ⟨_, areFields_outlineFields (indent + 4) fields, rfl⟩

theorem areOutlines_outlineItems (indent : Nat) : (items : List Datum) →
    AreOutlines indent items (outlineItems indent items)
  | [] => rfl
  | item :: items =>
    ⟨_, _, isOutline_outline indent item, areOutlines_outlineItems indent items, rfl⟩

theorem areFields_outlineFields (indent : Nat) : (fields : List (String × Datum)) →
    AreFields indent fields (outlineFields indent fields)
  | [] => rfl
  | (_, value) :: fields =>
    ⟨_, _, isOutline_outline indent value, areFields_outlineFields indent fields, rfl⟩

end

/-! ## Entries between brackets -/

section Entries

variable {α : Type} {Shows : α → String → Prop} {as bs : List α}

theorem toList_outlined (opening closing : String) (indent : Nat) (entries : List String) :
    (outlined opening closing indent entries).toList =
      opening.toList ++ (outlined "" closing indent entries).toList := by
  unfold outlined
  split <;> simp

theorem toList_outlined_cons (closing : String) (indent : Nat) (entry : String)
    (rest : List Char) :
    (outlined "" closing indent (entry :: entries)).toList ++ rest =
      '\n' :: ((String.join ((entry :: entries).map (outlineLine (indent + 4)))).toList ++
        (List.replicate indent ' ' ++ closing.toList ++ rest)) := by
  simp [outlined]

/-- The line of an entry is not the one that closes the list. -/
theorem toList_outlineLine_ne {entry : String} {c : Char} {before after : List Char}
    (hc : c ≠ ' ') :
    (outlineLine (indent + 4) entry).toList ++ before ≠
      List.replicate indent ' ' ++ [c] ++ after := by
  simp only [outlineLine, String.toList_append, String.toList_ofList, List.replicate_add,
    List.append_assoc, ne_eq, List.append_cancel_left_eq]
  intro heq
  exact hc (List.head_eq_of_cons_eq heq).symm

/-- The entries between brackets tell what they are entries of. -/
theorem eq_of_outlined {closing : String} {c : Char} {entries others : List String}
    {rest more : List Char} (hclosing : closing.toList = [c]) (hc : c ≠ ' ' ∧ c ≠ '\n')
    (hlegible : ∀ a ∈ as, Legible Shows a) (h : List.Forall₂ Shows as entries)
    (hother : List.Forall₂ Shows bs others)
    (heq : (outlined "" closing indent entries).toList ++ rest =
      (outlined "" closing indent others).toList ++ more) :
    as = bs ∧ rest = more := by
  have hnil : (outlined "" closing indent []).toList = [c] := by simp [outlined, hclosing]
  cases h with
  | nil =>
    cases hother with
    | nil => exact ⟨rfl, List.append_cancel_left heq⟩
    | cons _ _ =>
      rw [hnil, toList_outlined_cons] at heq
      exact absurd (List.head_eq_of_cons_eq heq) hc.2
  | cons hhead htail =>
    cases hother with
    | nil =>
      rw [hnil, toList_outlined_cons] at heq
      exact absurd (List.head_eq_of_cons_eq heq).symm hc.2
    | cons hhead' htail' =>
      -- Both have entries, on lines up to the one with the closing bracket.
      rw [toList_outlined_cons, toList_outlined_cons, hclosing] at heq
      have hlines : ∀ {list : List α} {entries : List String},
          List.Forall₂ Shows list entries →
            List.Forall₂ (fun a line => ∃ entry, Shows a entry ∧
              line = String.ofList (List.replicate (indent + 4) ' ') ++ entry ++ ",\n") list
              (entries.map (outlineLine (indent + 4))) := fun h =>
        List.forall₂_map_right_iff.mpr (h.imp fun a entry ha => ⟨entry, ha, rfl⟩)
      refine eq_of_join_append (fun a ha => (hlegible a ha).framed _ _) ?_
        (hlines (.cons hhead htail)) (hlines (.cons hhead' htail')) (List.cons.inj heq).2
      rintro b _ before after ⟨entry, -, rfl⟩
      exact toList_outlineLine_ne hc.1

end Entries

/-! ## Data that outlines determine -/

/-- All names in the datum are made of letters. -/
inductive WellNamed : Datum → Prop
  | text (value : String) : WellNamed (.text value)
  | list {items : List Datum} (hitems : ∀ item ∈ items, WellNamed item) : WellNamed (.list items)
  | record {name : String} {fields : List (String × Datum)} (hname : IsName name)
      (hnames : ∀ field ∈ fields, IsName field.1)
      (hvalues : ∀ field ∈ fields, WellNamed field.2) : WellNamed (.record name fields)

/-- What the outlines of a datum begin with. -/
def opening : Datum → List Char
  | .text _ => ['\x22']
  | .list _ => ['[']
  | .record name _ => name.toList ++ [' ', '\x7b']

theorem IsOutline.exists_append {printed : String} (h : IsOutline indent datum printed) :
    ∃ tail, printed.toList = datum.opening ++ tail := by
  cases datum with
  | text value =>
    obtain ⟨letters, -, rfl⟩ := h
    exact ⟨_, by rw [String.append_assoc, String.toList_append]; rfl⟩
  | list items =>
    obtain ⟨entries, -, rfl⟩ := h
    exact ⟨_, toList_outlined _ _ _ _⟩
  | record name fields =>
    obtain ⟨entries, -, rfl⟩ := h
    exact ⟨_, by rw [toList_outlined, String.toList_append]; rfl⟩

theorem WellNamed.opening_eq {other : Datum} {printed printed' : String} {rest more : List Char}
    (h : WellNamed datum) (hother : WellNamed other) (hprinted : IsOutline indent datum printed)
    (hprinted' : IsOutline indent other printed')
    (heq : printed.toList ++ rest = printed'.toList ++ more) :
    datum.opening = other.opening := by
  obtain ⟨tail, htail⟩ := hprinted.exists_append
  obtain ⟨tail', htail'⟩ := hprinted'.exists_append
  rw [htail, htail', List.append_assoc, List.append_assoc] at heq
  cases h with
  | text _ =>
    cases hother with
    | text _ => rfl
    | list _ => simp [opening] at heq
    | record hname _ _ =>
      rw [opening, opening, List.append_assoc] at heq
      exact absurd heq.symm (hname.append_ne (by decide) (by decide))
  | list _ =>
    cases hother with
    | text _ => simp [opening] at heq
    | list _ => rfl
    | record hname _ _ =>
      rw [opening, opening, List.append_assoc] at heq
      exact absurd heq.symm (hname.append_ne (by decide) (by decide))
  | record hname _ _ =>
    cases hother with
    | text _ | list _ =>
      rw [opening, opening, List.append_assoc] at heq
      exact absurd heq (hname.append_ne (by decide) (by decide))
    | record hname' _ _ =>
      rw [opening, opening, List.append_assoc, List.append_assoc] at heq
      obtain ⟨hnames, -⟩ := eq_of_append_cons (hname.not_mem (c := ' ') (by decide))
        (hname'.not_mem (by decide)) heq
      rw [opening, opening, hnames]

theorem legible_isField {name : String} {value : Datum} (hname : IsName name)
    (h : Legible (fun other printed => other.WellNamed ∧ IsOutline indent other printed) value) :
    Legible (fun field entry => (IsName field.1 ∧ field.2.WellNamed) ∧ IsField indent field entry)
      (name, value) := by
  rintro ⟨name', value'⟩ _ _ rest more ⟨⟨-, hwell⟩, printed, hprinted, rfl⟩
    ⟨⟨hname', hwell'⟩, printed', hprinted', rfl⟩ heq
  simp only [String.toList_append, List.append_assoc] at heq
  obtain ⟨hnames, hvalues⟩ := eq_of_append_cons (hname.not_mem (c := ':') (by decide))
    (hname'.not_mem (by decide)) heq
  obtain ⟨rfl, hrest⟩ :=
    h ⟨hwell, hprinted⟩ ⟨hwell', hprinted'⟩ (List.cons.inj hvalues).2
  exact ⟨by rw [String.toList_inj.mp hnames], hrest⟩

/-- The outline of a datum shows the datum and its own end. -/
theorem WellNamed.legible (h : WellNamed datum) (indent : Nat) :
    Legible (fun other printed => other.WellNamed ∧ IsOutline indent other printed) datum := by
  induction h generalizing indent with
  | text value =>
    rintro other _ _ rest more ⟨hwell, hprinted⟩ ⟨hwell', hprinted'⟩ heq
    have hopening := hwell.opening_eq hwell' hprinted hprinted' heq
    cases hwell' with
    | text value' =>
      obtain ⟨rfl, hrest⟩ := legible_quotes value hprinted hprinted' heq
      exact ⟨rfl, hrest⟩
    | list _ => simp [opening] at hopening
    | record _ _ _ => simpa [opening] using congrArg List.length hopening
  | list hitems ih =>
    rintro other _ _ rest more ⟨hwell, hprinted⟩ ⟨hwell', hprinted'⟩ heq
    have hopening := hwell.opening_eq hwell' hprinted hprinted' heq
    cases hwell' with
    | text _ => simp [opening] at hopening
    | record _ _ _ => simpa [opening] using congrArg List.length hopening
    | list hitems' =>
      obtain ⟨entries, hentries, rfl⟩ := hprinted
      obtain ⟨entries', hentries', rfl⟩ := hprinted'
      rw [toList_outlined "[", toList_outlined "[", List.append_assoc, List.append_assoc] at heq
      rw [areOutlines_iff] at hentries hentries'
      obtain ⟨rfl, hrest⟩ := eq_of_outlined rfl (by decide) (fun item hitem => ih item hitem _)
        ((List.forall₂_and_left _ _).mpr ⟨hitems, hentries⟩)
        ((List.forall₂_and_left _ _).mpr ⟨hitems', hentries'⟩) (List.append_cancel_left heq)
      exact ⟨rfl, hrest⟩
  | @record name fields hname hnames hvalues ih =>
    rintro other _ _ rest more ⟨hwell, hprinted⟩ ⟨hwell', hprinted'⟩ heq
    have hopening := hwell.opening_eq hwell' hprinted hprinted' heq
    cases hwell' with
    | text _ | list _ => simpa [opening] using congrArg List.length hopening
    | record hname' hnames' hvalues' =>
      obtain rfl := String.toList_inj.mp (List.append_cancel_right hopening)
      obtain ⟨entries, hentries, rfl⟩ := hprinted
      obtain ⟨entries', hentries', rfl⟩ := hprinted'
      rw [toList_outlined (name ++ _), toList_outlined (name ++ _), List.append_assoc,
        List.append_assoc] at heq
      rw [areFields_iff] at hentries hentries'
      obtain ⟨rfl, hrest⟩ := eq_of_outlined rfl (by decide)
        (fun field hfield => legible_isField (hnames field hfield) (ih field hfield _))
        ((List.forall₂_and_left _ _).mpr
          ⟨fun field hfield => ⟨hnames field hfield, hvalues field hfield⟩, hentries⟩)
        ((List.forall₂_and_left _ _).mpr
          ⟨fun field hfield => ⟨hnames' field hfield, hvalues' field hfield⟩, hentries'⟩)
        (List.append_cancel_left heq)
      exact ⟨rfl, hrest⟩

end Datum

/-! ## Trees -/

namespace Node

mutual

theorem wellNamed_toDatum : (node : Node) → node.toDatum.WellNamed
  | .leaf kind text => by
    rw [toDatum]
    exact .record kind.isName_typeName (by simpa using (by decide : IsName "value"))
      (by simpa using .text text)
  | .group form body => by
    rw [toDatum]
    exact .record form.isName_typeName (by simpa using (by decide : IsName "body"))
      (by simpa using .list (wellNamed_toData body))
  | .assignment name body => by
    rw [toDatum]
    refine .record (by decide) ?_ ?_
    · simpa using (by decide : IsName "name" ∧ IsName "body")
    · simpa using ⟨.text name, .list (wellNamed_toData body)⟩
  | .conditional condition body => by
    rw [toDatum]
    refine .record (by decide) ?_ ?_
    · simpa using (by decide : IsName "condition" ∧ IsName "body")
    · simpa using ⟨.list (wellNamed_toData condition), .list (wellNamed_toData body)⟩
  | .operator symbol operand => by
    rw [toDatum]
    refine .record (by decide) ?_ ?_
    · simpa using (by decide : IsName "value" ∧ IsName "operand")
    · simpa using ⟨.text symbol, wellNamed_toDatum operand⟩

theorem wellNamed_toData : (nodes : List Node) → ∀ datum ∈ toData nodes, datum.WellNamed
  | [] => nofun
  | node :: nodes => List.forall_mem_cons.mpr ⟨wellNamed_toDatum node, wellNamed_toData nodes⟩

end

end Node

namespace Program

variable {first second : Program}

/-- The text is an outline of the program. -/
def IsOutline (program : Program) (printed : String) : Prop :=
  program.toDatum.IsOutline 0 printed

theorem isOutline_format (program : Program) : program.IsOutline (program.format .outline) :=
  program.toDatum.isOutline_outline 0

theorem wellNamed_toDatum (program : Program) : program.toDatum.WellNamed := by
  rw [toDatum]
  refine .record (by decide) ?_ ?_
  · simpa using (by decide : IsName "body")
  · simpa using .list (Node.wellNamed_toData program.body)

/-- The data of a program are those of no other program. -/
theorem toDatum_injective (h : first.toDatum = second.toDatum) : first = second := by
  have hjson : first.toJson = second.toJson := by
    rw [← first.toJson_toDatum, ← second.toJson_toDatum, h]
  have hfirst : ofJson? first.toJson = some first := ofJson?_eq_some_iff.mpr rfl
  have hsecond : ofJson? first.toJson = some second := ofJson?_eq_some_iff.mpr hjson
  exact Option.some.inj (hfirst.symm.trans hsecond)

theorem IsOutline.eq {printed : String} (h : first.IsOutline printed)
    (hother : second.IsOutline printed) : first = second :=
  toDatum_injective ((first.wellNamed_toDatum.legible 0).eq ⟨first.wellNamed_toDatum, h⟩
    ⟨second.wellNamed_toDatum, hother⟩)

end Program

/-! ## Token listings -/

namespace Token

variable {token other : Token} {tokens others : List Token} {line : String}
  {lines : List String}

/-- The text is the line of a token, with the text of the token quoted in any
way. -/
def IsLine (token : Token) (line : String) : Prop :=
  ∃ quoted, Quotes token.text quoted ∧
    line = "Token \x7b kind: " ++ token.kind.name ++ ", text: " ++ quoted ++ " \x7d"

/-- The text is the lines of the tokens, each with its line end. -/
def IsListing (tokens : List Token) (printed : String) : Prop :=
  ∃ lines, List.Forall₂ IsLine tokens lines ∧ printed = String.join (lines.map (· ++ "\n"))

theorem isLine_describe (token : Token) : token.IsLine token.describe :=
  ⟨_, quotes_outlineString token.text, rfl⟩

theorem forall₂_isLine_describe (tokens : List Token) :
    List.Forall₂ IsLine tokens (tokens.map describe) :=
  List.forall₂_map_right_iff.mpr (List.forall₂_same.mpr fun token _ => token.isLine_describe)

theorem isListing_listing (tokens : List Token) : IsListing tokens (listing tokens) :=
  ⟨_, forall₂_isLine_describe tokens, by rw [listing, List.map_map]; rfl⟩

theorem legible_isLine (token : Token) : Legible IsLine token := by
  rintro other _ _ rest more ⟨quoted, hquoted, rfl⟩ ⟨quoted', hquoted', rfl⟩ heq
  simp only [String.toList_append, List.append_assoc, List.append_cancel_left_eq] at heq
  obtain ⟨hkinds, htexts⟩ := eq_of_append_cons
    (token.kind.isName_name.not_mem (c := ',') (by decide))
    (other.kind.isName_name.not_mem (by decide)) heq
  obtain ⟨htext, hrest⟩ := legible_quotes token.text hquoted hquoted'
    (List.append_cancel_left (htexts : " text: ".toList ++ _ = " text: ".toList ++ _))
  have hkind : token.kind = other.kind :=
    TokenKind.name_injective (String.toList_inj.mp hkinds)
  refine ⟨?_, List.append_cancel_left hrest⟩
  cases token
  cases other
  rw [Token.mk.injEq]
  exact ⟨hkind, htext⟩

/-- Nothing in a line ends it. -/
theorem IsLine.not_mem (h : token.IsLine line) : '\n' ∉ line.toList := by
  obtain ⟨quoted, hquoted, rfl⟩ := h
  have hname := token.kind.isName_name.not_mem (c := '\n') (by decide)
  simpa using ⟨hname, hquoted.not_mem⟩

theorem eq_of_isLine (h : token.IsLine line) (hother : other.IsLine line) : token = other :=
  token.legible_isLine.eq h hother

/-- The line ends of a listing are those behind its lines. -/
theorem splitOn_join (h : List.Forall₂ IsLine tokens lines) :
    (String.join (lines.map (· ++ "\n"))).toList.splitOn '\n' =
      lines.map String.toList ++ [[]] := by
  induction h with
  | nil => rfl
  | @cons token line tokens lines hline _ ih =>
    have hend : "\n".toList = ['\n'] := by decide
    rw [List.map_cons, String.join_cons, String.toList_append, String.toList_append, hend,
      List.append_assoc, List.singleton_append, List.splitOn_append_cons_self,
      List.splitOn_eq_singleton hline.not_mem, ih]
    rfl

/-- A listing is a text whose lines are those of the tokens. -/
theorem isListing_iff {printed : String} :
    IsListing tokens printed ↔ ∃ lines, printed.toList.splitOn '\n' =
      lines.map String.toList ++ [[]] ∧ List.Forall₂ IsLine tokens lines := by
  constructor
  · rintro ⟨lines, hlines, rfl⟩
    exact ⟨lines, splitOn_join hlines, hlines⟩
  · rintro ⟨lines, hsplit, hlines⟩
    refine ⟨lines, hlines, String.toList_inj.mp ?_⟩
    rw [← @List.intercalate_splitOn _ printed.toList, hsplit, ← splitOn_join hlines,
      List.intercalate_splitOn]

theorem IsListing.eq {printed : String} (h : IsListing tokens printed)
    (hother : IsListing others printed) : tokens = others := by
  obtain ⟨lines, hsplit, hlines⟩ := isListing_iff.mp h
  obtain ⟨lines', hsplit', hlines'⟩ := isListing_iff.mp hother
  rw [hsplit] at hsplit'
  obtain rfl : lines = lines' :=
    List.map_injective_iff.mpr (fun _ _ => String.toList_inj.mp)
      (List.append_cancel_right hsplit')
  have hunique : Relator.LeftUnique IsLine := fun _ _ _ => eq_of_isLine
  exact List.left_unique_forall₂' hunique hlines hlines'

end Token

/-- What is printed of a program or of tokens determines them, whatever
texts they hold and whichever of the characters without a short name are
written by their code points.  No text is an outline of two programs or a
listing of two token lists, and the printed texts are such texts.  A listing
has exactly one line for each token, in order.  A line is of one token only,
and nothing in it ends it. -/
theorem printed_text_determines (first second : Program) (tokens others : List Token) :
    (first.IsOutline (first.format .outline) ∧
      ((∃ printed, first.IsOutline printed ∧ second.IsOutline printed) ↔ first = second) ∧
      (first.format .outline = second.format .outline ↔ first = second)) ∧
    (Token.IsListing tokens (Token.listing tokens) ∧
      ((∃ printed, Token.IsListing tokens printed ∧ Token.IsListing others printed) ↔
        tokens = others) ∧
      (Token.listing tokens = Token.listing others ↔ tokens = others)) ∧
    (∀ printed, Token.IsListing tokens printed ↔
      ∃ lines, printed.toList.splitOn '\n' = lines.map String.toList ++ [[]] ∧
        List.Forall₂ Token.IsLine tokens lines) ∧
    (Token.listing tokens).toList.splitOn '\n' =
      tokens.map (fun token => token.describe.toList) ++ [[]] ∧
    ∀ token other : Token, (∃ line, token.IsLine line ∧ other.IsLine line) ↔ token = other := by
  refine ⟨⟨first.isOutline_format, ⟨?_, ?_⟩, ?_, ?_⟩,
    ⟨Token.isListing_listing tokens, ⟨?_, ?_⟩, ?_, ?_⟩, fun _ => Token.isListing_iff, ?_,
    fun token other => ⟨?_, ?_⟩⟩
  · rintro ⟨printed, hfirst, hsecond⟩
    exact hfirst.eq hsecond
  · rintro rfl
    exact ⟨_, first.isOutline_format, first.isOutline_format⟩
  · intro heq
    exact first.isOutline_format.eq (heq ▸ second.isOutline_format)
  · rintro rfl
    rfl
  · rintro ⟨printed, htokens, hothers⟩
    exact htokens.eq hothers
  · rintro rfl
    exact ⟨_, Token.isListing_listing tokens, Token.isListing_listing tokens⟩
  · intro heq
    exact (Token.isListing_listing tokens).eq (heq ▸ Token.isListing_listing others)
  · rintro rfl
    rfl
  · have hsplit := Token.splitOn_join (Token.forall₂_isLine_describe tokens)
    rwa [List.map_map, List.map_map] at hsplit
  · rintro ⟨line, htoken, hother⟩
    exact Token.eq_of_isLine htoken hother
  · rintro rfl
    exact ⟨_, token.isLine_describe, token.isLine_describe⟩

/-- A text with the end of its own token in it, and another token behind. -/
example : Token.listing [⟨.string, "\" \x7d\nToken \x7b kind: If, text: \"if"⟩] =
    "Token \x7b kind: String, text: \"\\\" \x7d\\nToken \x7b kind: If, text: \\\"if\" \x7d\n" := by
  decide +kernel

end Flick
