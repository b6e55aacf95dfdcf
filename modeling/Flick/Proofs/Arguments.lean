import Flick.Command.Options
import Mathlib.Data.List.Basic
import Mathlib.Data.List.Nodup

/-!
# Groups of arguments

Arguments are read from left to right, and a value is put off until it is
needed.  None of this is to be seen in what is accepted.  The arguments of a
run fall into groups: a flag, an option with its value, or the name of the
source file.  A group makes one choice, and the choices are all that counts.

* `read_groups`: reading a list of groups is making their choices, one
  after the other, and it does not matter when a value is looked at
  (`read_settle`).
* `exists_groups_of_read`: what is accepted, and has no `--`, is a list of
  groups.  It is one such list only (`eq_of_flatMap_arguments`).
* `Holds`: what was given is told by the choices, in any order.  A choice
  can be made once, which `exists_foldlM_add_iff` says.

`accepted_arguments` puts these facts together.
-/

namespace Flick.Options

/-! ## Groups and their choices -/

/-- The name of a switch, without its dashes. -/
def Flag.name : Flag → String
  | .lex => "lex"
  | .parse => "parse"
  | .json => "json"
  | .dev => "dev"

/-- The name of an option that takes a value, without its dashes. -/
def Setting.name : Setting → String
  | .port => "port"
  | .host => "host"

/-- An argument that no dash makes a name. -/
def PlainText : Type := { text : String // Argument.ofString text = .plain text }

/-- Arguments that belong together. -/
inductive Group where
  | flag (flag : Flag)
  /-- An option and its value in one argument. -/
  | joined (setting : Setting) (value : String)
  /-- An option and its value in two arguments. -/
  | separate (setting : Setting) (value : PlainText)
  | file (path : PlainText)

/-- The arguments of a group. -/
def Group.arguments : Group → List String
  | .flag switch => ["--" ++ switch.name]
  | .joined option value => ["--" ++ option.name ++ "=" ++ value]
  | .separate option value => ["--" ++ option.name, value.val]
  | .file path => [path.val]

/-- What a group says, in whatever way it is written. -/
inductive Choice where
  | flag (flag : Flag)
  | setting (setting : Setting) (value : String)
  | file (path : String)

/-- The choice that a group makes. -/
def Group.choice : Group → Choice
  | .flag switch => .flag switch
  | .joined option value => .setting option value
  | .separate option value => .setting option value.val
  | .file path => .file path.val

/-- What a choice is about. -/
inductive Topic where
  | flag (flag : Flag)
  | setting (setting : Setting)
  | file
  deriving DecidableEq

def Choice.topic : Choice → Topic
  | .flag switch => .flag switch
  | .setting option _ => .setting option
  | .file _ => .file

/-- Whether a choice can be made at all. -/
def Choice.Valid : Choice → Prop
  | .flag _ | .setting .host _ => True
  | .setting .port value => (port? value).isSome = true
  | .file path => path.isEmpty = false

/-- Makes a choice. -/
def Given.add (given : Given) : Choice → Except UsageError Given
  | .flag switch => given.switch switch
  | .setting option value => given.assign value option
  | .file path =>
    if given.file.isSome then .error .unknownArgument
    else if path.isEmpty then .error .invalidValue
    else .ok { given with file := some path }

theorem bind_eq_ok_iff {α β : Type} {first : Except UsageError α}
    {next : α → Except UsageError β} {value : β} :
    (first >>= next) = .ok value ↔ ∃ middle, first = .ok middle ∧ next middle = .ok value := by
  cases first with
  | error error => exact ⟨nofun, nofun⟩
  | ok middle => simp [bind, Except.bind]

/-! ## The forms of arguments -/

theorem ofString_flag (flag : Flag) :
    Argument.ofString ("--" ++ flag.name) = .long flag.name none := by
  cases flag <;> decide

theorem ofString_setting (setting : Setting) :
    Argument.ofString ("--" ++ setting.name) = .long setting.name none := by
  cases setting <;> decide

theorem ofString_joined (setting : Setting) (value : String) :
    Argument.ofString ("--" ++ setting.name ++ "=" ++ value) =
      .long setting.name (some value) := by
  cases setting <;> simp [Argument.ofString, Setting.name]

theorem ofString_plain (text : PlainText) : Argument.ofString text.val = .plain text.val :=
  text.property

theorem eq_of_ofString_separator {text : String} (h : Argument.ofString text = .separator) :
    text = "--" := by
  unfold Argument.ofString at h
  split at h
  next heq => rw [← String.toList_inj, heq]; rfl
  all_goals cases h

theorem eq_of_ofString_plain {text plain : String} (h : Argument.ofString text = .plain plain) :
    plain = text := by
  unfold Argument.ofString at h
  split at h
  case h_4 => exact (Argument.plain.inj h).symm
  all_goals cases h

theorem eq_of_ofString_long {text name : String} {value : Option String}
    (h : Argument.ofString text = .long name value) :
    text = "--" ++ name ++ (value.elim "" ("=" ++ ·)) := by
  unfold Argument.ofString at h
  split at h
  case h_2 chars _ htext =>
    obtain ⟨rfl, hvalue⟩ := Argument.long.inj h
    have hsplit := List.takeWhile_append_dropWhile (p := (· != '=')) (l := chars)
    have hhead := List.head?_dropWhile_not (· != '=') chars
    rw [← String.toList_inj, htext]
    split at hvalue
    next hnil =>
      rw [hnil, List.append_nil] at hsplit
      simp [← hvalue, hsplit]
    next c rest hcons =>
      rw [hcons] at hsplit hhead
      obtain rfl : c = '=' := by simpa using hhead
      simp [← hvalue, hsplit]
  all_goals cases h

/-! ## Names and meanings -/

theorem ofName?_flag (flag : Flag) : Meaning.ofName? flag.name = some (.flag flag) := by
  cases flag <;> decide

theorem ofName?_setting (setting : Setting) :
    Meaning.ofName? setting.name = some (.setting setting) := by
  cases setting <;> decide

theorem name_flag_injective {switch other : Flag} (h : switch.name = other.name) :
    switch = other := by
  simpa [ofName?_flag] using congrArg Meaning.ofName? h

theorem name_setting_injective {option other : Setting} (h : option.name = other.name) :
    option = other := by
  simpa [ofName?_setting] using congrArg Meaning.ofName? h

theorem name_flag_ne (switch : Flag) (option : Setting) : switch.name ≠ option.name := by
  intro h
  simpa [ofName?_flag, ofName?_setting] using congrArg Meaning.ofName? h

theorem eq_name_of_ofName? {name : String} {meaning : Meaning}
    (h : Meaning.ofName? name = some meaning) :
    match meaning with
    | .flag flag => name = flag.name
    | .setting setting => name = setting.name
    | .help | .version => True := by
  unfold Meaning.ofName? at h
  split_ifs at h <;> cases h <;> first | assumption | trivial

/-- A letter asks for a text. -/
theorem eq_of_ofLetter? {letter : Char} {meaning : Meaning}
    (h : Meaning.ofLetter? letter = some meaning) : meaning = .help ∨ meaning = .version := by
  unfold Meaning.ofLetter? at h
  split_ifs at h <;> cases h <;> simp

/-! ## Values that are put off -/

/-- The reading does not wait for the value of an option. -/
def Reading.Whole (reading : Reading) : Prop :=
  ∀ option, reading.pending ≠ some (.setting option none)

/-- The reading that puts nothing off. -/
def Given.reading (given : Given) : Reading := ⟨given, none⟩

theorem settle_reading (given : Given) : given.reading.settle = .ok given := rfl

theorem whole_reading (given : Given) : given.reading.Whole := nofun

section Settle

variable {reading next : Reading} {given : Given}

theorem hasFile_of_settle (h : reading.settle = .ok given) :
    reading.hasFile = given.file.isSome := by
  obtain ⟨before, pending⟩ := reading
  match pending with
  | none =>
    obtain rfl := Except.ok.inj h
    exact Bool.or_false _
  | some (.file path) =>
    simp only [Reading.settle] at h
    split at h
    · cases h
    · obtain rfl := Except.ok.inj h
      exact Bool.or_true _
  | some (.setting _ none) => cases h
  | some (.setting .host (some value)) =>
    simp only [Reading.settle, Given.assign] at h
    split at h
    · cases h
    · obtain rfl := Except.ok.inj h
      exact Bool.or_false _
  | some (.setting .port (some value)) =>
    simp only [Reading.settle, Given.assign] at h
    split at h
    · cases h
    split at h
    · obtain rfl := Except.ok.inj h
      exact Bool.or_false _
    · cases h

/-- A value that was put off can be looked at before the next argument. -/
theorem positional_settle {path : String} :
    reading.positional path = .ok next ↔
      ∃ given, reading.settle = .ok given ∧ given.reading.positional path = .ok next := by
  cases hsettle : reading.settle with
  | error error =>
    simp only [Reading.positional, hsettle, bind, Except.bind]
    split <;> simp
  | ok given =>
    simp only [Except.ok.injEq, exists_eq_left', Reading.positional, hsettle, settle_reading,
      hasFile_of_settle hsettle, hasFile_of_settle (settle_reading given)]

theorem named_settle {value : Option String} {meaning : Meaning} :
    reading.named value meaning = .ok next ↔
      ∃ given, reading.settle = .ok given ∧ given.reading.named value meaning = .ok next := by
  cases hsettle : reading.settle with
  | error error =>
    cases meaning <;> simp only [Reading.named, hsettle, bind, Except.bind] <;> split <;> simp
  | ok given =>
    simp only [Except.ok.injEq, exists_eq_left']
    cases meaning <;> simp only [Reading.named, hsettle, settle_reading]

theorem plain_of_whole (h : reading.Whole) (text : String) :
    reading.plain text = reading.positional text := by
  unfold Reading.plain
  split
  next heq => exact absurd heq (h _)
  next => rfl

theorem readPlain_settle {texts : List String} {result : Given} :
    reading.readPlain texts = .ok result ↔
      ∃ given, reading.settle = .ok given ∧ given.reading.readPlain texts = .ok result := by
  cases texts with
  | nil => simp [Reading.readPlain, settle_reading]
  | cons path paths =>
    simp only [Reading.readPlain, bind_eq_ok_iff, @positional_settle reading]
    constructor
    · rintro ⟨middle, ⟨given, hsettle, hpositional⟩, hread⟩
      exact ⟨given, hsettle, middle, hpositional, hread⟩
    · rintro ⟨given, hsettle, middle, hpositional, hread⟩
      exact ⟨middle, ⟨given, hsettle, hpositional⟩, hread⟩

/-- So what is accepted does not depend on when values are looked at. -/
theorem read_settle (h : reading.Whole) {texts : List String} {result : Given} :
    reading.read texts = .ok result ↔
      ∃ given, reading.settle = .ok given ∧ given.reading.read texts = .ok result := by
  cases texts with
  | nil => simp [Reading.read, settle_reading]
  | cons text texts =>
    have hstep {action : Reading → Except UsageError Reading}
        (haction : ∀ next, action reading = .ok next ↔
          ∃ given, reading.settle = .ok given ∧ action given.reading = .ok next) :
        (action reading >>= (·.read texts)) = .ok result ↔
          ∃ given, reading.settle = .ok given ∧
            (action given.reading >>= (·.read texts)) = .ok result := by
      simp only [bind_eq_ok_iff, haction]
      constructor
      · rintro ⟨middle, ⟨given, hsettle, hmiddle⟩, hread⟩
        exact ⟨given, hsettle, middle, hmiddle, hread⟩
      · rintro ⟨given, hsettle, middle, hmiddle, hread⟩
        exact ⟨middle, ⟨given, hsettle, hmiddle⟩, hread⟩
    cases hform : Argument.ofString text with
    | separator =>
      simp only [Reading.read, hform]
      exact readPlain_settle
    | plain text =>
      simp only [Reading.read, hform]
      refine @hstep (·.plain text) fun next => ?_
      simp only [plain_of_whole h, plain_of_whole (whole_reading _)]
      exact positional_settle
    | long name value =>
      simp only [Reading.read, hform]
      cases hname : Meaning.ofName? name with
      | none => simp [throw, throwThe, MonadExceptOf.throw]
      | some meaning => exact @hstep (·.named value meaning) fun _ => named_settle
    | short letter =>
      simp only [Reading.read, hform]
      cases hletter : Meaning.ofLetter? letter with
      | none => simp [throw, throwThe, MonadExceptOf.throw]
      | some meaning => exact @hstep (·.named none meaning) fun _ => named_settle

end Settle

/-! ## Reading groups -/

/-- An argument that is known by name. -/
theorem read_named (reading : Reading) {text name : String} {value : Option String}
    {meaning : Meaning} (hform : Argument.ofString text = .long name value)
    (hname : Meaning.ofName? name = some meaning) (texts : List String) :
    reading.read (text :: texts) = reading.named value meaning >>= (·.read texts) := by
  simp only [Reading.read, hform, hname]

theorem read_plain (reading : Reading) (text : PlainText) (texts : List String) :
    reading.read (text.val :: texts) = reading.plain text.val >>= (·.read texts) := by
  simp only [Reading.read, text.property]

theorem named_flag_iff {given : Given} {switch : Flag} {next : Reading} :
    given.reading.named none (.flag switch) = .ok next ↔
      ∃ result, given.switch switch = .ok result ∧ result.reading = next := by
  simp only [Reading.named, Option.isSome_none, Bool.false_eq_true, if_false, bind_eq_ok_iff,
    settle_reading, Except.ok.injEq, exists_eq_left', pure, Except.pure]
  exact Iff.rfl

theorem named_joined_iff {given : Given} {option : Setting} {value : String} {next : Reading} :
    given.reading.named (some value) (.setting option) = .ok next ↔
      ∃ result, given.assign value option = .ok result ∧ result.reading = next := by
  simp only [Reading.named, bind_eq_ok_iff, settle_reading, Except.ok.injEq, exists_eq_left',
    pure, Except.pure]
  exact Iff.rfl

/-- Reading a group is making its choice. -/
theorem read_group {given result : Given} (group : Group) (texts : List String) :
    given.reading.read (group.arguments ++ texts) = .ok result ↔
      ∃ next, given.add group.choice = .ok next ∧ next.reading.read texts = .ok result := by
  cases group with
  | flag switch =>
    rw [Group.arguments, List.cons_append, List.nil_append,
      read_named _ (ofString_flag switch) (ofName?_flag switch), bind_eq_ok_iff]
    simp only [named_flag_iff, Group.choice, Given.add, exists_exists_and_eq_and]
  | joined option value =>
    rw [Group.arguments, List.cons_append, List.nil_append,
      read_named _ (ofString_joined option value) (ofName?_setting option), bind_eq_ok_iff]
    simp only [named_joined_iff, Group.choice, Given.add, exists_exists_and_eq_and]
  | separate option value =>
    have hnamed : given.reading.named none (.setting option) =
        .ok ⟨given, some (.setting option none)⟩ := rfl
    have hplain : (⟨given, some (.setting option none)⟩ : Reading).plain value.val =
        .ok ⟨given, some (.setting option (some value.val))⟩ := rfl
    have hwhole : (⟨given, some (.setting option (some value.val))⟩ : Reading).Whole := nofun
    rw [Group.arguments, List.cons_append, List.cons_append, List.nil_append,
      read_named _ (ofString_setting option) (ofName?_setting option), hnamed]
    refine Iff.trans (Eq.to_iff (congrArg (· = Except.ok result) ?_)) (read_settle hwhole)
    exact (read_plain _ value texts).trans (by rw [hplain]; rfl)
  | file path =>
    have hplain : given.reading.plain path.val = given.reading.positional path.val :=
      plain_of_whole (whole_reading given) _
    rw [Group.arguments, List.cons_append, List.nil_append, read_plain, hplain,
      Reading.positional, hasFile_of_settle (settle_reading given), Group.choice, Given.add]
    split
    · exact ⟨nofun, nofun⟩
    · have hwhole : (⟨given, some (.file path.val)⟩ : Reading).Whole := nofun
      exact read_settle hwhole

/-- Reading groups is making their choices. -/
theorem read_groups {given result : Given} (groups : List Group) :
    given.reading.read (groups.flatMap Group.arguments) = .ok result ↔
      (groups.map Group.choice).foldlM Given.add given = .ok result := by
  induction groups generalizing given with
  | nil => exact Iff.rfl
  | cons group groups ih =>
    rw [List.flatMap_cons, read_group, List.map_cons, List.foldlM_cons, bind_eq_ok_iff]
    simp only [ih]

/-! ## Falling into groups -/

theorem whole_of_settle {reading : Reading} {given : Given} (h : reading.settle = .ok given) :
    reading.Whole := by
  intro option hpending
  rw [Reading.settle, hpending] at h
  cases h

/-- An argument that is known by name is accepted as a flag, as an option
with its value, or as an option that waits for its value. -/
theorem named_cases {reading next : Reading} {value : Option String} {meaning : Meaning}
    (h : reading.named value meaning = .ok next) :
    reading.Whole ∧
      ((∃ switch, meaning = .flag switch ∧ value = none ∧ next.Whole) ∨
        (∃ option text, meaning = .setting option ∧ value = some text ∧ next.Whole) ∨
        ∃ option, meaning = .setting option ∧ value = none ∧ ¬next.Whole) := by
  obtain ⟨given, hsettle, hnamed⟩ := named_settle.mp h
  refine ⟨whole_of_settle hsettle, ?_⟩
  cases meaning with
  | help | version =>
    cases value <;> cases hnamed
  | flag switch =>
    cases value with
    | some text => cases hnamed
    | none =>
      obtain ⟨result, -, rfl⟩ := named_flag_iff.mp hnamed
      exact .inl ⟨switch, rfl, rfl, whole_reading result⟩
  | setting option =>
    cases value with
    | some text =>
      obtain ⟨result, -, rfl⟩ := named_joined_iff.mp hnamed
      exact .inr (.inl ⟨option, text, rfl, rfl, whole_reading result⟩)
    | none =>
      obtain rfl := Except.ok.inj hnamed
      exact .inr (.inr ⟨option, rfl, rfl, fun hwhole => hwhole option rfl⟩)

/-- Arguments that are accepted, and have no `--`, fall into groups.  If
the reading waits for a value, this comes first. -/
theorem exists_groups_of_read {reading : Reading} {result : Given} {texts : List String}
    (h : reading.read texts = .ok result) (hseparator : "--" ∉ texts) :
    (reading.Whole → ∃ groups : List Group, groups.flatMap Group.arguments = texts) ∧
      (¬reading.Whole → ∃ (value : PlainText) (groups : List Group),
        value.val :: groups.flatMap Group.arguments = texts) := by
  induction texts generalizing reading with
  | nil =>
    refine ⟨fun _ => ⟨[], rfl⟩, fun hopen => ?_⟩
    obtain ⟨option, hpending⟩ := not_forall_not.mp hopen
    simp only [Reading.read, Reading.settle, hpending] at h
    cases h
  | cons text texts ih =>
    rw [List.mem_cons, not_or] at hseparator
    have ih {next : Reading} (hread : next.read texts = .ok result) := ih hread hseparator.2
    cases hform : Argument.ofString text with
    | separator => exact absurd (eq_of_ofString_separator hform).symm hseparator.1
    | plain plain =>
      obtain rfl := eq_of_ofString_plain hform
      simp only [Reading.read, hform, bind_eq_ok_iff] at h
      obtain ⟨next, hplain, hread⟩ := h
      constructor
      · intro hwhole
        rw [plain_of_whole hwhole, Reading.positional] at hplain
        split at hplain
        · cases hplain
        obtain ⟨given, -, hnext⟩ := bind_eq_ok_iff.mp hplain
        obtain rfl := Except.ok.inj hnext
        obtain ⟨groups, hgroups⟩ := (ih hread).1 nofun
        exact ⟨.file ⟨plain, hform⟩ :: groups, congrArg (plain :: ·) hgroups⟩
      · intro hopen
        obtain ⟨option, hpending⟩ := not_forall_not.mp hopen
        simp only [Reading.plain, hpending] at hplain
        obtain rfl := Except.ok.inj hplain
        obtain ⟨groups, hgroups⟩ := (ih hread).1 nofun
        exact ⟨⟨plain, hform⟩, groups, congrArg (plain :: ·) hgroups⟩
    | long name value =>
      have htext := eq_of_ofString_long hform
      cases hname : Meaning.ofName? name with
      | none =>
        simp only [Reading.read, hform, hname] at h
        cases h
      | some meaning =>
        simp only [Reading.read, hform, hname, bind_eq_ok_iff] at h
        obtain ⟨next, hnamed, hread⟩ := h
        obtain ⟨hwhole, hcases⟩ := named_cases hnamed
        refine ⟨fun _ => ?_, fun hopen => absurd hwhole hopen⟩
        obtain ⟨switch, rfl, rfl, hnext⟩ | ⟨option, value, rfl, rfl, hnext⟩ |
          ⟨option, rfl, rfl, hnext⟩ := hcases
        · have hname : name = switch.name := eq_name_of_ofName? hname
          obtain ⟨groups, hgroups⟩ := (ih hread).1 hnext
          exact ⟨.flag switch :: groups, by simp [Group.arguments, htext, hname, hgroups]⟩
        · have hname : name = option.name := eq_name_of_ofName? hname
          obtain ⟨groups, hgroups⟩ := (ih hread).1 hnext
          exact ⟨.joined option value :: groups, by
            simp [Group.arguments, htext, hname, hgroups, String.append_assoc]⟩
        · have hname : name = option.name := eq_name_of_ofName? hname
          obtain ⟨value, groups, hgroups⟩ := (ih hread).2 hnext
          exact ⟨.separate option value :: groups, by simp [Group.arguments, htext, hname, hgroups]⟩
    | short letter =>
      cases hletter : Meaning.ofLetter? letter with
      | none =>
        simp only [Reading.read, hform, hletter] at h
        cases h
      | some meaning =>
        simp only [Reading.read, hform, hletter, bind_eq_ok_iff] at h
        obtain ⟨next, hnamed, -⟩ := h
        obtain ⟨-, hcases⟩ := named_cases hnamed
        rcases eq_of_ofLetter? hletter with rfl | rfl <;> simp at hcases

/-- The first group is told by the arguments, and so is what follows it. -/
theorem eq_of_arguments_append {group other : Group} {texts more : List String}
    (h : group.arguments ++ texts = other.arguments ++ more) : group = other ∧ texts = more := by
  -- The forms of the first arguments tell the groups apart, but for the value behind an option.
  have hform := congrArg (fun texts => texts.head?.map Argument.ofString) h
  cases group <;> cases other <;>
    simp only [Group.arguments, List.cons_append, List.head?_cons, Option.map_some, ofString_flag,
      ofString_setting, ofString_joined, ofString_plain, Option.some.injEq, Argument.long.injEq,
      Argument.plain.injEq, reduceCtorEq, and_true, and_false] at hform
  case flag.flag switch other =>
    obtain rfl := name_flag_injective hform
    exact ⟨rfl, List.append_cancel_left h⟩
  case flag.separate switch option value => exact absurd hform (name_flag_ne switch option)
  case separate.flag option value switch => exact absurd hform.symm (name_flag_ne switch option)
  case joined.joined option value other text =>
    obtain ⟨hname, rfl⟩ := hform
    obtain rfl := name_setting_injective hname
    exact ⟨rfl, List.append_cancel_left h⟩
  case separate.separate option value other text =>
    obtain rfl := name_setting_injective hform
    obtain ⟨hvalue, hrest⟩ := List.cons.inj (List.cons.inj h).2
    obtain rfl := Subtype.ext hvalue
    exact ⟨rfl, hrest⟩
  case file.file path other =>
    obtain rfl := Subtype.ext hform
    exact ⟨rfl, List.append_cancel_left h⟩

/-- Arguments fall into groups in one way only. -/
theorem eq_of_flatMap_arguments {groups others : List Group}
    (h : groups.flatMap Group.arguments = others.flatMap Group.arguments) : groups = others := by
  have hne (group : Group) (texts : List String) : group.arguments ++ texts ≠ [] := by
    cases group <;> simp [Group.arguments]
  induction groups generalizing others with
  | nil =>
    cases others with
    | nil => rfl
    | cons other others => exact absurd h.symm (hne other _)
  | cons group groups ih =>
    cases others with
    | nil => exact absurd h (hne group _)
    | cons other others =>
      obtain ⟨rfl, hrest⟩ := eq_of_arguments_append h
      rw [ih hrest]

/-! ## Making choices -/

/-- What was given is told by these choices. -/
structure Holds (given : Given) (choices : List Choice) : Prop where
  valid : ∀ choice ∈ choices, choice.Valid
  file : ∀ path, given.file = some path ↔ .file path ∈ choices
  flag : ∀ switch, switch ∈ given.flags ↔ .flag switch ∈ choices
  port : ∀ port, given.port = some port ↔
    ∃ value, .setting .port value ∈ choices ∧ port? value = some port
  host : ∀ host, given.host = some host ↔ .setting .host host ∈ choices

theorem holds_start : Holds Reading.start.given [] where
  valid := nofun
  file := by simp [Reading.start]
  flag := by simp [Reading.start]
  port := by simp [Reading.start]
  host := by simp [Reading.start]

variable {given next : Given} {choice : Choice} {choices more : List Choice}

/-- The order of the choices does not matter. -/
theorem Holds.congr (h : Holds given choices) (hmem : ∀ choice, choice ∈ choices ↔ choice ∈ more) :
    Holds given more where
  valid choice hchoice := h.valid choice ((hmem choice).mpr hchoice)
  file path := by rw [h.file, hmem]
  flag switch := by rw [h.flag, hmem]
  port port := by simp only [h.port, hmem]
  host host := by rw [h.host, hmem]

theorem add_flag_iff {switch : Flag} :
    given.add (.flag switch) = .ok next ↔
      switch ∉ given.flags ∧ { given with flags := switch :: given.flags } = next := by
  rw [Given.add, Given.switch]
  split
  next hgiven => simp [List.contains_iff_mem.mp hgiven]
  next hgiven =>
    rw [List.contains_iff_mem] at hgiven
    simp [hgiven]

theorem add_host_iff {value : String} :
    given.add (.setting .host value) = .ok next ↔
      given.host = none ∧ { given with host := some value } = next := by
  rw [Given.add, Given.assign]
  cases given.host <;> simp

theorem add_port_iff {value : String} :
    given.add (.setting .port value) = .ok next ↔
      given.port = none ∧ ∃ port, port? value = some port ∧
        { given with port := some port } = next := by
  rw [Given.add, Given.assign]
  cases given.port <;> cases port? value <;> simp

theorem add_file_iff {path : String} :
    given.add (.file path) = .ok next ↔
      given.file = none ∧ path.isEmpty = false ∧ { given with file := some path } = next := by
  rw [Given.add]
  cases given.file <;> cases path.isEmpty <;> simp

namespace Holds

variable (h : Holds given choices)

include h

theorem file_eq_none_iff : given.file = none ↔ Topic.file ∉ choices.map Choice.topic := by
  rw [Option.eq_none_iff_forall_ne_some]
  simp only [ne_eq, h.file, List.mem_map, not_exists, not_and]
  constructor
  · intro hnone choice hchoice htopic
    cases choice with
    | file path => exact hnone path hchoice
    | flag | setting => cases htopic
  · exact fun hnone path hchoice => hnone _ hchoice rfl

theorem flag_notMem_iff {switch : Flag} :
    switch ∉ given.flags ↔ Topic.flag switch ∉ choices.map Choice.topic := by
  rw [h.flag, List.mem_map, not_iff_not]
  constructor
  · exact fun hchoice => ⟨_, hchoice, rfl⟩
  · rintro ⟨choice, hchoice, htopic⟩
    cases choice with
    | flag other => exact Topic.flag.inj htopic ▸ hchoice
    | setting | file => cases htopic

theorem host_eq_none_iff :
    given.host = none ↔ Topic.setting .host ∉ choices.map Choice.topic := by
  rw [Option.eq_none_iff_forall_ne_some]
  simp only [ne_eq, h.host, List.mem_map, not_exists, not_and]
  constructor
  · intro hnone choice hchoice htopic
    cases choice with
    | setting option value =>
      obtain rfl : option = .host := Topic.setting.inj htopic
      exact hnone value hchoice
    | flag | file => cases htopic
  · exact fun hnone host hchoice => hnone _ hchoice rfl

theorem port_eq_none_iff :
    given.port = none ↔ Topic.setting .port ∉ choices.map Choice.topic := by
  rw [Option.eq_none_iff_forall_ne_some]
  simp only [ne_eq, h.port, List.mem_map, not_exists, not_and]
  constructor
  · intro hnone choice hchoice htopic
    cases choice with
    | setting option value =>
      obtain rfl : option = .port := Topic.setting.inj htopic
      obtain ⟨port, hport⟩ := Option.isSome_iff_exists.mp (h.valid _ hchoice)
      exact hnone port value hchoice hport
    | flag | file => cases htopic
  · exact fun hnone port value hchoice _ => hnone _ hchoice rfl

/-- A choice can be made if it is valid and nothing was chosen about it. -/
theorem exists_add_iff :
    (∃ next, given.add choice = .ok next) ↔
      choice.Valid ∧ choice.topic ∉ choices.map Choice.topic := by
  match choice with
  | .flag switch => simp [add_flag_iff, h.flag_notMem_iff, Choice.Valid, Choice.topic]
  | .setting .host value =>
    simp [add_host_iff, h.host_eq_none_iff, Choice.Valid, Choice.topic]
  | .setting .port value =>
    simp [add_port_iff, h.port_eq_none_iff, Choice.Valid, Choice.topic,
      Option.isSome_iff_exists, and_comm]
  | .file path =>
    simp [add_file_iff, h.file_eq_none_iff, Choice.Valid, Choice.topic, and_comm]

/-- What was given is then told by one choice more. -/
theorem add (hadd : given.add choice = .ok next) : Holds next (choice :: choices) := by
  have hvalid := (h.exists_add_iff.mp ⟨next, hadd⟩).1
  have hall : ∀ other ∈ choice :: choices, other.Valid := by
    rintro other (_ | ⟨_, hother⟩)
    · exact hvalid
    · exact h.valid other hother
  match choice with
  | .flag switch =>
    obtain ⟨-, rfl⟩ := add_flag_iff.mp hadd
    exact ⟨hall, by simp [h.file], by simp [h.flag], by simp [h.port], by simp [h.host]⟩
  | .setting .host value =>
    obtain ⟨hnone, rfl⟩ := add_host_iff.mp hadd
    have hhost host : Choice.setting .host host ∉ choices := by simp [← h.host, hnone]
    refine ⟨hall, by simp [h.file], by simp [h.flag], by simp [h.port], fun host => ?_⟩
    simp [hhost, eq_comm]
  | .setting .port value =>
    obtain ⟨hnone, port, hport, rfl⟩ := add_port_iff.mp hadd
    have hports port : ¬∃ value, .setting .port value ∈ choices ∧ port? value = some port := by
      simp [← h.port, hnone]
    refine ⟨hall, by simp [h.file], by simp [h.flag], fun other => ?_, by simp [h.host]⟩
    simp only [List.mem_cons, Choice.setting.injEq, true_and]
    constructor
    · exact fun hother => ⟨value, .inl rfl, hport.trans hother⟩
    · rintro ⟨text, rfl | htext, hother⟩
      · exact hport.symm.trans hother
      · exact absurd ⟨text, htext, hother⟩ (hports other)
  | .file path =>
    obtain ⟨hnone, -, rfl⟩ := add_file_iff.mp hadd
    have hfile path : Choice.file path ∉ choices := by simp [← h.file, hnone]
    refine ⟨hall, fun other => ?_, by simp [h.flag], by simp [h.port], by simp [h.host]⟩
    simp [hfile, eq_comm]

/-- Choices can be made one after the other if they are valid and each is
about something else. -/
theorem exists_foldlM_add_iff :
    (∃ result, more.foldlM Given.add given = .ok result) ↔
      (∀ choice ∈ more, choice.Valid) ∧ (more.map Choice.topic).Nodup ∧
        ∀ choice ∈ more, choice.topic ∉ choices.map Choice.topic := by
  induction more generalizing given choices with
  | nil => simp [pure, Except.pure]
  | cons choice more ih =>
    simp only [List.foldlM_cons, bind_eq_ok_iff]
    constructor
    · rintro ⟨result, next, hadd, hrest⟩
      obtain ⟨hvalid, htopic⟩ := h.exists_add_iff.mp ⟨next, hadd⟩
      obtain ⟨hvalids, hnodup, hfresh⟩ := (ih (h.add hadd)).mp ⟨result, hrest⟩
      simp only [List.map_cons, List.mem_cons, not_or] at hfresh
      refine ⟨?_, List.nodup_cons.mpr ⟨fun hmem => ?_, hnodup⟩, ?_⟩
      · exact List.forall_mem_cons.mpr ⟨hvalid, hvalids⟩
      · obtain ⟨other, hother, heq⟩ := List.mem_map.mp hmem
        exact (hfresh other hother).1 heq
      · exact List.forall_mem_cons.mpr ⟨htopic, fun other hother => (hfresh other hother).2⟩
    · rintro ⟨hvalids, hnodup, hfresh⟩
      obtain ⟨hvalid, hvalids⟩ := List.forall_mem_cons.mp hvalids
      obtain ⟨htopic, hfresh⟩ := List.forall_mem_cons.mp hfresh
      obtain ⟨hnew, hnodup⟩ := List.nodup_cons.mp hnodup
      obtain ⟨next, hadd⟩ := h.exists_add_iff.mpr ⟨hvalid, htopic⟩
      obtain ⟨result, hrest⟩ := (ih (h.add hadd)).mpr ⟨hvalids, hnodup, fun other hother => by
        rw [List.map_cons, List.mem_cons, not_or]
        exact ⟨fun heq => hnew (List.mem_map.mpr ⟨other, hother, heq⟩), hfresh other hother⟩⟩
      exact ⟨result, next, hadd, hrest⟩

/-- And they tell what was given. -/
theorem foldlM_add {result : Given} (hfold : more.foldlM Given.add given = .ok result) :
    Holds result (more ++ choices) := by
  induction more generalizing given choices with
  | nil =>
    obtain rfl := Except.ok.inj hfold
    exact h
  | cons choice more ih =>
    rw [List.foldlM_cons, bind_eq_ok_iff] at hfold
    obtain ⟨next, hadd, hrest⟩ := hfold
    refine (ih (h.add hadd) hrest).congr fun other => ?_
    simp only [List.mem_append, List.mem_cons, List.cons_append]
    tauto

/-- The same choices give the same options. -/
theorem check_eq {other : Given} (hother : Holds other choices) : check given = check other := by
  have hfile : given.file = other.file := Option.ext fun path => by rw [h.file, hother.file]
  have hport : given.port = other.port := Option.ext fun port => by rw [h.port, hother.port]
  have hhost : given.host = other.host := Option.ext fun host => by rw [h.host, hother.host]
  have hflags (switch : Flag) : given.flags.contains switch = other.flags.contains switch := by
    rw [Bool.eq_iff_iff, List.contains_iff_mem, List.contains_iff_mem, h.flag, hother.flag]
  simp only [check, hflags, hfile, hport, hhost]

end Holds

/-! ## Accepted arguments -/

/-- Options that pass the last check go together. -/
theorem coherent_of_check {options : Options} (h : check given = .ok options) :
    ¬(options.lexOnly = true ∧ (options.parseOnly = true ∨ options.json = true)) ∧
      (options.port ≠ defaultPort ∨ options.host ≠ defaultHost → options.dev = true) := by
  simp only [check] at h
  split at h
  · cases h
  next hconflict =>
    split at h
    · cases h
    next hrequires =>
      obtain rfl := Except.ok.inj h
      refine ⟨fun hboth => hconflict (by simpa using hboth), fun hset => ?_⟩
      by_contra hdev
      refine hrequires ?_
      have hgiven : (given.port.isSome || given.host.isSome) = true := by
        cases hport : given.port with
        | some port => rfl
        | none =>
          cases hhost : given.host with
          | some host => rfl
          | none => simp [hport, hhost] at hset
      simp only [Bool.not_eq_true] at hdev
      rw [hdev, hgiven]
      rfl

theorem ofArguments_eq_ok_iff {arguments : List String} {options : Options} :
    ofArguments arguments = .ok options ↔
      ∃ given, Reading.start.read arguments = .ok given ∧ check given = .ok options :=
  bind_eq_ok_iff

variable {groups others : List Group}

/-- What groups give is told by their choices. -/
theorem holds_of_read (h : Reading.start.read (groups.flatMap Group.arguments) = .ok given) :
    Holds given (groups.map Group.choice) := by
  have hread := (@read_groups Reading.start.given given groups).mp h
  simpa using holds_start.foldlM_add hread

/-- Groups are read if their choices are valid and about different things. -/
theorem exists_read_iff :
    (∃ given, Reading.start.read (groups.flatMap Group.arguments) = .ok given) ↔
      (∀ group ∈ groups, group.choice.Valid) ∧
        (groups.map fun group => group.choice.topic).Nodup := by
  have hread (given : Given) : Reading.start.read (groups.flatMap Group.arguments) = .ok given ↔
      (groups.map Group.choice).foldlM Given.add Reading.start.given = .ok given :=
    read_groups groups
  simp only [hread, holds_start.exists_foldlM_add_iff, List.forall_mem_map, List.map_map,
    List.map_nil, List.not_mem_nil, not_false_eq_true, implies_true, and_true]
  exact Iff.rfl

/-- The order of groups does not matter. -/
theorem ofArguments_of_perm {options : Options}
    (h : ofArguments (groups.flatMap Group.arguments) = .ok options)
    (hperm : others.Perm groups) :
    ofArguments (others.flatMap Group.arguments) = .ok options := by
  obtain ⟨given, hread, hcheck⟩ := ofArguments_eq_ok_iff.mp h
  obtain ⟨hvalid, hnodup⟩ := exists_read_iff.mp ⟨given, hread⟩
  obtain ⟨other, hother⟩ := exists_read_iff.mpr
    ⟨fun group hgroup => hvalid group (hperm.mem_iff.mp hgroup),
      (hperm.map _).nodup_iff.mpr hnodup⟩
  have hsame : Holds other (groups.map Group.choice) :=
    (holds_of_read hother).congr fun choice => (hperm.map _).mem_iff
  rw [ofArguments_eq_ok_iff]
  exact ⟨other, hother, (hsame.check_eq (holds_of_read hread)).trans hcheck⟩

/-- A group cannot be repeated. -/
theorem exists_error_of_repeated {group : Group} (hgroup : group ∈ groups)
    (hperm : others.Perm (group :: groups)) :
    ∃ error, ofArguments (others.flatMap Group.arguments) = .error error := by
  cases hoptions : ofArguments (others.flatMap Group.arguments) with
  | error error => exact ⟨error, rfl⟩
  | ok options =>
    obtain ⟨given, hread, -⟩ := ofArguments_eq_ok_iff.mp hoptions
    have hnodup := (hperm.map _).nodup_iff.mp (exists_read_iff.mp ⟨given, hread⟩).2
    rw [List.map_cons, List.nodup_cons] at hnodup
    exact absurd (List.mem_map.mpr ⟨group, hgroup, rfl⟩) hnodup.1

end Flick.Options

namespace Flick

open Options

/-- Accepted arguments ask for things that go together, in any order.  They
never ask for tokens only and for a tree, and a port or a host is another
than the usual one only for a listener.  Without a `--` they fall into
groups, in one way.  The groups in any other order are accepted with the same
options, and with one of them repeated, wherever it stands, they are
refused. -/
theorem accepted_arguments {arguments : List String} {options : Options}
    (h : Options.ofArguments arguments = .ok options) :
    ¬(options.lexOnly = true ∧ (options.parseOnly = true ∨ options.json = true)) ∧
    (options.port ≠ 3000 ∨ options.host ≠ "127.0.0.1" → options.dev = true) ∧
    ("--" ∉ arguments → ∃ groups : List Group,
      groups.flatMap Group.arguments = arguments ∧
      (∀ others : List Group, others.flatMap Group.arguments = arguments → others = groups) ∧
      (∀ others : List Group, others.Perm groups →
        Options.ofArguments (others.flatMap Group.arguments) = .ok options) ∧
      ∀ group ∈ groups, ∀ others : List Group, others.Perm (group :: groups) →
        ∃ error, Options.ofArguments (others.flatMap Group.arguments) = .error error) := by
  obtain ⟨given, hread, hcheck⟩ := ofArguments_eq_ok_iff.mp h
  obtain ⟨hmodes, hlistener⟩ := coherent_of_check hcheck
  refine ⟨hmodes, hlistener, fun hseparator => ?_⟩
  obtain ⟨groups, rfl⟩ := (exists_groups_of_read hread hseparator).1 nofun
  exact ⟨groups, rfl, fun _ => eq_of_flatMap_arguments, fun _ => ofArguments_of_perm h,
    fun _ hgroup _ => exists_error_of_repeated hgroup⟩

/-- Arguments with both forms of a value, a host that is a lone dash, and a
file between them.  They are accepted from another point on as well, and not
with the host twice. -/
theorem accepted_arguments_of_listener :
    let arguments := ["--port=+080", "m.fl", "--dev", "--host", "-", "--json"]
    let options : Options := ⟨some "m.fl", false, false, true, true, 80, "-"⟩
    Options.ofArguments arguments = .ok options ∧ "--" ∉ arguments ∧
      Options.ofArguments ["--host", "-", "--json", "--port=+080", "m.fl", "--dev"] =
        .ok options ∧
      ∃ error, Options.ofArguments
        ["--host", "-", "--json", "--port=+080", "m.fl", "--dev", "--host", "-"] =
          .error error := by
  intro arguments options
  have haccepted : Options.ofArguments arguments = .ok options := by decide +kernel
  have hseparator : "--" ∉ arguments := by decide
  obtain ⟨-, -, hgroups⟩ := accepted_arguments haccepted
  obtain ⟨groups, -, hunique, hperm, hrepeat⟩ := hgroups hseparator
  let host : Group := .separate .host ⟨"-", rfl⟩
  let first : List Group := [.joined .port "+080", .file ⟨"m.fl", rfl⟩, .flag .dev]
  let second : List Group := [host, .flag .json]
  obtain rfl : first ++ second = groups := hunique _ (by decide)
  have hother : (second ++ first).Perm (first ++ second) := List.perm_append_comm
  have htwice : (second ++ first ++ [host]).Perm (host :: (first ++ second)) :=
    (List.perm_append_singleton _ _).trans (hother.cons host)
  have haround := hperm _ hother
  have hrefused := hrepeat host (by simp [second]) _ htwice
  exact ⟨haccepted, hseparator, haround, hrefused⟩

end Flick
