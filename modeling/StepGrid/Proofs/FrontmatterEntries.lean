import StepGrid.Proofs.TextLines
import StepGrid.Proofs.YamlIntegers
import StepGrid.Proofs.YamlLines
import StepGrid.Source

/-! Frontmatter reads back. A list of settings, one a line, is read if every key names a setting and
none is given twice, and then gives every setting the value it was written with, in whatever
order the lines are. -/

namespace StepGrid.Proofs.FrontmatterEntries
open Frontmatter Yaml DecimalTexts YamlScalars YamlIntegers YamlLines

section Entries

structure Key where
  initial : Char
  more : List Char
  letter : initial.isLower = true
  chars : more.all (fun char => char.isLower || char = '-') = true

namespace Key

def text (key : Key) : List Char := key.initial :: key.more

def title : Key := ⟨'t', "itle".toList, by decide, by decide⟩

end Key

/-- An integer under some key, or a quoted title. -/
inductive Entry where
  | number (key : Key) (value : Int64)
  | title (text : List Char) (printed : text.all isPrinted = true)

namespace Entry

def key : Entry → Key
  | number key _ => key
  | title _ _ => .title

/-- The text after the key: decimal digits, or a text between quotes with its own quotes doubled. -/
def shown : Entry → List Char
  | number _ value => rendered value.toInt
  | title text _ => '\'' :: (doubled text ++ ['\''])

def written (entry : Entry) : List Char := entry.key.text ++ ':' :: ' ' :: entry.shown

def name (entry : Entry) : String := String.ofList entry.key.text

/-- The value that is given. A title may be a number too. -/
def value (entry : Entry) : Value :=
  match entry with
  | number _ value => if entry.name = "title" then .text (String.ofList (rendered value.toInt)) else .integer value.toInt
  | title text _ => .text (String.ofList text)

end Entry

def written (entries : List Entry) : List Char := Text.joinLines (entries.map Entry.written)

def names : List String := ["title", "tempo", "bpm", "steps-per-bar", "velocity", "channel"]

/-- The field that a name stands for, by its first name. -/
def fieldName (name : String) : String := if name = "bpm" then "tempo" else name

/-- Every key is a name of a field, and no field is given twice. -/
structure Admitted (entries : List Entry) : Prop where
  known : ∀ entry ∈ entries, entry.name ∈ names
  once : (entries.map fun entry => fieldName entry.name).Nodup

def setting (layer : Settings.Layer) : Field → Option Value
  | .title => layer.title.map .text
  | .tempo => layer.tempo.map .integer
  | .stepsPerBar => layer.stepsPerBar.map .integer
  | .velocity => layer.velocity.map .integer
  | .channel => layer.channel.map .integer

/-- A layer has the values that some entries give, and no others. -/
def Holds (layer : Settings.Layer) (entries : List Entry) : Prop :=
  ∀ field value, setting layer field = some value ↔
    ∃ entry ∈ entries, fieldName entry.name = field.name ∧ entry.value = value

end Entries

section Lines

private theorem isWordChar_of_isLower {char : Char} (lower : char.isLower = true) : isWordChar char = true := by
  change ((((char.isUpper || char.isLower) || char.isDigit) || decide (char = '-')) || decide (char = '_')) = true
  simp [lower]

private theorem Key.isWordChar_of_mem (key : Key) : ∀ char ∈ key.initial :: key.more, isWordChar char = true := by
  refine List.forall_mem_cons.mpr ⟨isWordChar_of_isLower key.letter, fun char member => ?_⟩
  have hyphenated := List.all_eq_true.mp key.chars char member
  rw [Bool.or_eq_true, decide_eq_true_iff] at hyphenated
  rcases hyphenated with lower | rfl
  · exact isWordChar_of_isLower lower
  · decide

def Entry.leaf : Entry → Leaf
  | number _ value => .word (rendered value.toInt) (fun _ => isWordChar_of_mem_rendered) (rendered_ne_nil _)
    (rendered_ne_hyphen _)
  | title text printed => .quoted text (List.all_eq_true.mp printed)

def Entry.line (entry : Entry) : Line where
  initial := entry.key.initial
  more := entry.key.more
  chars := entry.key.isWordChar_of_mem
  letter := by
    intro hyphen
    have lower := entry.key.letter
    rw [hyphen] at lower
    cases lower
  value := entry.leaf

private theorem written_line (entry : Entry) : entry.line.written = entry.written := by
  cases entry <;> rfl

theorem written_cons (entry : Entry) (entries : List Entry) :
    written (entry :: entries) = entry.line.written ++ continued (entries.map Entry.line) := by
  induction entries generalizing entry with
  | nil => simp [written, Text.joinLines, continued, written_line]
  | cons next entries ih =>
    have joined := TextLines.joinLines_cons_cons entry.written next.written (entries.map Entry.written)
    rw [written, List.map_cons, List.map_cons, joined, ← List.map_cons, ← written, ih, ← written_line]
    simp [continued]

end Lines

section Fields

theorem ofName?_eq_some {name : List Char} {field : Field} :
    Field.ofName? name = some field ↔ fieldName (String.ofList name) = field.name := by
  have same (text : String) : name = text.toList ↔ String.ofList name = text := by
    rw [← String.toList_inj, String.toList_ofList]
  simp only [Field.ofName?, same]
  generalize String.ofList name = name
  unfold fieldName
  split_ifs <;> cases field <;> simp_all [Field.name]

theorem mem_names_iff (name : List Char) :
    String.ofList name ∈ names ↔ ∃ field, Field.ofName? name = some field := by
  simp only [ofName?_eq_some]
  generalize String.ofList name = name
  constructor
  · intro listed
    simp only [names, List.mem_cons, List.not_mem_nil, or_false] at listed
    rcases listed with rfl | rfl | rfl | rfl | rfl | rfl
    · exact ⟨.title, by decide⟩
    · exact ⟨.tempo, by decide⟩
    · exact ⟨.tempo, by decide⟩
    · exact ⟨.stepsPerBar, by decide⟩
    · exact ⟨.velocity, by decide⟩
    · exact ⟨.channel, by decide⟩
  · rintro ⟨field, named⟩
    unfold fieldName at named
    split_ifs at named with second
    · simp [names, second]
    · subst named
      cases field <;> decide

theorem Field.name_injective {first second : Field} (same : first.name = second.name) : first = second := by
  revert same
  cases first <;> cases second <;> decide

def Entry.field? (entry : Entry) : Option Field := Field.ofName? entry.key.text

/-- Entries can be read after others: their fields are known, differ, and were not given before. -/
structure Fresh (given : List Field) (entries : List Entry) : Prop where
  known : ∀ entry ∈ entries, ∃ field, entry.field? = some field
  once : (entries.map Entry.field?).Nodup
  new : ∀ field ∈ given, some field ∉ entries.map Entry.field?

theorem fresh_nil (given : List Field) : Fresh given [] := ⟨nofun, List.nodup_nil, by simp⟩

theorem fresh_cons {given : List Field} {entry : Entry} {entries : List Entry} {field : Field}
    (named : entry.field? = some field) :
    Fresh given (entry :: entries) ↔ field ∉ given ∧ Fresh (field :: given) entries := by
  have first : (∀ known ∈ given, some known ∉ some field :: entries.map Entry.field?) ↔
      field ∉ given ∧ ∀ known ∈ given, some known ∉ entries.map Entry.field? := by
    simp only [List.mem_cons, Option.some.injEq, not_or, forall_and]
    exact and_congr_left' ⟨fun other member => other field member rfl,
      fun absent known member same => absent (same ▸ member)⟩
  constructor
  · rintro ⟨known, once, new⟩
    rw [List.map_cons, named] at once new
    obtain ⟨absent, others⟩ := List.nodup_cons.mp once
    obtain ⟨notGiven, newer⟩ := first.mp new
    exact ⟨notGiven, fun other member => known other (List.mem_cons_of_mem _ member), others,
      List.forall_mem_cons.mpr ⟨absent, newer⟩⟩
  · rintro ⟨notGiven, known, once, new⟩
    obtain ⟨absent, newer⟩ := List.forall_mem_cons.mp new
    refine ⟨List.forall_mem_cons.mpr ⟨⟨field, named⟩, known⟩, ?_, ?_⟩
    · rw [List.map_cons, named]
      exact List.nodup_cons.mpr ⟨absent, once⟩
    · rw [List.map_cons, named]
      exact first.mpr ⟨notGiven, newer⟩

theorem fresh_iff_admitted (entries : List Entry) : Fresh [] entries ↔ Admitted entries := by
  have known : (∀ entry ∈ entries, ∃ field, entry.field? = some field) ↔
      ∀ entry ∈ entries, entry.name ∈ names :=
    forall₂_congr fun entry _ => (mem_names_iff entry.key.text).symm
  -- fields and their first names differ together, once every key names a field
  have once (all : ∀ entry ∈ entries, ∃ field, entry.field? = some field) :
      (entries.map Entry.field?).Nodup ↔ (entries.map fun entry => fieldName entry.name).Nodup := by
    rw [List.Nodup, List.Nodup, List.pairwise_map, List.pairwise_map]
    refine List.Pairwise.iff_of_mem fun {first second} memberFirst memberSecond => not_congr ?_
    obtain ⟨field, named⟩ := all first memberFirst
    obtain ⟨other, namedOther⟩ := all second memberSecond
    rw [named, namedOther, Entry.name, Entry.name, ofName?_eq_some.mp named, ofName?_eq_some.mp namedOther,
      Option.some.injEq]
    exact ⟨congrArg Field.name, Field.name_injective⟩
  constructor
  · rintro ⟨all, different, _⟩
    exact ⟨known.mp all, (once all).mp different⟩
  · rintro ⟨all, different⟩
    exact ⟨known.mpr all, (once (known.mpr all)).mpr different, nofun⟩

end Fields

section Reading

/-- A key names a field that was not given before. -/
theorem readKey_entry (mapping : Mark) (given : List Field) (entry : Entry) (mark : Mark) :
    readKey mapping given (.scalar ⟨entry.key.text, .plain, none, mark⟩) =
      match entry.field? with
      | none => .error (.field none (.unknownField entry.name) mark)
      | some field =>
        if field ∈ given then .error (.field none (.duplicateField field.name) mapping) else .ok field := rfl

private theorem readFields_of_ok {mapping : Mark} {given : List Field} {key value : Member} {field : Field}
    {layer later : Settings.Layer} (named : readKey mapping given key.node = .ok field)
    (set : readField field (keyText key) mapping value.node layer = .ok later) (rest : List Member) :
    readFields mapping given layer (key :: value :: rest) = readFields mapping (field :: given) later rest := by
  rw [readFields, named]
  change (readField field (keyText key) mapping value.node layer >>= _) = _
  rw [set]
  rfl

private theorem readFields_of_error {mapping : Mark} {given : List Field} {key : Member} {fault : Fault}
    (refused : readKey mapping given key.node = .error fault) (layer : Settings.Layer) (value : Member)
    (rest : List Member) :
    readFields mapping given layer (key :: value :: rest) = .error fault := by
  rw [readFields, refused]
  rfl

private theorem isUnset_leaf (entry : Entry) (mark : Mark) : isUnset (entry.leaf.scalar mark) = .ok false := by
  cases entry with
  | number key value => simp [isUnset, Entry.leaf, Leaf.scalar, Leaf.text, Leaf.style, rendered_ne_nil, isNull_rendered]
  | title text printed => rfl

private theorem readValue_leaf {α : Type} (read : Scalar → Option α) {entry : Entry} {mark : Mark} {value : α}
    (found : read (entry.leaf.scalar mark) = some value) (expected key : String) (mapping : Mark) :
    readValue read expected key mapping (.scalar (entry.leaf.scalar mark)) = .ok (some value) := by
  simp only [readValue, isUnset_leaf, found]

theorem name_eq_title_iff (entry : Entry) : entry.name = "title" ↔ entry.field? = some .title := by
  rw [Entry.field?, ofName?_eq_some, ← Entry.name, fieldName, Field.name]
  split_ifs with second
  · rw [second]
    decide
  · rfl

/-- A title is the text of its scalar, quoted or not. -/
theorem value_of_title {entry : Entry} (named : entry.field? = some .title) :
    entry.value = .text (String.ofList entry.leaf.text) := by
  cases entry with
  | number key value => exact if_pos ((name_eq_title_iff _).mpr named)
  | title text printed => rfl

private theorem value_of_number {entry : Entry} {field : Field} (named : entry.field? = some field)
    (other : field ≠ .title) :
    ∃ value, entry.value = .integer value ∧ ∀ mark, integer? (entry.leaf.scalar mark) = some value := by
  cases entry with
  | number key value =>
    have noTitle : (Entry.number key value).name ≠ "title" := fun same =>
      other (Option.some.inj (named.symm.trans ((name_eq_title_iff _).mp same)))
    exact ⟨value.toInt, if_neg noTitle, fun mark => word?_rendered value⟩
  | title text printed => exact absurd (Option.some.inj (named.symm.trans rfl)) other

/-- A field takes the value that is given for it, and the others keep theirs. -/
theorem readField_entry {entry : Entry} {field : Field} (named : entry.field? = some field) (key : String)
    (mapping mark : Mark) (layer : Settings.Layer) :
    ∃ later, readField field key mapping (.scalar (entry.leaf.scalar mark)) layer = .ok later ∧
      ∀ other, setting later other = if other = field then some entry.value else setting layer other := by
  by_cases isTitle : field = .title
  · subst isTitle
    rw [value_of_title named, readField, readValue_leaf text? rfl]
    exact ⟨_, rfl, fun other => by cases other <;> rfl⟩
  · obtain ⟨value, given, found⟩ := value_of_number named isTitle
    rw [given]
    cases field with
    | title => exact absurd rfl isTitle
    | _ =>
      rw [readField, readValue_leaf integer? (found mark)]
      exact ⟨_, rfl, fun other => by cases other <;> rfl⟩

/-- The order of the entries makes no difference. -/
theorem Holds.congr {layer : Settings.Layer} {first second : List Entry} (holds : Holds layer first)
    (same : ∀ entry, entry ∈ first ↔ entry ∈ second) : Holds layer second := by
  intro field value
  rw [holds field value]
  simp only [same]

theorem holds_nil : Holds {} [] := by
  intro field value
  cases field <;> simp [setting]

theorem holds_cons {layer later : Settings.Layer} {entry : Entry} {done : List Entry} {field : Field}
    (holds : Holds layer done) (named : entry.field? = some field) (new : ∀ known ∈ done, known.field? ≠ some field)
    (set : ∀ other, setting later other = if other = field then some entry.value else setting layer other) :
    Holds later (entry :: done) := by
  intro other value
  have first : fieldName entry.name = field.name := ofName?_eq_some.mp named
  rw [set]
  split
  next same =>
    subst same
    have alone : ¬ ∃ known ∈ done, fieldName known.name = other.name ∧ known.value = value :=
      fun ⟨known, member, second, _⟩ => new known member (ofName?_eq_some.mpr second)
    simp [first, alone]
  next different =>
    have apart : fieldName entry.name ≠ other.name :=
      fun same => different (Field.name_injective (same.symm.trans first))
    simp [holds other value, apart]

/-- Reading goes on from a layer that holds what was given so far. -/
theorem readFields_members (entries : List Entry) {members : List Member}
    (shape : Members (entries.map Entry.line) members) (mapping : Mark) {done : List Entry} {given : List Field}
    {layer : Settings.Layer} (holds : Holds layer done)
    (fields : ∀ field, field ∈ given ↔ ∃ entry ∈ done, entry.field? = some field) :
    (Fresh given entries →
      ∃ later, readFields mapping given layer members = .ok later ∧ Holds later (entries.reverse ++ done)) ∧
    (¬ Fresh given entries → ∃ fault, readFields mapping given layer members = .error fault) := by
  induction entries generalizing members done given layer with
  | nil =>
    cases shape
    exact ⟨fun _ => ⟨layer, rfl, holds⟩, fun refused => absurd (fresh_nil given) refused⟩
  | cons entry entries ih =>
    rw [List.map_cons] at shape
    cases shape with
    | cons _ key value others =>
      have read := readKey_entry mapping given entry key
      cases named : entry.field? with
      | none =>
        rw [named] at read
        refine ⟨fun fresh => ?_, fun _ => ⟨_, readFields_of_error read _ _ _⟩⟩
        obtain ⟨field, known⟩ := fresh.known entry List.mem_cons_self
        cases named.symm.trans known
      | some field =>
        rw [named] at read
        dsimp only at read
        rw [fresh_cons named]
        by_cases twice : field ∈ given
        · rw [if_pos twice] at read
          exact ⟨fun fresh => absurd twice fresh.1, fun _ => ⟨_, readFields_of_error read _ _ _⟩⟩
        · rw [if_neg twice] at read
          obtain ⟨later, set, settings⟩ := readField_entry named (String.ofList entry.key.text) mapping value layer
          have new : ∀ known ∈ done, known.field? ≠ some field := fun known member same =>
            twice ((fields field).mpr ⟨known, member, same⟩)
          have more (other : Field) : other ∈ field :: given ↔ ∃ known ∈ entry :: done, known.field? = some other := by
            simp [fields, named, eq_comm]
          rw [readFields_of_ok read set]
          simpa [twice] using ih others (holds_cons holds named new settings) more

end Reading

section Texts

/-- The names of fields are short. -/
theorem isShort_of_admitted {entries : List Entry} (admitted : Admitted entries) :
    (entries.map Entry.line).all Line.isShort = true := by
  have short : ∀ name ∈ names, name.length ≤ longestKey := by decide
  rw [List.all_map, List.all_eq_true]
  intro entry member
  have named := short entry.name (admitted.known entry member)
  rw [Entry.name, String.length_ofList] at named
  exact decide_eq_true named

private theorem toNat_of_isLower {char : Char} (lower : char.isLower = true) :
    97 ≤ char.toNat ∧ char.toNat ≤ 122 := by
  change (decide ('a'.val ≤ char.val) && decide (char.val ≤ 'z'.val)) = true at lower
  rw [Bool.and_eq_true, decide_eq_true_iff, decide_eq_true_iff] at lower
  exact lower

/-- A text of entries starts with a letter. -/
theorem not_all_isBlank (entry : Entry) (entries : List Entry) :
    (written (entry :: entries)).all Text.isBlank = false := by
  have visible : Text.isBlank entry.key.initial = false := by
    obtain ⟨low, high⟩ := toNat_of_isLower entry.key.letter
    simp only [Text.isBlank, Bool.or_eq_false_iff, Bool.and_eq_false_iff, decide_eq_false_iff_not, beq_eq_false_iff_ne]
    omega
  rw [written_cons]
  change (Text.isBlank entry.key.initial && _) = false
  rw [visible, Bool.false_and]

private theorem read_written (entry : Entry) (entries : List Entry) :
    Frontmatter.read (written (entry :: entries)) =
      match readMembers (document (written (entry :: entries))).members with
      | .error fault => .error fault
      | .ok layer => if (document (written (entry :: entries))).complete then .ok layer else .error .malformed := by
  rw [Frontmatter.read]
  exact if_neg (by simp [not_all_isBlank])

/-- A list of entries is read, and holds what they give, just when it is admitted; else the frontmatter is faulty. -/
theorem readSettings_written (entries : List Entry) :
    (Admitted entries → ∃ layer, Source.readSettings (written entries) = .ok layer ∧ Holds layer entries) ∧
    (¬ Admitted entries → ∃ fault, Source.readSettings (written entries) = .error (.metadata fault)) := by
  cases entries with
  | nil => exact ⟨fun _ => ⟨{}, rfl, holds_nil⟩, fun refused => absurd ⟨nofun, List.nodup_nil⟩ refused⟩
  | cons entry entries =>
    obtain ⟨complete, known⟩ := document_written entry.line (entries.map Entry.line)
    rw [← written_cons, ← List.map_cons] at complete known
    rw [Source.readSettings, read_written]
    cases short : ((entry :: entries).map Entry.line).all Line.isShort with
    | true =>
      obtain ⟨mark, members, shape, found⟩ := known short
      have read : readMembers (document (written (entry :: entries))).members = readFields mark [] {} members := by
        rw [found]
        rfl
      rw [read, complete, short, ← fresh_iff_admitted]
      have none (field : Field) : field ∈ [] ↔ ∃ entry ∈ ([] : List Entry), entry.field? = some field := by simp
      obtain ⟨accepted, refused⟩ := readFields_members (entry :: entries) shape mark holds_nil none
      constructor
      · intro fresh
        obtain ⟨layer, fields, holds⟩ := accepted fresh
        exact ⟨layer, by rw [fields]; rfl, holds.congr (by simp [or_comm])⟩
      · intro faulty
        obtain ⟨fault, fields⟩ := refused faulty
        exact ⟨fault, by rw [fields]; rfl⟩
    | false =>
      refine ⟨fun admitted => ?_, fun _ => ?_⟩
      · cases short.symm.trans (isShort_of_admitted admitted)
      · rw [complete, short]
        cases readMembers (document (written (entry :: entries))).members with
        | error fault => exact ⟨fault, rfl⟩
        | ok layer => exact ⟨.malformed, rfl⟩

def bpm : Key := ⟨'b', "pm".toList, by decide, by decide⟩

def tempo : Key := ⟨'t', "empo".toList, by decide, by decide⟩

def signed : List Entry := [.number bpm 90, .title "it's: #1 ".toList (by decide)]

theorem readSettings_written_signed :
    written signed = "bpm: 90\ntitle: 'it''s: #1 '".toList ∧
    (∃ layer, Source.readSettings (written signed) = .ok layer ∧ layer.tempo = some 90 ∧
      layer.title = some "it's: #1 " ∧ layer.velocity = none) ∧
    ∃ fault, Source.readSettings (written [.number bpm 90, .number tempo 90]) = .error (.metadata fault) := by
  refine ⟨by cbv, ?_, ?_⟩
  · obtain ⟨layer, read, holds⟩ := (readSettings_written signed).1 ⟨by decide, by decide⟩
    have tempo : layer.tempo.map Value.integer = some (.integer 90) :=
      (holds .tempo _).mpr ⟨.number bpm 90, List.mem_cons_self, by decide, by decide⟩
    have title : layer.title.map Value.text = some (.text "it's: #1 ") :=
      (holds .title _).mpr ⟨.title _ _, List.mem_cons_of_mem _ List.mem_cons_self, by decide, by decide⟩
    have velocity : layer.velocity = none := by
      have unnamed : ∀ entry ∈ signed, fieldName entry.name ≠ Field.velocity.name := by decide
      refine Option.eq_none_iff_forall_ne_some.mpr fun value found => ?_
      obtain ⟨entry, member, named, _⟩ :=
        (holds .velocity (.integer value)).mp (congrArg (Option.map Value.integer) found)
      exact unnamed entry member named
    exact ⟨layer, read, by simpa using tempo, by simpa using title, velocity⟩
  · exact (readSettings_written _).2 fun admitted => absurd admitted.once (by decide)

end Texts

end StepGrid.Proofs.FrontmatterEntries
