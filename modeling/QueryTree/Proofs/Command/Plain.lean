import QueryTree.Command.Statement

/-! Texts that hold no parameter markers.

A marker is a sign with the letters and digits behind it. A text without signs holds no marker, and if it does
not begin with a letter or a digit it may stand right behind one and the marker still ends where it ended. The
strings that a layer puts into the text of a command are listed by `words`.
-/

set_option autoImplicit false

namespace QueryTree

/-- Begins a marker. -/
def isSign (c : Char) : Bool := c == '?' || c == '$' || c == '@'

/-- Belongs to the marker before it. -/
def isWord (c : Char) : Bool := c.isAlphanum || c == '_'

theorem not_word_of_sign {c : Char} (sign : isSign c = true) : isWord c = false := by
  simp only [isSign, Bool.or_eq_true, beq_iff_eq] at sign
  rcases sign with (rfl | rfl) | rfl <;> rfl

def Plain (s : String) : Prop := ∀ c ∈ s.toList, isSign c = false

/-- Ends a marker that stands before it. -/
def Opens (s : String) : Prop := ∀ c ∈ s.toList.head?, isWord c = false

theorem Plain.append {s t : String} (first : Plain s) (second : Plain t) : Plain (s ++ t) := by
  intro c member
  rw [String.toList_append] at member
  rcases List.mem_append.mp member with member | member
  · exact first c member
  · exact second c member

theorem Opens.append {s t : String} (first : Opens s) (second : Opens t) : Opens (s ++ t) := by
  intro c member
  rw [String.toList_append] at member
  cases h : s.toList with
  | nil =>
    rw [h] at member
    exact second c member
  | cons head rest =>
    rw [h] at member
    exact first c (by simpa [h] using member)

/-- A text that is not empty decides how what begins with it begins. -/
theorem Opens.before {s : String} (first : Opens s) (full : s ≠ "") (t : String) : Opens (s ++ t) := by
  intro c member
  rw [String.toList_append] at member
  cases h : s.toList with
  | nil => exact absurd (String.toList_eq_nil_iff.mp h) full
  | cons head rest =>
    rw [h] at member
    exact first c (by simpa [h] using member)

theorem plain_ofList {chars : List Char} (signless : ∀ c ∈ chars, isSign c = false) : Plain (String.ofList chars) := by
  intro c member
  rw [String.toList_ofList] at member
  exact signless c member

theorem plain_text (chars : List Char) (signless : (chars.all fun c => !isSign c) = true) :
    Plain (String.ofList chars) := by
  refine plain_ofList fun c member => ?_
  simpa using List.all_eq_true.mp signless c member

theorem opens_text (c : Char) (rest : List Char) (notWord : isWord c = false) : Opens (String.ofList (c :: rest)) := by
  intro d member
  rw [String.toList_ofList] at member
  obtain rfl := Option.some.inj member
  exact notWord

/-- What passes from texts to their concatenation passes to texts with separators between. -/
theorem intercalate_of {P : String → Prop} (empty : P "") (append : ∀ {s t}, P s → P t → P (s ++ t))
    {separator : String} (between : P separator) :
    ∀ {texts : List String}, (∀ s ∈ texts, P s) → P (separator.intercalate texts)
  | [], _ => by rwa [String.intercalate_nil]
  | [s], each => by
    rw [String.intercalate_singleton]
    exact each s (by simp)
  | s :: t :: rest, each => by
    have later := intercalate_of empty append between fun u (member : u ∈ t :: rest) => each u (by simp [member])
    rw [String.intercalate_cons_cons]
    exact append (append (each s (by simp)) between) later

/-! ### The strings of a layer -/

/-- The name of an enumeration may be the name of its type. -/
def DataType.words (type : DataType) : List String :=
  match type.underlying with
  | .enumeration name => [name]
  | _ => []

def Value.words : Value → List String
  | .decimal s | .text s | .guid s => [s]
  | _ => []

def Routine.words : Routine → List String
  | .custom name => [name]
  | _ => []

def ConstraintKind.words {α : Type} : ConstraintKind α → List String
  | .primaryKey columns _ | .unique columns => columns
  | .foreignKey key => key.columns ++ key.referencedTable :: key.referencedColumns
  | .notNull | .autoIncrement | .default _ => []

namespace Shape

variable {α β : Type}

/-- Names, literals and other texts of a layer that its command may hold. -/
def words : Shape α → List String
  | .table name label _ => [name, label]
  | .select q => q.label :: q.columns.map (·.name)
  | .column c => [c.label, c.name]
  | .call routine _ type => routine.words ++ type.words
  | .constant value _ => value.words
  | .insert i => i.table :: (i.columns ++ i.returning)
  | .update u => u.table :: u.assignments.map (·.name)
  | .delete owner label _ => owner :: label.toList
  | .createTable t => [t.table]
  | .alterTable owner _ => [owner]
  | .columnDefinition name type _ => name :: type.words
  | .constraint name kind => name.toList ++ kind.words
  | .createIndex i => i.name :: i.table :: i.columns.map (·.name)
  | .enumDefinition name labels => name :: labels
  | .setCommand name _ => [name]
  | _ => []

@[simp] theorem words_map (f : α → β) (s : Shape α) : (s.map f).words = s.words := by
  cases s with
  | constraint name kind => cases kind <;> rfl
  | select q => simp only [words, map, Select.map, List.map_map, Function.comp_def, Binding.map]
  | update u => simp only [words, map, Update.map, List.map_map, Function.comp_def, Binding.map]
  | _ => rfl

end Shape

namespace Node

theorem text_mem_words {n : Node} {s : String} (found : n.constant? = some (.text s)) : s ∈ n.shape.words := by
  obtain ⟨t⟩ := n
  cases t with
  | constant value type =>
    obtain rfl : value = .text s := Option.some.inj found
    exact List.mem_singleton.mpr rfl
  | _ => cases found

theorem name_mem_words {n : Node} {name : String} (found : Dialect.constraintName? n = some name) :
    name ∈ n.shape.words := by
  obtain ⟨t⟩ := n
  cases t with
  | constraint given kind =>
    obtain rfl : given = some name := found
    exact List.mem_append_left _ (List.mem_singleton.mpr rfl)
  | _ => cases found

end Node

namespace Dialect

/-- A dialect writes clean texts for clean strings. -/
structure Writes (clean opens : String → Prop) (d : Dialect) : Prop where
  ident : ∀ {name}, clean name → clean (d.quoteIdent name)
  string : ∀ {s}, clean s → clean (d.quoteString s)
  literal : ∀ {value text}, (∀ s ∈ value.words, clean s) → d.literal value = .ok text → clean text
  typeName : ∀ {type name}, (∀ s ∈ type.words, clean s) → d.typeName type = .ok name → clean name
  routine : ∀ {routine s}, (∀ t ∈ routine.words, clean t) → d.routine routine = some s →
    clean s.name ∧ clean s.opening ∧ clean s.closing ∧ opens s.closing
  aggregate : ∀ kind, clean (d.aggregate kind)
  joinKeyword : ∀ {kind words}, d.joinKeyword kind = some words → clean words
  unboundedLimit : ∀ {words}, d.unboundedLimit = some words → clean words
  forUpdate : ∀ {words}, d.forUpdate = some words → clean words
  autoIncrement : clean d.autoIncrement
  tableGuard : ∀ {owner words}, clean owner → d.tableGuard owner = some words → clean words
  indexGuard : ∀ {owner index words}, clean owner → clean index → d.indexGuard owner index = some words →
    clean words
  deleteFrom : ∀ {owner label}, clean owner → (∀ l ∈ label, clean l) → clean (d.deleteFrom owner label)

theorem Writes.of_all {clean opens : String → Prop} (all : ∀ s, clean s) (every : ∀ s, opens s) (d : Dialect) :
    d.Writes clean opens :=
  ⟨fun _ => all _, fun _ => all _, fun _ _ => all _, fun _ _ => all _, fun _ _ => ⟨all _, all _, all _, every _⟩,
    fun _ => all _, fun _ => all _, fun _ => all _, fun _ => all _, all _, fun _ _ => all _, fun _ _ _ => all _,
    fun _ _ => all _⟩

end Dialect

end QueryTree
