import QueryTree.Proofs.Session.Readers

/-! What a cell is once it was read as a type.

A read gives a value of the form its type calls for, and nothing changes when that value is read again. It is null just
in case the cell was. An integer is read as an integer without loss or not at all, and as a boolean by whether it is zero.
-/

set_option autoImplicit false

namespace QueryTree

/-- Any value that is not null is of such a type. -/
def DataType.isOpen : DataType → Bool
  | .unknown | .entity _ | .tuple _ | .sequence _ => true
  | _ => false

namespace Value

/-- Has the form that a type calls for, which is not nullable. -/
def suits (type : DataType) (value : Value) : Bool :=
  match type, value with
  | .boolean, .bool _ | .int32, .int32 _ | .int64, .int64 _ | .double, .double _ | .decimal, .decimal _
  | .text, .text _ | .enumeration _, .text _ | .dateTime, .dateTime _ | .guid, .guid _ | .binary, .binary _ => true
  | type, _ => type.isOpen

variable {type : DataType} {value read : Value} {n : Int64}

theorem suits_null : Value.null.suits type = type.isOpen := by cases type <;> rfl

theorem isNull_iff : value.isNull = true ↔ value = .null := by cases value <;> simp [isNull]

/-! ### Conversion -/

theorem convert_open (isOpen : type.isOpen = true) : value.convert? type = some value := by
  cases type with
  | unknown | entity | tuple | sequence => rfl
  | _ => cases isOpen

theorem convert_suited (suits : value.suits type = true) : value.convert? type = some value := by
  cases type with
  | unknown | entity | tuple | sequence => rfl
  | void | nullable => cases value <;> cases suits
  | _ => cases value <;> first | rfl | cases suits

theorem convert_suits (converted : value.convert? type = some read) : read.suits type = true := by
  cases type with
  | unknown | entity | tuple | sequence => cases read <;> rfl
  | int32 =>
    cases value with
    | int32 n => cases converted; rfl
    | int64 n =>
      obtain ⟨-, ⟨⟩⟩ := Option.ite_none_right_eq_some.mp converted
      rfl
    | _ => cases converted
  | double =>
    -- A decimal is read as one only if its text is a number.
    cases value with
    | double | int32 | int64 | decimal =>
      simp only [convert?, Option.map_eq_some_iff] at converted
      obtain ⟨d, -, rfl⟩ := converted
      rfl
    | _ => cases converted
  | _ => cases value <;> cases converted <;> rfl

theorem convert_notNull (converted : value.convert? type = some read) (given : value ≠ .null) : read ≠ .null := by
  rintro rfl
  -- Only an open type lets null through, and it lets everything through unchanged.
  have isOpen : type.isOpen = true := by
    rw [← suits_null]
    exact convert_suits converted
  rw [convert_open isOpen] at converted
  exact given (Option.some.inj converted)

/-! ### Reading -/

theorem readAs_null : Value.null.readAs type = .ok read ↔ type.refusesNull = false ∧ read = .null := by
  change (if type.refusesNull then _ else Except.ok Value.null) = Except.ok read ↔ _
  cases type.refusesNull <;> simp [eq_comm]

theorem readAs_given (given : value ≠ .null) :
    value.readAs type = .ok read ↔ value.convert? type.underlying = some read := by
  unfold readAs
  rw [if_neg (mt isNull_iff.mp given)]
  cases value.convert? type.underlying <;> simp

/-- What becomes of a cell that is read. -/
structure Conforms (type : DataType) (value read : Value) : Prop where
  null : read = .null ↔ value = .null
  allowed : read = .null → type.refusesNull = false
  form : read ≠ .null → read.suits type.underlying = true
  kept : type.underlying.isOpen = true → read = value
  again : read.readAs type = .ok read

theorem conforms_null (allowed : type.refusesNull = false) : Conforms type .null .null where
  null := Iff.rfl
  allowed _ := allowed
  form given := absurd rfl given
  kept _ := rfl
  again := readAs_null.mpr ⟨allowed, rfl⟩

theorem conforms_converted (given : value ≠ .null) (converted : value.convert? type.underlying = some read) :
    Conforms type value read := by
  have notNull : read ≠ .null := convert_notNull converted given
  have suits : read.suits type.underlying = true := convert_suits converted
  constructor
  case null => exact iff_of_false notNull given
  case allowed => exact fun null => absurd null notNull
  case form => exact fun _ => suits
  case kept =>
    intro isOpen
    rw [convert_open isOpen] at converted
    exact (Option.some.inj converted).symm
  case again => exact (readAs_given notNull).mpr (convert_suited suits)

theorem conforms_ofRead (ok : value.readAs type = .ok read) : Conforms type value read := by
  by_cases given : value = .null
  · subst given
    obtain ⟨allowed, rfl⟩ := readAs_null.mp ok
    exact conforms_null allowed
  · exact conforms_converted given ((readAs_given given).mp ok)

/-! ### Integers -/

theorem narrowed_iff : n.toInt32.toInt64 = n ↔ fitsInt32 n.toInt = true := by
  rw [← Int64.toInt_inj, Int32.toInt_toInt64, Int64.toInt_toInt32, Int.bmod_def, fitsInt32]
  simp only [Bool.and_eq_true, decide_eq_true_eq]
  split <;> omega

theorem fits_widened (m : Int32) : fitsInt32 m.toInt64.toInt = true := by
  have least := m.le_toInt
  have greatest := m.toInt_lt
  rw [Int32.toInt_toInt64, fitsInt32]
  simp only [Bool.and_eq_true, decide_eq_true_eq]
  omega

theorem convert_boolean (integer : value.integer? = some n) : value.convert? .boolean = some (.bool (n ≠ 0)) := by
  cases value with
  | int32 m =>
    cases integer
    simp only [convert?, ne_eq, Option.some.injEq, bool.injEq, decide_eq_decide]
    rw [← Int32.toInt_inj, ← Int64.toInt_inj, Int32.toInt_toInt64]
    rfl
  | int64 => cases integer; rfl
  | _ => cases integer

theorem convert_int64 (integer : value.integer? = some n) : value.convert? .int64 = some (.int64 n) := by
  cases value with
  | int32 | int64 => cases integer; rfl
  | _ => cases integer

theorem convert_int32 (integer : value.integer? = some n) :
    value.convert? .int32 = if fitsInt32 n.toInt then some (.int32 n.toInt32) else none := by
  cases value with
  | int32 m =>
    cases integer
    rw [if_pos (fits_widened m), Int32.toInt32_toInt64]
    rfl
  | int64 =>
    cases integer
    simp only [convert?, narrowed_iff]
  | _ => cases integer

/-- How an integer is read: as a boolean by whether it is zero, as an integer of another width if it fits there. -/
structure Exact (type : DataType) (value : Value) (n : Int64) : Prop where
  bit : type.underlying = .boolean → value.readAs type = .ok (.bool (n ≠ 0))
  wide : type.underlying = .int64 → value.readAs type = .ok (.int64 n)
  fits : type.underlying = .int32 → ((∃ read, value.readAs type = .ok read) ↔ fitsInt32 n.toInt = true)
  narrow : type.underlying = .int32 →
    ∀ read, value.readAs type = .ok read → read = .int32 n.toInt32 ∧ read.integer? = some n

theorem exact_ofInteger (integer : value.integer? = some n) : Exact type value n := by
  have given : value ≠ .null := by rintro rfl; cases integer
  constructor
  case bit =>
    intro underlying
    apply (readAs_given given).mpr
    rw [underlying]
    exact convert_boolean integer
  case wide =>
    intro underlying
    apply (readAs_given given).mpr
    rw [underlying]
    exact convert_int64 integer
  case fits =>
    intro underlying
    simp only [readAs_given given, underlying, convert_int32 integer]
    cases fitsInt32 n.toInt <;> simp
  case narrow =>
    intro underlying read ok
    rw [readAs_given given, underlying, convert_int32 integer] at ok
    obtain ⟨fits, ⟨⟩⟩ := Option.ite_none_right_eq_some.mp ok
    exact ⟨rfl, congrArg some (narrowed_iff.mpr fits)⟩

/-- A cell that can be read gives a value of the type, which reads as itself; an integer is read exactly. -/
theorem readAs_conforms (type : DataType) (value : Value) :
    (∀ read, value.readAs type = .ok read → Conforms type value read) ∧
      ∀ n, value.integer? = some n → Exact type value n :=
  ⟨fun _ => conforms_ofRead, fun _ => exact_ofInteger⟩

end Value

theorem Provider.scalar_typed {σ : Type} {p : Provider σ} {q : BoundQuery} {s : Session σ} {read : Value}
    (typed : q.elementType ≠ .void) (ok : (p.scalar q s).1 = .ok read) : read.readAs q.elementType = .ok read := by
  rw [scalar, bind_run] at ok
  split at ok
  next prepared t _ =>
    rw [bind_run] at ok
    split at ok
    next value u _ =>
      generalize q.elementType = type at typed ok ⊢
      cases type with
      | void => exact absurd rfl typed
      | unknown | entity | tuple | sequence => cases read <;> rfl
      | _ => exact (Value.conforms_ofRead ok).again
    next => cases ok
  next => cases ok

end QueryTree
