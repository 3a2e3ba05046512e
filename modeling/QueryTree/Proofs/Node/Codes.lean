import QueryTree.Node.Hash

/-! What the parts of a tree give to a hasher tells them apart.

What is written of one thing is never the beginning of what is written of another of its sort: a text ends with a byte
that no text has, a list says how long it is, and each form says which it is. So what was written can be read off again
without looking beyond its end.
-/

set_option autoImplicit false

namespace QueryTree

/-- Where the writes of two things begin in the same way, the things are the same, and so is what is behind them. -/
def Apart {α : Type} (writes : α → List Write) : Prop :=
  ∀ a b r s, writes a ++ r = writes b ++ s → a = b ∧ r = s

/-- A way to write that keeps things apart. -/
structure Coding (α : Type) where
  writes : α → List Write
  apart : Apart writes

namespace Write

variable {α : Type} {writes : α → List Write}

theorem single_apart {write : α → Write} (injective : ∀ a b, write a = write b → a = b) :
    Apart fun a => [write a] := by
  intro a b r s same
  injection same with first rest
  exact ⟨injective a b first, rest⟩

theorem form_apart {index : α → Nat} {ofIndex : Nat → α} (inverse : ∀ a, ofIndex (index a) = a) :
    Apart fun a => [Write.form (index a)] :=
  single_apart fun a b same => by
    injection same with same
    rw [← inverse a, same, inverse b]

theorem bool_apart : Apart fun b => [Write.bool b] :=
  single_apart fun a b same => by cases a <;> cases b <;> first | rfl | cases same

theorem text_apart : Apart Write.text := by
  intro a b r s same
  injection same with first rest
  injection rest with _ rest
  injection first with bytes
  exact ⟨String.toByteArray_inj.mp (ByteArray.ext (Array.ext' bytes)), rest⟩

theorem flatMap_apart (apart : Apart writes) : ∀ {as bs : List α} {r s : List Write}, as.length = bs.length →
    as.flatMap writes ++ r = bs.flatMap writes ++ s → as = bs ∧ r = s
  | [], [], _, _, _, same => ⟨rfl, same⟩
  | a :: as, b :: bs, r, s, lengths, same => by
    rw [List.flatMap_cons, List.flatMap_cons, List.append_assoc, List.append_assoc] at same
    obtain ⟨rfl, others⟩ := apart a b _ _ same
    obtain ⟨rfl, rest⟩ := flatMap_apart apart (Nat.succ.inj lengths) others
    exact ⟨rfl, rest⟩

theorem list_apart (apart : Apart writes) : Apart (Write.list writes) := by
  intro as bs r s same
  injection same with lengths same
  injection lengths with lengths
  exact flatMap_apart apart lengths same

theorem option_apart (apart : Apart writes) : Apart (Write.option writes) := by
  intro a b r s same
  cases a with
  | none =>
    cases b with
    | none =>
      injection same with _ rest
      exact ⟨rfl, rest⟩
    | some b => simp [Write.option] at same
  | some a =>
    cases b with
    | none => simp [Write.option] at same
    | some b =>
      injection same with _ same
      obtain ⟨rfl, rest⟩ := apart a b _ _ same
      exact ⟨rfl, rest⟩

end Write

def Moment.coding : Coding Moment where
  writes m :=
    [.size m.year.toNat, .size (-m.year).toNat, .size m.month, .size m.day, .size m.hour, .size m.minute,
      .size m.second, .size m.nano]
  apart a b r s same := by
    simp only [List.cons_append, List.nil_append, List.cons.injEq, Write.size.injEq] at same
    obtain ⟨after, before, month, day, hour, minute, second, nano, rest⟩ := same
    have year : a.year = b.year := by omega
    obtain ⟨⟩ := a
    obtain ⟨⟩ := b
    exact ⟨by simp_all, rest⟩

namespace DataType

mutual

theorem writes_apart : ∀ (a b : DataType) (r s : List Write), a.writes ++ r = b.writes ++ s → a = b ∧ r = s
  | .enumeration name, b, r, s, same => by
    cases b with
    | enumeration name' =>
      injection same with _ same
      obtain ⟨rfl, rest⟩ := Write.text_apart _ _ _ _ same
      exact ⟨rfl, rest⟩
    | _ => simp [writes, DataType.ctorIdx] at same
  | .entity name, b, r, s, same => by
    cases b with
    | entity name' =>
      injection same with _ same
      obtain ⟨rfl, rest⟩ := Write.text_apart _ _ _ _ same
      exact ⟨rfl, rest⟩
    | _ => simp [writes, DataType.ctorIdx] at same
  | .tuple items, b, r, s, same => by
    cases b with
    | tuple items' =>
      injection same with _ same
      injection same with lengths same
      injection lengths with lengths
      obtain ⟨rfl, rest⟩ := writesAll_apart items items' _ _ lengths same
      exact ⟨rfl, rest⟩
    | _ => simp [writes, DataType.ctorIdx] at same
  | .sequence item, b, r, s, same => by
    cases b with
    | sequence item' =>
      injection same with _ same
      obtain ⟨rfl, rest⟩ := writes_apart item item' _ _ same
      exact ⟨rfl, rest⟩
    | _ => simp [writes, DataType.ctorIdx] at same
  | .nullable item, b, r, s, same => by
    cases b with
    | nullable item' =>
      injection same with _ same
      obtain ⟨rfl, rest⟩ := writes_apart item item' _ _ same
      exact ⟨rfl, rest⟩
    | _ => simp [writes, DataType.ctorIdx] at same
  | .void, b, r, s, same | .boolean, b, r, s, same | .int32, b, r, s, same | .int64, b, r, s, same
  | .double, b, r, s, same | .decimal, b, r, s, same | .text, b, r, s, same | .dateTime, b, r, s, same
  | .guid, b, r, s, same | .binary, b, r, s, same | .unknown, b, r, s, same => by
    -- Only equal types begin with the same code.
    cases b <;> simp [writes, DataType.ctorIdx] at same ⊢
    exact same

theorem writesAll_apart : ∀ (as bs : List DataType) (r s : List Write), as.length = bs.length →
    writesAll as ++ r = writesAll bs ++ s → as = bs ∧ r = s
  | [], [], _, _, _, same => ⟨rfl, same⟩
  | a :: as, b :: bs, r, s, lengths, same => by
    rw [writesAll, writesAll, List.append_assoc, List.append_assoc] at same
    obtain ⟨rfl, others⟩ := writes_apart a b _ _ same
    obtain ⟨rfl, rest⟩ := writesAll_apart as bs r s (Nat.succ.inj lengths) others
    exact ⟨rfl, rest⟩

end

end DataType

namespace Value

variable (moments : Coding Moment)

mutual

theorem writes_apart : ∀ (a b : Value) (r s : List Write),
    a.writes moments.writes ++ r = b.writes moments.writes ++ s → a = b ∧ r = s
  | .null, b, r, s, same => by
    cases b <;> simp [writes] at same ⊢
    exact same
  | .bool x, b, r, s, same => by
    cases b with
    | bool y =>
      injection same with _ same
      obtain ⟨rfl, rest⟩ := Write.bool_apart x y r s same
      exact ⟨rfl, rest⟩
    | _ => simp [writes] at same
  | .int32 x, b, r, s, same | .int64 x, b, r, s, same => by
    cases b <;> simp [writes] at same ⊢
    exact same
  | .double x, b, r, s, same => by
    cases b with
    | double y =>
      injection same with _ same
      injection same with bits rest
      injection bits with bits
      obtain rfl : x = y := congrArg Double.mk bits
      exact ⟨rfl, rest⟩
    | _ => simp [writes] at same
  | .decimal x, b, r, s, same | .text x, b, r, s, same | .guid x, b, r, s, same => by
    cases b <;> simp [writes] at same ⊢
    exact Write.text_apart _ _ _ _ same
  | .dateTime x, b, r, s, same => by
    cases b <;> simp [writes] at same ⊢
    exact moments.apart _ _ _ _ same
  | .binary x, b, r, s, same => by
    cases b <;> simp [writes] at same ⊢
    exact same.2
  | .list items, b, r, s, same => by
    cases b with
    | list items' =>
      injection same with _ same
      injection same with lengths same
      injection lengths with lengths
      obtain ⟨rfl, rest⟩ := writesAll_apart items items' _ _ lengths same
      exact ⟨rfl, rest⟩
    | _ => simp [writes] at same

theorem writesAll_apart : ∀ (as bs : List Value) (r s : List Write), as.length = bs.length →
    writesAll moments.writes as ++ r = writesAll moments.writes bs ++ s → as = bs ∧ r = s
  | [], [], _, _, _, same => ⟨rfl, same⟩
  | a :: as, b :: bs, r, s, lengths, same => by
    rw [writesAll, writesAll, List.append_assoc, List.append_assoc] at same
    obtain ⟨rfl, others⟩ := writes_apart a b _ _ same
    obtain ⟨rfl, rest⟩ := writesAll_apart as bs r s (Nat.succ.inj lengths) others
    exact ⟨rfl, rest⟩

end

end Value

/-- The routine of a form, which has a name only if it is the last one. -/
def Routine.ofForm (index : Nat) (name : String) : Routine :=
  [.concat, .coalesce, .upper, .lower, .trim, .length, .substring, .startsWith, .endsWith, .containsString, .like, .isIn,
    .abs, .round, .now, .year, .month, .day, .rowNumber, .cast].getD index (.custom name)

theorem Routine.ofForm_ctorIdx (a : Routine) : ∃ name, Routine.ofForm a.ctorIdx name = a := by
  cases a with
  | custom name => exact ⟨name, rfl⟩
  | _ => exact ⟨"", rfl⟩

theorem Routine.writes_apart : Apart Routine.writes := by
  intro a b r s same
  have index : a.ctorIdx = b.ctorIdx := by
    have head : Write.form a.ctorIdx = Write.form b.ctorIdx := by
      have first (a : Routine) (rest : List Write) : (a.writes ++ rest).head? = some (.form a.ctorIdx) := by
        cases a <;> rfl
      have heads := congrArg List.head? same
      rw [first, first] at heads
      exact Option.some.inj heads
    injection head
  obtain ⟨name, spelled⟩ := b.ofForm_ctorIdx
  rw [← index] at spelled
  cases a with
  | custom name' =>
    obtain rfl : Routine.custom name = b := spelled
    injection same with _ same
    obtain ⟨rfl, rest⟩ := Write.text_apart _ _ _ _ same
    exact ⟨rfl, rest⟩
  | _ =>
    subst spelled
    injection same with _ rest
    exact ⟨rfl, rest⟩

theorem IndexedColumn.writes_apart : Apart IndexedColumn.writes := by
  intro a b r s same
  obtain ⟨name, descending⟩ := a
  obtain ⟨name', descending'⟩ := b
  unfold writes at same
  rw [List.append_assoc, List.append_assoc] at same
  obtain ⟨rfl, same⟩ := Write.text_apart _ _ _ _ same
  obtain ⟨rfl, rest⟩ := Write.bool_apart _ _ _ _ same
  exact ⟨rfl, rest⟩

namespace Mark

variable (moments : Coding Moment)

theorem writes_apart {a b : Mark} {r s : List Write} (form : a.ctorIdx = b.ctorIdx)
    (same : a.writes moments.writes ++ r = b.writes moments.writes ++ s) : a = b ∧ r = s := by
  have inside {α : Type} {mark : α → Mark} {x y : α} : x = y ∧ r = s → mark x = mark y ∧ r = s :=
    And.imp_left (congrArg mark)
  cases a <;> cases b <;> try (cases form; done)
  case kind.kind k k' => exact inside (Write.form_apart Kind.ofNat_ctorIdx k k' r s same)
  case type.type t t' => exact inside (t.writes_apart t' r s same)
  case text.text x y => exact inside (Write.text_apart x y r s same)
  case texts.texts x y => exact inside (Write.list_apart Write.text_apart x y r s same)
  case name?.name? x y => exact inside (Write.option_apart Write.text_apart x y r s same)
  case flag.flag x y => exact inside (Write.bool_apart x y r s same)
  case flag?.flag? x y => exact inside (Write.option_apart Write.bool_apart x y r s same)
  case number.number m n => exact inside (Write.single_apart (fun _ _ => Write.size.inj) m n r s same)
  case tag.tag m n => exact inside (Write.single_apart (fun _ _ => Write.u8.inj) m n r s same)
  case column.column label name label' name' =>
    unfold writes at same
    rw [List.append_assoc, List.append_assoc] at same
    obtain ⟨rfl, names⟩ := Write.text_apart label label' _ _ same
    exact inside (Write.text_apart name name' r s names)
  case value.value v v' => exact inside (v.writes_apart moments v' r s same)
  case join.join k k' => exact inside (Write.form_apart JoinKind.ofNat_ctorIdx k k' r s same)
  case aggregate.aggregate k k' => exact inside (Write.form_apart AggregateKind.ofNat_ctorIdx k k' r s same)
  case subquery.subquery k k' => exact inside (Write.form_apart SubqueryKind.ofNat_ctorIdx k k' r s same)
  case routine.routine x y => exact inside (Routine.writes_apart x y r s same)
  case binary.binary op op' => exact inside (Write.form_apart BinaryOp.ofNat_ctorIdx op op' r s same)
  case unary.unary op op' => exact inside (Write.form_apart UnaryOp.ofNat_ctorIdx op op' r s same)
  case direction.direction d d' => exact inside (Write.form_apart Direction.ofNat_ctorIdx d d' r s same)
  case action.action x y => exact inside (Write.form_apart ReferentialAction.ofNat_ctorIdx x y r s same)
  case change.change x y => exact inside (Write.form_apart ConstraintChange.ofNat_ctorIdx x y r s same)
  case indexed.indexed x y => exact inside (Write.list_apart IndexedColumn.writes_apart x y r s same)

end Mark

end QueryTree
