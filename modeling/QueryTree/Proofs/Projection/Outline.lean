import QueryTree.Projection.Hash
import QueryTree.Proofs.Node.Erasure

/-! Projections that are alike have one outline.

The outline of a projection is what is left of it when the values of literals are taken out. Of a nested query it keeps
the tree, the projection and the type of its results, but not what it is run with. To have one outline is an
equivalence, and what a projection gives to a hasher is given by its outline.
-/

set_option autoImplicit false

namespace QueryTree

/-- A projection without the values of its literals. -/
inductive Outline where
  | column (name : String) (type : DataType)
  | constant (null : Bool) (type : DataType)
  | argument (index : Nat)
  | entity (name : String) (fields : List (Binding Outline))
  | tuple (items : List Outline)
  | nested (root : Node) (projection : Option Outline) (elementType : DataType) (correlations : List (Binding Outline))

namespace Projection

mutual

def outline : Projection → Outline
  | .column name type => .column name type
  | .constant value => .constant value.isNull value.dataType
  | .argument index => .argument index
  | .entity name fields => .entity name (outlineBindings fields)
  | .tuple items => .tuple (outlineList items)
  | .nested ⟨root, projection, elementType, _, _⟩ correlations =>
    .nested (root.erase { constants := true }) (outlineOption projection) elementType (outlineBindings correlations)

def outlineOption : Option Projection → Option Outline
  | none => none
  | some p => some (outline p)

def outlineList : List Projection → List Outline
  | [] => []
  | p :: rest => outline p :: outlineList rest

def outlineBindings : List (Binding Projection) → List (Binding Outline)
  | [] => []
  | ⟨name, p⟩ :: rest => ⟨name, outline p⟩ :: outlineBindings rest

end

mutual

theorem alike_iff_outline : ∀ p q : Projection, p.alike q = true ↔ p.outline = q.outline
  | .column .., q | .constant _, q | .argument _, q => by cases q <;> simp [alike, outline]
  | .entity name fields, q => by
    cases q with
    | entity name' fields' => simp [alike, outline, alikeBindings_iff_outline fields fields']
    | nested query _ => cases query; simp [alike, outline]
    | _ => simp [alike, outline]
  | .tuple items, q => by
    cases q with
    | tuple items' => simp [alike, outline, alikeList_iff_outline items items']
    | nested query _ => cases query; simp [alike, outline]
    | _ => simp [alike, outline]
  | .nested ⟨root, projection, elementType, parameters, arguments⟩ correlations, q => by
    cases q with
    | nested query correlations' =>
      obtain ⟨root', projection', elementType', parameters', arguments'⟩ := query
      simp only [alike, outline, Bool.and_eq_true, beq_iff_eq, alikeOption_iff_outline projection projection',
        alikeBindings_iff_outline correlations correlations', Node.alike_iff_erase, Outline.nested.injEq]
      constructor
      · rintro ⟨⟨⟨type, root⟩, inside⟩, given⟩
        exact ⟨root, inside, type, given⟩
      · rintro ⟨root, inside, type, given⟩
        exact ⟨⟨⟨type, root⟩, inside⟩, given⟩
    | _ => simp [alike, outline]

theorem alikeOption_iff_outline : ∀ o o' : Option Projection, alikeOption o o' = true ↔ outlineOption o = outlineOption o'
  | none, none => by simp [alikeOption, outlineOption]
  | none, some _ | some _, none => by simp [alikeOption, outlineOption]
  | some p, some q => by simp [alikeOption, outlineOption, alike_iff_outline p q]

theorem alikeList_iff_outline : ∀ ps qs : List Projection, alikeList ps qs = true ↔ outlineList ps = outlineList qs
  | [], [] => by simp [alikeList, outlineList]
  | [], _ :: _ | _ :: _, [] => by simp [alikeList, outlineList]
  | p :: ps, q :: qs => by simp [alikeList, outlineList, alike_iff_outline p q, alikeList_iff_outline ps qs]

theorem alikeBindings_iff_outline : ∀ ps qs : List (Binding Projection),
    alikeBindings ps qs = true ↔ outlineBindings ps = outlineBindings qs
  | [], [] => by simp [alikeBindings, outlineBindings]
  | [], _ :: _ | _ :: _, [] => by simp [alikeBindings, outlineBindings]
  | ⟨name, p⟩ :: ps, ⟨name', q⟩ :: qs => by
    simp [alikeBindings, outlineBindings, alike_iff_outline p q, alikeBindings_iff_outline ps qs]

end

section Writes

variable (moments : Coding Moment) (digest : List Write → UInt64)

mutual

theorem writes_of_alike : ∀ p q : Projection, p.alike q = true →
    p.writes moments.writes digest = q.writes moments.writes digest
  | .column name type, q, same => by
    cases q with
    | column name' type' =>
      simp only [alike, Bool.and_eq_true, beq_iff_eq] at same
      rw [same.1, same.2]
    | _ => simp [alike] at same
  | .constant value, q, same => by
    cases q with
    | constant value' =>
      simp only [alike, Bool.and_eq_true, beq_iff_eq] at same
      rw [writes, writes, same.1, same.2]
    | _ => simp [alike] at same
  | .argument index, q, same => by
    cases q with
    | argument index' =>
      simp only [alike, beq_iff_eq] at same
      rw [same]
    | _ => simp [alike] at same
  | .entity name fields, q, same => by
    cases q with
    | entity name' fields' =>
      simp only [alike, Bool.and_eq_true, beq_iff_eq] at same
      rw [writes, writes, same.1, writesBindings_of_alike fields fields' same.2]
    | _ => simp [alike] at same
  | .tuple items, q, same => by
    cases q with
    | tuple items' =>
      simp only [alike] at same
      obtain ⟨lengths, items⟩ := writesList_of_alike items items' same
      rw [writes, writes, lengths, items]
    | _ => simp [alike] at same
  | .nested ⟨root, projection, _, _, _⟩ correlations, q, same => by
    cases q with
    | nested query correlations' =>
      obtain ⟨root', projection', _, _, _⟩ := query
      simp only [alike, Bool.and_eq_true] at same
      -- Its type of results is compared and not written.
      obtain ⟨⟨⟨-, roots⟩, inside⟩, given⟩ := same
      rw [writes, writes, Node.writes, Node.writes, Node.marks_of_alike roots,
        writesOption_of_alike projection projection' inside, writesBindings_of_alike correlations correlations' given]
    | _ => simp [alike] at same

theorem writesOption_of_alike : ∀ o o' : Option Projection, alikeOption o o' = true →
    writesOption moments.writes digest o = writesOption moments.writes digest o'
  | none, none, _ => rfl
  | none, some _, same | some _, none, same => by simp [alikeOption] at same
  | some p, some q, same => by
    rw [alikeOption] at same
    rw [writesOption, writesOption, writes_of_alike p q same]

theorem writesList_of_alike : ∀ ps qs : List Projection, alikeList ps qs = true →
    ps.length = qs.length ∧ writesList moments.writes digest ps = writesList moments.writes digest qs
  | [], [], _ => ⟨rfl, rfl⟩
  | [], _ :: _, same | _ :: _, [], same => by simp [alikeList] at same
  | p :: ps, q :: qs, same => by
    simp only [alikeList, Bool.and_eq_true] at same
    obtain ⟨lengths, there⟩ := writesList_of_alike ps qs same.2
    exact ⟨congrArg (· + 1) lengths, by rw [writesList, writesList, writes_of_alike p q same.1, there]⟩

theorem writesBindings_of_alike : ∀ ps qs : List (Binding Projection), alikeBindings ps qs = true →
    writesBindings moments.writes digest ps = writesBindings moments.writes digest qs
  | [], [], _ => rfl
  | [], _ :: _, same | _ :: _, [], same => by simp [alikeBindings] at same
  | ⟨name, p⟩ :: ps, ⟨name', q⟩ :: qs, same => by
    simp only [alikeBindings, Bool.and_eq_true, beq_iff_eq] at same
    obtain ⟨⟨rfl, here⟩, there⟩ := same
    rw [writesBindings, writesBindings, writes_of_alike p q here, writesBindings_of_alike ps qs there]

end

end Writes

end Projection

end QueryTree
