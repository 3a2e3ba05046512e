import QueryTree.Command.Spelled

/-! The texts of queries and of the sources they read.

The clauses of a query follow each other with one blank between. How many rows are skipped and taken is
written in front or at the end, by the dialect's style.
-/

set_option autoImplicit false

namespace QueryTree.Dialect

variable (d : Dialect)

/-- Clauses that are there, one blank between. -/
def clauses (spellings : List (Option Spelling)) : Spelling := spellList " " (spellings.filterMap id)

/-- A clause that begins with fixed words. -/
def clause (words : String) (s : Spelling) : Spelling := fun p => return .ofText words ++ (← s p)

def fixed (words : String) : Spelling := fun _ => return .ofText words

/-- A projected column. A column that keeps its name needs no alias, and one without a name gets none. -/
def projected (b : Binding Spelled) : Spelling := fun p =>
  if b.isWildcard then return .ofText Node.wildcard
  else do
    let w ← b.expr.expr p
    let keepsName := match b.expr.node.column? with
      | some c => c.name == b.name
      | none => false
    return if b.name.isEmpty || keepsName then w else w ++ .ofText (" AS " ++ d.quoteIdent b.name)

/-- `TOP (n)`, where a limit without a skip is written in front. -/
def topClause (s : Select Spelled) : Spelling := fun p =>
  match s.take, s.skip with
  | some take, none =>
    if d.limitStyle = .limitOffset then return []
    else return .ofText "TOP (" ++ (← take.expr p) ++ .ofText ") "
  | _, _ => return []

def selectClause (s : Select Spelled) : Spelling := fun p => do
  let top ← d.topClause s p
  let columns ←
    if s.columns.isEmpty then pure (.ofText Node.wildcard)
    else spellList ", " (s.columns.map d.projected) p
  return .ofText (if s.distinct then "SELECT DISTINCT " else "SELECT ") ++ top ++ columns

/-- A skip needs an order to skip by. -/
def orderClause (s : Select Spelled) : Option Spelling :=
  if !s.orderBy.isEmpty then some (clause "ORDER BY " (orderList s.orderBy))
  else if s.skip.isSome && d.limitStyle ≠ .limitOffset then some (fixed "ORDER BY (SELECT NULL)")
  else none

def limitClauses (s : Select Spelled) : List (Option Spelling) :=
  match d.limitStyle with
  | .limitOffset =>
    let limit := match s.take, s.skip, d.unboundedLimit with
      | some take, _, _ => some (clause "LIMIT " take.expr)
      | none, some _, some unbounded => some (fixed ("LIMIT " ++ unbounded))
      | none, _, _ => none
    [limit, s.skip.map fun skip => clause "OFFSET " skip.expr]
  | .offsetFetch | .rowNumber =>
    match s.skip with
    | none => []
    | some skip =>
      [some fun p => do return .ofText "OFFSET " ++ (← skip.expr p) ++ .ofText " ROWS",
        s.take.map fun take p => do
          return .ofText "FETCH NEXT " ++ (← take.expr p) ++ .ofText " ROWS ONLY"]

def selectText (s : Select Spelled) : Spelling := fun p =>
  clauses
    ([some (d.selectClause s),
      s.source.map fun source => clause "FROM " source.source,
      s.filter.map fun filter => clause "WHERE " filter.expr,
      if s.groupBy.isEmpty then none else some (clause "GROUP BY " (exprList s.groupBy)),
      d.orderClause s] ++ d.limitClauses s ++
      [if s.forUpdate then d.forUpdate.map fixed else none])
    (p.within s.label)

def aliased (label : String) : Wording := .ofText (" AS " ++ d.quoteIdent label)

/-- A join stands in parentheses to the right of another. -/
def joinText (kind : JoinKind) (left right : Spelled) (condition : Option Spelled) : Spelling := fun p =>
  match d.joinKeyword kind with
  | none => .error (.unsupportedNode .join)
  | some keyword => do
    let leftText ← left.source p
    let rightText ← right.source p
    let rightText := if right.node.kind = .join then rightText.parenthesized else rightText
    let ending ← match condition with
      | some condition => do pure (.ofText " ON " ++ (← condition.expr p))
      | none =>
        if kind = .outerApply && "LEFT".toList.isPrefixOf keyword.toList then pure (.ofText " ON TRUE")
        else pure []
    return leftText ++ .ofText (" " ++ keyword ++ " ") ++ rightText ++ ending

end QueryTree.Dialect
