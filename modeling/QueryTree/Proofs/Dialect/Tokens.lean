import QueryTree.Proofs.Dialect.Literals

/-! Quoted tokens of a command.

A database tells a quoted name from a quoted text by how it opens. What a dialect quotes is one such token wherever its
closing quote does not follow at once, and no other text is read as that token.
-/

set_option autoImplicit false

namespace QueryTree

namespace Shipped

/-- What a quoted token says. -/
inductive Token where
  | name (name : String)
  | text (content : String)
  deriving DecidableEq, Repr

def Token.content : Token → String
  | .name content | .text content => content

/-- How the database of a dialect encloses a name. -/
def nameQuote : Shipped → Quote
  | .postgres | .sqlite => ⟨"\"", '"'⟩
  | .sqlServer _ => ⟨"[", ']'⟩

def Token.quote (d : Shipped) : Token → Quote
  | .name _ => d.nameQuote
  | .text _ => d.lexis.quote

/-- The quoted token that a text starts with, and what follows it. -/
def readToken (d : Shipped) (chars : List Char) : Option (Token × List Char) :=
  ((d.nameQuote.read chars).map fun (name, left) => (.name name, left)).or
    ((d.lexis.quote.read chars).map fun (content, left) => (.text content, left))

def spell (d : Shipped) : Token → String
  | .name name => d.dialect.quoteIdent name
  | .text content => d.dialect.quoteString content

variable {d : Shipped} {chars rest : List Char}

theorem spell_apply (d : Shipped) : (t : Token) → d.spell t = (t.quote d).apply t.content
  | .name _ => by cases d <;> rfl
  | .text _ => by cases d <;> rfl

theorem name_apart {found : String × List Char} (text : d.lexis.quote.read chars = some found) :
    d.nameQuote.read chars = none := by
  obtain ⟨written, -⟩ := (Quote.read_iff _ found.1).mp text
  subst written
  -- The openings differ in their first character.
  cases d <;> simp [Quote.read, Quote.toList_apply, nameQuote, lexis, List.dropPrefix?]

theorem readToken_iff (d : Shipped) (t : Token) :
    d.readToken chars = some (t, rest) ↔ (t.quote d).read chars = some (t.content, rest) := by
  unfold readToken
  cases t with
  | name name =>
    rcases found : d.nameQuote.read chars with _ | ⟨read, left⟩ <;> simp [Token.quote, Token.content, found]
  | text content =>
    show _ ↔ d.lexis.quote.read chars = some (content, rest)
    constructor
    · intro token
      rcases found : d.nameQuote.read chars with _ | ⟨read, left⟩
      · simpa [found] using token
      · simp [found] at token
    · intro text
      rw [name_apart text, text]
      rfl

/-- A text starts with a token just where the dialect has written that token there and no closing quote follows it. -/
theorem token_read (d : Shipped) (t : Token) (chars rest : List Char) :
    d.readToken chars = some (t, rest) ↔
      chars = (d.spell t).toList ++ rest ∧ rest.head? ≠ some (t.quote d).closing := by
  rw [readToken_iff, Quote.read_iff, spell_apply]

end Shipped

end QueryTree
