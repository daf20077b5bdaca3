import Metrology.Toml.Statement

/-!
# TOML documents

A document is the table that the statements of a text build up.  A header opens a table, and the
definitions up to the next header go there.
-/

namespace Metrology.Toml

/-- A document under construction: its members, and the path of the table that was opened last. -/
structure Draft where
  members : List (String × Node)
  current : List String

/-- The draft after one more statement. -/
def Draft.add? (draft : Draft) : Statement → Option Draft
  | .pair key v =>
    (Node.defineAt? draft.current key v draft.members).map fun members => ⟨members, draft.current⟩
  | .table key =>
    (Node.openTable? key draft.members).map fun members => ⟨members, key.path ++ [key.name]⟩
  | .element key =>
    (Node.openElement? key draft.members).map fun members => ⟨members, key.path ++ [key.name]⟩

/-- The table that statements build up. -/
def ofStatements? (statements : List Statement) : Option Toml :=
  (statements.foldlM Draft.add? ⟨[], []⟩).map fun draft => table (Node.membersToToml draft.members)

/-- A text without a byte order mark at its front. -/
def skipMark : List Char → List Char
  | '\uFEFF' :: cs => cs
  | cs => cs

/-- The table that a text describes. -/
def ofText? (s : String) : Option Toml :=
  (statements? (skipMark s.toList)).bind ofStatements?

end Metrology.Toml
