import Metrology.Toml.Value

/-!
# Tables under construction

While a TOML text is read its tables grow, and what may be added to a table depends on what opened
it (`Opening`).  A table is entered by way of the tables around it (`edit?`), which are opened on
the way when they are not there yet; of an array of tables the newest is entered.  Dotted keys open
tables of their own and leave alone what a header has opened; no key and no header is ever defined
twice.
-/

namespace Metrology.Toml

/-- What opened a table. -/
inductive Opening where
  /-- Its own header. -/
  | header
  /-- The header of a table inside it. -/
  | passage
  /-- A dotted key. -/
  | dotted
deriving DecidableEq

/-- A member of a table under construction. -/
inductive Node where
  | value (v : Toml)
  | table (opening : Opening) (members : List (String × Node))
  /-- An array of tables, which is not empty: the newest, and the ones before it backwards. -/
  | tables (newest : List (String × Node)) (older : List (List (String × Node)))

/-- A key with the keys of the tables on the way to it. -/
structure Key where
  path : List String
  name : String

namespace Node

/-- The members with one replaced or added. -/
def put (name : String) (node : Node) : List (String × Node) → List (String × Node)
  | [] => [(name, node)]
  | (other, old) :: members =>
    if other = name then (name, node) :: members else (other, old) :: put name node members

theorem lookup_cons_of_ne {other name : String} (h : other ≠ name) (node : Node)
    (members : List (String × Node)) :
    ((name, node) :: members).lookup other = members.lookup other := by
  rw [List.lookup_cons, beq_eq_false_iff_ne.mpr h]

theorem lookup_put (name other : String) (node : Node) (members : List (String × Node)) :
    (put name node members).lookup other =
      if other = name then some node else members.lookup other := by
  induction members with
  | nil =>
    unfold put
    split
    · simp_all
    · exact lookup_cons_of_ne ‹_› node []
  | cons member members ih =>
    obtain ⟨key, old⟩ := member
    unfold put
    split
    · rename_i hk
      subst hk
      split
      · simp_all
      · rw [lookup_cons_of_ne ‹_›, lookup_cons_of_ne ‹_›]
    · by_cases h : other = key
      · simp_all
      · rw [lookup_cons_of_ne h, lookup_cons_of_ne h, ih]

/-- Edits the members of the table at the end of a path.  Tables that are missing on the way are
opened by `mode`; a dotted key does not pass through a table that has a header of its own. -/
def edit? (mode : Opening)
    (change : Opening → List (String × Node) → Option (List (String × Node))) :
    List String → Opening → List (String × Node) → Option (List (String × Node))
  | [], opening, members => change opening members
  | name :: path, _, members =>
    match members.lookup name with
    | none => (edit? mode change path mode []).map fun inner => put name (table mode inner) members
    | some (value _) => none
    | some (table opening inner) =>
      if mode = .dotted ∧ opening = .header then none
      else
        (edit? mode change path opening inner).map fun inner =>
          put name (table opening inner) members
    | some (tables newest older) =>
      (edit? mode change path .header newest).map fun newest =>
        put name (tables newest older) members

/-- Adds a value under a key to the members of a table.  A dotted key ends in a table that dotted
keys have opened. -/
def define? (key : Key) (v : Toml) (members : List (String × Node)) :
    Option (List (String × Node)) :=
  edit? .dotted (fun opening members =>
    if key.path ≠ [] ∧ opening ≠ .dotted then none
    else
      match members.lookup key.name with
      | some _ => none
      | none => some (put key.name (value v) members)) key.path .header members

/-- A plain key is defined once. -/
theorem define?_of_path_eq_nil {name : String} {v : Toml} {members : List (String × Node)} :
    define? ⟨[], name⟩ v members =
      if (members.lookup name).isSome then none else some (put name (value v) members) := by
  cases h : members.lookup name <;> simp [define?, edit?, h]

/-- Opens the table of a header.  It must be new, or have been opened by the headers of tables
inside it. -/
def openTable? (key : Key) (members : List (String × Node)) : Option (List (String × Node)) :=
  edit? .passage (fun _ members =>
    match members.lookup key.name with
    | none => some (put key.name (table .header []) members)
    | some (table .passage inner) => some (put key.name (table .header inner) members)
    | some _ => none) key.path .header members

/-- Opens one more table of the array of tables of a header. -/
def openElement? (key : Key) (members : List (String × Node)) : Option (List (String × Node)) :=
  edit? .passage (fun _ members =>
    match members.lookup key.name with
    | none => some (put key.name (tables [] []) members)
    | some (tables newest older) => some (put key.name (tables [] (newest :: older)) members)
    | some _ => none) key.path .header members

/-- Adds a value under a key to the table at the end of a path. -/
def defineAt? (path : List String) (key : Key) (v : Toml) (members : List (String × Node)) :
    Option (List (String × Node)) :=
  edit? .passage (fun _ members => define? key v members) path .header members

mutual

/-- The value of a member. -/
def toToml : Node → Toml
  | value v => v
  | table _ members => .table (membersToToml members)
  | tables newest older => .array (elementsToToml older [.table (membersToToml newest)])

/-- The values of the members of a table. -/
def membersToToml : List (String × Node) → List (String × Toml)
  | [] => []
  | (name, node) :: members => (name, node.toToml) :: membersToToml members

/-- The values of an array of tables that are listed backwards, before some later ones. -/
def elementsToToml : List (List (String × Node)) → List Toml → List Toml
  | [], later => later
  | members :: older, later => elementsToToml older (.table (membersToToml members) :: later)

end

end Node

/-- The table of a list of keys and values. -/
def ofPairs? (pairs : List (Key × Toml)) : Option Toml :=
  (pairs.foldlM (fun members pair => Node.define? pair.1 pair.2 members) []).map fun members =>
    table (Node.membersToToml members)

end Metrology.Toml
