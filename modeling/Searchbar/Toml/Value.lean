/-!
# Values of TOML

A TOML text is a table. Tables and lists of tables are given in pieces all over the text, and the
format says which pieces may be put together: a table is given once under a header, a table that
only lies on the way to another one may still get a header of its own, and a table in braces is
complete as it stands. So a table remembers where it comes from.

* `addTable?`, `addRow?` and `assign?` put one piece into a table.
-/

namespace Searchbar.Toml

/-- **Where a table comes from**: a header of its own, the way to another header, a key with dots,
or braces. -/
inductive Origin where
  | header
  | way
  | dotted
  | braces
  deriving DecidableEq

/-- **A value.** A number, a date or a time is kept as the word it is written as. -/
inductive Value where
  | text (s : String)
  | flag (b : Bool)
  | word (w : String)
  | array (items : List Value)
  | table (origin : Origin) (entries : List (String × Value))
  | tables (rows : List (List (String × Value)))

/-- The entries of a table. -/
abbrev Entries := List (String × Value)

/-- The entries with `key` set, in its place if it is there. -/
def put (key : String) (v : Value) : Entries → Entries
  | [] => [(key, v)]
  | (k, w) :: rest => if k = key then (k, v) :: rest else (k, w) :: put key v rest

/-- The last row of a list of tables changed by `f`. -/
def changeLast? (f : Entries → Option Entries) : List Entries → Option (List Entries)
  | [] => none
  | [row] => (f row).map fun row => [row]
  | row :: rest => (changeLast? f rest).map fun rest => row :: rest

/-- The table at the end of a path changed by `f`. The way there may be new; through a list of tables
it goes to the last row, and it does not go into a complete value. -/
def changeAt? (f : Entries → Option Entries) : List String → Entries → Option Entries
  | [], es => f es
  | key :: path, es =>
    match es.lookup key with
    | none => (changeAt? f path []).map fun sub => put key (.table .way sub) es
    | some (.table .braces _) => none
    | some (.table origin sub) =>
      (changeAt? f path sub).map fun sub => put key (.table origin sub) es
    | some (.tables rows) =>
      (changeLast? (changeAt? f path) rows).map fun rows => put key (.tables rows) es
    | some _ => none

/-- A table under a header. It must be new, or have been only on the way. -/
def addTable? (key : String) (es : Entries) : Option Entries :=
  match es.lookup key with
  | none => some (put key (.table .header []) es)
  | some (.table .way sub) => some (put key (.table .header sub) es)
  | some _ => none

/-- A new row of a list of tables. -/
def addRow? (key : String) (es : Entries) : Option Entries :=
  match es.lookup key with
  | none => some (put key (.tables [[]]) es)
  | some (.tables rows) => some (put key (.tables (rows ++ [[]])) es)
  | some _ => none

/-- A value under a key, which may have dots. The value must be new, and the tables before the dots
must be new or come from other keys with dots. -/
def assign? (v : Value) : List String → Entries → Option Entries
  | [], _ => none
  | [key], es => if (es.lookup key).isSome then none else some (put key v es)
  | key :: path, es =>
    match es.lookup key with
    | none => (assign? v path []).map fun sub => put key (.table .dotted sub) es
    | some (.table .dotted sub) =>
      (assign? v path sub).map fun sub => put key (.table .dotted sub) es
    | some _ => none

end Searchbar.Toml
