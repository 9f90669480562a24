import TrustMesh.Toml.Basic

/-!
# Tables in the making

A table is put together from keys and headers in any order, and how it came about decides
what may still be added to it. A table that was opened by a header is not opened again,
nor extended by dotted keys; a table that only dotted keys mention is extended by dotted
keys alone; a table that is merely implied by a longer header may still be opened. Within
an array of tables everything is added to the last element. No key is given twice.
-/

namespace TrustMesh.Toml

/-- How a table came about: it was opened by a header, implied by a longer header, or mentioned by
a dotted key. -/
inductive Origin where
  | header
  | implied
  | dotted
deriving DecidableEq

/-- What a key stands for so far: a value, a table, or an array of tables of which only the last
can change. -/
inductive Draft where
  | value (value : Toml)
  | table (origin : Origin) (members : List (String × Draft))
  | tables (earlier : List Toml) (last : List (String × Draft))

namespace Draft

mutual

/-- The value of a draft that is not changed any more. -/
def finish : Draft → Toml
  | .value settled => settled
  | .table _ members => .table (finishMembers members)
  | .tables earlier last => .array (earlier ++ [.table (finishMembers last)])

/-- The members of a table that is not changed any more. -/
def finishMembers : List (String × Draft) → List (String × Toml)
  | [] => []
  | (key, draft) :: rest => (key, draft.finish) :: finishMembers rest

end

/-- Change what one key stands for, or add the key at the end. -/
def alter? (key : String) (change : Option Draft → Option Draft) :
    List (String × Draft) → Option (List (String × Draft))
  | [] => (change none).map fun draft => [(key, draft)]
  | (k, draft) :: rest =>
    if k = key then (change (some draft)).map fun draft => (k, draft) :: rest
    else (alter? key change rest).map ((k, draft) :: ·)

/-- Add a value under a dotted key. -/
def insert? (value : Toml) : (key : List String) → List (String × Draft) →
    Option (List (String × Draft))
  | [], _ => none
  | [part], members =>
    members |> alter? part fun
      | none => some (.value value)
      | some _ => none
  | part :: next :: rest, members =>
    members |> alter? part fun
      | none => (insert? value (next :: rest) []).map (.table .dotted)
      | some (.table .dotted inner) =>
        (insert? value (next :: rest) inner).map (.table .dotted)
      | some (.table .implied inner) =>
        if rest.isEmpty then none
        else (insert? value (next :: rest) inner).map (.table .implied)
      | some (.tables earlier last) =>
        if rest.isEmpty then none
        else (insert? value (next :: rest) last).map (.tables earlier)
      | some (.table .header _) => none
      | some (.value _) => none

/-- Change the table that a path of headers leads to. -/
def within? (change : List (String × Draft) → Option (List (String × Draft))) :
    (path : List String) → List (String × Draft) → Option (List (String × Draft))
  | [], members => change members
  | part :: rest, members =>
    members |> alter? part fun
      | none => (within? change rest []).map (.table .implied)
      | some (.table origin inner) => (within? change rest inner).map (.table origin)
      | some (.tables earlier last) => (within? change rest last).map (.tables earlier)
      | some (.value _) => none

/-- Open the table of a header. -/
def openTable? (path : List String) (members : List (String × Draft)) :
    Option (List (String × Draft)) :=
  match path.getLast? with
  | none => none
  | some key =>
    members |> within? (alter? key fun
      | none => some (.table .header [])
      | some (.table .implied inner) => some (.table .header inner)
      | some _ => none) path.dropLast

/-- Open the next element of an array of tables. -/
def openElement? (path : List String) (members : List (String × Draft)) :
    Option (List (String × Draft)) :=
  match path.getLast? with
  | none => none
  | some key =>
    members |> within? (alter? key fun
      | none => some (.tables [] [])
      | some (.tables earlier last) =>
        some (.tables (earlier ++ [.table (finishMembers last)]) [])
      | some _ => none) path.dropLast

end Draft

/-- The table of a list of dotted keys and their values. -/
def ofPairs? (pairs : List (List String × Toml)) : Option Toml :=
  (pairs.foldlM (fun members (key, value) => Draft.insert? value key members) []).map fun members =>
    .table (Draft.finishMembers members)

end TrustMesh.Toml
