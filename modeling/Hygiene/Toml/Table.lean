import Hygiene.Toml.Value

/-!
Tables while a document is being read. Headers and dotted keys open tables on the way to the one
they name; such a table may be completed later, but in one way only. A table opened by a header may
get a header of its own once, a table opened by dotted keys may get more dotted keys, and a value is
closed for good.
-/

namespace Hygiene.Toml

/-- What a key holds while a document is being read: a value, a table, or an array of tables of
which the one that was begun last stands at the end. A table is implicit when it was only opened on
the way to another, and dotted when dotted keys opened it. -/
inductive Node where
  | value (v : Value)
  | table (implicit dotted : Bool) (entries : List (String × Node))
  | tables (rows : List (List (String × Node)))
  deriving Inhabited

structure Table where
  implicit : Bool
  dotted : Bool
  entries : List (String × Node)
  deriving Inhabited

namespace Table

def explicit (entries : List (String × Node)) : Table := ⟨false, false, entries⟩

def toNode (t : Table) : Node := .table t.implicit t.dotted t.entries

def get? (t : Table) (key : String) : Option Node :=
  t.entries.lookup key

/-- The table with a key holding something else, in the place where the key stands or at the
end. -/
def put (t : Table) (key : String) (node : Node) : Table :=
  if t.entries.any fun e => e.1 == key then
    { t with entries := t.entries.map fun e => if e.1 == key then (key, node) else e }
  else { t with entries := t.entries ++ [(key, node)] }

def erase (t : Table) (key : String) : Table :=
  { t with entries := t.entries.filter fun e => e.1 != key }

/-- Changes the table at the end of a path by `f`. Tables that are missing on the way are opened, by
dotted keys or by a header; the way through an array of tables leads into the last of them. Dotted
keys may not pass through a table that was written out. -/
def updateAt (dotted : Bool) (f : Table → Option Table) : List String → Table → Option Table
  | [], t => f t
  | key :: path, t =>
      match t.get? key with
      | none => (updateAt dotted f path ⟨true, dotted, []⟩).map fun u => t.put key u.toNode
      | some (.value _) => none
      | some (.table implicit byDots entries) =>
          if dotted && !implicit then none
          else (updateAt dotted f path ⟨implicit, byDots, entries⟩).map fun u => t.put key u.toNode
      | some (.tables rows) =>
          match rows.getLast? with
          | none => none
          | some row =>
              (updateAt dotted f path (explicit row)).map fun u =>
                t.put key (.tables (rows.dropLast ++ [u.entries]))

/-- The table with a value under a dotted key. The key must be new, and of the tables on the way to
it the last one must have been opened by dotted keys. -/
def assign (t : Table) (path : List String) (key : String) (value : Value) : Option Table :=
  updateAt true
    (fun u =>
      if u.dotted == path.isEmpty || (u.get? key).isSome then none
      else some (u.put key (.value value)))
    path t

end Table

mutual

def Node.toValue : Node → Value
  | .value v => v
  | .table _ _ entries => .table (entriesToValues entries)
  | .tables rows => .array (rowsToValues rows)

def entriesToValues : List (String × Node) → Entries
  | [] => []
  | (key, node) :: rest => (key, node.toValue) :: entriesToValues rest

def rowsToValues : List (List (String × Node)) → List Value
  | [] => []
  | row :: rest => .table (entriesToValues row) :: rowsToValues rest

end

/-- A document while it is read: what is finished of it, and the table whose keys are being read,
with the path of its header and whether that is a header of an array of tables. -/
structure Draft where
  root : Table
  current : Table
  path : List String
  inArray : Bool

namespace Draft

def start : Draft := ⟨Table.explicit [], Table.explicit [], [], false⟩

/-- The document with the table being read put in its place. -/
def finish (d : Draft) : Option Table :=
  match d.path.getLast? with
  | none => some d.current
  | some key =>
      Table.updateAt false
        (fun parent =>
          match d.inArray, parent.get? key with
          | true, none => some (parent.put key (.tables [d.current.entries]))
          | true, some (.tables rows) =>
              some (parent.put key (.tables (rows ++ [d.current.entries])))
          | true, some _ => none
          | false, none => some (parent.put key d.current.toNode)
          | false, some (.table true _ _) => some (parent.put key d.current.toNode)
          | false, some _ => none)
        d.path.dropLast d.root

/-- Begins the table that a header names. A table that was only opened on the way to another is
taken up with what it holds. -/
def openTable (d : Draft) (path : List String) : Option Draft := do
  let root ← d.finish
  let key ← path.getLast?
  let found ← Table.updateAt false some path.dropLast root
  let parent ← lookup path.dropLast found
  match parent.get? key with
  | none => return ⟨found, Table.explicit [], path, false⟩
  | some (.table true false entries) =>
      let root ← Table.updateAt false (fun t => some (t.erase key)) path.dropLast found
      return ⟨root, Table.explicit entries, path, false⟩
  | some _ => none
where
  lookup : List String → Table → Option Table
    | [], t => some t
    | key :: path, t =>
        match t.get? key with
        | some (.table implicit dotted entries) => lookup path ⟨implicit, dotted, entries⟩
        | some (.tables rows) => rows.getLast?.bind fun row => lookup path (Table.explicit row)
        | _ => none

/-- Begins one more table of the array that a header names. -/
def openRow (d : Draft) (path : List String) : Option Draft := do
  let root ← d.finish
  let key ← path.getLast?
  let root ← Table.updateAt false
    (fun parent =>
      match parent.get? key with
      | none => some (parent.put key (.tables []))
      | some (.tables _) => some parent
      | some _ => none)
    path.dropLast root
  return ⟨root, Table.explicit [], path, true⟩

def assign (d : Draft) (path : List String) (key : String) (value : Value) : Option Draft :=
  (d.current.assign path key value).map fun t => { d with current := t }

end Draft

end Hygiene.Toml
