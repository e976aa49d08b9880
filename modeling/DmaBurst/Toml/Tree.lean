namespace DmaBurst.Toml

/-- A value of a document. Of floating-point numbers and of dates only their presence is kept. -/
inductive Value where
  | string (s : String)
  | integer (n : Int)
  | float
  | boolean (b : Bool)
  | date
  | array (items : List Value)
  | table (entries : List (String × Value))
  deriving Repr

/-- A document while it is put together. A table is implicit when only names below it have been
mentioned, and dotted when that was in a dotted key. The last table of an array of tables stands
first. -/
inductive Node where
  | leaf (v : Value)
  | table (implicit dotted : Bool) (entries : List (String × Node))
  | tables (last : List (String × Node)) (earlier : List (List (String × Node)))

abbrev Entries := List (String × Node)

mutual

def Node.close : Node → Value
  | .leaf v => v
  | .table _ _ entries => .table (closeEntries entries)
  | .tables last earlier => .array (closeTables earlier [.table (closeEntries last)])

def closeEntries : List (String × Node) → List (String × Value)
  | [] => []
  | (k, n) :: rest => (k, n.close) :: closeEntries rest

def closeTables : List (List (String × Node)) → List Value → List Value
  | [], done => done
  | es :: rest, done => closeTables rest (.table (closeEntries es) :: done)

end

namespace Entries

def put (k : String) (n : Node) (es : Entries) : Entries :=
  if (es.lookup k).isSome then es.map fun e => if e.1 = k then (k, n) else e
  else es ++ [(k, n)]

/-- Changes the table that a path leads to; names on the way that are new become implicit tables.
A dotted key does not lead through tables that have been defined. -/
def descend (dotted : Bool) (f : Bool → Entries → Option Entries) :
    List String → Bool → Entries → Option Entries
  | [], isDotted, es => f isDotted es
  | k :: path, _, es =>
    match es.lookup k with
    | none => do
      let child ← descend dotted f path dotted []
      return es.put k (.table true dotted child)
    | some (.table implicit isDotted child) => do
      guard (implicit || !dotted)
      let child ← descend dotted f path isDotted child
      return es.put k (.table implicit isDotted child)
    | some (.tables last earlier) => do
      let last ← descend dotted f path false last
      return es.put k (.tables last earlier)
    | some (.leaf _) => none

/-- Adds a value below a path. The path of a dotted key ends in a table that dotted keys made. -/
def addValue (path : List String) (k : String) (v : Value) (es : Entries) : Option Entries :=
  descend true (fun isDotted es => do
    guard (isDotted = !path.isEmpty ∧ (es.lookup k).isNone)
    return es.put k (.leaf v)) path false es

def addAll (pairs : List ((List String × String) × Value)) (es : Entries) : Option Entries :=
  pairs.foldlM (fun es ((path, k), v) => addValue path k v es) es

/-- A table header takes a table that is only implicit, with what is in it. -/
def addTable (path : List String) (k : String) (pairs : List ((List String × String) × Value))
    (es : Entries) : Option Entries :=
  descend false (fun _ es =>
    match es.lookup k with
    | none => do return es.put k (.table false false (← addAll pairs []))
    | some (.table true false child) => do
      return es.put k (.table false false (← addAll pairs child))
    | some _ => none) path false es

def addToArray (path : List String) (k : String) (pairs : List ((List String × String) × Value))
    (es : Entries) : Option Entries :=
  descend false (fun _ es =>
    match es.lookup k with
    | none => do return es.put k (.tables (← addAll pairs []) [])
    | some (.tables last earlier) => do
      return es.put k (.tables (← addAll pairs []) (last :: earlier))
    | some _ => none) path false es

end Entries

end DmaBurst.Toml
