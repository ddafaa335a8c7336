import PageAudit.Toml.Value

/-!
# Putting tables together

A text gives keys and headers piecemeal, and the rules about what may be said twice depend on how a
table came about: by a header of its own, by the header of a table inside it, or by a dotted key. A
table under assembly remembers that.
-/

namespace PageAudit.Toml

inductive Origin where
  /-- A header of its own, or the top of the text. -/
  | header
  /-- The header of a table further in. -/
  | path
  /-- A dotted key. -/
  | dotted
  deriving DecidableEq

/-- An entry of a table under assembly. -/
inductive Entry where
  | value (v : Toml)
  | table (origin : Origin) (entries : List (String × Entry))
  /-- Tables under a repeated header, the last one last. -/
  | tables (all : List (List (String × Entry)))

abbrev Entries := List (String × Entry)

namespace Entries

def get? (t : Entries) (key : String) : Option Entry :=
  (t.find? (·.1 == key)).map (·.2)

/-- Puts an entry in the place of the one with that key, or at the end. -/
def set (t : Entries) (key : String) (e : Entry) : Entries :=
  if t.any (·.1 == key) then t.map fun (k, old) => (k, if k == key then e else old)
  else t ++ [(key, e)]

/-- Adds an entry under a new key. -/
def add? (t : Entries) (key : String) (e : Entry) : Option Entries :=
  if t.any (·.1 == key) then none else some (t ++ [(key, e)])

/-- Goes down a path of keys, making tables where there are none, and changes the table there. A header
may go through any table, a dotted key only through tables that have no header. -/
def change? (t : Entries) (origin : Origin) (byKey : Bool) (f : Origin → Entries → Option Entries) :
    List String → Option Entries
  | [] => f origin t
  | key :: path =>
    match t.get? key with
    | none =>
      let origin := if byKey then .dotted else .path
      (change? [] origin byKey f path).map fun inner => t.set key (.table origin inner)
    | some (.value _) => none
    | some (.table origin inner) =>
      if byKey && origin = .header then none
      else (change? inner origin byKey f path).map fun inner => t.set key (.table origin inner)
    | some (.tables all) =>
      match all.getLast? with
      | none => none
      | some last =>
        (change? last .header byKey f path).map fun last =>
          t.set key (.tables (all.dropLast ++ [last]))

/-- Adds a value under a dotted key. The table that holds it must have come about by dotted keys too,
unless the key has one part. -/
def insert? (t : Entries) (path : List String) (key : String) (v : Toml) : Option Entries :=
  t.change? .header true (fun origin inner =>
    if path.isEmpty || origin = .dotted then inner.add? key (.value v) else none) path

/-- Adds values one after the other. -/
def insertAll? (t : Entries) : List (List String × String × Toml) → Option Entries
  | [] => some t
  | (path, key, v) :: rest => (t.insert? path key v).bind fun t => insertAll? t rest

end Entries

mutual

/-- The finished value of an entry. -/
def Entry.finish : Entry → Toml
  | .value v => v
  | .table _ entries => .table (finishEntries entries)
  | .tables all => .array (finishTables all)

def finishEntries : List (String × Entry) → List (String × Toml)
  | [] => []
  | (key, e) :: rest => (key, Entry.finish e) :: finishEntries rest

def finishTables : List (List (String × Entry)) → List Toml
  | [] => []
  | t :: rest => .table (finishEntries t) :: finishTables rest

end

/-- A header with the values under it. -/
structure Section where
  path : List String
  key : String
  /-- The header adds a table to a list of tables. -/
  repeated : Bool
  values : List (List String × String × Toml)

namespace Section

/-- Adds the section to the table at the top. -/
def addTo? (top : Entries) (s : Section) : Option Entries :=
  top.change? .header false (fun _ parent =>
    match parent.get? s.key, s.repeated with
    | none, false =>
      (Entries.insertAll? [] s.values).bind fun t => parent.add? s.key (.table .header t)
    | some (.table .path inner), false =>
      (Entries.insertAll? inner s.values).map fun t => parent.set s.key (.table .header t)
    | none, true =>
      (Entries.insertAll? [] s.values).bind fun t => parent.add? s.key (.tables [t])
    | some (.tables all), true =>
      (Entries.insertAll? [] s.values).map fun t => parent.set s.key (.tables (all ++ [t]))
    | _, _ => none) s.path

end Section

/-- The table that values and sections make up. -/
def assemble? (values : List (List String × String × Toml)) (sections : List Section) :
    Option (List (String × Toml)) := do
  let top ← Entries.insertAll? [] values
  let top ← sections.foldlM Section.addTo? top
  some (finishEntries top)

end PageAudit.Toml
