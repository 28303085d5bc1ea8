import TabletDelta.Arena
import TabletDelta.ChangeList.Text

/-!
# Delta stores

A store keeps the change lists of the rows of one schema, each under its row and its transaction,
in key order. Entries are only ever added: a transaction that changes a row again adds an entry of
its own, so a reader with an older snapshot goes on reading the older values. Change lists are
checked when they are stored, and their bytes are copied to memory from the store's arena.
-/

namespace TabletDelta

/-- A change list under its key. -/
structure Entry where
  /-- The row changed, and the transaction that changed it. -/
  key : Key
  /-- The bytes of the change list. -/
  changes : Bytes
deriving DecidableEq, Repr

/-- The list with an entry put in front of the first one with a larger key. -/
def insertEntry (e : Entry) : List Entry → List Entry
  | [] => [e]
  | f :: fs => if e.key < f.key then e :: f :: fs else f :: insertEntry e fs

/-- Puts an entry in its place, unless there is one under its key, which then stays. Answers with
the entry that has stayed. -/
def getOrInsert (e : Entry) (entries : List Entry) : Option Entry × List Entry :=
  match entries.find? (·.key = e.key) with
  | some old => (some old, entries)
  | none => (none, insertEntry e entries)

/-- A collection of change lists for the rows of one schema. -/
structure Store where
  /-- The schema that all change lists are written against. -/
  schema : Schema
  /-- The entries, in key order. -/
  entries : List Entry
  /-- The memory that holds the change lists. -/
  arena : Arena
  /-- The number of entries added, which is counted apart from the entries. -/
  added : Nat
deriving DecidableEq

namespace Store

/-- A store without entries. -/
def empty (schema : Schema) (config : ArenaConfig) : Store := ⟨schema, [], .ofConfig config, 0⟩

/-- Whether there is an entry under a key. -/
def contains (s : Store) (key : Key) : Bool := s.entries.any (·.key = key)

/-- Puts the copy of a change list under its key and counts it. The copy is lost, and not counted,
if there is an entry under the key, which only another update can have put there since this one has
looked for the key. -/
def insertCopy (s : Store) (key : Key) (copy : Bytes) : Outcome Store Unit :=
  match getOrInsert ⟨key, copy⟩ s.entries with
  | (some _, entries) => .fail (.duplicateDelta key) { s with entries }
  | (none, entries) => .ok () { s with entries, added := s.added + 1 }

/-- Adds a change list under the key of its row and its transaction. The list must not be empty, it
must be well-formed, its key must be new, and the arena must have room for it; the first of these
that fails is the one reported. -/
def update (s : Store) (key : Key) (changes : Bytes) : Outcome Store Unit :=
  if changes.isEmpty then .fail (.encoding .emptyChangeList) s
  else
    match ChangeList.validate s.schema changes with
    | .error fault => .fail (.corruption fault) s
    | .ok _ =>
      if s.contains key then .fail (.duplicateDelta key) s
      else
        match s.arena.copy changes with
        | ⟨.error e, arena⟩ => .fail e { s with arena }
        | ⟨.ok copy, arena⟩ => { s with arena }.insertCopy key copy

/-- The number of entries. -/
def count (s : Store) : Nat := s.added

/-- Whether there is no entry. -/
def isEmpty (s : Store) : Bool := s.count = 0

/-- The bytes reserved for change lists. -/
def footprint (s : Store) : Nat := s.arena.reserved

/-- The entries of the rows from `start` up to, but not including, `stop`. The entries are in key
order, so these are consecutive. -/
def range (s : Store) (start stop : Nat) : List Entry :=
  (s.entries.dropWhile (·.key.row.toNat < start)).takeWhile (·.key.row.toNat < stop)

/-- The entries as text, one line for each, in key order. -/
def dump (s : Store) : List String :=
  s.entries.map fun e => ChangeList.deltaText s.schema e.key e.changes

end Store

end TabletDelta
