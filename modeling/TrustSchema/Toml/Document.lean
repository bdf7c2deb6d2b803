import TrustSchema.Toml.Value

/-!
Building a document from its statements. Headers and keys of several parts create tables on their
way; what they may go through and add to depends on how a table came to be. No key is defined
twice.
-/

namespace TrustSchema.Toml

/-- A line of a document that says something. -/
inductive Statement where
  /-- The header of a table. -/
  | table (path : List Text)
  /-- The header of another table of an array. -/
  | element (path : List Text)
  | assign (path : List Text) (value : Value)
  deriving Repr

/-- Changes the table at the end of a path. Tables that are missing on the way are created; of an
array of tables the last one is meant. A key of several parts goes through no table that has a
header. -/
def Fields.update (byKey : Bool) (change : Origin → Fields → Except Fault Value) :
    List Text → Origin → Fields → Except Fault Value
  | [], origin, fields => change origin fields
  | key :: path, origin, fields =>
    let created := if byKey then Origin.dotted else Origin.implied
    match fields.get? key with
    | none => do
      return .table origin (fields.set key (← update byKey change path created []))
    | some (.table inner nested) =>
      if inner = .inline then .error (.notTable key)
      else if byKey ∧ inner = .header then .error (.duplicate key)
      else do return .table origin (fields.set key (← update byKey change path inner nested))
    | some (.array true items) =>
      match items.getLast? with
      | some (.table inner nested) => do
        let last ← update byKey change path inner nested
        return .table origin (fields.set key (.array true (items.dropLast ++ [last])))
      | _ => .error (.notTable key)
    | some _ => .error (.notTable key)

/-- Adds a field that is not there yet. -/
def addField (key : Text) (value : Value) (origin : Origin) (fields : Fields) :
    Except Fault Value :=
  match fields.get? key with
  | none => .ok (.table origin (fields.set key value))
  | some _ => .error (.duplicate key)

/-- Assigns a value to a key. A key of several parts ends in a table that such keys have made. -/
def assign (path : List Text) (value : Value) (origin : Origin) (fields : Fields) :
    Except Fault Value :=
  match path.getLast? with
  | none => .error .badKey
  | some key =>
    let around := path.dropLast
    Fields.update true
      (fun origin fields =>
        if (origin = .dotted) ↔ around = [] then .error (.duplicate key)
        else addField key value origin fields)
      around origin fields

/-- Creates the table of a header, or gives one that is implied its header. -/
def declareTable (key : Text) (origin : Origin) (fields : Fields) : Except Fault Value :=
  match fields.get? key with
  | none => .ok (.table origin (fields.set key (.table .header [])))
  | some (.table .implied nested) => .ok (.table origin (fields.set key (.table .header nested)))
  | some _ => .error (.duplicate key)

/-- Adds an empty table to an array of tables. -/
def addElement (key : Text) (origin : Origin) (fields : Fields) : Except Fault Value :=
  match fields.get? key with
  | none => .ok (.table origin (fields.set key (.array true [.table .header []])))
  | some (.array true items) =>
    .ok (.table origin (fields.set key (.array true (items ++ [.table .header []]))))
  | some _ => .error (.duplicate key)

/-- Applies a change to the parent of the table that a header names. -/
def atParent (path : List Text) (change : Text → Origin → Fields → Except Fault Value)
    (fields : Fields) : Except Fault Value :=
  match path.getLast? with
  | none => .error .badHeader
  | some key => Fields.update false (change key) path.dropLast .header fields

/-- What is known after some statements: the fields of the document, and the path of the last
header. -/
structure Builder where
  fields : Fields
  current : List Text
  deriving Repr

namespace Builder

/-- Nothing read yet. -/
def start : Builder := ⟨[], []⟩

/-- The builder with a changed document and a path for the assignments that follow. -/
def withDocument (current : List Text) : Value → Except Fault Builder
  | .table _ fields => .ok ⟨fields, current⟩
  | _ => .error .badHeader

/-- One statement more. -/
def step (b : Builder) : Statement → Except Fault Builder
  | .table path => do withDocument path (← atParent path declareTable b.fields)
  | .element path => do withDocument path (← atParent path addElement b.fields)
  | .assign path value => do
    withDocument b.current
      (← Fields.update false (assign path value) b.current .header b.fields)

end Builder

/-- The fields of the document that a sequence of statements writes. -/
def ofStatements? (statements : List Statement) : Except Fault Fields := do
  return (← statements.foldlM Builder.step Builder.start).fields

/-- The inline table that a sequence of assignments writes. -/
def inlineTable? (fields : List (List Text × Value)) : Except Fault Value :=
  fields.foldlM
    (fun
      | .table origin before, (path, value) => assign path value origin before
      | _, _ => .error .unclosedTable)
    (.table .inline [])

end TrustSchema.Toml
