import Mathlib.Logic.Function.Basic
import Mathlib.Data.List.Basic

namespace TrustlistCore.Library.Relational

-- A row as the values of its columns; NULL is none.
abbrev Row (Column Cell : Type) : Type :=
  Column → Option Cell

-- The values of some columns, unless one of them is NULL.
def project {Column Cell : Type} (columns : List Column) (row : Row Column Cell) :
    Option (List Cell) :=
  columns.mapM row

structure ColumnDefinition (Column Cell Environment : Type) where
  column : Column
  admits : Cell → Bool
  nullable : Bool
  default : Environment → Option Cell

-- A CHECK holds where its condition is true or NULL.
structure Check (Column Cell : Type) where
  name : String
  holds : Row Column Cell → Bool

-- A primary key or a unique constraint.
structure Key (Column : Type) where
  name : String
  columns : List Column

-- With the default match and the default action.
structure ForeignKey (Table Column : Type) where
  name : String
  columns : List Column
  references : Table
  key : List Column

structure Definition (Table Column Cell Environment : Type) where
  columns : List (ColumnDefinition Column Cell Environment)
  checks : List (Check Column Cell)
  keys : List (Key Column)
  foreignKeys : List (ForeignKey Table Column)

-- The tables, and that what a foreign key references is a key.
structure Schema (Table Column Cell Environment : Type) where
  tables : List Table
  define : Table → Definition Table Column Cell Environment
  complete : ∀ table, table ∈ tables
  references_key : ∀ table, ∀ foreignKey ∈ (define table).foreignKeys,
    ∃ key ∈ (define foreignKey.references).keys, key.columns = foreignKey.key

-- The rows of every table, in the order of their insertion.
abbrev Store (Table Column Cell : Type) : Type :=
  Table → List (Row Column Cell)

def Store.empty {Table Column Cell : Type} : Store Table Column Cell :=
  fun _ => []

inductive Privilege
  | select
  | insert
  | update
  | delete
  deriving DecidableEq

inductive Refusal (Table Column : Type)
  | permissionDenied (table : Table)
  | notNullViolation (column : Column)
  | dataTypeMismatch (column : Column)
  | checkViolation (name : String)
  | uniqueViolation (name : String)
  | foreignKeyViolation (name : String)
  deriving DecidableEq

-- An INSERT names some columns, and gives each of them a value or NULL.
inductive Statement (Table Column Cell Environment : Type)
  | insert (table : Table) (values : Column → Option (Option Cell)) (environment : Environment)
  | update (table : Table) (selects : Row Column Cell → Bool)
      (set : Row Column Cell → Row Column Cell)
  | delete (table : Table) (selects : Row Column Cell → Bool)

section Execute

variable {Table Column Cell Environment : Type}

def ColumnDefinition.refusal (definition : ColumnDefinition Column Cell Environment)
    (row : Row Column Cell) : Option (Refusal Table Column) :=
  match row definition.column with
  | none => if definition.nullable then none else some (.notNullViolation definition.column)
  | some cell => if definition.admits cell then none else some (.dataTypeMismatch definition.column)

def Check.refusal (check : Check Column Cell) (row : Row Column Cell) :
    Option (Refusal Table Column) :=
  if check.holds row then none else some (.checkViolation check.name)

-- A row that has NULL in a key is the duplicate of none.
def Key.refusal [DecidableEq Cell] (key : Key Column) (others : List (Row Column Cell))
    (row : Row Column Cell) : Option (Refusal Table Column) :=
  match project key.columns row with
  | none => none
  | some cells =>
      if others.any fun other => project key.columns other = some cells then
        some (.uniqueViolation key.name)
      else
        none

-- The row in its table, beside the other rows.
def Definition.refusal [DecidableEq Cell] (definition : Definition Table Column Cell Environment)
    (others : List (Row Column Cell)) (row : Row Column Cell) : Option (Refusal Table Column) :=
  ((definition.columns.findSome? fun column => column.refusal row).or
    (definition.checks.findSome? fun check => check.refusal row)).or
      (definition.keys.findSome? fun key => key.refusal others row)

-- The row that an INSERT makes.
def Definition.fill [DecidableEq Column] (definition : Definition Table Column Cell Environment)
    (values : Column → Option (Option Cell)) (environment : Environment) : Row Column Cell :=
  fun column =>
    match definition.columns.find? fun known => known.column = column with
    | none => none
    | some known => (values column).getD (known.default environment)

-- Row after row, as a constraint that is not deferred is checked.
def updateRows [DecidableEq Cell] (definition : Definition Table Column Cell Environment)
    (selects : Row Column Cell → Bool) (set : Row Column Cell → Row Column Cell) :
    List (Row Column Cell) → List (Row Column Cell) →
      Except (Refusal Table Column) (List (Row Column Cell))
  | done, [] => .ok done
  | done, row :: rest =>
      if selects row then
        match definition.refusal (done ++ rest) (set row) with
        | some refusal => .error refusal
        | none => updateRows definition selects set (done ++ [set row]) rest
      else
        updateRows definition selects set (done ++ [row]) rest

def ForeignKey.resolves [DecidableEq Cell] (foreignKey : ForeignKey Table Column)
    (store : Store Table Column Cell) (row : Row Column Cell) : Bool :=
  match project foreignKey.columns row with
  | none => true
  | some cells => (store foreignKey.references).any fun target =>
      project foreignKey.key target = some cells

variable [DecidableEq Table] [DecidableEq Column] [DecidableEq Cell]
variable (schema : Schema Table Column Cell Environment)

-- The references of the rows that a statement wrote.
def dangling (next : Store Table Column Cell) (table : Table) (written : List (Row Column Cell)) :
    Option (Refusal Table Column) :=
  (schema.define table).foreignKeys.findSome? fun foreignKey =>
    if written.all (foreignKey.resolves next) then none
    else some (.foreignKeyViolation foreignKey.name)

-- The references to the rows that a statement took away: where no row has the key any more,
-- none may refer to it.
def orphaned (next : Store Table Column Cell) (table : Table) (removed : List (Row Column Cell)) :
    Option (Refusal Table Column) :=
  schema.tables.findSome? fun other =>
    (schema.define other).foreignKeys.findSome? fun foreignKey =>
      if foreignKey.references = table ∧ removed.any (fun row =>
          ¬ ((next table).any fun kept =>
              project foreignKey.key kept = project foreignKey.key row) ∧
            (next other).any fun referring =>
              (project foreignKey.columns referring).isSome ∧
                project foreignKey.columns referring = project foreignKey.key row) then
        some (.foreignKeyViolation foreignKey.name)
      else
        none

def orRefuse {A : Type} (refusal : Option (Refusal Table Column)) (value : A) :
    Except (Refusal Table Column) A :=
  match refusal with
  | some refusal => .error refusal
  | none => .ok value

def execute (store : Store Table Column Cell) :
    Statement Table Column Cell Environment →
      Except (Refusal Table Column) (Store Table Column Cell)
  | .insert table values environment => do
      let row := (schema.define table).fill values environment
      orRefuse ((schema.define table).refusal (store table) row) ()
      let next := Function.update store table (store table ++ [row])
      orRefuse (dangling schema next table [row]) next
  | .update table selects set => do
      let rows ← updateRows (schema.define table) selects set [] (store table)
      let next := Function.update store table rows
      let selected := (store table).filter selects
      orRefuse (dangling schema next table (selected.map set)) ()
      orRefuse (orphaned schema next table selected) next
  | .delete table selects =>
      let next := Function.update store table ((store table).filter fun row => ¬ selects row)
      orRefuse (orphaned schema next table ((store table).filter selects)) next

end Execute

section Role

variable {Table Column Cell Environment : Type}

-- To choose the rows of an UPDATE or a DELETE is to read them.
def Statement.privileges : Statement Table Column Cell Environment → List (Privilege × Table)
  | .insert table _ _ => [(.insert, table)]
  | .update table _ _ => [(.update, table), (.select, table)]
  | .delete table _ => [(.delete, table), (.select, table)]

def Statement.table : Statement Table Column Cell Environment → Table
  | .insert table _ _ => table
  | .update table _ _ => table
  | .delete table _ => table

variable [DecidableEq Table] [DecidableEq Column] [DecidableEq Cell]
variable (schema : Schema Table Column Cell Environment) (granted : List (Privilege × Table))

-- A statement of a role that has these privileges.
def submit (store : Store Table Column Cell) (statement : Statement Table Column Cell Environment) :
    Except (Refusal Table Column) (Store Table Column Cell) :=
  if statement.privileges.all fun privilege => granted.contains privilege then
    execute schema store statement
  else
    .error (.permissionDenied statement.table)

-- A transaction, which a refusal rolls back.
def transact (store : Store Table Column Cell)
    (statements : List (Statement Table Column Cell Environment)) :
    Except (Refusal Table Column) Unit × Store Table Column Cell :=
  match statements.foldlM (submit schema granted) store with
  | .ok next => (.ok (), next)
  | .error refusal => (.error refusal, store)

end Role

end TrustlistCore.Library.Relational
