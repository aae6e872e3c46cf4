import RSQLCipher.Library.OnExit
import RSQLCipher.Library.Savepoints
import Mathlib.Data.String.Basic

namespace RSQLCipher.Transactions

open RSQLCipher.Library

variable {ρ : Type}

structure Table (ρ : Type) where
  name : String
  fields : List (String × String)
  rows : List ρ
deriving DecidableEq, Repr

structure Database (ρ : Type) where
  temp : List (Table ρ)
  main : List (Table ρ)
deriving DecidableEq, Repr

def Table.named (name : String) (t : Table ρ) : Bool := t.name.toLower == name.toLower

def Database.has (name : String) (d : Database ρ) : Bool :=
  d.temp.any (Table.named name) || d.main.any (Table.named name)

/-- A temporary table hides another one of its name. -/
def Database.change (name : String) (f : List (Table ρ) → List (Table ρ)) (d : Database ρ) :
    Database ρ :=
  if d.temp.any (Table.named name) then { d with temp := f d.temp } else { d with main := f d.main }

def addRows (name : String) (rows : List ρ) (l : List (Table ρ)) : List (Table ρ) :=
  l.map fun t => if t.named name then { t with rows := t.rows ++ rows } else t

def Database.addRows (name : String) (rows : List ρ) (d : Database ρ) : Database ρ :=
  d.change name (Transactions.addRows name rows)

def Database.fields (name : String) (d : Database ρ) : Option (List (String × String)) :=
  (d.temp.find? (Table.named name) <|> d.main.find? (Table.named name)).map Table.fields

inductive Change (ρ : Type) where
  | existsTable (name : String)
  | listFields (name : String)
  | dropTable (name : String)
  | createTable (name : String) (fields : List (String × String)) (temporary : Bool)
  | prepareInsert (name : String)
  | insert (name : String) (row : ρ)
deriving DecidableEq, Repr

def Change.run (d : Database ρ) : Change ρ → Option (Database ρ)
  | .existsTable _ => some d
  | .listFields name => if d.has name then some d else none
  | .dropTable name =>
    if d.has name then some (d.change name (List.filter fun t => !t.named name)) else none
  | .createTable name fields temporary =>
    let t := { name := name, fields := fields, rows := [] }
    if temporary then
      if d.temp.any (Table.named name) then none else some { d with temp := d.temp ++ [t] }
    else if d.main.any (Table.named name) then none else some { d with main := d.main ++ [t] }
  | .prepareInsert name => if d.has name then some d else none
  | .insert name row => if d.has name then some (d.addRows name [row]) else none

inductive Statement (ρ : Type) where
  | begin | commit | rollback
  | savepoint (name : String)
  | release (name : String)
  | rollbackTo (name : String)
  | change (c : Change ρ)
deriving DecidableEq, Repr

/-- SQLite compares the names of savepoints without case, so they are kept folded. -/
def exec (store : Store String (Database ρ)) : Statement ρ → Option (Store String (Database ρ))
  | .begin => store.begin
  | .commit => store.commit
  | .rollback => store.rollback
  | .savepoint name => some (store.savepoint name.toLower)
  | .release name => store.release name.toLower
  | .rollbackTo name => store.rollbackTo name.toLower
  | .change c => (c.run store.content).map fun content => { store with content := content }

/-- Which statements fail, without effect: any but a rollback to a savepoint, and the
release that follows it. -/
structure Faults (ρ : Type) where
  fails : List (Statement ρ) → Statement ρ → Bool
  rollbackTo : ∀ history name, fails history (.rollbackTo name) = false
  releaseAfter : ∀ history name, fails (.rollbackTo name :: history) (.release name) = false

/-- SQLite when no statement fails without a reason in the database. -/
def noFaults : Faults ρ where
  fails _ _ := false
  rollbackTo _ _ := rfl
  releaseAfter _ _ := rfl

structure Session (ρ : Type) where
  store : Store String (Database ρ)
  history : List (Statement ρ)
deriving DecidableEq, Repr

/-- An R error, of the package, of SQLite or of another function that is called; or an
operation of C that is left undefined. -/
inductive Raised where
  | stop (message : String)
  | sqlite
  | called
  | undefined
deriving DecidableEq, Repr

abbrev R (ρ : Type) := EStateM Raised (Session ρ)

variable (faults : Faults ρ)

def dbExecute (stmt : Statement ρ) : R ρ Unit := fun s =>
  if faults.fails s.history stmt then .error .sqlite s
  else
    match exec s.store stmt with
    | none => .error .sqlite s
    | some store => .ok () { store := store, history := stmt :: s.history }

def compatName (name dotName : Option String) : Option String := dotName <|> name

def dbBegin (dotName name : Option String) : R ρ Unit :=
  match compatName name dotName with
  | none => dbExecute faults .begin
  | some name => dbExecute faults (.savepoint name)

def dbCommit (dotName name : Option String) : R ρ Unit :=
  match compatName name dotName with
  | none => dbExecute faults .commit
  | some name => dbExecute faults (.release name)

def dbRollback (dotName name : Option String) : R ρ Unit :=
  match compatName name dotName with
  | none => dbExecute faults .rollback
  | some name => do
    dbExecute faults (.rollbackTo name)
    dbExecute faults (.release name)

def sqliteIsTransacting (s : Session ρ) : Bool := s.store.inTransaction

/-- The process id, and the letters that have been drawn. -/
structure Draw where
  pid : Nat
  letters : String
deriving DecidableEq, Repr

def getSavepointId (name : String) (draw : Draw) : String :=
  name ++ "_" ++ toString draw.pid ++ "_" ++ draw.letters

section Spec

variable {faults} {s : Session ρ} {base : Store String (Database ρ)} {name : String}

theorem dbBegin_named (faults : Faults ρ) (name : String) :
    dbBegin faults none (some name) = dbExecute faults (.savepoint name) := rfl

theorem dbCommit_named (faults : Faults ρ) (name : String) :
    dbCommit faults none (some name) = dbExecute faults (.release name) := rfl

theorem dbRollback_named (faults : Faults ρ) (name : String) :
    dbRollback faults none (some name) = (do
      dbExecute faults (.rollbackTo name)
      dbExecute faults (.release name)) := rfl

theorem dbExecute_cases (faults : Faults ρ) (stmt : Statement ρ) (s : Session ρ) :
    (∃ store, faults.fails s.history stmt = false ∧ exec s.store stmt = some store ∧
      dbExecute faults stmt s = .ok () { store := store, history := stmt :: s.history }) ∨
    ((faults.fails s.history stmt = true ∨ exec s.store stmt = none) ∧
      dbExecute faults stmt s = .error .sqlite s) := by
  cases hfails : faults.fails s.history stmt with
  | true => exact .inr ⟨.inl rfl, if_pos hfails⟩
  | false =>
    cases hexec : exec s.store stmt with
    | none => exact .inr ⟨.inr rfl, by simp [dbExecute, hfails, hexec]⟩
    | some store => exact .inl ⟨store, rfl, rfl, by simp [dbExecute, hfails, hexec]⟩

theorem keeps_dbExecute {inv : Session ρ → Prop} {stmt : Statement ρ}
    (h : ∀ s store, inv s → exec s.store stmt = some store →
      inv { store := store, history := stmt :: s.history }) :
    Keeps inv (dbExecute faults stmt) := by
  intro s hs
  obtain ⟨store, -, hexec, hrun⟩ | ⟨-, hrun⟩ := dbExecute_cases faults stmt s
  · rw [hrun]
    exact h s store hs hexec
  · rw [hrun]
    exact hs

/-- A rollback undoes all that was done inside of its savepoint. -/
theorem dbRollback_inside (h : Inside name.toLower base s.store) :
    dbRollback faults none (some name) s =
      .ok () { store := base, history := .release name :: .rollbackTo name :: s.history } := by
  have hto : dbExecute faults (.rollbackTo name) s =
      .ok () { store := base.savepoint name.toLower, history := .rollbackTo name :: s.history } := by
    simp [dbExecute, faults.rollbackTo, exec, h.rollbackTo]
  rw [dbRollback_named]
  simp only [bind_apply, hto]
  simp [dbExecute, faults.releaseAfter, exec]

theorem keeps_change (name : String) (base : Store String (Database ρ)) (c : Change ρ) :
    Keeps (fun s : Session ρ => Inside name base s.store) (dbExecute faults (.change c)) := by
  apply keeps_dbExecute
  intro s store hs hexec
  rw [exec, Option.map_eq_some_iff] at hexec
  obtain ⟨content, -, rfl⟩ := hexec
  exact hs.content content

end Spec

end RSQLCipher.Transactions
