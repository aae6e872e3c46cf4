import RSQLCipher.WriteTable
import RSQLCipher.Library.TwoRuns

namespace RSQLCipher.TemporaryTables

open RSQLCipher.Library RSQLCipher.Values RSQLCipher.Transactions RSQLCipher.AppendTable
open RSQLCipher.ExistsTable RSQLCipher.ImportFile RSQLCipher.WriteTable

variable {ρ : Type}

def tempHas (name : String) (d : Database ρ) : Bool := d.temp.any (Table.named name)

def dropMain (name : String) (d : Database ρ) : Database ρ :=
  { d with main := d.main.filter fun t => !t.named name }

/-- A session in which a temporary table hides a permanent one of its name. -/
def Shadowed (name : String) (main : List (Table ρ)) (s : Session ρ) : Prop :=
  tempHas name s.store.content = true ∧ s.store.content.main = main

section Database

variable {name : String} {d : Database ρ} {f : List (Table ρ) → List (Table ρ)}

end Database

section Steps

variable {faults : Faults ρ} {outside : Outside ρ} {name : String} {main : List (Table ρ)}
  {s : Session ρ}

end Steps

section Returns

variable (faults : Faults ρ) (outside : Outside ρ)

section Import

variable {σ : Type} {target target' : ImportTarget σ} {zTable zFile : String}
  {separator eol : CString}

end Import

end Returns

section Replacing

variable (faults : Faults ρ) (outside : Outside ρ)

end Replacing

/-- The session after the permanent table has been dropped. -/
def dropped (s : Session ρ) (id name : String) : Session ρ :=
  changed (begun s id) (dropMain name s.store.content)
    [.change (.existsTable name), .change (.dropTable name)]

/-- The frame of both methods: a savepoint, the steps, and its release. -/
def written (faults : Faults ρ) (id : String) (steps : R ρ Unit) : R ρ Bool := function do
  dbBegin faults none (some id)
  onExit (some (dbRollback faults none (some id)))
  steps
  dbCommit faults none (some id)
  onExit none
  return true

section Written

variable {faults : Faults ρ} {outside : Outside ρ} {id name : String} {s s' : Session ρ}
  {steps : R ρ Unit}

/-- What is created and filled under a name, whose creation leaves the main schema alone. -/
structure Filling (filling : Faults ρ → R ρ Unit) : Prop where
  main : ∀ faults s, Ends (fun _ s' => s'.store.content.main = s.store.content.main)
    (fun _ _ => True) (filling faults s)
  returns : ∀ faults, ReturnsAs (filling faults) (filling noFaults)

variable {overwrite : Bool} {refused : Raised} {filling : Faults ρ → R ρ Unit}

end Written

/-- The session after the temporary table has been created. -/
def created (s : Session ρ) (id name : String) (fields : List (String × String)) : Session ρ :=
  changed (dropped s id name)
    { dropMain name s.store.content with
      temp := s.store.content.temp ++ [{ name := name, fields := fields, rows := [] }] }
    [.change (.createTable name fields true)]

section Filling

variable {faults : Faults ρ} {outside : Outside ρ} {id name : String} {s s' : Session ρ}

variable {fields : List (String × String)} {create : Faults ρ → R ρ Unit}

end Filling

section Methods

variable {outside : Outside ρ} (hdoc : Documented outside) (s : Session ρ)
include hdoc

end Methods

end RSQLCipher.TemporaryTables
