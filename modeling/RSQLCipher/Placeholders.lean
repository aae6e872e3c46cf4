import RSQLCipher.ResultImpl
import Mathlib.Data.List.Dedup

namespace RSQLCipher.Placeholders

open RSQLCipher.Library RSQLCipher.Statement RSQLCipher.Params RSQLCipher.ResultImpl

inductive Sigil where
  | question | colon | at | dollar
deriving DecidableEq, Repr

def Sigil.char : Sigil → Char
  | .question => '?'
  | .colon => ':'
  | .at => '@'
  | .dollar => '$'

def digitsValue (text : String) : Nat :=
  text.toList.foldl (fun n c => 10 * n + (c.toNat - '0'.toNat)) 0

/-- A placeholder as it stands in a query: only the question mark may be without a text, and
only digits, of a positive number, may follow it. -/
structure Placeholder where
  sigil : Sigil
  text : String
  wellFormed : if sigil = .question then text ≠ "" → text.toList.all Char.isDigit ∧
    0 < digitsValue text else text ≠ ""
deriving DecidableEq

/-- The part of SQLite's parser that numbers parameters: how many there are, and the
names that have been added, with their numbers. -/
structure Variables where
  nVar : Nat
  vlist : List (Nat × Placeholder)

def noVariables : Variables where
  nVar := 0
  vlist := []

def Variables.add (v : Variables) (x : Nat) (p : Placeholder) : Variables :=
  { nVar := max v.nVar x, vlist := v.vlist ++ [(x, p)] }

/-- `sqlite3VListNumToName`. -/
def Variables.numToName (v : Variables) (x : Nat) : Option Placeholder :=
  (v.vlist.find? fun e => e.1 == x).map Prod.snd

/-- `sqlite3VListNameToNum`. -/
def Variables.nameToNum (v : Variables) (p : Placeholder) : Option Nat :=
  (v.vlist.find? fun e => e.2 == p).map Prod.fst

/-- `sqlite3ExprAssignVarNumber`: the number of a placeholder, and the variables after it. -/
def assignVarNumber (v : Variables) (p : Placeholder) : Nat × Variables :=
  if p.text = "" then (v.nVar + 1, { v with nVar := v.nVar + 1 })
  else if p.sigil = .question then
    let x := digitsValue p.text
    if v.nVar < x ∨ v.numToName x = none then (x, v.add x p) else (x, v)
  else
    match v.nameToNum p with
    | some x => (x, v)
    | none => (v.nVar + 1, v.add (v.nVar + 1) p)

def numbered (query : List Placeholder) : Variables :=
  query.foldl (fun v p => (assignVarNumber v p).2) noVariables

/-- The number of the placeholder that follows others. -/
def numberOf (before : List Placeholder) (p : Placeholder) : Nat :=
  (assignVarNumber (numbered before) p).1

/-- `sqlite3_bind_parameter_name` for all parameters. -/
def parameterNames (query : List Placeholder) : List (Option String) :=
  (List.range (numbered query).nVar).map fun i =>
    ((numbered query).numToName (i + 1)).map fun p => String.ofList (p.sigil.char :: p.text.toList)

def placeholderNames (query : List Placeholder) : List String :=
  (List.range (numbered query).nVar).map fun i =>
    (((numbered query).numToName (i + 1)).map Placeholder.text).getD ""

/-- `^[1-9][0-9]*$` -/
def isNumber (text : String) : Bool :=
  match text.toList with
  | [] => false
  | c :: cs => c.isDigit && c ≠ '0' && cs.all Char.isDigit

/-- A list of R with its names, which it may be without. -/
structure RList (α : Type) where
  values : List α
  names : Option (List String)
  sameLength : ∀ ns, names = some ns → ns.length = values.length

variable {α : Type}

/-- `params[[name]]` -/
def RList.get (params : RList α) (name : String) : Option α :=
  ((params.names.getD []).idxOf? name).bind fun i => params.values[i]?

/-- `match(placeholder_names, names(params))`, if no element is missing. -/
def paramIndexes (names : List String) (params : RList α) : Option (List Nat) :=
  names.mapM fun name => (params.names.getD []).idxOf? name

def missing (names : List String) (params : RList α) : List String :=
  names.filter fun name => ((params.names.getD []).idxOf? name).isNone

/-- `names(params)[setdiff(seq_along(params), param_indexes)]` -/
def unmatched (params : RList α) (indexes : List Nat) : List Nat :=
  (List.range params.values.length).filter fun i => !indexes.contains i

def unusedMessage (params : RList α) (unused : List Nat) : String :=
  "Named parameters not used in query: " ++
    String.intercalate ", " (unused.filterMap fun i => (params.names.getD [])[i]?)

def bindNamed (asText : α → α) (placeholderNames : List String) (allowNamedSuperset : Bool)
    (params : RList α) : Except String (List α × List String) :=
  match paramIndexes placeholderNames params with
  | none => .error ("No value given for placeholder " ++
      String.intercalate ", " (missing placeholderNames params))
  | some indexes =>
    let unused := unmatched params indexes
    if unused ≠ [] && !allowNamedSuperset then .error (unusedMessage params unused)
    else
      .ok ((indexes.filterMap fun i => params.values[i]?).map asText,
        if unused = [] then [] else [unusedMessage params unused])

/-- `db_bind` up to the call of `result_bind`: the list that this is given, and the warnings.
`asText` is what is made of factors and strings. -/
def dbBind (asText : α → α) (placeholderNames : List String) (allowNamedSuperset : Bool)
    (params : RList α) : Except String (List α × List String) :=
  let empty := placeholderNames.map (· == "")
  let numbers := placeholderNames.map isNumber
  if empty.any id && !empty.all id then
    .error "Cannot mix anonymous and named/numbered placeholders in query"
  else if numbers.any id && !numbers.all id then
    .error "Cannot mix numbered and named placeholders in query"
  else if empty.any id || numbers.any id then
    if params.names.isSome || (params.names.getD []).any (· ≠ "") then
      .error "Cannot use named parameters for anonymous/numbered placeholders"
    else .ok (params.values.map asText, [])
  else
    bindNamed asText placeholderNames allowNamedSuperset params

/-- `dbBind`, with the call of `result_bind`. -/
def dbBindResult {σ : Type} (env : Environment) (asText : Param → Param)
    (allowNamedSuperset : Bool) (params : RList Param) : ResultM σ (List String) := do
  let r ← get
  match dbBind asText r.getPlaceholderNames allowNamedSuperset params with
  | .error message => throw (.stop message)
  | .ok (params, warnings) =>
    SqliteResult.dbBind env params
    return warnings

section Results

variable {σ : Type} {env : Environment} {asText : Param → Param} {allowNamedSuperset : Bool}
  {params : RList Param} {r : SqliteResult σ}

theorem dbBindResult_error {message : String}
    (h : dbBind asText r.getPlaceholderNames allowNamedSuperset params = .error message) :
    dbBindResult env asText allowNamedSuperset params r = .error (.stop message) r := by
  simp [dbBindResult, h]

theorem dbBindResult_ok {bound : List Param} {warnings : List String}
    (h : dbBind asText r.getPlaceholderNames allowNamedSuperset params = .ok (bound, warnings)) :
    dbBindResult env asText allowNamedSuperset params r =
      (do
        SqliteResult.dbBind env bound
        return warnings : ResultM σ (List String)) r := by
  simp [dbBindResult, h]

end Results

end RSQLCipher.Placeholders
