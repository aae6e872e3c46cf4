import RSQLCipher.KeyText

namespace RSQLCipher.KeyCopy

open RSQLCipher.KeyText

/-- A database that `ATTACH` has added to a connection: the key of its codec, if it has one,
and whether an open transaction has written to it. -/
structure Attached where
  name : String
  file : List Char
  key : Option (List Char)
  locked : Bool
deriving DecidableEq, Repr

/-- A connection, with the copies that `sqlcipher_export` has written, each to a file and
under the key of a codec, if there is one. -/
structure CopyState where
  attached : List Attached
  transacting : Bool
  copies : List (List Char × Option (List Char))
deriving DecidableEq, Repr

def named (name : String) (a : Attached) : Bool := a.name.toLower == name.toLower

/-- How a statement ends besides what SQLite says below: it may fail without effect, and a
condition may be signalled once it has had its effect. -/
inductive StatementEnd where
  | succeeds | fails | signals
deriving DecidableEq, Repr

/-- A statement: what it makes of the connection, unless it fails. Returns whether the
next one is reached. -/
def statement (ending : StatementEnd) (run : CopyState → Option CopyState) (s : CopyState) :
    CopyState × Bool :=
  match ending, run s with
  | .fails, _ => (s, false)
  | _, none => (s, false)
  | .succeeds, some s' => (s', true)
  | .signals, some s' => (s', false)

/-- `ATTACH DATABASE file AS name KEY key`: an empty key attaches no codec. -/
def attachDatabase (file : List Char) (name : String) (key : List Char) (s : CopyState) :
    Option CopyState :=
  if s.attached.any (named name) then none
  else
    let a := { name := name, file := file, key := if key = [] then none else some key,
               locked := false }
    some { s with attached := s.attached ++ [a] }

def sqlcipherExport (name : String) (s : CopyState) : Option CopyState :=
  (s.attached.find? (named name)).map fun a =>
    { s with
      attached := s.attached.map fun b => if named name b then { b with locked := s.transacting }
        else b
      copies := s.copies ++ [(a.file, a.key)] }

/-- `DETACH DATABASE name`: refused while a transaction holds the database. -/
def detachDatabase (name : String) (s : CopyState) : Option CopyState :=
  match s.attached.find? (named name) with
  | none => none
  | some a =>
    if a.locked then none
    else some { s with attached := s.attached.filter fun b => !named name b }

structure CopyEnds where
  attach : StatementEnd
  exported : StatementEnd
  detach : StatementEnd
deriving DecidableEq, Repr

/-- The statements inside `tryCatch`, whose handler takes every condition. -/
def copyDatabase (ends : CopyEnds) (name : String) (key file : List Char) (s : CopyState) :
    CopyState × Bool :=
  let (s, reached) := statement ends.attach (attachDatabase file name key) s
  if reached then
    let (s, reached) := statement ends.exported (sqlcipherExport name) s
    if reached then statement ends.detach (detachDatabase name) s else (s, false)
  else (s, false)

inductive CopyAnswer where
  | raised
  | returned (result : Bool) (file : List Char)
deriving DecidableEq, Repr

def databaseKeyAdd (ends : CopyEnds) (key : RKey) (file : List Char) (s : CopyState) :
    CopyAnswer × CopyState :=
  match keyType key, key with
  | .error _, _ => (.raised, s)
  | .ok none, _ => (.returned false file, s)
  | .ok (some _), .string k =>
    let (s, result) := copyDatabase ends "encrypted" (keyMaterial k) file s
    (.returned result file, s)
  | .ok (some _), _ => (.raised, s)

def databaseKeyRemove (ends : CopyEnds) (file : List Char) (s : CopyState) :
    CopyAnswer × CopyState :=
  let (s, result) := copyDatabase ends "plain" [] file s
  (.returned result file, s)

/-- The three statements run through: none fails or signals, the name is free, and no
transaction is open. -/
def RunsThrough (ends : CopyEnds) (name : String) (s : CopyState) : Prop :=
  ends = { attach := .succeeds, exported := .succeeds, detach := .succeeds } ∧
    s.attached.any (named name) = false ∧ s.transacting = false

instance (ends : CopyEnds) (name : String) (s : CopyState) : Decidable (RunsThrough ends name s) :=
  inferInstanceAs (Decidable (_ ∧ _))

section Spec

variable {ends : CopyEnds} {name : String} {key file : List Char} {s : CopyState}

theorem statement_reached {ending : StatementEnd} {run : CopyState → Option CopyState}
    {s s' : CopyState} :
    statement ending run s = (s', true) ↔ ending = .succeeds ∧ run s = some s' := by
  cases ending with
  | succeeds | fails | signals => cases h : run s <;> simp [statement, h]

theorem find?_append_free {a : Attached} (hfree : s.attached.any (named name) = false)
    (ha : named name a = true) : (s.attached ++ [a]).find? (named name) = some a := by
  have hnone : s.attached.find? (named name) = none := by
    rw [List.find?_eq_none]
    intro b hb hnamed
    rw [List.any_eq_false] at hfree
    exact hfree b hb hnamed
  rw [List.find?_append, hnone]
  simp [ha]

theorem filter_append_free {a : Attached} (hfree : s.attached.any (named name) = false)
    (ha : named name a = true) :
    (s.attached ++ [a]).filter (fun b => !named name b) = s.attached := by
  rw [List.any_eq_false] at hfree
  rw [List.filter_append, List.filter_eq_self.mpr]
  · simp [ha]
  · intro b hb
    simpa using hfree b hb

theorem map_free {f : Attached → Attached} (hfree : s.attached.any (named name) = false) :
    s.attached.map (fun b => if named name b then f b else b) = s.attached := by
  rw [List.any_eq_false] at hfree
  conv_rhs => rw [← List.map_id s.attached]
  refine List.map_congr_left fun b hb => ?_
  rw [if_neg (hfree b hb), id]

theorem named_self (a : Attached) : named a.name a = true := beq_self_eq_true _

def target (file : List Char) (name : String) (key : List Char) (locked : Bool) : Attached where
  name := name
  file := file
  key := if key = [] then none else some key
  locked := locked

theorem attach_free (hfree : s.attached.any (named name) = false) :
    attachDatabase file name key s =
      some { s with attached := s.attached ++ [target file name key false] } := by
  simp [attachDatabase, hfree, target]

theorem attach_used (hused : s.attached.any (named name) = true) :
    attachDatabase file name key s = none := if_pos hused

theorem export_attached (hfree : s.attached.any (named name) = false) :
    sqlcipherExport name { s with attached := s.attached ++ [target file name key false] } =
      some { s with
        attached := s.attached ++ [target file name key s.transacting]
        copies := s.copies ++ [(file, if key = [] then none else some key)] } := by
  have hself : named name (target file name key false) = true := named_self _
  simp only [sqlcipherExport, find?_append_free hfree hself, Option.map_some, List.map_append,
    map_free hfree, List.map_singleton, hself, if_true]
  rfl

theorem detach_attached (hfree : s.attached.any (named name) = false)
    (copies : List (List Char × Option (List Char))) :
    detachDatabase name { s with
        attached := s.attached ++ [target file name key s.transacting]
        copies := copies } =
      if s.transacting then none else some { s with copies := copies } := by
  have hself : named name (target file name key s.transacting) = true := named_self _
  simp only [detachDatabase, find?_append_free hfree hself, filter_append_free hfree hself]
  rfl

theorem copyDatabase_reached (key file : List Char) {s' : CopyState} :
    copyDatabase ends name key file s = (s', true) ↔ RunsThrough ends name s ∧
      s' = { s with copies := s.copies ++ [(file, if key = [] then none else some key)] } := by
  obtain ⟨attach, exported, detach⟩ := ends
  cases hfree : s.attached.any (named name) with
  | true =>
    have hstop : statement attach (attachDatabase file name key) s = (s, false) := by
      cases attach with
      | succeeds | fails | signals => simp only [statement, attach_used hfree]
    simp [copyDatabase, hstop, RunsThrough, hfree]
  | false =>
    cases attach with
    | fails => simp [copyDatabase, statement, RunsThrough]
    | signals => simp [copyDatabase, statement, attach_free hfree, RunsThrough]
    | succeeds =>
      cases exported with
      | fails => simp [copyDatabase, statement, attach_free hfree, RunsThrough]
      | signals =>
        simp [copyDatabase, statement, attach_free hfree, export_attached hfree, RunsThrough]
      | succeeds =>
        have hreach : copyDatabase ⟨.succeeds, .succeeds, detach⟩ name key file s =
            statement detach (detachDatabase name) { s with
              attached := s.attached ++ [target file name key s.transacting]
              copies := s.copies ++ [(file, if key = [] then none else some key)] } := by
          simp only [copyDatabase, statement, attach_free hfree, export_attached hfree, if_true]
        rw [hreach, statement_reached, detach_attached hfree]
        cases htrans : s.transacting with
        | true => simp [RunsThrough, htrans]
        | false => simp [RunsThrough, hfree, htrans, eq_comm]

theorem copyDatabase_not_reached (h : ¬RunsThrough ends name s) :
    (copyDatabase ends name key file s).2 = false := by
  cases hresult : (copyDatabase ends name key file s).2 with
  | false => rfl
  | true =>
    have hreach : copyDatabase ends name key file s =
        ((copyDatabase ends name key file s).1, true) := by
      rw [← hresult]
    exact absurd ((copyDatabase_reached key file).mp hreach).1 h

end Spec

/-- A result of `TRUE` says that the file has a copy that is encrypted with some key. -/
def EncryptedCopy (file : List Char) (s : CopyState) : CopyAnswer × CopyState → Prop
  | (.returned true _, s') => ∃ key, key ≠ [] ∧ s'.copies = s.copies ++ [(file, some key)]
  | _ => True

def emptyString : RString where
  chars := []
  noNul := List.not_mem_nil

theorem keyMaterial_nil {k : RString} (h : keyMaterial k = []) : k = emptyString := by
  obtain ⟨chars, noNul⟩ := k
  by_cases hchars : chars = []
  · subst hchars
    rfl
  · exact absurd h (keyMaterial_ne_nil hchars)

/-- The copy is encrypted whenever the call says so, unless the key is the empty string and
the statements run through. -/
theorem encrypted_copy_iff (ends : CopyEnds) (key : RKey) (file : List Char) (s : CopyState) :
    EncryptedCopy file s (databaseKeyAdd ends key file s) ↔
      ¬(key = .string emptyString ∧ RunsThrough ends "encrypted" s) := by
  cases key with
  | null | na | other | empty | vector => exact iff_of_true trivial (by simp)
  | string k =>
    simp only [databaseKeyAdd, keyType]
    by_cases hruns : RunsThrough ends "encrypted" s
    · have hcopy := (copyDatabase_reached (keyMaterial k) file).mpr ⟨hruns, rfl⟩
      rw [hcopy]
      by_cases hkey : keyMaterial k = []
      · have hempty := keyMaterial_nil hkey
        refine iff_of_false ?_ (by simp [hempty, hruns])
        rintro ⟨key, -, happ⟩
        simp [hkey] at happ
      · refine iff_of_true ⟨keyMaterial k, hkey, by simp [hkey]⟩ ?_
        rintro ⟨hk, -⟩
        cases hk
        exact hkey rfl
    · rw [copyDatabase_not_reached hruns]
      exact iff_of_true trivial (by simp [hruns])

/-- With the empty string as key, the copy is reported as made and is plain. -/
theorem plain_copy_reported :
    ¬∀ (ends : CopyEnds) (key : RKey) (file : List Char) (s : CopyState),
      EncryptedCopy file s (databaseKeyAdd ends key file s) := by
  intro h
  have hcopy := h ⟨.succeeds, .succeeds, .succeeds⟩ (.string emptyString) ['f']
    { attached := [], transacting := false, copies := [] }
  have hrun : databaseKeyAdd ⟨.succeeds, .succeeds, .succeeds⟩ (.string emptyString) ['f']
      { attached := [], transacting := false, copies := [] } =
        (.returned true ['f'],
          { attached := [], transacting := false, copies := [(['f'], none)] }) := by
    decide +kernel
  rw [hrun] at hcopy
  obtain ⟨key, -, hcopies⟩ := hcopy
  cases hcopies

end RSQLCipher.KeyCopy
