import RSQLCipher.KeyCopy
import RSQLCipher.Library.Runs

namespace RSQLCipher.KeyAttached

open RSQLCipher.Library RSQLCipher.KeyText RSQLCipher.KeyCopy

inductive KeyCall where
  | add (key : RKey) (file : List Char) (ends : CopyEnds)
  | remove (file : List Char) (ends : CopyEnds)
deriving DecidableEq

def perform : KeyCall → CopyState → CopyAnswer × CopyState
  | .add key file ends, s => databaseKeyAdd ends key file s
  | .remove file ends, s => databaseKeyRemove ends file s

def next (s : CopyState) (c : KeyCall) : CopyState := (perform c s).2

/-- What `PRAGMA database_list` shows of the databases that were attached. -/
def databases (s : CopyState) : List (String × List Char) :=
  s.attached.map fun a => (a.name, a.file)

/-- A call leaves the set of attached databases as it was, and with it the answer of every
call made after it. -/
structure LeavesAttached (s : CopyState) (c : KeyCall) : Prop where
  same : ∀ d, d ∈ databases (next s c) ↔ d ∈ databases s
  later : ∀ c', (perform c' (next s c)).1 = (perform c' s).1

/-- `ATTACH` has no effect, or it runs through, the export does too, no transaction is open
and `DETACH` does not fail. -/
def Detaches (ends : CopyEnds) (name : String) (s : CopyState) : Prop :=
  (ends.attach = .fails ∨ s.attached.any (named name) = true) ∨
    ends.attach = .succeeds ∧ ends.exported = .succeeds ∧ ends.detach ≠ .fails ∧
      s.transacting = false

instance (ends : CopyEnds) (name : String) (s : CopyState) : Decidable (Detaches ends name s) :=
  inferInstanceAs (Decidable (_ ∨ _))

def CleansUp (s : CopyState) : KeyCall → Prop
  | .add (.string _) _ ends => Detaches ends "encrypted" s
  | .add _ _ _ => True
  | .remove _ ends => Detaches ends "plain" s

section Spec

variable {ends : CopyEnds} {name : String} {key file : List Char} {s s' : CopyState}

theorem statement_stopped {run : CopyState → Option CopyState} (h : run s = none)
    (ending : StatementEnd) : statement ending run s = (s, false) := by
  cases ending with
  | succeeds | fails | signals => simp only [statement, h]

theorem copyDatabase_detaches (h : Detaches ends name s) :
    (copyDatabase ends name key file s).1.attached = s.attached := by
  obtain ⟨attach, exported, detach⟩ := ends
  cases hfree : s.attached.any (named name) with
  | true =>
    rw [copyDatabase, statement_stopped (attach_used hfree)]
    rfl
  | false =>
    obtain (rfl | hused) | ⟨rfl, rfl, hdetach, htrans⟩ := h
    · rfl
    · rw [hfree] at hused
      cases hused
    · simp only at hdetach
      simp only [copyDatabase, statement, attach_free hfree, export_attached hfree, if_true]
      cases detach with
      | fails => exact absurd rfl hdetach
      | succeeds | signals => rw [detach_attached hfree, htrans]; rfl

variable (key file) in
theorem copyDatabase_leaves (h : ¬Detaches ends name s) :
    s.attached.any (named name) = false ∧ ∃ locked,
      (copyDatabase ends name key file s).1.attached =
        s.attached ++ [target file name key locked] := by
  obtain ⟨attach, exported, detach⟩ := ends
  simp only [Detaches, not_or, Bool.not_eq_true] at h
  obtain ⟨⟨hattach, hfree⟩, hlater⟩ := h
  refine ⟨hfree, ?_⟩
  cases attach with
  | fails => exact absurd rfl hattach
  | signals =>
    refine ⟨false, ?_⟩
    simp only [copyDatabase, statement, attach_free hfree, if_false, Bool.false_eq_true]
  | succeeds =>
    cases exported with
    | fails =>
      refine ⟨false, ?_⟩
      simp only [copyDatabase, statement, attach_free hfree, if_true, if_false,
        Bool.false_eq_true]
    | signals =>
      refine ⟨s.transacting, ?_⟩
      simp only [copyDatabase, statement, attach_free hfree, export_attached hfree, if_true,
        if_false, Bool.false_eq_true]
    | succeeds =>
      refine ⟨s.transacting, ?_⟩
      simp only [copyDatabase, statement, attach_free hfree, export_attached hfree, if_true]
      cases detach with
      | fails => rfl
      | succeeds | signals =>
        cases htrans : s.transacting with
        | true => rw [← htrans, detach_attached hfree, htrans]; simp
        | false => exact absurd ⟨rfl, rfl, by simp, htrans⟩ hlater

theorem statement_transacting {ending : StatementEnd} {run : CopyState → Option CopyState}
    (hrun : ∀ s', run s = some s' → s'.transacting = s.transacting) :
    (statement ending run s).1.transacting = s.transacting := by
  cases h : run s with
  | none => rw [statement_stopped h]
  | some s' =>
    cases ending with
    | fails => rfl
    | succeeds | signals =>
      simp only [statement, h]
      exact hrun s' h

theorem attachDatabase_transacting (h : attachDatabase file name key s = some s') :
    s'.transacting = s.transacting := by
  unfold attachDatabase at h
  split at h
  · cases h
  · cases h
    rfl

theorem sqlcipherExport_transacting (h : sqlcipherExport name s = some s') :
    s'.transacting = s.transacting := by
  rw [sqlcipherExport, Option.map_eq_some_iff] at h
  obtain ⟨a, -, rfl⟩ := h
  rfl

theorem detachDatabase_transacting (h : detachDatabase name s = some s') :
    s'.transacting = s.transacting := by
  unfold detachDatabase at h
  split at h
  · cases h
  · split at h
    · cases h
    · cases h
      rfl

theorem copyDatabase_transacting :
    (copyDatabase ends name key file s).1.transacting = s.transacting := by
  have hattach : (statement ends.attach (attachDatabase file name key) s).1.transacting =
      s.transacting := statement_transacting fun _ => attachDatabase_transacting
  have hexport : ∀ s₁, (statement ends.exported (sqlcipherExport name) s₁).1.transacting =
      s₁.transacting := fun _ => statement_transacting fun _ => sqlcipherExport_transacting
  have hdetach : ∀ s₂, (statement ends.detach (detachDatabase name) s₂).1.transacting =
      s₂.transacting := fun _ => statement_transacting fun _ => detachDatabase_transacting
  simp only [copyDatabase]
  split
  · split
    · rw [hdetach, hexport, hattach]
    · rw [hexport, hattach]
  · exact hattach

theorem copyDatabase_answer :
    (copyDatabase ends name key file s).2 = decide (RunsThrough ends name s) := by
  by_cases h : RunsThrough ends name s
  · rw [(copyDatabase_reached key file).mpr ⟨h, rfl⟩, decide_eq_true h]
  · rw [copyDatabase_not_reached h, decide_eq_false h]

/-- The answer of a call depends on the attached databases and on the transaction. -/
theorem perform_answer (hattached : s'.attached = s.attached)
    (htrans : s'.transacting = s.transacting) (c : KeyCall) :
    (perform c s').1 = (perform c s).1 := by
  have hruns : ∀ ends name, RunsThrough ends name s' ↔ RunsThrough ends name s := by
    intro ends name
    simp only [RunsThrough, hattached, htrans]
  cases c with
  | remove file ends =>
    simp only [perform, databaseKeyRemove, copyDatabase_answer, hruns]
  | add key file ends =>
    cases key with
    | null | na | other | empty | vector => rfl
    | string k => simp only [perform, databaseKeyAdd, keyType, copyDatabase_answer, hruns]

theorem next_cases (s : CopyState) (c : KeyCall) :
    (CleansUp s c ∧ (next s c).attached = s.attached ∧
        (next s c).transacting = s.transacting) ∨
      (¬CleansUp s c ∧ ∃ name file key locked, s.attached.any (named name) = false ∧
        (next s c).attached = s.attached ++ [target file name key locked]) := by
  have hcopy : ∀ (ends : CopyEnds) (name : String) (key file : List Char),
      (Detaches ends name s ∧ (copyDatabase ends name key file s).1.attached = s.attached ∧
        (copyDatabase ends name key file s).1.transacting = s.transacting) ∨
      (¬Detaches ends name s ∧ ∃ name' file' key' locked, s.attached.any (named name') = false ∧
        (copyDatabase ends name key file s).1.attached =
          s.attached ++ [target file' name' key' locked]) := by
    intro ends name key file
    by_cases h : Detaches ends name s
    · exact .inl ⟨h, copyDatabase_detaches h, copyDatabase_transacting⟩
    · obtain ⟨hfree, locked, hleaves⟩ := copyDatabase_leaves key file h
      exact .inr ⟨h, name, file, key, locked, hfree, hleaves⟩
  cases c with
  | remove file ends => exact hcopy ends "plain" [] file
  | add key file ends =>
    cases key with
    | null | na | other | empty | vector => exact .inl ⟨trivial, rfl, rfl⟩
    | string k => exact hcopy ends "encrypted" (keyMaterial k) file

end Spec

theorem leavesAttached_iff (s : CopyState) (c : KeyCall) : LeavesAttached s c ↔ CleansUp s c := by
  obtain ⟨hclean, hattached, htrans⟩ | ⟨hclean, name, file, key, locked, hfree, hleaves⟩ :=
    next_cases s c
  · refine iff_of_true ⟨fun d => ?_, perform_answer hattached htrans⟩ hclean
    rw [databases, hattached]
    exact Iff.rfl
  · refine iff_of_false (fun h => ?_) hclean
    have hmem : (name, file) ∈ databases s := by
      rw [← h.same, databases, hleaves]
      simp [target]
    obtain ⟨a, ha, hname⟩ := List.mem_map.mp hmem
    rw [List.any_eq_false] at hfree
    apply hfree a ha
    rw [← (Prod.mk.inj hname).1]
    exact named_self a

/-- A run of calls leaves the attached databases as they were after each of its calls
exactly when every call of it detaches what it attaches. -/
theorem run_leavesAttached_iff (s : CopyState) (calls : List KeyCall) :
    Along next LeavesAttached s calls ↔ Along next CleansUp s calls :=
  along_iff (fun _ => True) (fun _ _ _ _ => trivial) (fun s c _ => leavesAttached_iff s c) trivial
    calls

/-- An export that fails leaves its database attached, and the next call cannot attach. -/
theorem copy_left_attached :
    ¬∀ (s : CopyState) (calls : List KeyCall), Along next LeavesAttached s calls := by
  intro h
  have hrun := h { attached := [], transacting := false, copies := [] }
    [.remove ['f'] ⟨.succeeds, .fails, .succeeds⟩]
  have hlater := hrun.1.later (.remove ['g'] ⟨.succeeds, .succeeds, .succeeds⟩)
  revert hlater
  decide +kernel

end RSQLCipher.KeyAttached
