import RSQLCipher.ExistsTable
import RSQLCipher.Transactions
import Mathlib.Data.List.Dedup
import Mathlib.Data.List.Nodup

namespace RSQLCipher.FieldTypes

open RSQLCipher.Transactions RSQLCipher.ExistsTable

variable (towlower : Char → Char)

/-- Whether names are matched by their positions, ignoring their case. -/
def ignoresCase (names colNames : List String) : Bool :=
  names.length == colNames.length && names != colNames &&
    names.map (rToLower towlower) == colNames.map (rToLower towlower)

/-- The names that the columns have afterwards; the warning is left out. -/
def matchCol (names colNames : List String) : Except String (List String) :=
  if ignoresCase towlower names colNames then .ok colNames
  else if names.all (colNames.contains ·) then .ok names
  else .error ("Columns " ++ String.intercalate ", "
    ((names.filter fun n => !colNames.contains n).dedup.map fun n => "`" ++ n ++ "`") ++ " not found")

/-- An element of a named vector, by its name. The empty name does not match itself, and
what is not found is an `NA` named `<NA>`. -/
def named (types : List (String × String)) (name : String) : String × Option String :=
  match types.find? fun p => p.1 == name && name != "" with
  | some p => (p.1, some p.2)
  | none => ("<NA>", none)

/-- `db_data_types` of the columns that have none of some names. -/
def autoFieldTypes (dataType : String → Option String) (names typed : List String) :
    Option (List (String × String)) :=
  let auto := names.filter fun n => !typed.contains n
  if auto.contains "" then none else auto.mapM fun n => (dataType n).map fun t => (n, t)

/-- `field_def`, for the names of the data and the types of its columns; an error that is
not its own is `called`. -/
def fieldDef (dataType : String → Option String) (names : List String)
    (types : List (String × String)) : Except Raised (List (String × Option String)) :=
  match matchCol towlower (types.map Prod.fst) names with
  | .error message => .error (.stop message)
  | .ok _ =>
    match autoFieldTypes dataType names (types.map Prod.fst) with
    | none => .error .called
    | some auto => .ok (names.map (named (types ++ auto)))

/-- The type that a user gives for the column at a position: under its name, or where the
names are matched by their positions. -/
def userType (names : List String) (types : List (String × String)) (k : Nat) (name : String) :
    Option String :=
  match types.find? fun p => p.1 == name with
  | some p => some p.2
  | none =>
    if ignoresCase towlower (types.map Prod.fst) names then (types[k]?).map Prod.snd else none

/-- Every column, in its place, has the type given by the user, or else its own. -/
def Honours (dataType : String → Option String) (names : List String)
    (types : List (String × String)) (fields : List (String × Option String)) : Prop :=
  fields.map Prod.fst = names ∧
    ∀ k name, names[k]? = some name → ∃ t, fields[k]? = some (name, some t) ∧
      (userType towlower names types k name <|> dataType name) = some t

section Spec

variable {dataType : String → Option String} {names : List String}
  {types auto : List (String × String)} {name : String}

theorem mapM_find {f : String → Option String} {l : List String}
    (h : (l.mapM fun n => (f n).map fun t => (n, t)) = some auto) (hname : name ∈ l) :
    ∃ t, f name = some t ∧ auto.find? (fun p => p.1 == name) = some (name, t) := by
  induction l generalizing auto with
  | nil => cases hname
  | cons n l ih =>
    simp only [List.mapM_cons, Option.bind_eq_bind, Option.bind_eq_some_iff, Option.map_eq_some_iff]
      at h
    obtain ⟨-, ⟨t, ht, rfl⟩, rest, hrest, hauto⟩ := h
    cases hauto
    by_cases hn : n = name
    · subst hn
      exact ⟨t, ht, by simp⟩
    · have hmem : name ∈ l := (List.mem_cons.mp hname).resolve_left (Ne.symm hn)
      obtain ⟨t', ht', hfind⟩ := ih hrest hmem
      exact ⟨t', ht', by simpa [hn] using hfind⟩

theorem find?_none (h : name ∉ types.map Prod.fst) :
    types.find? (fun p => p.1 == name) = none := by
  rw [List.find?_eq_none]
  intro p hp heq
  exact h (List.mem_map.mpr ⟨p, hp, beq_iff_eq.mp heq⟩)

theorem find?_some (h : name ∈ types.map Prod.fst) :
    ∃ t, types.find? (fun p => p.1 == name) = some (name, t) := by
  obtain ⟨p, hp, rfl⟩ := List.mem_map.mp h
  cases hfind : types.find? (fun q => q.1 == p.1) with
  | none =>
    have hnot := List.find?_eq_none.mp hfind p hp
    exact absurd (beq_self_eq_true p.1) hnot
  | some q =>
    have hq := List.find?_some hfind
    exact ⟨q.2, by rw [← beq_iff_eq.mp hq]⟩

theorem named_empty : named types "" = ("<NA>", none) := by
  have hnone : types.find? (fun p => p.1 == "" && "" != "") = none := by
    simp
  rw [named, hnone]

theorem named_find {p : String × String} (hname : name ≠ "")
    (h : types.find? (fun q => q.1 == name) = some p) : named types name = (name, some p.2) := by
  have hsame : (fun q : String × String => q.1 == name && name != "") = fun q => q.1 == name := by
    funext q
    simp [hname]
  have hp := List.find?_some h
  rw [named, hsame, h]
  rw [beq_iff_eq] at hp
  rw [← hp]

/-- What the definition of a field comes to: the type under its name, or the column's. -/
theorem named_auto (hauto : autoFieldTypes dataType names (types.map Prod.fst) = some auto)
    (hname : name ∈ names) (hne : name ≠ "") :
    ∃ t, named (types ++ auto) name = (name, some t) ∧
      if name ∈ types.map Prod.fst then types.find? (fun p => p.1 == name) = some (name, t)
      else dataType name = some t := by
  by_cases htyped : name ∈ types.map Prod.fst
  · obtain ⟨t, ht⟩ := find?_some htyped
    have hfind : (types ++ auto).find? (fun p => p.1 == name) = some (name, t) := by
      rw [List.find?_append, ht]
      rfl
    exact ⟨t, named_find hne hfind, by rw [if_pos htyped]; exact ht⟩
  · rw [autoFieldTypes] at hauto
    split at hauto
    · cases hauto
    · have hmem : name ∈ names.filter fun n => !(types.map Prod.fst).contains n := by
        rw [List.mem_filter]
        exact ⟨hname, by simpa using htyped⟩
      obtain ⟨t, ht, hlater⟩ := mapM_find hauto hmem
      have hfind : (types ++ auto).find? (fun p => p.1 == name) = some (name, t) := by
        rw [List.find?_append, find?_none htyped]
        exact hlater
      exact ⟨t, named_find hne hfind, by rw [if_neg htyped]; exact ht⟩

variable {towlower} {fields : List (String × Option String)}

theorem fieldDef_ok (h : fieldDef towlower dataType names types = .ok fields) :
    ∃ auto, autoFieldTypes dataType names (types.map Prod.fst) = some auto ∧
      fields = names.map (named (types ++ auto)) := by
  rw [fieldDef] at h
  split at h
  · cases h
  · split at h
    · cases h
    · rename_i auto hauto
      cases h
      exact ⟨auto, hauto, rfl⟩

theorem getElem?_ignored {k : Nat} (h : ignoresCase towlower (types.map Prod.fst) names = true)
    (hk : names[k]? = some name) : ∃ p, types[k]? = some p := by
  simp only [ignoresCase, Bool.and_eq_true, beq_iff_eq, List.length_map] at h
  obtain ⟨hlt, -⟩ := List.getElem?_eq_some_iff.mp hk
  have hk : k < types.length := by omega
  exact ⟨types[k], List.getElem?_eq_getElem hk⟩

theorem userType_typed {t : String} (k : Nat)
    (h : types.find? (fun p => p.1 == name) = some (name, t)) :
    userType towlower names types k name = some t := by
  rw [userType, h]

theorem userType_ignored {p : String × String} {k : Nat} (hname : name ∉ types.map Prod.fst)
    (h : ignoresCase towlower (types.map Prod.fst) names = true) (hp : types[k]? = some p) :
    userType towlower names types k name = some p.2 := by
  rw [userType, find?_none hname]
  simp only [h, if_true, hp, Option.map_some]

theorem userType_none (k : Nat) (hname : name ∉ types.map Prod.fst)
    (h : ¬ignoresCase towlower (types.map Prod.fst) names = true) :
    userType towlower names types k name = none := by
  rw [userType, find?_none hname]
  exact if_neg h

/-- A column that is honoured has a name, and the type that the user gives for it. -/
theorem of_honours (hauto : autoFieldTypes dataType names (types.map Prod.fst) = some auto)
    (h : Honours towlower dataType names types (names.map (named (types ++ auto)))) :
    "" ∉ names ∧ (ignoresCase towlower (types.map Prod.fst) names = true →
      ∀ (k : Nat) (name : String) (p : String × String), names[k]? = some name →
        types[k]? = some p → name ∉ types.map Prod.fst → dataType name = some p.2) := by
  obtain ⟨-, hfields⟩ := h
  have hempty : "" ∉ names := by
    intro hmem
    obtain ⟨k, hk⟩ := List.getElem?_of_mem hmem
    obtain ⟨t, ht, -⟩ := hfields k "" hk
    rw [List.getElem?_map, hk, Option.map_some, named_empty] at ht
    cases (Prod.mk.inj (Option.some.inj ht)).2
  refine ⟨hempty, fun hignored k name p hk hp htyped => ?_⟩
  have hmem := List.mem_of_getElem? hk
  have hne : name ≠ "" := fun hname => hempty (hname ▸ hmem)
  obtain ⟨t, ht, huser⟩ := hfields k name hk
  obtain ⟨t', hnamed, hauto'⟩ := named_auto hauto hmem hne
  rw [List.getElem?_map, hk, Option.map_some, hnamed] at ht
  rw [if_neg htyped] at hauto'
  rw [userType_ignored htyped hignored hp] at huser
  cases ht
  cases huser
  exact hauto'

/-- What the definition of a field comes to is the user's type, or else the column's own. -/
theorem userType_orElse {k : Nat} {t : String} (hk : names[k]? = some name)
    (hauto : if name ∈ types.map Prod.fst then types.find? (fun p => p.1 == name) = some (name, t)
      else dataType name = some t)
    (hignored : ignoresCase towlower (types.map Prod.fst) names = true →
      ∀ p, types[k]? = some p → name ∉ types.map Prod.fst → dataType name = some p.2) :
    (userType towlower names types k name <|> dataType name) = some t := by
  by_cases htyped : name ∈ types.map Prod.fst
  · rw [if_pos htyped] at hauto
    rw [userType_typed k hauto]
    rfl
  · rw [if_neg htyped] at hauto
    by_cases hcase : ignoresCase towlower (types.map Prod.fst) names = true
    · obtain ⟨p, hp⟩ := getElem?_ignored hcase hk
      rw [userType_ignored htyped hcase hp, ← hignored hcase p hp htyped, hauto]
      rfl
    · rw [userType_none k htyped hcase, hauto]
      rfl

end Spec

variable {towlower} in
/-- A definition of the fields that does not fail honours the types given, except those that
are matched by position only, and columns without a name. -/
theorem fieldDef_honours_iff {dataType : String → Option String} {names : List String}
    {types : List (String × String)} {fields : List (String × Option String)}
    (h : fieldDef towlower dataType names types = .ok fields) :
    Honours towlower dataType names types fields ↔ "" ∉ names ∧
      (ignoresCase towlower (types.map Prod.fst) names = true →
        ∀ (k : Nat) (name : String) (p : String × String), names[k]? = some name →
          types[k]? = some p → name ∉ types.map Prod.fst → dataType name = some p.2) := by
  obtain ⟨auto, hauto, rfl⟩ := fieldDef_ok h
  constructor
  · exact of_honours hauto
  · rintro ⟨hempty, hignored⟩
    have hne : ∀ name ∈ names, name ≠ "" := fun name hmem hname => hempty (hname ▸ hmem)
    refine ⟨?_, fun k name hk => ?_⟩
    · rw [List.map_map]
      conv_rhs => rw [← List.map_id names]
      refine List.map_congr_left fun name hmem => ?_
      obtain ⟨t, ht, -⟩ := named_auto hauto hmem (hne name hmem)
      rw [Function.comp, ht, id]
    · have hmem := List.mem_of_getElem? hk
      obtain ⟨t, ht, hauto'⟩ := named_auto hauto hmem (hne name hmem)
      refine ⟨t, by rw [List.getElem?_map, hk, Option.map_some, ht], ?_⟩
      exact userType_orElse hk hauto' fun hcase p hp => hignored hcase k name p hk hp

def allText (_ : String) : Option String := some "TEXT"

theorem fieldDef_honours_iff_permuted :
    Honours Char.toLower allText ["a", "b"] [("b", "INT")] [("a", some "TEXT"), ("b", some "INT")] ↔
      "" ∉ ["a", "b"] ∧ (ignoresCase Char.toLower ([("b", "INT")].map Prod.fst) ["a", "b"] = true →
        ∀ (k : Nat) (name : String) (p : String × String), ["a", "b"][k]? = some name →
          [("b", "INT")][k]? = some p → name ∉ [("b", "INT")].map Prod.fst →
          allText name = some p.2) :=
  fieldDef_honours_iff (by decide +kernel)

/-- The type given for `A` is accepted for the column `a`, and not applied. -/
theorem type_dropped :
    ¬∀ (towlower : Char → Char) (dataType : String → Option String) (names : List String)
      (types : List (String × String)) (fields : List (String × Option String)),
      names.Nodup → (types.map Prod.fst).Nodup →
      fieldDef towlower dataType names types = .ok fields →
      Honours towlower dataType names types fields := by
  intro h
  obtain ⟨-, hfields⟩ := h Char.toLower allText ["a"] [("A", "INT")] [("a", some "TEXT")]
    (by decide) (by decide) (by decide +kernel)
  obtain ⟨t, ht, huser⟩ := hfields 0 "a" rfl
  cases ht
  revert huser
  decide +kernel

end RSQLCipher.FieldTypes
