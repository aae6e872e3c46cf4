import RSQLCipher.Identifiers

namespace RSQLCipher.ExistsTable

open RSQLCipher.Library RSQLCipher.Identifiers Regexp

inductive EntryType where
  | table | view | index | trigger
deriving DecidableEq, Repr

/-- A row of `sqlite_master`. -/
structure SchemaEntry where
  type : EntryType
  name : String
deriving DecidableEq, Repr

structure Catalog where
  main : List SchemaEntry
  temp : List SchemaEntry
  attached : List (String × List SchemaEntry)
deriving DecidableEq, Repr

/-- R's `tolower`, which folds character by character, and not only ASCII letters. -/
def rToLower (towlower : Char → Char) (s : String) : String :=
  String.ofList (s.toList.map towlower)

/-- Whether the query lists an entry. SQLite's `lower` folds ASCII letters. -/
def SchemaEntry.listed (name : Option String) (e : SchemaEntry) : Bool :=
  (e.type == .table || e.type == .view) && name.all fun folded => e.name.toLower == folded

/-- The name of a temporary schema that is not in use yet is listed here all the same: it has
no tables. -/
def Catalog.databases (c : Catalog) : List (String × List SchemaEntry) :=
  ("main", c.main) :: ("temp", c.temp) :: c.attached

/-- The rows of `sqliteListTablesQuery`; their order is left out. -/
def sqliteListTablesQuery (c : Catalog) (schema name : Option String) :
    Except String (List String) :=
  match schema with
  | none => .ok (((c.main ++ c.temp).filter (SchemaEntry.listed name)).map SchemaEntry.name)
  | some schema =>
    match c.databases.find? fun d => d.1.toLower == schema.toLower with
    | none => .error ("no such table: " ++ schema ++ ".sqlite_master")
    | some d => .ok ((d.2.filter (SchemaEntry.listed name)).map SchemaEntry.name)

variable (E : Engine Char) (towlower : Char → Char) (c : Catalog)

/-- The query for the table of an `Id`. One without a table binds no row. -/
def tablesOfId (id : Id) : Except String (List String) :=
  match id.lookup "table" with
  | none => (sqliteListTablesQuery c (id.lookup "schema") none).map fun _ => []
  | some table =>
    sqliteListTablesQuery c (id.lookup "schema") (some (rToLower towlower table))

def firstId (quoted : List String) : Except String Id := do
  match ← dbUnquoteIdentifier E (quoted.map some) with
  | [] => throw "subscript out of bounds"
  | id :: _ => return id

def sqliteListTablesWithName (name : List (Option String)) : Except String (List String) := do
  tablesOfId towlower c (← firstId E (← dbQuoteIdentifier name))

/-- The method for character vectors. -/
def dbExistsTableCharacter (name : List (Option String)) : Except String Bool := do
  if name.length ≠ 1 then throw "length(name) == 1L is not TRUE"
  return !(← sqliteListTablesWithName E towlower c name).isEmpty

/-- The method for an `Id`. `quoteId` is the method of DBI for `dbQuoteIdentifier`. -/
def dbExistsTableId (quoteId : Id → String) (name : Id) : Except String Bool := do
  let id ← firstId E [quoteId name]
  match id.lookup "schema" with
  | some schema =>
    if (c.databases.map Prod.fst).contains schema then
      return !(← tablesOfId towlower c id).isEmpty
    else return false
  | none => return !(← tablesOfId towlower c id).isEmpty

/-- What is documented of that method: it quotes every component, so that an `Id` of one
component is quoted as a string is. -/
structure QuotesId (quoteId : Id → String) : Prop where
  component : ∀ key name, quoteId [(key, name)] = quote name

/-- A table or view of a name, for SQLite. -/
def Catalog.Resolves (name : String) : Prop :=
  ∃ e ∈ c.main ++ c.temp, (e.type = .table ∨ e.type = .view) ∧ e.name.toLower = name.toLower

/-- Both methods say whether SQLite finds the name. -/
structure Agrees (quoteId : Id → String) (name : String) : Prop where
  character : ∃ found, dbExistsTableCharacter E towlower c [some name] = .ok found ∧
    (found = true ↔ c.Resolves name)
  id : ∃ found, dbExistsTableId E towlower c quoteId [("table", name)] = .ok found ∧
    (found = true ↔ c.Resolves name)

/-- A table or view whose name SQLite folds to a text. -/
def Catalog.HasFolded (folded : String) : Prop :=
  ∃ e ∈ c.main ++ c.temp, (e.type = .table ∨ e.type = .view) ∧ e.name.toLower = folded

/-- The tables do not tell R's folding of a name from SQLite's: they have both, or neither. -/
def FoldsTogether (name : String) : Prop :=
  (c.HasFolded (rToLower towlower name) ∧ c.HasFolded name.toLower) ∨
    (¬c.HasFolded (rToLower towlower name) ∧ ¬c.HasFolded name.toLower)

/-- Whether the main and the temporary schema list a folded name. -/
def Catalog.lists (folded : String) : Bool :=
  (c.main ++ c.temp).any (SchemaEntry.listed (some folded))

section Spec

variable {E c} {name : String}

theorem lists_iff {folded : String} : c.lists folded = true ↔ c.HasFolded folded := by
  rw [Catalog.HasFolded, Catalog.lists, List.any_eq_true]
  simp only [SchemaEntry.listed, Bool.and_eq_true, Bool.or_eq_true, beq_iff_eq, Option.all_some]

theorem rToLower_eq_iff :
    rToLower towlower name = name.toLower ↔ ∀ ch ∈ name.toList, towlower ch = ch.toLower := by
  have hlower : name.toLower.toList = name.toList.map Char.toLower := String.toList_map
  rw [← String.toList_inj, rToLower, String.toList_ofList, hlower, List.map_inj_left]

theorem firstId_quote (hname : name ≠ "") : firstId E [quote name] = .ok [("table", name)] := by
  have hrun : ∀ s ∈ [quote name], (E.run rx s.toList).isSome := by
    intro s hs
    rw [List.mem_singleton.mp hs, run_quote E hname]
    rfl
  rw [firstId, dbUnquoteIdentifier_ok hrun, List.map_singleton, unquoted_quote hname]
  rfl

theorem isEmpty_tables (p : SchemaEntry → Bool) (l : List SchemaEntry) :
    (!((l.filter p).map SchemaEntry.name).isEmpty) = l.any p := by
  induction l with
  | nil => rfl
  | cons e l ih =>
    cases he : p e with
    | true => simp [he]
    | false => simpa [he] using ih

theorem tablesOfId_table :
    tablesOfId towlower c [("table", name)] =
      .ok (((c.main ++ c.temp).filter (SchemaEntry.listed (some (rToLower towlower name)))).map
        SchemaEntry.name) := rfl

theorem dbExistsTableCharacter_eq (hname : name ≠ "") :
    dbExistsTableCharacter E towlower c [some name] = .ok (c.lists (rToLower towlower name)) := by
  have hquote : dbQuoteIdentifier [some name] = .ok [quote name] := dbQuoteIdentifier_some [name]
  have hrows : sqliteListTablesWithName E towlower c [some name] =
      tablesOfId towlower c [("table", name)] := by
    rw [sqliteListTablesWithName, hquote]
    simp only [bind, Except.bind, firstId_quote hname]
  rw [dbExistsTableCharacter, hrows, tablesOfId_table]
  exact congrArg Except.ok (isEmpty_tables _ _)

theorem dbExistsTableId_eq {quoteId : Id → String} (hquotes : QuotesId quoteId)
    (hname : name ≠ "") :
    dbExistsTableId E towlower c quoteId [("table", name)] =
      .ok (c.lists (rToLower towlower name)) := by
  rw [dbExistsTableId, hquotes.component, firstId_quote hname]
  exact congrArg Except.ok (isEmpty_tables _ _)

variable {quoteId : Id → String} (hquotes : QuotesId quoteId) (hname : name ≠ "")
include hquotes hname

theorem agrees_iff_folds : Agrees E towlower c quoteId name ↔ FoldsTogether towlower c name := by
  have hcharacter := dbExistsTableCharacter_eq (E := E) towlower (c := c) hname
  have hid := dbExistsTableId_eq (E := E) towlower (c := c) hquotes hname
  constructor
  · intro h
    obtain ⟨found, hfound, hiff⟩ := h.character
    rw [hcharacter] at hfound
    cases hfound
    rw [lists_iff] at hiff
    by_cases hfolded : c.HasFolded name.toLower
    · exact .inl ⟨hiff.mpr hfolded, hfolded⟩
    · exact .inr ⟨fun hr => hfolded (hiff.mp hr), hfolded⟩
  · intro h
    have hiff : c.lists (rToLower towlower name) = true ↔ c.Resolves name := by
      rw [lists_iff]
      obtain ⟨hr, hfolded⟩ | ⟨hr, hfolded⟩ := h
      · exact iff_of_true hr hfolded
      · exact iff_of_false hr hfolded
    exact ⟨⟨_, hcharacter, hiff⟩, ⟨_, hid, hiff⟩⟩

/-- With a table of the very name, the check is right only where R folds it as SQLite does. -/
theorem agrees_always_iff : (∀ c, Agrees E towlower c quoteId name) ↔
    ∀ ch ∈ name.toList, towlower ch = ch.toLower := by
  rw [← rToLower_eq_iff]
  constructor
  · intro h
    have hfolded : Catalog.HasFolded ⟨[⟨.table, name⟩], [], []⟩ name.toLower :=
      ⟨_, List.mem_cons_self, .inl rfl, rfl⟩
    obtain ⟨⟨e, he, -, heq⟩, -⟩ | ⟨-, hnot⟩ :=
      (agrees_iff_folds towlower hquotes hname).mp (h ⟨[⟨.table, name⟩], [], []⟩)
    · rw [← heq, List.mem_singleton.mp he]
    · exact absurd hfolded hnot
  · intro heq c
    rw [agrees_iff_folds towlower hquotes hname, FoldsTogether, heq]
    by_cases hfolded : c.HasFolded name.toLower
    · exact .inl ⟨hfolded, hfolded⟩
    · exact .inr ⟨hfolded, hfolded⟩

end Spec

/-- The check agrees with SQLite where the tables do not tell the two foldings of the name
apart, which is so for all tables if both fold the letters of the name alike. -/
theorem exists_agrees_iff (quoteId : Id → String) (hquotes : QuotesId quoteId) (name : String)
    (hname : name ≠ "") :
    (Agrees E towlower c quoteId name ↔ FoldsTogether towlower c name) ∧
      ((∀ c, Agrees E towlower c quoteId name) ↔ ∀ ch ∈ name.toList, towlower ch = ch.toLower) :=
  ⟨agrees_iff_folds towlower hquotes hname, agrees_always_iff towlower hquotes hname⟩

/-- The folding of R for the letters of Latin-1. -/
def latinLower (c : Char) : Char :=
  if ('A' ≤ c ∧ c ≤ 'Z') ∨ ('À' ≤ c ∧ c ≤ 'Þ' ∧ c ≠ '×') then Char.ofNat (c.toNat + 32) else c

/-- The components of an `Id`, quoted and joined. -/
def quoteComponents (id : Id) : String := String.intercalate "." (id.map fun p => quote p.2)

theorem quotesId_quoteComponents : QuotesId quoteComponents where
  component key name := by simp [quoteComponents]

theorem exists_agrees_iff_ascii :
    (Agrees .trying latinLower ⟨[⟨.table, "Fleet"⟩], [], []⟩ quoteComponents "fLEET" ↔
      FoldsTogether latinLower ⟨[⟨.table, "Fleet"⟩], [], []⟩ "fLEET") ∧
    ((∀ c, Agrees .trying latinLower c quoteComponents "fLEET") ↔
      ∀ ch ∈ "fLEET".toList, latinLower ch = ch.toLower) :=
  exists_agrees_iff .trying latinLower _ quoteComponents quotesId_quoteComponents "fLEET"
    (by decide)

/-- A table `É` is not found under its own name. -/
theorem accented_name_missed :
    ¬∀ (E : Engine Char) (towlower : Char → Char) (c : Catalog) (quoteId : Id → String)
      (name : String), QuotesId quoteId → name ≠ "" → Agrees E towlower c quoteId name := by
  intro h
  obtain ⟨found, hfound, hiff⟩ :=
    (h .trying latinLower ⟨[⟨.table, "É"⟩], [], []⟩ quoteComponents "É" quotesId_quoteComponents
      (by decide)).character
  rw [dbExistsTableCharacter_eq latinLower (by decide)] at hfound
  cases hfound
  change Catalog.lists _ _ = true ↔ Catalog.HasFolded _ _ at hiff
  rw [← lists_iff] at hiff
  revert hiff
  decide +kernel

end RSQLCipher.ExistsTable
