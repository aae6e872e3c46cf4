import RSQLCipher.FieldSplitting
import RSQLCipher.ImportRows

namespace RSQLCipher.ImportFormat

open RSQLCipher.Library RSQLCipher.Values RSQLCipher.ImportFile RSQLCipher.ImportLines
open RSQLCipher.ImportRows RSQLCipher.FieldSplitting

/-- What stands for a missing value in a file. -/
def marker : Bytes := [92, 78]

/-- A byte that separates the fields of a file, and is not part of what else it is made of. -/
def FieldByte (x : UInt8) : Prop := x ∉ ([0, 10, 13, 92, 78] : Bytes)

instance (x : UInt8) : Decidable (FieldByte x) := inferInstanceAs (Decidable (¬_))

def FieldByte.separator {x : UInt8} (h : FieldByte x) : CString :=
  { bytes := [x], noNul := fun hzero => h (by
      obtain rfl := List.mem_singleton.mp hzero
      decide) }

/-- A string that a file can hold. -/
structure Storable (x : UInt8) (text : Bytes) : Prop where
  noNul : 0 ∉ text
  noReturn : 13 ∉ text
  noNewline : 10 ∉ text
  noSeparator : x ∉ text
  noMarker : text ≠ marker

/-- A table that a file can hold. -/
structure TextTable (x : UInt8) (nCol : Nat) where
  rows : List TextRow
  widths : ∀ row ∈ rows, row.length = nCol
  storable : ∀ row ∈ rows, ∀ text, some text ∈ row → Storable x text

def encodeField (field : Option Bytes) : Bytes := field.getD marker

def encodeRow (x : UInt8) (row : TextRow) : Bytes := [x].intercalate (row.map encodeField)

def encode (x : UInt8) (rows : List TextRow) : Bytes := rows.flatMap fun row => encodeRow x row ++ [10]

variable {σ : Type}

/-- The rows are inserted in their order, or the import ends with the error of the first
that is refused. -/
def Imported (target : ImportTarget σ) (zTable : String) (nCol : Nat) (db : σ)
    (rows : List TextRow) : EStateM.Result ImportFault (ImportState σ) Int → Prop :=
  Ends (fun _ s => s.inserted = rows ∧ insertRows target zTable nCol db rows = .ok s.db)
    fun e _ => ∃ message, insertRows target zTable nCol db rows = .error message ∧
      e = importError message

/-- Importing the file of these rows inserts them, whatever they are inserted into. -/
def Decoded {x : UInt8} (hx : FieldByte x) (nCol : Nat) (rows : List TextRow) : Prop :=
  ∀ (σ : Type) (target : ImportTarget σ) (zTable zFile : String) (db : σ) (columns : Nat),
    target.prepare db (selectSql zTable) = .ok nCol →
    target.prepare db (insertSql zTable nCol) = .ok columns →
    target.openFile zFile = some (encode x rows) →
    Imported target zTable nCol db rows
      (runImport target zTable zFile hx.separator newline 0 db)

/-- A field as the importer reads it. -/
def readField (field : Option Bytes) : Option Bytes := offered (encodeField field)

theorem readField_some {text : Bytes} : readField (some text) = some text ↔ ¬marker <+: text := by
  rw [readField, encodeField, Option.getD_some, offered, ← List.isPrefixOf_iff_prefix, marker]
  cases [92, 78].isPrefixOf text with
  | false => simp
  | true => simp

section Rows

variable {x c : UInt8} {row : TextRow} {nCol : Nat}

theorem mem_encodeField {field : Option Bytes} (hfield : field ∈ row) (hc : c ∈ encodeField field) :
    c ∈ marker ∨ ∃ text, some text ∈ row ∧ c ∈ text := by
  cases field with
  | none => exact .inl hc
  | some text => exact .inr ⟨text, hfield, hc⟩

theorem separator_not_mem (hx : FieldByte x) (hstore : ∀ text, some text ∈ row → Storable x text) :
    ∀ a ∈ row.map encodeField, x ∉ a := by
  intro a ha hmem
  obtain ⟨field, hfield, rfl⟩ := List.mem_map.mp ha
  obtain hmarker | ⟨text, htext, hmem⟩ := mem_encodeField hfield hmem
  · simp only [marker, List.mem_cons] at hmarker
    simp only [FieldByte, List.mem_cons] at hx
    tauto
  · exact (hstore text htext).noSeparator hmem

theorem textFields_encodeRow (hx : FieldByte x) (hrow : row ≠ [])
    (hstore : ∀ text, some text ∈ row → Storable x text) :
    textFields [x] (encodeRow x row) = row.map encodeField := by
  rw [textFields_singleton, encodeRow]
  exact List.splitOn_intercalate x (separator_not_mem hx hstore) (by simpa using hrow)

/-- A byte that neither separates nor is part of a string or of the marker. -/
theorem not_mem_encodeRow (hx : c ≠ x) (hmarker : c ∉ marker)
    (htexts : ∀ text, some text ∈ row → c ∉ text) : c ∉ encodeRow x row := by
  intro hmem
  obtain hsep | ⟨a, ha, hc⟩ := of_mem_intercalate hmem
  · exact hx (List.mem_singleton.mp hsep)
  · obtain ⟨field, hfield, rfl⟩ := List.mem_map.mp ha
    obtain h | ⟨text, htext, h⟩ := mem_encodeField hfield hc
    · exact hmarker h
    · exact htexts text htext h

theorem noNul_encodeRow (hx : FieldByte x) (hstore : ∀ text, some text ∈ row → Storable x text) :
    0 ∉ encodeRow x row :=
  not_mem_encodeRow (fun h => hx (h ▸ by decide)) (by decide)
    fun text htext => (hstore text htext).noNul

theorem noNewline_encodeRow (hx : FieldByte x)
    (hstore : ∀ text, some text ∈ row → Storable x text) : 10 ∉ encodeRow x row :=
  not_mem_encodeRow (fun h => hx (h ▸ by decide)) (by decide)
    fun text htext => (hstore text htext).noNewline

theorem noReturn_encodeRow (hx : FieldByte x)
    (hstore : ∀ text, some text ∈ row → Storable x text) : 13 ∉ encodeRow x row :=
  not_mem_encodeRow (fun h => hx (h ▸ by decide)) (by decide)
    fun text htext => (hstore text htext).noReturn

theorem quiet_encodeRow (hx : FieldByte x) (hstore : ∀ text, some text ∈ row → Storable x text) :
    ∀ c ∈ encodeRow x row, lineEnd c = false := by
  intro c hc
  rw [Bool.eq_false_iff, ne_eq, lineEnd_iff]
  rintro (rfl | rfl)
  · exact noNewline_encodeRow hx hstore hc
  · exact noReturn_encodeRow hx hstore hc

/-- With two fields or more there is a separator. -/
theorem encodeRow_ne_nil (x : UInt8) (hwide : 2 ≤ row.length) : encodeRow x row ≠ [] := by
  cases row with
  | nil => exact absurd hwide (by decide)
  | cons field row =>
    cases row with
    | nil => exact absurd hwide (Nat.lt_irrefl 1)
    | cons field' row => simp [encodeRow, List.intercalate_cons_cons]

/-- A line of the file is taken for the fields of its row. -/
theorem splitRow_encodeRow (zFile : String) (lineno : Nat) (hx : FieldByte x) (hrow : row ≠ [])
    (hmax : row.length ≤ intMax) (hstore : ∀ text, some text ∈ row → Storable x text) :
    splitRow zFile [x] row.length lineno (encodeRow x row) = .ok (row.map readField) := by
  have hquiet := quiet_encodeRow hx hstore
  rw [splitRow_spec zFile lineno (List.cons_ne_nil x []) (noNul_encodeRow hx hstore) hmax,
    fieldsPast_quiet [x] hquiet, fieldsProlonged_quiet [x] hquiet,
    textFields_encodeRow hx hrow hstore, List.length_map, List.map_map]
  exact ⟨rfl, rfl⟩

end Rows

section Lines

variable {x : UInt8} {nCol : Nat} (target : ImportTarget σ) (zTable zFile : String)

theorem lines_encode (hx : FieldByte x) {rows : List TextRow}
    (hstore : ∀ row ∈ rows, ∀ text, some text ∈ row → Storable x text) :
    lines [10] (encode x rows) = (rows.map (encodeRow x), []) := by
  have hlines : ∀ a ∈ rows.map (encodeRow x), 10 ∉ a := by
    intro a ha
    obtain ⟨row, hrow, rfl⟩ := List.mem_map.mp ha
    exact noNewline_encodeRow hx (hstore row hrow)
  rw [← lines_ended hlines, List.flatMap_map]
  rfl

/-- One row: its line is read and its fields are inserted. -/
theorem insertLine_encodeRow (lineno : Nat) (hx : FieldByte x) {row : TextRow} (hrow : row ≠ [])
    (hmax : row.length ≤ intMax) (hstore : ∀ text, some text ∈ row → Storable x text) (db : σ) :
    insertLine target zTable zFile hx.separator row.length lineno (encodeRow x row) db =
      match target.insert (insertSql zTable row.length) db (row.map readField) with
      | .ok db => .ok (row.map readField, db)
      | .error message => .error (importError message) := by
  have hsplit := splitRow_encodeRow zFile lineno hx hrow hmax hstore
  simp only [insertLine, FieldByte.separator, hsplit, bind, Except.bind]
  cases target.insert (insertSql zTable row.length) db (row.map readField) with
  | error message => rfl
  | ok db => rfl

theorem insertRows_cons (nCol : Nat) (db : σ) (row : TextRow) (rows : List TextRow) :
    insertRows target zTable nCol db (row :: rows) =
      match target.insert (insertSql zTable nCol) db row with
      | .ok db => insertRows target zTable nCol db rows
      | .error message => .error message := by
  simp only [insertRows, List.foldlM_cons]
  cases target.insert (insertSql zTable nCol) db row with
  | error message => rfl
  | ok db => rfl

theorem lineText_encodeRow (hx : FieldByte x) {row : TextRow} (hwide : 2 ≤ row.length)
    (hstore : ∀ text, some text ∈ row → Storable x text) :
    lineText (encodeRow x row) = some (encodeRow x row) := by
  have hstring := cString_noNul (noNul_encodeRow hx hstore)
  rw [lineText, hstring, if_neg (encodeRow_ne_nil x hwide)]

theorem quiet_newline (l : Bytes) : Quiet newline.bytes l := by
  intro c _
  simp [newline]

/-- The importer over the lines of the file, as far as they can be counted. -/
theorem importLines_encode (hx : FieldByte x) (hwide : 2 ≤ nCol) (hmax : nCol ≤ intMax)
    (rows : List TextRow) (hwidths : ∀ row ∈ rows, row.length = nCol)
    (hstore : ∀ row ∈ rows, ∀ text, some text ∈ row → Storable x text) (lineno : Nat) (db : σ)
    (inserted : List TextRow) (hcount : lineno + rows.length ≤ intMax) :
    importLines target zTable zFile hx.separator newline nCol 0 [] (rows.map (encodeRow x)) lineno
        db inserted =
      match insertRows target zTable nCol db (rows.map (List.map readField)) with
      | .ok db => .ok (db, inserted ++ rows.map (List.map readField))
      | .error message => .error (importError message) := by
  induction rows generalizing lineno db inserted with
  | nil => simp [importLines, insertRows, pure, Except.pure]
  | cons row rows ih =>
    have hrow := hwidths row List.mem_cons_self
    have hstored := hstore row List.mem_cons_self
    have hlater := ih (fun row hr => hwidths row (List.mem_cons_of_mem _ hr))
      (fun row hr => hstore row (List.mem_cons_of_mem _ hr)) (lineno + 1)
    rw [List.length_cons] at hcount
    have hcounted : ¬lineno = intMax := by omega
    have hskip : ¬(lineno + 1 : Int) ≤ 0 := by omega
    subst hrow
    have hone := insertLine_encodeRow target zTable zFile (lineno + 1) hx
      (List.ne_nil_of_length_pos (by omega)) hmax hstored db
    simp only [List.map_cons, importLines, quiet_newline, if_true, insertRows_cons,
      lineText_encodeRow hx hwide hstored, importText, hcounted, hskip, if_false, hone]
    cases target.insert (insertSql zTable row.length) db (row.map readField) with
    | error message => rfl
    | ok db =>
      simp only
      rw [hlater db _ (by omega)]
      simp only [List.append_assoc, List.singleton_append]

/-- An import that returns has counted all of its lines. -/
theorem counted_of_importLines (hx : FieldByte x) (hwide : 2 ≤ nCol)
    (rows : List TextRow) (hwidths : ∀ row ∈ rows, row.length = nCol)
    (hstore : ∀ row ∈ rows, ∀ text, some text ∈ row → Storable x text) {lineno : Nat} {db : σ}
    {inserted : List TextRow} (hlineno : lineno ≤ intMax) {p : σ × List TextRow}
    (h : importLines target zTable zFile hx.separator newline nCol 0 [] (rows.map (encodeRow x))
      lineno db inserted = .ok p) : lineno + rows.length ≤ intMax := by
  induction rows generalizing lineno db inserted with
  | nil => exact hlineno
  | cons row rows ih =>
    have hrow := hwidths row List.mem_cons_self
    have htext := lineText_encodeRow hx (hrow ▸ hwide) (hstore row List.mem_cons_self)
    simp only [List.map_cons, importLines, quiet_newline, if_true, htext] at h
    split at h
    · rename_i hone
      have hcounted : lineno ≠ intMax := by
        rintro rfl
        simp only [importText, if_true] at hone
        cases hone
      have hlater := ih (fun row hr => hwidths row (List.mem_cons_of_mem _ hr))
        (fun row hr => hstore row (List.mem_cons_of_mem _ hr)) (by omega) h
      rw [List.length_cons]
      omega
    · cases h

end Lines

theorem newline_seen (signedChar : Bool) : ¬Unseen signedChar newline.bytes := by
  rintro ⟨-, c, hc, hbig⟩
  obtain rfl : 10 = c := Option.some.inj hc
  exact absurd hbig (by decide)

section Runs

variable {x : UInt8} {nCol columns : Nat} {rows : List TextRow} {target : ImportTarget σ}
  {zTable zFile : String} {db : σ}

/-- The import of the file is the importer over the lines of the rows. -/
theorem runImport_encode (hx : FieldByte x) (hwide : 2 ≤ nCol)
    (hstore : ∀ row ∈ rows, ∀ text, some text ∈ row → Storable x text)
    (hcols : target.prepare db (selectSql zTable) = .ok nCol)
    (hinsert : target.prepare db (insertSql zTable nCol) = .ok columns)
    (hfile : target.openFile zFile = some (encode x rows)) :
    ∃ r, runImport target zTable zFile hx.separator newline 0 db = finished r ∧
      Agrees (importLines target zTable zFile hx.separator newline nCol 0 []
        (rows.map (encodeRow x)) 0 db []) r := by
  refine ⟨_, runImport_loop 0 (List.cons_ne_nil x []) (by omega) hcols hinsert hfile, ?_⟩
  have hlines := lines_encode hx hstore
  have hloop := importLoop_agrees zTable zFile hx.separator nCol 0
    (by decide : newline.bytes ≠ []) (newline_seen target.signedChar)
    ((encode x rows).length + 1) 0 { db := db, input := encode x rows, inserted := [] }
    (Nat.lt_succ_self _)
    (by simp only [newline, hlines, List.not_mem_nil, not_false_eq_true])
  simp only [newline, hlines] at hloop ⊢
  exact hloop

theorem imported_finished {r : EStateM.Result ImportFault (ImportState σ) Nat}
    (h : Agrees (match insertRows target zTable nCol db rows with
      | .ok db => .ok (db, rows)
      | .error message => .error (importError message)) r) :
    Imported target zTable nCol db rows (finished r) := by
  cases hrows : insertRows target zTable nCol db rows with
  | error message =>
    rw [hrows] at h
    cases r with
    | ok lineno s => cases h
    | error e s => exact ⟨message, hrows, (Except.error.inj h).symm⟩
  | ok final =>
    rw [hrows] at h
    cases r with
    | error e s => cases h
    | ok lineno s =>
      obtain ⟨hdb, hinserted⟩ := Prod.mk.inj (Except.ok.inj h)
      exact ⟨hinserted.symm, hdb ▸ hrows⟩

theorem map_eq_iff {α : Type} {f : α → α} {l : List α} : l.map f = l ↔ ∀ a ∈ l, f a = a := by
  have h : l.map f = l.map id ↔ ∀ a ∈ l, f a = id a := List.map_inj_left
  rwa [List.map_id] at h

theorem map_readField_iff : rows.map (List.map readField) = rows ↔
    ∀ row ∈ rows, ∀ text, some text ∈ row → ¬marker <+: text := by
  rw [map_eq_iff]
  apply forall₂_congr
  intro row _
  rw [map_eq_iff]
  constructor
  · intro h text htext
    exact readField_some.mp (h (some text) htext)
  · intro h field hfield
    cases field with
    | none => rfl
    | some text => exact readField_some.mpr (h text hfield)

end Runs

theorem insertRows_tableAndFile (zTable : String) (nCol : Nat) (content : Bytes)
    (db rows : List TextRow) :
    insertRows (tableAndFile nCol content) zTable nCol db rows = .ok (db ++ rows) := by
  induction rows generalizing db with
  | nil => simp [insertRows, pure, Except.pure]
  | cons row rows ih =>
    rw [insertRows_cons]
    simp only [tableAndFile] at ih ⊢
    rw [ih, List.append_assoc, List.singleton_append]

/-- What the import of a file into a table that accepts every row shows of its rows. -/
theorem decoded_necessary {x : UInt8} (hx : FieldByte x) {nCol : Nat} (hwide : 2 ≤ nCol)
    (hmax : nCol ≤ intMax) (table : TextTable x nCol) (h : Decoded hx nCol table.rows) :
    table.rows.length ≤ intMax ∧ table.rows.map (List.map readField) = table.rows := by
  have hcols : (tableAndFile nCol (encode x table.rows)).prepare [] (selectSql "t") = .ok nCol := rfl
  have hinsert : (tableAndFile nCol (encode x table.rows)).prepare [] (insertSql "t" nCol) =
    .ok nCol := rfl
  have hfile : (tableAndFile nCol (encode x table.rows)).openFile "f" = some (encode x table.rows) :=
    rfl
  have hrun := h (List TextRow) _ "t" "f" [] nCol hcols hinsert hfile
  obtain ⟨r, hfinished, hagrees⟩ := runImport_encode hx hwide table.storable hcols hinsert hfile
  rw [hfinished] at hrun
  cases r with
  | error e s =>
    obtain ⟨message, hrows, -⟩ := hrun
    rw [insertRows_tableAndFile] at hrows
    cases hrows
  | ok lineno s =>
    have hcount := counted_of_importLines _ _ _ hx hwide table.rows table.widths table.storable
      (Nat.zero_le _) hagrees
    rw [Nat.zero_add] at hcount
    have hlines := importLines_encode (tableAndFile nCol (encode x table.rows)) "t" "f" hx hwide hmax
      table.rows table.widths table.storable 0 [] [] (by omega)
    rw [insertRows_tableAndFile] at hlines
    have hsame := hagrees.symm.trans hlines
    obtain ⟨-, hinserted⟩ := Prod.mk.inj (Except.ok.inj hsame)
    rw [List.nil_append] at hinserted
    exact ⟨hcount, hinserted.symm.trans hrun.1⟩

/-- The file of a table is imported as the table exactly where no string begins with the
marker, and the lines can be counted. -/
theorem decodes_encoded_iff {x : UInt8} (hx : FieldByte x) (nCol : Nat) (hwide : 2 ≤ nCol)
    (hmax : nCol ≤ intMax) (table : TextTable x nCol) :
    Decoded hx nCol table.rows ↔ table.rows.length ≤ intMax ∧
      ∀ row ∈ table.rows, ∀ text, some text ∈ row → ¬marker <+: text := by
  constructor
  · intro h
    obtain ⟨hcount, hmap⟩ := decoded_necessary hx hwide hmax table h
    exact ⟨hcount, map_readField_iff.mp hmap⟩
  · rintro ⟨hcount, hmarked⟩ σ target zTable zFile db columns hcols hinsert hfile
    obtain ⟨r, hrun, hagrees⟩ := runImport_encode hx hwide table.storable hcols hinsert hfile
    rw [importLines_encode target zTable zFile hx hwide hmax table.rows table.widths table.storable 0
      db [] (by omega), map_readField_iff.mpr hmarked] at hagrees
    rw [hrun]
    exact imported_finished hagrees

theorem storable_letter {c : UInt8} (h : c = 97 ∨ c = 98) : Storable 124 [c] := by
  obtain rfl | rfl := h
  · exact ⟨by decide, by decide, by decide, by decide, by decide⟩
  · exact ⟨by decide, by decide, by decide, by decide, by decide⟩

def withMissing : TextTable 124 2 where
  rows := [[some [97], none], [none, some [98]]]
  widths := by simp
  storable := by
    intro row hrow text htext
    simp only [List.mem_cons, List.not_mem_nil, or_false] at hrow
    obtain rfl | rfl := hrow
    · obtain rfl : text = [97] := by simpa using htext
      exact storable_letter (.inl rfl)
    · obtain rfl : text = [98] := by simpa using htext
      exact storable_letter (.inr rfl)

theorem decodes_encoded_iff_missing :
    Decoded (by decide : FieldByte 124) 2 withMissing.rows ↔ withMissing.rows.length ≤ intMax ∧
      ∀ row ∈ withMissing.rows, ∀ text, some text ∈ row → ¬marker <+: text :=
  decodes_encoded_iff (by decide) 2 le_rfl (by decide) withMissing

def withMarked : TextTable 124 2 where
  rows := [[some [92, 78, 97], some [98]]]
  widths := by simp
  storable := by
    intro row hrow text htext
    obtain rfl := List.mem_singleton.mp hrow
    simp only [List.mem_cons, Option.some.injEq, List.not_mem_nil, or_false] at htext
    obtain rfl | rfl := htext
    · exact ⟨by decide, by decide, by decide, by decide, by decide⟩
    · exact storable_letter (.inr rfl)

/-- A string that only begins with the marker is read as `NULL`. -/
theorem marked_string_lost : ¬Decoded (by decide : FieldByte 124) 2 withMarked.rows := by
  intro h
  obtain ⟨-, hmap⟩ := decoded_necessary _ le_rfl (by decide) withMarked h
  exact absurd hmap (by decide)

end RSQLCipher.ImportFormat
