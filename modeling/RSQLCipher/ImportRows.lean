import RSQLCipher.ImportLines

namespace RSQLCipher.ImportRows

open RSQLCipher.Library RSQLCipher.Values RSQLCipher.ImportFile RSQLCipher.ImportLines

variable {σ : Type} (target : ImportTarget σ) (zTable zFile : String) (separator eol : CString)

def importText (nCol : Nat) (skip : Int) (lineno : Nat) (line : Bytes) (db : σ)
    (inserted : List TextRow) : Except ImportFault (σ × List TextRow) :=
  if lineno = intMax then .error .undefined
  else if (lineno + 1 : Int) ≤ skip then .ok (db, inserted)
  else
    match insertLine target zTable zFile separator nCol (lineno + 1) line db with
    | .ok (row, db) => .ok (db, inserted ++ [row])
    | .error e => .error e

/-- The importer over the lines of a file, which ends in a text without `eol`. -/
def importLines (nCol : Nat) (skip : Int) (tail : Bytes) :
    List Bytes → Nat → σ → List TextRow → Except ImportFault (σ × List TextRow)
  | [], _, db, inserted => if tail = [] then .ok (db, inserted) else .error .undefined
  | a :: rest, lineno, db, inserted =>
    if Quiet eol.bytes (a ++ eol.bytes) then
      match lineText a with
      | none => .ok (db, inserted)
      | some line =>
        match importText target zTable zFile separator nCol skip lineno line db inserted with
        | .ok (db, inserted) => importLines nCol skip tail rest (lineno + 1) db inserted
        | .error e => .error e
    else .error .undefined

def Agrees (x : Except ImportFault (σ × List TextRow)) :
    EStateM.Result ImportFault (ImportState σ) Nat → Prop :=
  Ends (fun _ s => x = .ok (s.db, s.inserted)) fun e _ => x = .error e

section Rounds

variable {target : ImportTarget σ} {eol : CString} {st st' : ImportState σ} (zTable zFile : String)
  (separator : CString) (nCol : Nat) (skip : Int) (lineno : Nat)

theorem importRound_null (h : getline target.signedChar eol.bytes st = .ok none st') :
    importRound target zTable zFile separator eol nCol skip lineno st =
      .ok (lineno, false) st' := by
  rw [importRound, bind_ok h]
  rfl

theorem importRound_fault {e : ImportFault}
    (h : getline target.signedChar eol.bytes st = .error e st') :
    importRound target zTable zFile separator eol nCol skip lineno st = .error e st' := by
  rw [importRound, bind_error h]

theorem importRound_text {line : Bytes}
    (h : getline target.signedChar eol.bytes st = .ok (some line) st') :
    importRound target zTable zFile separator eol nCol skip lineno st =
      match importText target zTable zFile separator nCol skip lineno line st'.db st'.inserted with
      | .ok (db, inserted) =>
        .ok (lineno + 1, true) { st' with db := db, inserted := inserted }
      | .error e => .error e st' := by
  rw [importRound, bind_ok h, importText]
  by_cases hmax : lineno = intMax
  · simp [hmax]
  · by_cases hskip : (lineno + 1 : Int) ≤ skip
    · simp [hmax, hskip]
    · cases hrow : insertLine target zTable zFile separator nCol (lineno + 1) line st'.db with
      | error e => simp [hmax, hskip, hrow]
      | ok p => simp [hmax, hskip, hrow]

theorem quiet_append {eol a rest : Bytes} :
    Quiet eol (a ++ eol ++ rest) ↔ Quiet eol (a ++ eol) := by
  simp only [Quiet]
  rw [List.take_append_of_le_length (by simp; omega)]

theorem zero_not_mem_tail {content : Bytes} (heol : eol.bytes ≠ [])
    (hend : eol.bytes <:+ content) : 0 ∉ (lines eol.bytes content).2 := by
  intro hmem
  obtain ⟨hsuffix, -⟩ := isTail_lines heol content (.inl hend)
  exact eol.noNul (hsuffix.subset hmem)

/-- A rest without `eol` is read behind what is written. -/
theorem getline_open (heol : eol.bytes ≠ []) (hseen : ¬Unseen target.signedChar eol.bytes)
    (hfirst : firstLine eol.bytes st.input = none) (hzero : 0 ∉ st.input) (hnil : st.input ≠ []) :
    ∃ st', getline target.signedChar eol.bytes st = .error .undefined st' := by
  by_cases hquiet : Quiet eol.bytes st.input
  · have hget := getline_rest heol hseen hquiet hfirst
    have hfinish : finishLine st.input = .error .undefined := by
      simp only [finishLine, hnil, readString, hzero, if_false]
      rfl
    rw [hfinish] at hget
    exact ⟨_, hget⟩
  · exact getline_early heol hseen hquiet

theorem importLoop_rest (heol : eol.bytes ≠ []) (hseen : ¬Unseen target.signedChar eol.bytes)
    (hfirst : firstLine eol.bytes st.input = none) (hzero : 0 ∉ st.input) (fuel : Nat) :
    Agrees (importLines target zTable zFile separator eol nCol skip st.input [] lineno st.db
        st.inserted)
      (loop .stuck (importRound target zTable zFile separator eol nCol skip) (fuel + 1) lineno
        st) := by
  by_cases hnil : st.input = []
  · have hquiet : Quiet eol.bytes st.input := by
      rw [hnil]
      simp [Quiet]
    have hget := getline_rest heol hseen hquiet hfirst
    rw [hnil] at hget
    rw [loop_stop (importRound_null _ _ _ _ _ _ hget)]
    simp [Agrees, importLines, hnil]
  · obtain ⟨st', hget⟩ := getline_open heol hseen hfirst hzero hnil
    rw [loop_error (importRound_fault _ _ _ _ _ _ hget)]
    simp [Agrees, importLines, hnil]

/-- The loop of the importer refines the importer over the lines of its input. -/
theorem importLoop_agrees (heol : eol.bytes ≠ []) (hseen : ¬Unseen target.signedChar eol.bytes)
    (fuel lineno : Nat) (st : ImportState σ) (hfuel : st.input.length < fuel)
    (htail : 0 ∉ (lines eol.bytes st.input).2) :
    Agrees (importLines target zTable zFile separator eol nCol skip
        (lines eol.bytes st.input).2 (lines eol.bytes st.input).1 lineno st.db st.inserted)
      (loop .stuck (importRound target zTable zFile separator eol nCol skip) fuel lineno st) := by
  induction fuel generalizing lineno st with
  | zero => exact absurd hfuel (Nat.not_lt_zero _)
  | succ fuel ih =>
    cases hfirst : firstLine eol.bytes st.input with
    | none =>
      rw [lines_none hfirst] at htail ⊢
      exact importLoop_rest zTable zFile separator nCol skip lineno heol hseen hfirst htail fuel
    | some p =>
      obtain ⟨a, rest⟩ := p
      have happ := firstLine_append hfirst
      rw [lines_some heol hfirst] at htail ⊢
      by_cases hquiet : Quiet eol.bytes st.input
      · have hline : Quiet eol.bytes (a ++ eol.bytes) := by
          rw [happ] at hquiet
          exact quiet_append.mp hquiet
        have hget := getline_line heol hseen hquiet hfirst
        simp only [importLines, hline, if_true]
        cases htext : lineText a with
        | none =>
          rw [htext] at hget
          rw [loop_stop (importRound_null _ _ _ _ _ _ hget)]
          simp [Agrees]
        | some line =>
          rw [htext] at hget
          have hround := importRound_text zTable zFile separator nCol skip lineno hget
          simp only at hround ⊢
          cases hone : importText target zTable zFile separator nCol skip lineno line st.db
              st.inserted with
          | error e =>
            rw [hone] at hround
            rw [loop_error hround]
            simp [Agrees]
          | ok q =>
            obtain ⟨db, inserted⟩ := q
            rw [hone] at hround
            rw [loop_more hround]
            refine ih (lineno + 1) { db := db, input := rest, inserted := inserted } ?_ htail
            have hlen := congrArg List.length happ
            have hpos := List.length_pos_iff.mpr heol
            simp only [List.length_append] at hlen
            simp only
            omega
      · obtain ⟨st', hget⟩ := getline_early heol hseen hquiet
        have hline : ¬Quiet eol.bytes (a ++ eol.bytes) := by
          rw [happ, quiet_append] at hquiet
          exact hquiet
        rw [loop_error (importRound_fault _ _ _ _ _ _ hget)]
        simp [Agrees, importLines, hline]

end Rounds

def lineRow (separator : Bytes) (nCol : Nat) (a : Bytes) : Option TextRow :=
  let s := splitLine separator nCol (cString a)
  if s.i + 1 = nCol then some (rowValues s) else none

def insertRows (nCol : Nat) (db : σ) (rows : List TextRow) : Except String σ :=
  rows.foldlM (target.insert (insertSql zTable nCol)) db

/-- The rows of the lines are the rows inserted, unless an error is raised. -/
def Delivers (nCol : Nat) (db : σ) (inserted : List TextRow) (given : List Bytes) :
    Except ImportFault (σ × List TextRow) → Prop
  | .ok (db', rows) => ∃ new, rows = inserted ++ new ∧ new.length = given.length ∧
      new.map some = given.map (lineRow separator.bytes nCol) ∧
      insertRows target zTable nCol db new = .ok db'
  | .error e => e.Raised

def insertLines (nCol : Nat) : Nat → List Bytes → σ → Except ImportFault σ
  | _, [], db => .ok db
  | lineno, a :: rest, db =>
    match insertLine target zTable zFile separator nCol (lineno + 1) (cString a) db with
    | .ok (_, db) => insertLines nCol (lineno + 1) rest db
    | .error e => .error e

/-- A line that is neither taken for the end of the file nor for the end of an `eol` that
began before it. -/
def Readable (eol a : Bytes) : Prop := Quiet eol (a ++ eol) ∧ cString a ≠ []

instance (eol a : Bytes) : Decidable (Readable eol a) :=
  inferInstanceAs (Decidable (_ ∧ _))

/-- The lines before the first that is not readable, as far as they can be counted. -/
def readableLines (eol : Bytes) (limit : Nat) (all : List Bytes) : List Bytes :=
  (all.take limit).takeWhile fun a => Readable eol a

/-- Where the lines of a file are all imported: those that can be read are all of them, or
one of them raises an error, or all are skipped that should be. -/
def ReadsEach (nCol skip : Nat) (all : List Bytes) (tail : Bytes) (lineno : Nat) (db : σ) : Prop :=
  let read := readableLines eol.bytes (intMax - lineno) all
  match insertLines target zTable zFile separator nCol (max lineno skip)
    (read.drop (skip - lineno)) db with
  | .error e => e.Raised
  | .ok _ => (read = all ∧ tail = []) ∨
      ((∃ a ∈ all[read.length]?, Quiet eol.bytes (a ++ eol.bytes) ∧ cString a = []) ∧
        all.length ≤ skip - lineno)

section Step

variable {target : ImportTarget σ} {zTable zFile : String} {separator eol : CString}
  {nCol lineno limit : Nat} {db db' : σ} {row : TextRow} {a : Bytes} {all given : List Bytes}
  {inserted : List TextRow}

theorem lineText_nil (h : cString a = []) : lineText a = none := if_pos h

theorem lineText_some (h : cString a ≠ []) : lineText a = some (cString a) := if_neg h

theorem readableLines_stop (h : ¬Readable eol.bytes a) :
    readableLines eol.bytes limit (a :: all) = [] := by
  cases limit with
  | zero => rfl
  | succ limit => simp [readableLines, h]

theorem readableLines_zero : readableLines eol.bytes 0 all = [] := rfl

theorem readableLines_cons (h : Readable eol.bytes a) :
    readableLines eol.bytes (limit + 1) (a :: all) = a :: readableLines eol.bytes limit all := by
  simp [readableLines, h]

theorem insertLine_ok
    (h : insertLine target zTable zFile separator nCol lineno (cString a) db = .ok (row, db')) :
    lineRow separator.bytes nCol a = some row ∧
      target.insert (insertSql zTable nCol) db row = .ok db' := by
  simp only [insertLine] at h
  cases hsplit : splitRow zFile separator.bytes nCol lineno (cString a) with
  | error e =>
    rw [hsplit] at h
    cases h
  | ok found =>
    rw [hsplit] at h
    simp only [bind, Except.bind] at h
    cases hinsert : target.insert (insertSql zTable nCol) db found with
    | error message =>
      rw [hinsert] at h
      cases h
    | ok after =>
      rw [hinsert] at h
      cases h
      refine ⟨?_, hinsert⟩
      simp only [splitRow] at hsplit
      split at hsplit
      · cases hsplit
      · split at hsplit
        · cases hsplit
        · rename_i hcolumns
          cases hsplit
          simp only [lineRow, not_not.mp hcolumns, if_true]

theorem delivers_done (h : given = []) :
    Delivers target zTable separator nCol db inserted given (.ok (db, inserted)) := by
  subst h
  exact ⟨[], by simp, rfl, rfl, rfl⟩

theorem delivers_short (h : given ≠ []) :
    ¬Delivers target zTable separator nCol db inserted given (.ok (db, inserted)) := by
  rintro ⟨new, happ, hlen, -⟩
  have hnew : new = [] := List.append_right_eq_self.mp happ.symm
  rw [hnew] at hlen
  exact h (List.length_eq_zero_iff.mp hlen.symm)

theorem delivers_cons (hrow : lineRow separator.bytes nCol a = some row)
    (hinsert : target.insert (insertSql zTable nCol) db row = .ok db')
    (x : Except ImportFault (σ × List TextRow))
    (hx : ∀ p, x = .ok p → (inserted ++ [row]) <+: p.2) :
    Delivers target zTable separator nCol db inserted (a :: given) x ↔
      Delivers target zTable separator nCol db' (inserted ++ [row]) given x := by
  cases x with
  | error e => rfl
  | ok p =>
    obtain ⟨final, rows⟩ := p
    obtain ⟨new, hnew⟩ := hx _ rfl
    simp only at hnew
    subst hnew
    have hcons : insertRows target zTable nCol db (row :: new) =
        insertRows target zTable nCol db' new := by
      simp only [insertRows, List.foldlM_cons, hinsert]
      rfl
    constructor
    · rintro ⟨new', happ, hlen, hmap, hrun⟩
      rw [List.append_assoc, List.append_cancel_left_eq] at happ
      subst happ
      refine ⟨new, rfl, by simpa using hlen, by simpa [hrow] using hmap, ?_⟩
      rw [← hcons]
      exact hrun
    · rintro ⟨new', happ, hlen, hmap, hrun⟩
      rw [List.append_cancel_left_eq] at happ
      subst happ
      refine ⟨row :: new, by simp, by simpa using hlen, by simpa [hrow] using hmap, ?_⟩
      rw [hcons]
      exact hrun

theorem le_importText {skip : Int} {line : Bytes} {p : σ × List TextRow}
    (h : importText target zTable zFile separator nCol skip lineno line db inserted = .ok p) :
    inserted <+: p.2 := by
  simp only [importText] at h
  split at h
  · cases h
  · split at h
    · cases h
      exact List.prefix_rfl
    · split at h
      · cases h
        exact List.prefix_append _ _
      · cases h

theorem le_importLines {skip : Int} {tail : Bytes} {p : σ × List TextRow}
    (h : importLines target zTable zFile separator eol nCol skip tail all lineno db inserted =
      .ok p) : inserted <+: p.2 := by
  induction all generalizing lineno db inserted with
  | nil =>
    simp only [importLines] at h
    split at h
    · cases h
      exact List.prefix_rfl
    · cases h
  | cons a all ih =>
    simp only [importLines] at h
    split at h
    · split at h
      · cases h
        exact List.prefix_rfl
      · split at h
        · rename_i hone
          exact (le_importText hone).trans (ih h)
        · cases h
    · cases h

section Lines

variable (skip : Nat) (tail : Bytes)

/-- The line is taken for the end of the file. -/
theorem delivers_blank (hquiet : Quiet eol.bytes (a ++ eol.bytes)) (htext : cString a = []) :
    Delivers target zTable separator nCol db inserted ((a :: all).drop (skip - lineno))
        (importLines target zTable zFile separator eol nCol skip tail (a :: all) lineno db inserted) ↔
      ReadsEach target zTable zFile separator eol nCol skip (a :: all) tail lineno db := by
  have hstop : ¬Readable eol.bytes a := fun h => h.2 htext
  simp only [importLines, hquiet, if_true, lineText_nil htext, ReadsEach,
    readableLines_stop hstop, List.drop_nil, insertLines, List.length_nil]
  by_cases hskip : (a :: all).length ≤ skip - lineno
  · simpa [delivers_done (List.drop_eq_nil_of_le hskip), hquiet, htext] using hskip
  · have hgiven : (a :: all).drop (skip - lineno) ≠ [] := by
      rw [ne_eq, List.drop_eq_nil_iff]
      exact hskip
    simpa [delivers_short hgiven, hquiet, htext] using hskip

/-- The line number would overflow. -/
theorem delivers_overflow (hread : Readable eol.bytes a) (hmax : lineno = intMax) :
    Delivers target zTable separator nCol db inserted ((a :: all).drop (skip - lineno))
        (importLines target zTable zFile separator eol nCol skip tail (a :: all) lineno db inserted) ↔
      ReadsEach target zTable zFile separator eol nCol skip (a :: all) tail lineno db := by
  simp [importLines, lineText_some hread.2, importText, hmax, ReadsEach, readableLines_zero, Delivers,
    ImportFault.Raised, insertLines, hread.1, hread.2]

variable (zFile)

theorem delivers_skipped (hread : Readable eol.bytes a) (hmax : lineno < intMax)
    (hskip : lineno + 1 ≤ skip)
    (hnext : Delivers target zTable separator nCol db inserted (all.drop (skip - (lineno + 1)))
        (importLines target zTable zFile separator eol nCol skip tail all (lineno + 1) db inserted) ↔
      ReadsEach target zTable zFile separator eol nCol skip all tail (lineno + 1) db) :
    Delivers target zTable separator nCol db inserted ((a :: all).drop (skip - lineno))
        (importLines target zTable zFile separator eol nCol skip tail (a :: all) lineno db inserted) ↔
      ReadsEach target zTable zFile separator eol nCol skip (a :: all) tail lineno db := by
  obtain ⟨limit, hlim⟩ : ∃ limit, intMax - lineno = limit + 1 := ⟨intMax - lineno - 1, by omega⟩
  have hlim' : intMax - (lineno + 1) = limit := by omega
  have hdrop : skip - lineno = skip - (lineno + 1) + 1 := by omega
  have hfirst : max lineno skip = max (lineno + 1) skip := by omega
  have hskip' : (lineno + 1 : Int) ≤ skip := by omega
  simp only [ReadsEach, hlim'] at hnext
  simp only [importLines, hread.1, if_true, lineText_some hread.2, importText, hmax.ne, if_false,
    ReadsEach, hlim, readableLines_cons hread, hskip', hdrop, List.drop_succ_cons, hfirst,
    List.length_cons, List.getElem?_cons_succ, List.cons.injEq, true_and, Nat.add_le_add_iff_right]
  exact hnext

theorem delivers_inserted (hread : Readable eol.bytes a) (hmax : lineno < intMax)
    (hskip : ¬lineno + 1 ≤ skip)
    (hnext : ∀ db inserted,
      Delivers target zTable separator nCol db inserted (all.drop (skip - (lineno + 1)))
          (importLines target zTable zFile separator eol nCol skip tail all (lineno + 1) db inserted) ↔
        ReadsEach target zTable zFile separator eol nCol skip all tail (lineno + 1) db) :
    Delivers target zTable separator nCol db inserted ((a :: all).drop (skip - lineno))
        (importLines target zTable zFile separator eol nCol skip tail (a :: all) lineno db inserted) ↔
      ReadsEach target zTable zFile separator eol nCol skip (a :: all) tail lineno db := by
  obtain ⟨limit, hlim⟩ : ∃ limit, intMax - lineno = limit + 1 := ⟨intMax - lineno - 1, by omega⟩
  have hlim' : intMax - (lineno + 1) = limit := by omega
  have hdrop : skip - lineno = 0 := by omega
  have hdrop' : skip - (lineno + 1) = 0 := by omega
  have hfirst : max lineno skip = lineno := by omega
  have hfirst' : max (lineno + 1) skip = lineno + 1 := by omega
  have hskip' : ¬(lineno + 1 : Int) ≤ skip := by omega
  simp only [ReadsEach, hlim', hdrop', hfirst', List.drop_zero] at hnext
  simp only [importLines, hread.1, if_true, lineText_some hread.2, importText, hmax.ne, if_false,
    ReadsEach, hlim, readableLines_cons hread, hskip', hdrop, hfirst, List.drop_zero, insertLines]
  cases hone : insertLine target zTable zFile separator nCol (lineno + 1) (cString a) db with
  | error e => rfl
  | ok p =>
    obtain ⟨row, db'⟩ := p
    obtain ⟨hrow, hinsert⟩ := insertLine_ok hone
    simp only
    rw [delivers_cons hrow hinsert _ fun p hp => le_importLines hp, hnext]
    cases insertLines target zTable zFile separator nCol (lineno + 1)
        (readableLines eol.bytes limit all) db' with
    | error e => rfl
    | ok after =>
      cases all with
      | nil => simp [readableLines]
      | cons b all => simp

end Lines

/-- The importer over lines delivers the rows that are due exactly where it reads each
line. -/
theorem delivers_iff (skip : Nat) (tail : Bytes) (hlimit : lineno ≤ intMax) :
    Delivers target zTable separator nCol db inserted (all.drop (skip - lineno))
        (importLines target zTable zFile separator eol nCol skip tail all lineno db inserted) ↔
      ReadsEach target zTable zFile separator eol nCol skip all tail lineno db := by
  induction all generalizing lineno db inserted with
  | nil =>
    simp only [List.drop_nil, importLines, ReadsEach, readableLines, List.take_nil,
      List.takeWhile_nil, insertLines, List.length_nil, List.getElem?_nil]
    by_cases htail : tail = []
    · simp [htail, delivers_done]
    · simp [htail, Delivers, ImportFault.Raised]
  | cons a all ih =>
    by_cases hquiet : Quiet eol.bytes (a ++ eol.bytes)
    · by_cases htext : cString a = []
      · exact delivers_blank skip tail hquiet htext
      · have hread : Readable eol.bytes a := ⟨hquiet, htext⟩
        obtain hmax | hmax := Nat.eq_or_lt_of_le hlimit
        · exact delivers_overflow skip tail hread hmax
        · by_cases hskip : lineno + 1 ≤ skip
          · exact delivers_skipped zFile skip tail hread hmax hskip (ih hmax)
          · exact delivers_inserted zFile skip tail hread hmax hskip fun db inserted => ih hmax
    · -- the buffer is read before its first cell
      have hstop : ¬Readable eol.bytes a := fun h => hquiet h.1
      simp [importLines, hquiet, ReadsEach, readableLines_stop hstop, insertLines, Delivers,
        ImportFault.Raised]

end Step

def importWhole (nCol : Nat) (skip : Int) (content : Bytes) (db : σ) :
    Except ImportFault (σ × List TextRow) :=
  match finishLine content with
  | .ok none => .ok (db, [])
  | .ok (some line) => importText target zTable zFile separator nCol skip 0 line db []
  | .error e => .error e

def ReadsWhole (nCol skip : Nat) (content : Bytes) (db : σ) : Prop :=
  let total := (lines eol.bytes content).1.length
  0 ∈ content ∧
    if cString content = [] ∨ 0 < skip then total ≤ skip
    else
      match insertLine target zTable zFile separator nCol 1 (cString content) db with
      | .error e => e.Raised
      | .ok _ => total = 1

def ReadsAll (nCol skip : Nat) (content : Bytes) (db : σ) : Prop :=
  (∃ message, target.prepare db (insertSql zTable nCol) = .error message) ∨
    if Unseen target.signedChar eol.bytes then
      ReadsWhole target zTable zFile separator eol nCol skip content db
    else
      ReadsEach target zTable zFile separator eol nCol skip (lines eol.bytes content).1
        (lines eol.bytes content).2 0 db

/-- A call that returns 1 has inserted the rows of all lines but those to skip, in file
order; one that does not return raises. -/
def KeepsRows (nCol skip : Nat) (content : Bytes) (db : σ) :
    EStateM.Result ImportFault (ImportState σ) Int → Prop :=
  Ends (fun code s => code = 1 →
    s.inserted.length = (lines eol.bytes content).1.length - skip ∧
    s.inserted.map some =
      ((lines eol.bytes content).1.drop skip).map (lineRow separator.bytes nCol) ∧
    insertRows target zTable nCol db s.inserted = .ok s.db) fun e _ => e.Raised

section Run

variable {target : ImportTarget σ} {zTable zFile : String} {separator eol : CString} {nCol : Nat}
  {content : Bytes} {db : σ}

theorem lineRow_whole (separator : CString) (nCol : Nat) (heol : eol.bytes ≠ [])
    (hend : eol.bytes <:+ content) (hzero : 0 ∈ content) {a : Bytes} (h : (lines eol.bytes content).1 = [a]) :
    lineRow separator.bytes nCol a = lineRow separator.bytes nCol content := by
  have htail := zero_not_mem_tail heol hend
  cases hfirst : firstLine eol.bytes content with
  | none =>
    rw [lines_none hfirst] at h
    cases h
  | some p =>
    obtain ⟨first, rest⟩ := p
    rw [lines_some heol hfirst] at h htail
    obtain ⟨rfl, hrest⟩ := List.cons.inj h
    have happ := firstLine_append hfirst
    have hsame : rest = (lines eol.bytes rest).2 := by
      cases hnext : firstLine eol.bytes rest with
      | none => rw [lines_none hnext]
      | some q =>
        obtain ⟨b, more⟩ := q
        rw [lines_some heol hnext] at hrest
        cases hrest
    rw [← hsame] at htail
    have hmem : 0 ∈ first := by
      rw [happ, List.append_assoc, List.mem_append, List.mem_append] at hzero
      obtain hin | hin | hin := hzero
      · exact hin
      · exact absurd hin eol.noNul
      · exact absurd hin htail
    simp only [lineRow]
    rw [happ, List.append_assoc, cString_of_mem hmem]

theorem importLoop_unseen (skip : Int) (heol : eol.bytes ≠ [])
    (hunseen : Unseen target.signedChar eol.bytes) (hnil : content ≠ []) :
    Agrees (importWhole target zTable zFile separator nCol skip content db)
      (loop .stuck (importRound target zTable zFile separator eol nCol skip) (content.length + 1) 0
        { db := db, input := content, inserted := [] }) := by
  have hget := getline_unseen { db := db, input := content, inserted := [] } heol hunseen
  simp only at hget
  simp only [importWhole]
  cases hfinish : finishLine content with
  | error e =>
    rw [hfinish] at hget
    rw [loop_error (importRound_fault _ _ _ _ _ _ hget)]
    simp [Agrees]
  | ok text =>
    rw [hfinish] at hget
    cases text with
    | none =>
      rw [loop_stop (importRound_null _ _ _ _ _ _ hget)]
      simp [Agrees]
    | some line =>
      have hround := importRound_text zTable zFile separator nCol skip 0 hget
      simp only at hround ⊢
      cases hone : importText target zTable zFile separator nCol skip 0 line db [] with
      | error e =>
        rw [hone] at hround
        rw [loop_error hround]
        simp [Agrees]
      | ok p =>
        obtain ⟨db', inserted⟩ := p
        rw [hone] at hround
        obtain ⟨fuel, hfuel⟩ : ∃ fuel, content.length = fuel + 1 :=
          ⟨content.length - 1, (Nat.sub_add_cancel (List.length_pos_iff.mpr hnil)).symm⟩
        have hlast := getline_unseen { db := db', input := [], inserted := inserted } heol hunseen
        rw [loop_more hround, hfuel, loop_stop (importRound_null _ _ _ _ _ _ hlast)]
        simp [Agrees]

theorem finishLine_zero (hzero : 0 ∈ content) : finishLine content = .ok (lineText content) := by
  have hnil : content ≠ [] := List.ne_nil_of_mem hzero
  simp only [finishLine, if_neg hnil, readString, if_pos hzero, lineText]
  rfl

theorem finishLine_open (hnil : content ≠ []) (hzero : 0 ∉ content) :
    finishLine content = .error .undefined := by
  simp only [finishLine, if_neg hnil, readString, if_neg hzero]
  rfl

theorem delivers_none (n : Nat) :
    Delivers target zTable separator nCol db [] ((lines eol.bytes content).1.drop n)
      (.ok (db, [])) ↔ (lines eol.bytes content).1.length ≤ n := by
  rw [← List.drop_eq_nil_iff]
  by_cases h : (lines eol.bytes content).1.drop n = []
  · exact iff_of_true (delivers_done h) h
  · exact iff_of_false (delivers_short h) h

theorem delivers_whole (skip : Nat) (heol : eol.bytes ≠ []) (hend : eol.bytes <:+ content) :
    Delivers target zTable separator nCol db [] ((lines eol.bytes content).1.drop skip)
        (importWhole target zTable zFile separator nCol skip content db) ↔
      ReadsWhole target zTable zFile separator eol nCol skip content db := by
  have hnil : content ≠ [] := by
    rintro rfl
    exact heol (List.suffix_nil.mp hend)
  by_cases hzero : 0 ∈ content
  · simp only [importWhole, ReadsWhole, finishLine_zero hzero, hzero, true_and]
    by_cases htext : cString content = []
    · simp only [lineText_nil htext, htext, true_or, if_true, delivers_none]
    · simp only [lineText_some htext, htext, false_or]
      by_cases hskip : 0 < skip
      · have hle : ((0 : Nat) + 1 : Int) ≤ skip := by omega
        have hmax : ¬0 = intMax := by decide
        simp only [importText, hskip, hle, hmax, if_true, if_false, delivers_none]
      · have hmax : ¬0 = intMax := by decide
        have hnone : skip = 0 := by omega
        simp only [importText, hmax, hnone, Nat.lt_irrefl, if_false, List.drop_zero]
        cases hone : insertLine target zTable zFile separator nCol (0 + 1) (cString content) db with
        | error e => rfl
        | ok p =>
          obtain ⟨row, db'⟩ := p
          obtain ⟨hrow, hinsert⟩ := insertLine_ok hone
          constructor
          · rintro ⟨new, happ, hlen, -⟩
            rw [List.nil_append, List.nil_append] at happ
            rw [← hlen, ← happ]
            rfl
          · intro hlen
            obtain ⟨a, ha⟩ := List.length_eq_one_iff.mp hlen
            have hsame := lineRow_whole separator nCol heol hend hzero ha
            refine ⟨[row], rfl, by rw [ha]; rfl, ?_, ?_⟩
            · simp [ha, hsame, hrow]
            · simp [insertRows, hinsert]
  · simp [importWhole, ReadsWhole, finishLine_open hnil hzero, hzero, Delivers,
      ImportFault.Raised]

def finished : EStateM.Result ImportFault (ImportState σ) Nat →
    EStateM.Result ImportFault (ImportState σ) Int
  | .ok _ s => .ok 1 s
  | .error e s => .error e s

theorem runImport_loop (skip : Int) (hsep : separator.bytes ≠ []) (hcol : 0 < nCol)
    (hcols : target.prepare db (selectSql zTable) = .ok nCol) {columns : Nat}
    (hinsert : target.prepare db (insertSql zTable nCol) = .ok columns)
    (hfile : target.openFile zFile = some content) :
    runImport target zTable zFile separator eol skip db =
      finished (loop .stuck (importRound target zTable zFile separator eol nCol skip)
        (content.length + 1) 0 { db := db, input := content, inserted := [] }) := by
  simp only [runImport, sqliteImport, if_neg hsep, bind_apply, get_apply, pure_apply, hcols,
    if_neg hcol.ne', hinsert, hfile, modify_apply]
  cases loop .stuck (importRound target zTable zFile separator eol nCol skip)
      (content.length + 1) 0 { db := db, input := content, inserted := [] } with
  | ok lineno s => rfl
  | error e s => rfl

theorem keepsRows_iff_delivers {skip : Nat} {x : Except ImportFault (σ × List TextRow)}
    {r : EStateM.Result ImportFault (ImportState σ) Nat} (h : Agrees x r) :
    KeepsRows target zTable separator eol nCol skip content db (finished r) ↔
      Delivers target zTable separator nCol db [] ((lines eol.bytes content).1.drop skip) x := by
  cases r with
  | error e s =>
    simp only [Agrees, ends_error] at h
    subst h
    rfl
  | ok lineno s =>
    simp only [Agrees, ends_ok] at h
    subst h
    simp only [finished, KeepsRows, ends_ok, forall_const, Delivers, List.nil_append, List.length_drop]
    constructor
    · rintro ⟨hlen, hmap, hrun⟩
      exact ⟨s.inserted, rfl, hlen, hmap, hrun⟩
    · rintro ⟨new, rfl, hlen, hmap, hrun⟩
      exact ⟨hlen, hmap, hrun⟩

/-- A file that ends with `eol` is imported whole exactly where the importer reads all of
its lines. -/
theorem keeps_rows_iff (skip : Nat) (hsep : separator.bytes ≠ []) (heol : eol.bytes ≠ [])
    (hcol : 0 < nCol) (hcols : target.prepare db (selectSql zTable) = .ok nCol)
    (hfile : target.openFile zFile = some content) (hend : eol.bytes <:+ content) :
    KeepsRows target zTable separator eol nCol skip content db
        (runImport target zTable zFile separator eol skip db) ↔
      ReadsAll target zTable zFile separator eol nCol skip content db := by
  have hnil : content ≠ [] := by
    rintro rfl
    exact heol (List.suffix_nil.mp hend)
  cases hinsert : target.prepare db (insertSql zTable nCol) with
  | error message =>
    refine iff_of_true ?_ (.inl ⟨message, hinsert⟩)
    simp [runImport, sqliteImport, hsep, hcols, hcol.ne', hinsert, KeepsRows, importError,
      ImportFault.Raised]
  | ok columns =>
    have hnone : ¬∃ message, target.prepare db (insertSql zTable nCol) = .error message := by
      simp [hinsert]
    rw [runImport_loop skip hsep hcol hcols hinsert hfile, ReadsAll, or_iff_right hnone]
    by_cases hunseen : Unseen target.signedChar eol.bytes
    · rw [keepsRows_iff_delivers (importLoop_unseen skip heol hunseen hnil), if_pos hunseen]
      exact delivers_whole skip heol hend
    · have hloop := importLoop_agrees zTable zFile separator nCol skip heol hunseen
        (content.length + 1) 0 { db := db, input := content, inserted := [] }
        (Nat.lt_succ_self _) (zero_not_mem_tail heol hend)
      rw [keepsRows_iff_delivers hloop, if_neg hunseen]
      exact delivers_iff skip _ (Nat.zero_le _)

end Run

def tableAndFile (nCol : Nat) (content : Bytes) : ImportTarget (List TextRow) where
  prepare _ _ := .ok nCol
  insert _ db row := .ok (db ++ [row])
  openFile _ := some content
  signedChar := true

theorem keeps_rows_iff_two_lines :
    KeepsRows (tableAndFile 2 [97, 44, 98, 10, 99, 44, 100, 10]) "t" comma newline 2 1
        [97, 44, 98, 10, 99, 44, 100, 10] []
        (runImport (tableAndFile 2 [97, 44, 98, 10, 99, 44, 100, 10]) "t" "f" comma newline 1 []) ↔
      ReadsAll (tableAndFile 2 [97, 44, 98, 10, 99, 44, 100, 10]) "t" "f" comma newline 2 1
        [97, 44, 98, 10, 99, 44, 100, 10] [] :=
  keeps_rows_iff 1 (by decide) (by decide) (by decide) rfl rfl (by decide)

/-- Of three lines, of which the second is empty, only the first is inserted. -/
theorem lines_behind_empty_lost :
    ¬∀ (target : ImportTarget (List TextRow)) (zTable zFile : String) (separator eol : CString)
        (nCol skip : Nat) (content : Bytes) (db : List TextRow),
      separator.bytes ≠ [] → eol.bytes ≠ [] → 0 < nCol →
      target.prepare db (selectSql zTable) = .ok nCol → target.openFile zFile = some content →
      eol.bytes <:+ content →
      KeepsRows target zTable separator eol nCol skip content db
        (runImport target zTable zFile separator eol skip db) := by
  intro h
  have hrun := h (tableAndFile 1 [97, 10, 10, 98, 10]) "t" "f" comma newline 1 0
    [97, 10, 10, 98, 10] [] (by decide) (by decide) (by decide) rfl rfl (by decide)
  revert hrun
  unfold KeepsRows
  decide +kernel

end RSQLCipher.ImportRows
