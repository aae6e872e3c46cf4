import Mathlib.Data.List.TakeWhile
import RSQLCipher.FlatColumn

namespace RSQLCipher.FetchedValues

open RSQLCipher.Library RSQLCipher.Values RSQLCipher.ColumnDataSource RSQLCipher.ColumnStorage
open RSQLCipher.Column RSQLCipher.FlatColumn RSQLCipher.ChunkContents SqliteColumnDataSource
open DbColumnStorage DbColumn

def isNA : DataType → Elem → Prop
  | .real, .word w | .date, .word w | .datetime, .word w | .datetimetz, .word w | .time, .word w =>
    rIsNA ⟨w⟩ = true
  | dt, e => e = naElem dt

inductive IsValue : DataType → Elem → Cell → Prop
  | int (v : Int64) (w : Int32) (h : w.toInt = v.toInt) : IsValue .int (.int w) (.integer v)
  | int64 (v : Int64) : IsValue .int64 (.ofInt64 v) (.integer v)
  | real (v : Int64) (x : Binary64) (h : x.toRat = some (v.toInt : ℚ)) :
      IsValue .real (.ofDouble x) (.integer v)
  | float (x : Binary64) : IsValue .real (.ofDouble x) (.float x)
  | text (s : Bytes) : IsValue .string (.chr (some s)) (.text s)
  | blob (b : Bytes) : IsValue .blob (.obj (some b)) (.blob b)

/-- The cells that R can tell from its missing values and strings can hold. -/
def Admissible : Cell → Prop
  | .null | .blob _ => True
  | .integer v => v ≠ Int64.minValue
  | .float x => x.isNaN = false
  | .text s => 0 ∉ s

def int32Min : Cell := .integer (-2147483648)

/-- The cell's type does not make the column warn. -/
def Compatible (wide : DataType) (c : Cell) : Prop :=
  c ≠ .null → storageType c = wide ∨
    (storageType c = .int ∧ (wide = .real ∨ wide = .int64))

theorem isNA_naElem (dt : DataType) : isNA dt (naElem dt) := by
  cases dt <;> rfl

theorem storageType_ne_bool (c : Cell) : storageType c ≠ .bool := by
  cases c with
  | integer v => simp only [storageType]; split <;> simp
  | null | float x | text s | blob b => simp [storageType]

theorem compatible_of_silent {src : SqliteColumnDataSource} (halt : src.withAltTypes = false)
    {col : DbColumn} {cells : List Cell}
    (hseen : ∀ seen, seen ∈ col.dataTypesSeen ↔ ∃ c ∈ cells, src.getDataType c = seen)
    (hsilent : col.typeConflicts = []) (c : Cell) (hc : c ∈ cells) :
    Compatible col.getType c := by
  intro hnull
  have hmem : storageType c ∈ col.dataTypesSeen :=
    (hseen _).mpr ⟨c, hc, getDataType_off src halt c⟩
  have hin : storageType c ∈ dataTypes := by cases storageType c <;> decide
  have hnot : storageType c ∉ col.typeConflicts := by rw [hsilent]; simp
  simp only [typeConflicts, List.mem_filter, hin, hmem, decide_eq_true_eq, true_and] at hnot
  have hu := storageType_ne_unknown c hnull
  have hb := storageType_ne_bool c
  tauto

theorem needs64Bit_iff (v : Int64) :
    needs64Bit v = false ↔ -2 ^ 31 ≤ v.toInt ∧ v.toInt ≤ 2 ^ 31 - 1 := by
  simp [needs64Bit]

theorem toInt_toInt32 (v : Int64) (h : needs64Bit v = false) : v.toInt32.toInt = v.toInt := by
  obtain ⟨hlo, hhi⟩ := (needs64Bit_iff v).mp h
  rw [Int64.toInt_toInt32]
  apply Int.bmod_eq_of_le <;> omega

theorem toInt64_toInt32 (v : Int64) (h : needs64Bit v = false) : v.toInt32.toInt64 = v := by
  rw [← Int64.toInt_inj, Int32.toInt_toInt64, toInt_toInt32 v h]

theorem toInt32_eq_na_iff (v : Int64) (h : needs64Bit v = false) :
    v.toInt32 = naInteger ↔ v = -2147483648 := by
  rw [← Int32.toInt_inj, toInt_toInt32 v h, ← Int64.toInt_inj]
  rfl

theorem natAbs_le (v : Int64) (h : needs64Bit v = false) : v.toInt.natAbs ≤ 2 ^ 53 := by
  obtain ⟨hlo, hhi⟩ := (needs64Bit_iff v).mp h
  omega

theorem not_isNA_ofInt (v : Int64) : ¬isNA .real (.ofDouble (Binary64.ofInt v.toInt)) := by
  have h := rIsNA_ofInt v.toBitVec
  simp only [isNA, Elem.ofDouble]
  simpa using h

def Faithful (dt : DataType) (x : Sexp) (cells : List Cell) : Prop :=
  ∀ (k : Nat) (c : Cell), cells[k]? = some c → ∃ e, x.elems[k]? = some e ∧
    (isNA dt e ↔ c = .null) ∧ (c ≠ .null → IsValue dt e c)

def Narrow (cells : List Cell) : Prop := ∀ c ∈ cells, c = .null ∨ storageType c = .int

theorem runningType_narrow (src : SqliteColumnDataSource) (halt : src.withAltTypes = false)
    {dt : DataType} (hdt : dt = .unknown ∨ dt = .int) (cells : List Cell) (h : Narrow cells) :
    runningType src dt cells = .unknown ∨ runningType src dt cells = .int := by
  induction cells generalizing dt with
  | nil => exact hdt
  | cons c cells ih =>
    have hrest : Narrow cells := fun d hd => h d (List.mem_cons_of_mem _ hd)
    by_cases hc : c = .null
    · simpa [runningType, hc] using ih hdt hrest
    · have hint : storageType c = .int := (h c List.mem_cons_self).resolve_left hc
      have hnext : nextType src dt c = .int := by
        obtain rfl | rfl := hdt <;> simp [nextType, getDataType_off src halt, hint]
      simpa [runningType, hc, hnext] using ih (.inr rfl) hrest

theorem runningType_take_succ (src : SqliteColumnDataSource) (dt : DataType) (cells : List Cell)
    (k : Nat) (c : Cell) (hk : cells[k]? = some c) (hc : c ≠ .null) :
    runningType src dt (cells.take (k + 1)) = nextType src (runningType src dt (cells.take k)) c := by
  rw [List.take_add_one, hk, runningType_append]
  simp [runningType, hc]

section OneType

variable {src : SqliteColumnDataSource} {dt incoming : DataType} {cells : List Cell}

theorem nextType_oneType {c : Cell} (hitem : src.getDataType c = dt)
    (h : incoming = .unknown ∨ incoming = dt) : nextType src incoming c = dt := by
  obtain rfl | rfl := h
  · exact hitem
  · cases incoming <;> simp [nextType, hitem]

theorem runningType_oneType (hitems : ∀ c ∈ cells, c ≠ .null → src.getDataType c = dt)
    (h : incoming = .unknown ∨ incoming = dt) :
    runningType src incoming cells = .unknown ∨ runningType src incoming cells = dt := by
  induction cells generalizing incoming with
  | nil => exact h
  | cons c cells ih =>
    have hrest : ∀ d ∈ cells, d ≠ .null → src.getDataType d = dt :=
      fun d hd => hitems d (List.mem_cons_of_mem c hd)
    by_cases hc : c = .null
    · simpa [runningType, hc] using ih hrest h
    · have hnext := nextType_oneType (hitems c List.mem_cons_self hc) h
      simpa [runningType, hc, hnext] using ih hrest (.inr rfl)

theorem startType_oneType (hplain : dt ≠ .bool) (h : incoming = .unknown ∨ incoming = dt) :
    startType incoming = incoming := by
  obtain rfl | rfl := h
  · rfl
  · exact if_neg hplain

/-- NULLs alone fix the type from the declaration, which is the type of the values. -/
theorem finalType_oneType (hdecl : src.getDeclDataType = dt) (hplain : dt ≠ .bool)
    (hitems : ∀ c ∈ cells, c ≠ .null → src.getDataType c = dt)
    (h : incoming = .unknown ∨ incoming = dt) : finalType src incoming cells = dt := by
  have hrun := runningType_oneType hitems h
  rw [finalType, startType_oneType hplain h]
  obtain hrun | hrun := hrun
  · simp [hrun, hdecl]
  · by_cases hdt : dt = .unknown
    · simp [hrun, hdt, hdecl]
    · simp [hrun, hdt]

theorem flatVector_oneType (hdecl : src.getDeclDataType = dt) (hplain : dt ≠ .bool)
    (hitems : ∀ c ∈ cells, c ≠ .null → src.getDataType c = dt)
    (h : incoming = .unknown ∨ incoming = dt) (k : Nat) (c : Cell) (hk : cells[k]? = some c) :
    (flatVector src incoming cells).elems[k]? =
      some (if c = .null then naElem dt else convert src dt c) := by
  rw [flatVector_getElem src incoming cells k c hk, finalType_oneType hdecl hplain hitems h,
    startType_oneType hplain h]
  by_cases hc : c = .null
  · rw [if_pos hc, if_pos hc]
  · have hmem := List.mem_of_getElem? hk
    have hbefore : runningType src incoming (cells.take k) = .unknown ∨
        runningType src incoming (cells.take k) = dt :=
      runningType_oneType (fun d hd => hitems d (List.mem_of_mem_take hd)) h
    have hrun : runningType src incoming (cells.take (k + 1)) = dt := by
      rw [runningType_take_succ src incoming cells k c hk hc]
      exact nextType_oneType (hitems c hmem hc) hbefore
    have hknown : dt ≠ .unknown := by
      rw [← hitems c hmem hc]
      exact getDataType_ne_unknown src c hc
    rw [if_neg hc, if_neg hc, hrun, widen_self dt _ hknown]

end OneType

/-- What a silent batch says about a cell that is present and the type in force when
it was appended. -/
structure InForce (src : SqliteColumnDataSource) (wide dt : DataType) (c : Cell) : Prop where
  widens : Widens wide dt
  settled : nextType src dt c = dt
  known : dt ≠ .unknown
  compatible : storageType c = wide ∨ (storageType c = .int ∧ (wide = .real ∨ wide = .int64))

theorem inForce (src : SqliteColumnDataSource) (incoming : DataType) (cells : List Cell) (k : Nat)
    (c : Cell) (hk : cells[k]? = some c) (hc : c ≠ .null)
    (hcompatible : Compatible (finalType src incoming cells) c) :
    InForce src (finalType src incoming cells)
      (runningType src (startType incoming) (cells.take (k + 1))) c where
  widens := widens_finalType src incoming cells (k + 1)
  settled := by
    rw [runningType_take_succ src _ cells k c hk hc]
    exact nextType_nextType src _ c
  known := by
    rw [runningType_take_succ src _ cells k c hk hc]
    exact nextType_ne_unknown src _ c hc
  compatible := hcompatible hc

theorem inForce_wide {src : SqliteColumnDataSource} (halt : src.withAltTypes = false)
    {wide dt : DataType} {c : Cell} (h : InForce src wide dt c) (hint : storageType c ≠ .int) :
    wide = storageType c ∧ dt = storageType c := by
  have hwide : storageType c = wide := h.compatible.resolve_right (fun hi => hint hi.1)
  refine ⟨hwide.symm, ?_⟩
  have hsettled := h.settled
  cases h.widens with
  | refl => exact hwide.symm
  | unknown => exact absurd rfl h.known
  | int hor =>
    obtain rfl | rfl := hor <;>
      simp [nextType, getDataType_off src halt, hwide] at hsettled

theorem widen_narrow (v : Int64) (h : needs64Bit v = false) (hv : v ≠ -2147483648)
    {wide : DataType} (hwide : wide = .real ∨ wide = .int64) :
    widen .int wide (.int v.toInt32) =
      if wide = .real then .ofDouble (Binary64.ofInt v.toInt) else .ofInt64 v := by
  have hna : v.toInt32 ≠ naInteger := fun hna => hv ((toInt32_eq_na_iff v h).mp hna)
  obtain rfl | rfl := hwide
  · simp [widen, hna, toInt_toInt32 v h]
  · simp [widen, hna, toInt64_toInt32 v h]

theorem not_isNA_ofInt64 (v : Int64) (h : v ≠ Int64.minValue) : ¬isNA .int64 (.ofInt64 v) := by
  intro hna
  apply h
  simp only [isNA, naElem, Elem.ofInt64, Elem.word.injEq] at hna
  exact Int64.toBitVec_inj.mp hna

theorem convert_int (src : SqliteColumnDataSource) (v : Int64) :
    convert src .int (.integer v) = .int v.toInt32 := by
  simp [convert, fetchElem, fetchInt, ColumnAccess.columnInt]

theorem convert_int64 (src : SqliteColumnDataSource) (v : Int64) :
    convert src .int64 (.integer v) = .ofInt64 v := by
  simp [convert, fetchElem, fetchInt64]

theorem convert_real (src : SqliteColumnDataSource) (v : Int64) :
    convert src .real (.integer v) = .ofDouble (Binary64.ofInt v.toInt) := by
  simp [convert, fetchElem, fetchReal]

theorem convert_float (src : SqliteColumnDataSource) (x : Binary64) :
    convert src .real (.float x) = .ofDouble x := by
  simp [convert, fetchElem, fetchReal]

theorem convert_blob (src : SqliteColumnDataSource) (b : Bytes) :
    convert src .blob (.blob b) = .obj (some b) := by
  simp [convert, fetchElem, fetchBlob]

theorem takeWhile_noNul {s : Bytes} (h : 0 ∉ s) : s.takeWhile (· ≠ 0) = s := by
  rw [List.takeWhile_eq_self_iff]
  intro b hb
  have hb0 : b ≠ 0 := fun h0 => h (h0 ▸ hb)
  simpa using hb0

theorem convert_text (src : SqliteColumnDataSource) (s : Bytes) (h : 0 ∉ s) :
    convert src .string (.text s) = .chr (some s) := by
  simp only [convert, fetchElem, fetchString, ColumnAccess.columnText_text, takeWhile_noNul h]

/-- A narrow integer is returned as it is, unless it was appended as an `int` and is
the one that stands for `NA_integer_`. -/
theorem narrow_faithful {src : SqliteColumnDataSource} {wide dt : DataType} {v : Int64}
    (h : InForce src wide dt (.integer v)) (h64 : needs64Bit v = false) (hsafe : ¬(dt = .int ∧ v = -2147483648)) :
    ¬isNA wide (widen dt wide (convert src dt (.integer v))) ∧
      IsValue wide (widen dt wide (convert src dt (.integer v))) (.integer v) := by
  have hexact := Binary64.toRat_ofInt v.toInt (natAbs_le v h64)
  have hmin : v ≠ Int64.minValue := by
    rintro rfl
    exact absurd h64 (by decide)
  have hcompatible := h.compatible
  simp only [storageType, h64, Bool.false_eq_true, if_false] at hcompatible
  cases h.widens with
  | unknown => exact absurd rfl h.known
  | int hwide =>
    have hv : v ≠ -2147483648 := fun hv => hsafe ⟨rfl, hv⟩
    rw [convert_int, widen_narrow v h64 hv hwide.symm]
    obtain rfl | rfl := hwide
    · exact ⟨not_isNA_ofInt64 v hmin, .int64 v⟩
    · exact ⟨not_isNA_ofInt v, .real v _ hexact⟩
  | refl =>
    rw [widen_self _ _ h.known]
    obtain rfl | ⟨-, rfl | rfl⟩ := hcompatible
    · have hv : v ≠ -2147483648 := fun hv => hsafe ⟨rfl, hv⟩
      rw [convert_int]
      refine ⟨fun hna => hv ((toInt32_eq_na_iff v h64).mp ?_), .int v _ (toInt_toInt32 v h64)⟩
      exact Elem.int.inj hna
    · rw [convert_real]
      exact ⟨not_isNA_ofInt v, .real v _ hexact⟩
    · rw [convert_int64]
      exact ⟨not_isNA_ofInt64 v hmin, .int64 v⟩

theorem present_faithful {src : SqliteColumnDataSource} (halt : src.withAltTypes = false)
    {wide dt : DataType} {c : Cell} (hadm : Admissible c) (hc : c ≠ .null)
    (h : InForce src wide dt c) (hsafe : ¬(dt = .int ∧ c = int32Min)) :
    ¬isNA wide (widen dt wide (convert src dt c)) ∧
      IsValue wide (widen dt wide (convert src dt c)) c := by
  cases c with
  | null => exact absurd rfl hc
  | integer v =>
    cases h64 : needs64Bit v with
    | false => exact narrow_faithful h h64 (fun hv => hsafe ⟨hv.1, by rw [hv.2]; rfl⟩)
    | true =>
      have htype : storageType (.integer v) = .int64 := by simp [storageType, h64]
      obtain ⟨rfl, rfl⟩ := inForce_wide halt h (by simp [htype])
      rw [htype, widen_self _ _ (by simp), convert_int64]
      exact ⟨not_isNA_ofInt64 v hadm, .int64 v⟩
  | float x =>
    obtain ⟨rfl, rfl⟩ := inForce_wide halt h (by simp [storageType])
    simp only [storageType]
    rw [widen_self _ _ (by simp), convert_float]
    refine ⟨?_, .float x⟩
    have hnan : x.isNaN = false := hadm
    simp [isNA, Elem.ofDouble, rIsNA, hnan]
  | text s =>
    obtain ⟨rfl, rfl⟩ := inForce_wide halt h (by simp [storageType])
    simp only [storageType]
    rw [widen_self _ _ (by simp), convert_text src s hadm]
    exact ⟨by simp [isNA, naElem], .text s⟩
  | blob b =>
    obtain ⟨rfl, rfl⟩ := inForce_wide halt h (by simp [storageType])
    simp only [storageType]
    rw [widen_self _ _ (by simp), convert_blob]
    exact ⟨by simp [isNA, naElem], .blob b⟩

theorem startType_unknown_or_int {incoming : DataType} :
    (startType incoming = .unknown ∨ startType incoming = .int) ↔
      incoming = .unknown ∨ incoming = .bool ∨ incoming = .int := by
  cases incoming <;> simp [startType]

theorem narrow_of_int {src : SqliteColumnDataSource} (halt : src.withAltTypes = false)
    {incoming : DataType} {cells : List Cell}
    (hcompatible : ∀ c ∈ cells, Compatible (finalType src incoming cells) c) (k : Nat)
    (hint : runningType src (startType incoming) (cells.take (k + 1)) = .int) :
    (startType incoming = .unknown ∨ startType incoming = .int) ∧ Narrow (cells.take k) := by
  have hearlier : ∀ j ≤ k + 1, Widens .int
      (runningType src (startType incoming) (cells.take j)) := by
    intro j hj
    have hsplit : cells.take (k + 1) = cells.take j ++ (cells.drop j).take (k + 1 - j) := by
      rw [← List.take_add, Nat.add_sub_cancel' hj]
    rw [hsplit, runningType_append] at hint
    rw [← hint]
    exact widens_runningType src _ .refl
  constructor
  · have h0 := hearlier 0 (Nat.zero_le _)
    cases h : startType incoming <;> simp only [List.take_zero, runningType, List.foldl_nil, h] at h0
    case unknown => exact .inl rfl
    case int => exact .inr rfl
    all_goals cases h0
  · intro c hmem
    by_cases hc : c = .null
    · exact .inl hc
    · right
      obtain ⟨j, hj, hjc⟩ := List.getElem_of_mem hmem
      have hjk : j < k := by
        have := List.length_take_le k cells
        omega
      have hget : cells[j]? = some c := by
        rw [← hjc, ← List.getElem?_eq_getElem hj, List.getElem?_take_of_lt hjk]
      have hin := inForce src incoming cells j c hget hc
        (hcompatible c (List.mem_of_mem_take hmem))
      have hj1 := hearlier (j + 1) (by omega)
      by_contra hwide
      obtain ⟨hfinal, hdt⟩ := inForce_wide halt hin hwide
      rw [hdt] at hj1
      have hknown := storageType_ne_unknown c hc
      cases hs : storageType c <;> rw [hs] at hj1 hwide hknown
      case unknown => exact hknown rfl
      case int => exact hwide rfl
      all_goals cases hj1

/-- The cell -2^31 comes back as `NA` when it is the first to make the column an integer
column, or comes to one before anything wider. -/
def LosesInt32Min (incoming : DataType) (cells : List Cell) : Prop :=
  (incoming = .unknown ∨ incoming = .bool ∨ incoming = .int) ∧
    ∃ k, cells[k]? = some int32Min ∧ Narrow (cells.take k)

theorem int_at_int32Min {src : SqliteColumnDataSource} (halt : src.withAltTypes = false)
    {incoming : DataType} {cells : List Cell} {k : Nat} (hk : cells[k]? = some int32Min)
    (hincoming : startType incoming = .unknown ∨ startType incoming = .int)
    (hnarrow : Narrow (cells.take k)) :
    runningType src (startType incoming) (cells.take (k + 1)) = .int := by
  have hint : storageType int32Min = .int := by decide
  rw [runningType_take_succ src _ cells k int32Min hk (by decide)]
  obtain hrun | hrun := runningType_narrow src halt hincoming _ hnarrow <;>
    simp [nextType, getDataType_off src halt, hrun, hint]

/-- A batch for which the column does not warn comes back as it is if and only if it
does not lose -2^31. -/
theorem silent_faithful_iff (src : SqliteColumnDataSource) (halt : src.withAltTypes = false)
    (incoming : DataType) (nMax : Int) (name : String) (cells : List Cell)
    (hadm : ∀ c ∈ cells, Admissible c) :
    ∃ col x, (DbColumn.new src incoming nMax).setColValues cells = .ok col ∧
      (col.finalize cells.length).toSexp = .ok x ∧ x.length = cells.length ∧
      (col.warnTypeConflicts name = none →
        (Faithful col.getType x cells ↔ ¬LosesInt32Min incoming cells)) := by
  obtain ⟨col, hcol, -, hseen, htype, hx⟩ := batch_spec src incoming nMax cells
  refine ⟨col, _, hcol, hx, by simp [flatVector, Sexp.length, length_flatColumn], ?_⟩
  intro hwarn
  have hsilent : col.typeConflicts = [] := by
    by_contra hne
    simp [warnTypeConflicts, hne] at hwarn
  have hcompatible : ∀ c ∈ cells, Compatible (finalType src incoming cells) c := by
    rw [← htype]
    exact compatible_of_silent halt hseen hsilent
  rw [htype, LosesInt32Min, ← startType_unknown_or_int]
  constructor
  · rintro hfaithful ⟨hincoming, k, hk, hnarrow⟩
    obtain ⟨e, he, hna, -⟩ := hfaithful k _ hk
    have hrun := int_at_int32Min halt hk hincoming hnarrow
    rw [flatVector_getElem src incoming cells k _ hk, if_neg (by decide), hrun] at he
    obtain rfl := Option.some.inj he
    have hw := widens_finalType src incoming cells (k + 1)
    rw [hrun] at hw
    have hlost : convert src .int int32Min = naElem .int := convert_int src _
    rw [hlost, widen_naElem _ _ hw] at hna
    exact absurd (hna.mp (isNA_naElem _)) (by decide)
  · intro hsafe k c hk
    refine ⟨_, flatVector_getElem src incoming cells k c hk, ?_⟩
    have hmem := List.mem_of_getElem? hk
    by_cases hc : c = .null
    · subst hc
      exact ⟨iff_of_true (isNA_naElem _) rfl, fun h => absurd rfl h⟩
    · rw [if_neg hc]
      have hin := inForce src incoming cells k c hk hc (hcompatible c hmem)
      obtain ⟨hna, hvalue⟩ := present_faithful halt (hadm c hmem) hc hin (by
        rintro ⟨hint, rfl⟩
        obtain ⟨hincoming, hnarrow⟩ := narrow_of_int halt hcompatible k hint
        exact hsafe ⟨hincoming, k, hk, hnarrow⟩)
      exact ⟨iff_of_false hna hc, fun _ => hvalue⟩

def directAccess : ColumnAccess where
  columnInt64 | .integer v => v | _ => 0
  columnDouble | .integer v => .ofInt v.toInt | .float x => x | _ => .ofInt 0
  columnText | .text s | .blob s => s | _ => []
  columnBlob | .text s | .blob s => s | _ => []
  columnInt64_integer _ := rfl
  columnDouble_integer _ := rfl
  columnDouble_float _ := rfl
  columnText_text _ := rfl
  columnBlob_blob _ := rfl

def plainSource : SqliteColumnDataSource where
  access := directAccess
  parsers := ⟨fun _ => none, fun _ => none, fun _ => none⟩
  decltype := none
  withAltTypes := false

theorem silent_faithful_iff_wide :
    ∃ col x, (DbColumn.new plainSource .unknown (-1)).setColValues
        [.integer 3000000000, int32Min] = .ok col ∧
      (col.finalize 2).toSexp = .ok x ∧ x.length = 2 ∧
      (col.warnTypeConflicts "x" = none →
        (Faithful col.getType x [.integer 3000000000, int32Min] ↔
          ¬LosesInt32Min .unknown [.integer 3000000000, int32Min])) :=
  silent_faithful_iff plainSource rfl .unknown (-1) "x" [.integer 3000000000, int32Min] (by
    intro c hc
    simp only [List.mem_cons, List.not_mem_nil, or_false] at hc
    obtain rfl | rfl := hc
    · change (3000000000 : Int64) ≠ Int64.minValue
      decide
    · change (-2147483648 : Int64) ≠ Int64.minValue
      decide)

/-- A single -2^31 is returned as `NA` without a warning. -/
theorem int32Min_lost :
    ¬∀ (src : SqliteColumnDataSource) (incoming : DataType) (nMax : Int) (name : String)
      (cells : List Cell), src.withAltTypes = false → (∀ c ∈ cells, Admissible c) →
      ∀ col x, (DbColumn.new src incoming nMax).setColValues cells = .ok col →
        (col.finalize cells.length).toSexp = .ok x →
        col.warnTypeConflicts name = none → Faithful col.getType x cells := by
  intro h
  have hadm : ∀ c ∈ [int32Min], Admissible c := by
    intro c hc
    rw [List.mem_singleton.mp hc]
    change (-2147483648 : Int64) ≠ Int64.minValue
    decide
  obtain ⟨e, he, hna, -⟩ := h plainSource .unknown (-1) "x" [int32Min] rfl hadm _ _ rfl rfl rfl 0 _ rfl
  obtain rfl := Option.some.inj he
  exact absurd (hna.mp rfl) (by decide)

end RSQLCipher.FetchedValues
