import RSQLCipher.ColumnStorage

namespace RSQLCipher.ChunkContents

open RSQLCipher.Library RSQLCipher.Values RSQLCipher.ColumnDataSource RSQLCipher.ColumnStorage
open SqliteColumnDataSource DbColumnStorage

inductive Fits : DataType → Elem → Prop
  | unset : Fits .unknown .unset
  | int (v : Int32) {dt : DataType} (h : sexptypeFromDatatype dt = .lglsxp ∨
      sexptypeFromDatatype dt = .intsxp) : Fits dt (.int v)
  | word (w : BitVec 64) {dt : DataType} (h : sexptypeFromDatatype dt = .realsxp) : Fits dt (.word w)
  | chr (s : Option Bytes) : Fits .string (.chr s)
  | obj (b : Option Bytes) : Fits .blob (.obj b)

theorem fits_naElem (dt : DataType) : Fits dt (naElem dt) := by
  cases dt with
  | unknown => exact .unset
  | bool => exact .int _ (.inl rfl)
  | int => exact .int _ (.inr rfl)
  | int64 | real | date | datetime | datetimetz | time => exact .word _ rfl
  | string => exact .chr _
  | blob => exact .obj _

/-- The value that a present cell becomes in a column of the given type. -/
def convert (src : SqliteColumnDataSource) (dt : DataType) (c : Cell) : Elem :=
  match fetchElem src c dt with
  | .ok e => e
  | .error _ => .unset

theorem fetchElem_eq (src : SqliteColumnDataSource) (c : Cell) (dt : DataType) (h : dt ≠ .unknown) :
    fetchElem src c dt = .ok (convert src dt c) := by
  cases dt <;> first | exact absurd rfl h | rfl

theorem fits_convert (src : SqliteColumnDataSource) (c : Cell) (dt : DataType) :
    Fits dt (convert src dt c) := by
  cases dt with
  | unknown => exact .unset
  | bool => exact .int _ (.inl rfl)
  | int => exact .int _ (.inr rfl)
  | int64 | real | date | datetime | datetimetz | time => exact .word _ rfl
  | string => exact .chr _
  | blob => exact .obj _

/-- An element of one type as an element of a wider one. The bit pattern of
`NA_integer` widens to the missing value of the wider type. -/
def widen : DataType → DataType → Elem → Elem
  | .unknown, wide, _ => naElem wide
  | .int, .int64, .int v => .ofInt64 (if v = naInteger then naInteger64 else v.toInt64)
  | .int, .real, .int v => .ofDouble (if v = naInteger then naReal else Binary64.ofInt v.toInt)
  | _, _, e => e

/-- The types that a chunk of a column of type `wide` can have. -/
inductive Widens (wide : DataType) : DataType → Prop
  | refl : Widens wide wide
  | unknown : Widens wide .unknown
  | int (h : wide = .int64 ∨ wide = .real) : Widens wide .int

@[simp] theorem widen_self (dt : DataType) (e : Elem) (h : dt ≠ .unknown) : widen dt dt e = e := by
  cases dt <;> first | exact absurd rfl h | rfl

theorem widen_naElem (dt wide : DataType) (h : Widens wide dt) :
    widen dt wide (naElem dt) = naElem wide := by
  cases h with
  | refl => cases dt <;> rfl
  | unknown => rfl
  | int h =>
    obtain rfl | rfl := h
    · rfl
    · rfl

theorem set_eq (x : Sexp) (i : Nat) (e : Elem) (h : i < x.length) :
    x.set i e = .ok { x with elems := x.elems.set i e } := if_pos h

theorem fillDefaultValue_eq (x : Sexp) (dt : DataType) (i : Nat) (hdt : dt ≠ .unknown)
    (h : i < x.length) :
    fillDefaultValue x dt i = .ok { x with elems := x.elems.set i (naElem dt) } := by
  have hset := set_eq x i (naElem dt) h
  cases dt <;> first | exact absurd rfl hdt | exact hset

/-- The chunk holds the list of elements: those below its capacity are stored, the
others are NULLs that it only counts. -/
structure Holds (s : DbColumnStorage) (es : List Elem) : Prop where
  count : s.i = es.length
  type : s.data.type = sexptypeFromDatatype s.dt
  room : s.dt ≠ .unknown → 0 < s.getCapacity
  untyped : s.dt = .unknown → s.getCapacity = 0
  fits : ∀ e ∈ es, Fits s.dt e
  stored : ∀ k, k < s.getCapacity → k < es.length → s.data.elems[k]? = es[k]?
  counted : ∀ k e, s.getCapacity ≤ k → es[k]? = some e → e = naElem s.dt

theorem getCapacity_new (dt : DataType) (capacity nMax : Int) :
    (new dt capacity nMax).getCapacity =
      if dt = .unknown then 0 else getNewCapacity nMax capacity := by
  simp only [getCapacity, new, allocate, Sexp.length]
  split <;> simp

theorem getNewCapacity_pos (nMax desired : Int) : 0 < getNewCapacity nMax desired := by
  unfold getNewCapacity
  split <;> omega

theorem holds_new (dt : DataType) (capacity nMax : Int) : Holds (new dt capacity nMax) [] where
  count := rfl
  type := rfl
  room h := by
    change dt ≠ .unknown at h
    rw [getCapacity_new, if_neg h]
    exact getNewCapacity_pos nMax capacity
  untyped h := by
    change dt = .unknown at h
    rw [getCapacity_new, if_pos h]
  fits _ h := by simp at h
  stored _ _ h := by simp at h
  counted _ _ _ h := by simp at h

def store (s : DbColumnStorage) (e : Elem) : DbColumnStorage :=
  { s with data := { s.data with elems := s.data.elems.set s.i e }, i := s.i + 1 }

theorem holds_store {s : DbColumnStorage} {es : List Elem} (h : Holds s es) (e : Elem)
    (he : Fits s.dt e) (hroom : s.i < s.getCapacity) : Holds (store s e) (es ++ [e]) := by
  have hcap : (store s e).getCapacity = s.getCapacity := by simp [store, getCapacity, Sexp.length]
  refine ⟨by simp [store, h.count], h.type, ?_, ?_, ?_, ?_, ?_⟩
  · intro hdt
    rw [hcap]
    exact h.room hdt
  · intro hdt
    rw [hcap]
    exact h.untyped hdt
  · intro x hx
    obtain hx | hx := List.mem_append.mp hx
    · exact h.fits x hx
    · rw [List.mem_singleton.mp hx]
      exact he
  · intro k hk hlt
    rw [hcap] at hk
    by_cases hki : k = s.i
    · subst hki
      simp only [getCapacity, Sexp.length] at hroom
      simp [store, h.count ▸ hroom, h.count]
    · have hk' : k < es.length := by
        simp only [List.length_append, List.length_singleton] at hlt
        have hcount := h.count
        omega
      rw [List.getElem?_append_left hk', ← h.stored k hk hk']
      exact List.getElem?_set_ne (fun he => hki he.symm)
  · intro k x hk hx
    rw [hcap] at hk
    have hk' : es.length < k := by
      have hcount := h.count
      omega
    simp [List.getElem?_eq_none (show (es ++ [e]).length ≤ k by simp; omega)] at hx

theorem appendNull_spec {s : DbColumnStorage} {es : List Elem} (h : Holds s es) :
    ∃ s', s.appendNull = .ok (.this s') ∧ s'.dt = s.dt ∧ Holds s' (es ++ [naElem s.dt]) := by
  by_cases hroom : s.i < s.getCapacity
  · have hdt : s.dt ≠ .unknown := by
      intro hdt
      rw [h.untyped hdt] at hroom
      exact absurd hroom (Nat.not_lt_zero _)
    refine ⟨store s (naElem s.dt), ?_, rfl, holds_store h (naElem s.dt) (fits_naElem s.dt) hroom⟩
    simp only [appendNull, if_pos hroom, fillDefaultValue_eq _ _ _ hdt hroom]
    rfl
  · refine ⟨{ s with i := s.i + 1 }, ?_, rfl, by simp [h.count], h.type, h.room, h.untyped, ?_, ?_, ?_⟩
    · simp only [appendNull, if_neg hroom]
      rfl
    · intro x hx
      obtain hx | hx := List.mem_append.mp hx
      · exact h.fits x hx
      · rw [List.mem_singleton.mp hx]
        exact fits_naElem s.dt
    · intro k hk hlt
      change k < s.getCapacity at hk
      have hk' : k < es.length := by
        have hcount := h.count
        omega
      rw [List.getElem?_append_left hk']
      exact h.stored k hk hk'
    · intro k x hk hx
      by_cases hk' : k < es.length
      · rw [List.getElem?_append_left hk'] at hx
        exact h.counted k x hk hx
      · rw [List.getElem?_append_right (not_lt.mp hk')] at hx
        exact List.mem_singleton.mp (List.mem_of_getElem? hx)

/-- The type a column has after a present cell: a column of unknown type takes the
cell's, an integer column widens, and every other column keeps its own. -/
def nextType (src : SqliteColumnDataSource) (dt : DataType) (c : Cell) : DataType :=
  if dt = .unknown then src.getDataType c
  else if dt = .int ∧ src.getDataType c = .int64 then .int64
  else if dt = .int ∧ src.getDataType c = .real then .real
  else dt

theorem nextType_nextType (src : SqliteColumnDataSource) (dt : DataType) (c : Cell) :
    nextType src (nextType src dt c) c = nextType src dt c := by
  unfold nextType
  generalize src.getDataType c = item
  cases dt <;> cases item <;> rfl

theorem nextType_ne_unknown (src : SqliteColumnDataSource) (dt : DataType) (c : Cell)
    (hc : c ≠ .null) : nextType src dt c ≠ .unknown := by
  unfold nextType
  split_ifs with h1 h2 h3
  · exact getDataType_ne_unknown src c hc
  · simp
  · simp
  · exact h1

theorem appendData_untyped (src : SqliteColumnDataSource) (c : Cell) (depth : Nat)
    (s : DbColumnStorage) (h : s.dt = .unknown) :
    appendData src c (depth + 1) s = appendDataToNew (appendData src c depth) src c s s.dt := by
  rw [appendData, if_pos h]

theorem appendData_full (src : SqliteColumnDataSource) (c : Cell) (depth : Nat)
    (s : DbColumnStorage) (h : s.dt ≠ .unknown) (hfull : s.getCapacity ≤ s.i) :
    appendData src c (depth + 1) s = appendDataToNew (appendData src c depth) src c s s.dt := by
  rw [appendData, if_neg h, if_pos hfull]

theorem appendData_promote (src : SqliteColumnDataSource) (c : Cell) (depth : Nat)
    (s : DbColumnStorage) (h : s.dt ≠ .unknown) (hroom : s.i < s.getCapacity)
    (hkeep : nextType src s.dt c ≠ s.dt) :
    appendData src c (depth + 1) s =
      appendDataToNew (appendData src c depth) src c s (nextType src s.dt c) := by
  rw [appendData, if_neg h, if_neg (not_le.mpr hroom)]
  unfold nextType at hkeep ⊢
  rw [if_neg h] at hkeep ⊢
  by_cases h64 : s.dt = .int ∧ src.getDataType c = .int64
  · rw [if_pos h64, if_pos h64]
  · rw [if_neg h64] at hkeep ⊢
    by_cases hreal : s.dt = .int ∧ src.getDataType c = .real
    · rw [if_pos hreal, if_neg h64, if_pos hreal]
    · rw [if_neg hreal] at hkeep
      exact absurd rfl hkeep

theorem appendData_store {s : DbColumnStorage} {es : List Elem} (h : Holds s es)
    (src : SqliteColumnDataSource) (c : Cell) (depth : Nat) (hdt : s.dt ≠ .unknown)
    (hroom : s.i < s.getCapacity) (hkeep : nextType src s.dt c = s.dt) :
    ∃ s', appendData src c (depth + 1) s = .ok (.this s') ∧ s'.dt = s.dt ∧
      Holds s' (es ++ [convert src s.dt c]) := by
  have hint64 : ¬(s.dt = .int ∧ src.getDataType c = .int64) := by
    rintro ⟨hint, hc⟩
    simp [nextType, hint, hc] at hkeep
  have hreal : ¬(s.dt = .int ∧ src.getDataType c = .real) := by
    rintro ⟨hint, hc⟩
    simp [nextType, hint, hc] at hkeep
  refine ⟨store s (convert src s.dt c), ?_, rfl, holds_store h _ (fits_convert src c s.dt) hroom⟩
  rw [appendData, if_neg hdt, if_neg (not_le.mpr hroom), if_neg hint64, if_neg hreal]
  simp only [fetchValue, fetchElem_eq src c s.dt hdt, set_eq _ _ _ hroom]
  rfl

theorem appendDataToNew_spec (src : SqliteColumnDataSource) (c : Cell) (s : DbColumnStorage)
    (newDt dt : DataType) (hdt : (if newDt = .unknown then src.getDataType c else newDt) = dt)
    (append : DbColumnStorage → Except Fault Appended)
    (happend : ∀ capacity nMax, ∃ r, append (new dt capacity nMax) = .ok r ∧
      r.storage.dt = nextType src dt c ∧ Holds r.storage [convert src (nextType src dt c) c]) :
    ∃ s', appendDataToNew append src c s newDt = .ok (.other s') ∧
      s'.dt = nextType src dt c ∧ Holds s' [convert src (nextType src dt c) c] := by
  obtain ⟨r, hr, hrdt, hholds⟩ := happend
    (if s.nMax < 0 then s.getCapacity * 2 else s.nMax - s.i) s.nMax
  refine ⟨r.storage, ?_, hrdt, hholds⟩
  simp only [appendDataToNew, hdt, hr]
  rfl

theorem appendData_new (src : SqliteColumnDataSource) (c : Cell) (depth : Nat) (dt : DataType)
    (hdt : dt ≠ .unknown) (hkeep : nextType src dt c = dt) (capacity nMax : Int) :
    ∃ r, appendData src c (depth + 1) (new dt capacity nMax) = .ok r ∧
      r.storage.dt = nextType src dt c ∧ Holds r.storage [convert src (nextType src dt c) c] := by
  have hroom : (new dt capacity nMax).i < (new dt capacity nMax).getCapacity :=
    (holds_new dt capacity nMax).room hdt
  obtain ⟨s', hs, hsdt, hholds⟩ :=
    appendData_store (holds_new dt capacity nMax) src c depth hdt hroom hkeep
  rw [hkeep]
  exact ⟨.this s', hs, hsdt, hholds⟩

theorem appendData_new_promote (src : SqliteColumnDataSource) (c : Cell) (depth : Nat)
    (dt : DataType) (hdt : dt ≠ .unknown) (hc : c ≠ .null) (capacity nMax : Int) :
    ∃ r, appendData src c (depth + 2) (new dt capacity nMax) = .ok r ∧
      r.storage.dt = nextType src dt c ∧ Holds r.storage [convert src (nextType src dt c) c] := by
  by_cases hkeep : nextType src dt c = dt
  · exact appendData_new src c (depth + 1) dt hdt hkeep capacity nMax
  · have hnext := nextType_ne_unknown src dt c hc
    obtain ⟨s', hs, hsdt, hholds⟩ := appendDataToNew_spec src c (new dt capacity nMax)
      (nextType src dt c) (nextType src dt c) (by rw [if_neg hnext]) (appendData src c (depth + 1))
      (appendData_new src c depth _ hnext (nextType_nextType src dt c))
    rw [nextType_nextType] at hsdt hholds
    have hroom : (new dt capacity nMax).i < (new dt capacity nMax).getCapacity :=
      (holds_new dt capacity nMax).room hdt
    refine ⟨.other s', ?_, hsdt, hholds⟩
    rw [← hs]
    exact appendData_promote src c (depth + 1) (new dt capacity nMax) hdt hroom hkeep

/-- What a present cell does to a chunk: it is stored there when the chunk has room
and keeps its type, and otherwise becomes the first element of another chunk. -/
theorem appendData_spec {s : DbColumnStorage} {es : List Elem} (h : Holds s es)
    (src : SqliteColumnDataSource) (c : Cell) (hc : c ≠ .null) :
    (∃ s', appendData src c 3 s = .ok (.this s') ∧ s.dt = nextType src s.dt c ∧ s'.dt = s.dt ∧
      Holds s' (es ++ [convert src s.dt c])) ∨
    ∃ s', appendData src c 3 s = .ok (.other s') ∧ s'.dt = nextType src s.dt c ∧
      Holds s' [convert src (nextType src s.dt c) c] := by
  have hnext := nextType_ne_unknown src s.dt c hc
  by_cases hdt : s.dt = .unknown
  · right
    have hitem : nextType src s.dt c = src.getDataType c := by simp [nextType, hdt]
    have hkeep : nextType src (src.getDataType c) c = src.getDataType c := by
      rw [← hitem, nextType_nextType]
    obtain ⟨s', hs, hsdt, hholds⟩ := appendDataToNew_spec src c s s.dt (src.getDataType c)
      (by rw [if_pos hdt]) (appendData src c 2)
      (appendData_new src c 1 _ (hitem ▸ hnext) hkeep)
    rw [hkeep, ← hitem] at hsdt hholds
    exact ⟨s', by rw [appendData_untyped src c 2 s hdt, hs], hsdt, hholds⟩
  · by_cases hroom : s.i < s.getCapacity
    · by_cases hkeep : nextType src s.dt c = s.dt
      · left
        obtain ⟨s', hs, hsdt, hholds⟩ := appendData_store h src c 2 hdt hroom hkeep
        exact ⟨s', hs, hkeep.symm, hsdt, hholds⟩
      · right
        obtain ⟨s', hs, hsdt, hholds⟩ := appendDataToNew_spec src c s (nextType src s.dt c)
          (nextType src s.dt c) (by rw [if_neg hnext]) (appendData src c 2)
          (appendData_new src c 1 _ hnext (nextType_nextType src s.dt c))
        rw [nextType_nextType] at hsdt hholds
        exact ⟨s', by rw [appendData_promote src c 2 s hdt hroom hkeep, hs], hsdt, hholds⟩
    · right
      obtain ⟨s', hs, hsdt, hholds⟩ := appendDataToNew_spec src c s s.dt s.dt
        (by rw [if_neg hdt]) (appendData src c 2) (appendData_new_promote src c 0 s.dt hdt hc)
      exact ⟨s', by rw [appendData_full src c 2 s hdt (not_lt.mp hroom), hs], hsdt, hholds⟩

end RSQLCipher.ChunkContents
