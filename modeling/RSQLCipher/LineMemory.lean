import RSQLCipher.ImportLines
import RSQLCipher.Library.OnExit
import Mathlib.Logic.Function.Basic

namespace RSQLCipher.LineMemory

open RSQLCipher.Library RSQLCipher.Values RSQLCipher.ImportFile RSQLCipher.ImportLines

/-- A read of a cell of the buffer, when `i` cells are written and perhaps a terminator, or
of a byte of `eol`. -/
inductive Access where
  | buffer (index : Int) (i : Nat) (terminator : Option Nat)
  | eol (index : Int)
deriving DecidableEq, Repr

def Access.Safe (eol : Bytes) : Access → Prop
  | .buffer index i terminator =>
    0 ≤ index ∧ index < i ∨ ∃ k : Nat, terminator = some k ∧ index = k
  | .eol index => 0 ≤ index ∧ index < eol.length

structure LineState where
  input : Bytes
  reads : List Access

abbrev LineM := EStateM ImportFault LineState

/-- The buffer of `RS_sqlite_getline` in memory: `nc` cells are allocated, of which those
that are not written yet have any content. -/
structure Buffer where
  cells : Nat → UInt8
  nc : Nat
  i : Nat
  terminator : Option Nat
  foundEol : Bool
  written : i ≤ nc
  allocated : 0 < nc

namespace Buffer

/-- `malloc`; `realloc` keeps the cells, and what it adds has any content as well. -/
def malloc (fresh : Nat → UInt8) : Buffer where
  cells := fresh
  nc := 1024
  i := 0
  terminator := none
  foundEol := false
  written := Nat.zero_le _
  allocated := by decide

def grow (b : Buffer) : Buffer :=
  if b.i = b.nc then
    { b with
      nc := 2 * b.nc
      written := b.written.trans (Nat.le_mul_of_pos_left b.nc Nat.two_pos)
      allocated := Nat.mul_pos Nat.two_pos b.allocated }
  else b

theorem lt_grow (b : Buffer) : b.grow.i < b.grow.nc := by
  have hwritten := b.written
  have hallocated := b.allocated
  rw [grow]
  split
  · simp only
    omega
  · omega

def push (b : Buffer) (c : UInt8) : Buffer where
  cells := Function.update b.cells b.grow.i c
  nc := b.grow.nc
  i := b.grow.i + 1
  terminator := none
  foundEol := false
  written := b.lt_grow
  allocated := b.grow.allocated

/-- `buf[i - neol] = '\0'` -/
def terminate (b : Buffer) (neol : Nat) : Buffer :=
  { b with cells := Function.update b.cells (b.i - neol) 0, terminator := some (b.i - neol) }

end Buffer

def nextByte : LineM (Option UInt8) := do
  match (← get).input with
  | [] => return none
  | c :: rest =>
    modify fun s => { s with input := rest }
    return some c

def readCell (b : Buffer) (index : Int) : LineM UInt8 := do
  modify fun s => { s with reads := s.reads ++ [.buffer index b.i b.terminator] }
  if 0 ≤ index ∧ index < b.nc then return b.cells index.toNat else throw .undefined

def readEol (eol : Bytes) (index : Int) : LineM UInt8 := do
  modify fun s => { s with reads := s.reads ++ [.eol index] }
  if 0 ≤ index ∧ index < eol.length then return eol[index.toNat]?.getD 0 else throw .undefined

/-- The loop over `j`. -/
def compareEol (eol : Bytes) (b : Buffer) : Nat → LineM Bool
  | 0 => return true
  | j + 1 => do
    let x ← readCell b (b.i - 1 - (j + 1 : Nat))
    let y ← readEol eol (eol.length - 1 - (j + 1 : Nat))
    if x = y then compareEol eol b j else return false

def memoryRound (signedChar : Bool) (eol : Bytes) (ceol : UInt8) (b : Buffer) :
    LineM (Buffer × Bool) := do
  match ← nextByte with
  | none => return (b.grow, false)
  | some c =>
    let b := b.push c
    if sameByte signedChar c ceol then
      let foundEol ← compareEol eol b (eol.length - 1)
      return ({ b with foundEol := foundEol }, !foundEol)
    else return (b, true)

/-- `strlen`, from an index on; behind the cells of the buffer it does not go on. -/
def strlenFrom (b : Buffer) : Nat → Nat → LineM Nat
  | 0, _ => throw .stuck
  | fuel + 1, k => do
    if (← readCell b k) = 0 then return k else strlenFrom b fuel (k + 1)

def finishBuffer (b : Buffer) : LineM (Option Bytes) := do
  if b.i = 0 then return none
  let n ← strlenFrom b (b.nc + 1) 0
  return if n = 0 then none else some ((List.range n).map b.cells)

/-- `RS_sqlite_getline`, with the memory that it reads. -/
def getlineMemory (fresh : Nat → UInt8) (signedChar : Bool) (eol : Bytes) :
    LineM (Option Bytes) := do
  let ceol ← readEol eol (eol.length - 1)
  let b ← loop .stuck (memoryRound signedChar eol ceol) ((← get).input.length + 1)
    (Buffer.malloc fresh)
  finishBuffer (if b.foundEol then b.terminate eol.length else b)

/-- The bytes before the next `eol`, or all bytes that remain; `NULL` stands for none. -/
def nextLine (eol content : Bytes) : Option Bytes :=
  match firstLine eol content with
  | some (a, _) => if a = [] then none else some a
  | none => if content = [] then none else some content

/-- All reads are safe, and the line is that of the file. -/
def ReadsLine (eol content : Bytes) : EStateM.Result ImportFault LineState (Option Bytes) → Prop :=
  Ends (fun line s => (∀ a ∈ s.reads, a.Safe eol) ∧ line = nextLine eol content) fun _ _ => False

section Views

variable {signedChar : Bool} {eol : Bytes} {ceol : UInt8} {b : Buffer} {s : LineState}

/-- The buffer without the memory that is not written. -/
def Buffer.line (b : Buffer) : LineBuffer where
  buf := (List.range b.i).map b.cells
  nc := b.nc
  foundEol := b.foundEol

def project (s : LineState) : ImportState Unit where
  db := ()
  input := s.input
  inserted := []

theorem length_line (b : Buffer) : b.line.buf.length = b.i := by simp [Buffer.line]

theorem room_line (b : Buffer) : Room b.line := by
  refine ⟨?_, b.allocated⟩
  rw [length_line]
  exact b.written

theorem grow_i (b : Buffer) : b.grow.i = b.i := by
  rw [Buffer.grow]
  split <;> rfl

theorem grow_nc (b : Buffer) : b.grow.nc = grown b.line := by
  rw [Buffer.grow, grown, length_line]
  by_cases hfull : b.i = b.nc
  · exact (congrArg Buffer.nc (if_pos hfull)).trans (if_pos hfull).symm
  · exact (congrArg Buffer.nc (if_neg hfull)).trans (if_neg hfull).symm

theorem grow_line (b : Buffer) : b.grow.line = { b.line with nc := grown b.line } := by
  rw [← grow_nc, Buffer.grow]
  split <;> rfl

theorem push_line (b : Buffer) (c : UInt8) :
    (b.push c).line = { buf := b.line.buf ++ [c], nc := grown b.line, foundEol := false } := by
  simp only [Buffer.line, Buffer.push, grow_i, List.range_succ, List.map_append, List.map_singleton,
    Function.update_self, LineBuffer.mk.injEq, List.append_cancel_right_eq, and_true]
  refine ⟨List.map_congr_left fun k hk => ?_, grow_nc b⟩
  exact Function.update_of_ne (List.mem_range.mp hk).ne _ _

theorem readCell_inside {index : Int} (h : 0 ≤ index ∧ index < b.nc) :
    readCell b index s = .ok (b.cells index.toNat)
      { s with reads := s.reads ++ [.buffer index b.i b.terminator] } := by
  simp [readCell, h]

theorem readCell_outside {index : Int} (h : ¬(0 ≤ index ∧ index < b.nc)) :
    readCell b index s = .error .undefined
      { s with reads := s.reads ++ [.buffer index b.i b.terminator] } := by
  simp only [readCell, if_neg h]
  rfl

theorem readEol_inside {index : Int} (h : 0 ≤ index ∧ index < eol.length) :
    readEol eol index s = .ok (eol[index.toNat]?.getD 0)
      { s with reads := s.reads ++ [.eol index] } := by
  simp [readEol, h]

theorem cells_line {k : Nat} (h : k < b.i) : b.line.buf[k]? = some (b.cells k) := by
  simp [Buffer.line, h]

/-- The comparison is that of the written cells, whatever the memory contains. -/
theorem view_compareEol (eol : Bytes) (b : Buffer) (j : Nat) (hj : j < eol.length)
    (s : LineState) :
    view id project (compareEol eol b j s) =
      (liftExcept (checkEol b.line.buf eol j) : ImportM Unit Bool) (project s) := by
  induction j generalizing s with
  | zero => rfl
  | succ j ih =>
    have hlength := length_line b
    rw [compareEol, checkEol]
    by_cases hlt : j + 1 < b.line.buf.length
    · have hindex : 0 ≤ (b.i - 1 - (j + 1 : Nat) : Int) ∧
          (b.i - 1 - (j + 1 : Nat) : Int) < b.nc := by
        have hwritten := b.written
        omega
      have heol : 0 ≤ (eol.length - 1 - (j + 1 : Nat) : Int) ∧
          (eol.length - 1 - (j + 1 : Nat) : Int) < eol.length := by omega
      have hnat : (b.i - 1 - (j + 1 : Nat) : Int).toNat = b.i - 1 - (j + 1) := by omega
      have hnat' : (eol.length - 1 - (j + 1 : Nat) : Int).toNat = eol.length - 1 - (j + 1) := by
        omega
      have hbyte : ∃ y, eol[eol.length - 1 - (j + 1)]? = some y :=
        ⟨_, List.getElem?_eq_getElem (by omega)⟩
      obtain ⟨y, hy⟩ := hbyte
      rw [if_pos hlt, bind_ok (readCell_inside hindex), bind_ok (readEol_inside heol), hnat, hnat',
        hlength, cells_line (by omega), hy, Option.getD_some]
      by_cases heq : b.cells (b.i - 1 - (j + 1)) = y
      · rw [if_pos heq, if_pos (congrArg some heq)]
        exact ih (by omega) _
      · rw [if_neg heq, if_neg fun h => heq (Option.some.inj h)]
        rfl
    · have hindex : ¬(0 ≤ (b.i - 1 - (j + 1 : Nat) : Int) ∧
          (b.i - 1 - (j + 1 : Nat) : Int) < b.nc) := by omega
      rw [if_neg hlt, bind_error (readCell_outside hindex)]
      rfl

theorem round_check {l : LineBuffer} {st : ImportState Unit} {c : UInt8} {rest : Bytes}
    (hin : st.input = c :: rest) (hroom : Room l) (hc : sameByte signedChar c ceol = true) :
    getlineRound signedChar eol ceol l st =
      (do
        let foundEol ← liftExcept (checkEol (l.buf ++ [c]) eol (eol.length - 1))
        return ({ buf := l.buf ++ [c], nc := grown l, foundEol := foundEol }, !foundEol) :
          ImportM Unit (LineBuffer × Bool)) { st with input := rest } := by
  have hlt := hroom.grown
  rw [grown] at hlt
  simp [getlineRound, fgetc, hin, grown, hc, Nat.not_le.mpr hlt]

theorem view_memoryRound (signedChar : Bool) (ceol : UInt8) (heol : eol ≠ []) (b : Buffer)
    (s : LineState) :
    view (Prod.map Buffer.line id) project (memoryRound signedChar eol ceol b s) =
      getlineRound signedChar eol ceol b.line (project s) := by
  have hpos := List.length_pos_iff.mpr heol
  cases hin : s.input with
  | nil =>
    have hround : getlineRound signedChar eol ceol b.line (project s) =
        .ok ({ b.line with nc := grown b.line }, false) (project s) := round_eof hin
    have hmemory : memoryRound signedChar eol ceol b s = .ok (b.grow, false) s := by
      simp [memoryRound, nextByte, hin]
    rw [hround, hmemory, view, Prod.map, grow_line]
    rfl
  | cons c rest =>
    have hbyte : nextByte s = .ok (some c) { s with input := rest } := by simp [nextByte, hin]
    rw [memoryRound, bind_ok hbyte]
    simp only
    cases hc : sameByte signedChar c ceol with
    | false =>
      have hround : getlineRound signedChar eol ceol b.line (project s) =
          .ok ({ buf := b.line.buf ++ [c], nc := grown b.line, foundEol := false }, true)
            { project s with input := rest } := round_other hin (room_line b) hc
      rw [hround, if_neg Bool.false_ne_true]
      exact congrArg (fun l => EStateM.Result.ok (l, true) _) (push_line b c)
    | true =>
      have hcompare := view_compareEol eol (b.push c) (eol.length - 1) (by omega)
        { s with input := rest }
      rw [push_line] at hcompare
      rw [if_pos rfl, round_check hin (room_line b) hc]
      refine view_bind hcompare fun found t => ?_
      exact congrArg (fun l : LineBuffer => EStateM.Result.ok ({ l with foundEol := found }, !found)
        (project t)) (push_line b c)

end Views

def AllSafe (eol : Bytes) (s : LineState) : Prop := ∀ a ∈ s.reads, a.Safe eol

section Safety

variable {signedChar : Bool} {eol : Bytes} {ceol : UInt8} {b : Buffer} {s : LineState}

theorem allSafe_read {a : Access} :
    AllSafe eol { s with reads := s.reads ++ [a] } ↔ AllSafe eol s ∧ a.Safe eol := by
  simp only [AllSafe, List.forall_mem_append, List.forall_mem_singleton]

theorem safe_cell {index : Int} (h : 0 ≤ index) (h' : index < b.i) :
    (Access.buffer index b.i b.terminator).Safe eol := .inl ⟨h, h'⟩

theorem safe_eol {index : Int} (h : 0 ≤ index ∧ index < eol.length) :
    (Access.eol index).Safe eol := h

/-- A comparison that comes to its end has read bytes of the line and of `eol` only. -/
theorem compareEol_safe (b : Buffer) (j : Nat) (hj : j < eol.length) (s : LineState)
    (hs : AllSafe eol s) :
    Ends (fun _ t => AllSafe eol t ∧ t.input = s.input) (fun _ _ => True)
      (compareEol eol b j s) := by
  induction j generalizing s with
  | zero => exact ⟨hs, rfl⟩
  | succ j ih =>
    rw [compareEol]
    by_cases hindex : 0 ≤ (b.i - 1 - (j + 1 : Nat) : Int) ∧ (b.i - 1 - (j + 1 : Nat) : Int) < b.nc
    · have heol : 0 ≤ (eol.length - 1 - (j + 1 : Nat) : Int) ∧
          (eol.length - 1 - (j + 1 : Nat) : Int) < eol.length := by omega
      rw [bind_ok (readCell_inside hindex), bind_ok (readEol_inside heol)]
      have hcell : AllSafe eol { s with reads := s.reads ++
          [.buffer (b.i - 1 - (j + 1 : Nat)) b.i b.terminator] } :=
        allSafe_read.mpr ⟨hs, safe_cell hindex.1 (by omega)⟩
      have hboth := allSafe_read.mpr ⟨hcell, safe_eol heol⟩
      split
      · exact ih (by omega) _ hboth
      · exact ⟨hboth, rfl⟩
    · rw [bind_error (readCell_outside hindex)]
      trivial

theorem memoryRound_safe (signedChar : Bool) (ceol : UInt8) (heol : eol ≠ []) (b : Buffer)
    (s : LineState) (hs : AllSafe eol s) (hb : b.terminator = none) :
    Ends (fun p t => (AllSafe eol t ∧ p.1.terminator = none) ∧
      (p.2 = true → t.input.length < s.input.length)) (fun _ _ => True)
      (memoryRound signedChar eol ceol b s) := by
  have hpos := List.length_pos_iff.mpr heol
  rw [memoryRound]
  cases hin : s.input with
  | nil =>
    have hbyte : nextByte s = .ok none s := by simp [nextByte, hin]
    have hgrow : b.grow.terminator = none := by
      rw [Buffer.grow]
      split
      · exact hb
      · exact hb
    rw [bind_ok hbyte]
    exact ⟨⟨hs, hgrow⟩, fun h => absurd h Bool.false_ne_true⟩
  | cons c rest =>
    have hbyte : nextByte s = .ok (some c) { s with input := rest } := by simp [nextByte, hin]
    rw [bind_ok hbyte]
    simp only
    split
    · refine ends_bind (compareEol_safe (b.push c) (eol.length - 1) (by omega)
        { s with input := rest } hs) ?_
      rintro found t ⟨ht, hinput⟩
      refine ⟨⟨ht, rfl⟩, fun _ => ?_⟩
      rw [hinput]
      exact Nat.lt_succ_self _
    · exact ⟨⟨hs, rfl⟩, fun _ => Nat.lt_succ_self _⟩

theorem loop_safe (signedChar : Bool) (ceol : UInt8) (heol : eol ≠ []) (b : Buffer)
    (s : LineState) (hs : AllSafe eol s) (hb : b.terminator = none) :
    Ends (fun b' t => AllSafe eol t ∧ b'.terminator = none) (fun _ _ => True)
      (loop .stuck (memoryRound signedChar eol ceol) (s.input.length + 1) b s) := by
  refine ends_loop (fun b t => AllSafe eol t ∧ b.terminator = none) (fun _ t => t.input.length)
    ?_ _ b s ⟨hs, hb⟩ (Nat.lt_succ_self _)
  rintro b s ⟨hs, hb⟩
  refine ends_mono (memoryRound_safe signedChar ceol heol b s hs hb) ?_ fun _ _ h => h
  rintro ⟨b', more⟩ t ⟨ht, hless⟩
  cases more with
  | false => exact ht
  | true => exact ⟨ht, hless rfl⟩

end Safety

section Strlen

variable {eol : Bytes} {b : Buffer} {s : LineState}

theorem strlenFrom_terminated {n : Nat} (hn : b.cells n = 0) (hlt : n < b.i)
    (hbefore : ∀ k < n, b.cells k ≠ 0) (fuel k : Nat) (hk : k ≤ n) (hfuel : n - k < fuel)
    (s : LineState) (hs : AllSafe eol s) :
    ∃ t, strlenFrom b fuel k s = .ok n t ∧ AllSafe eol t := by
  induction fuel generalizing k s with
  | zero => exact absurd hfuel (Nat.not_lt_zero _)
  | succ fuel ih =>
    have hwritten := b.written
    have hindex : 0 ≤ (k : Int) ∧ (k : Int) < b.nc := by omega
    have hnext : AllSafe eol { s with reads := s.reads ++ [.buffer k b.i b.terminator] } :=
      allSafe_read.mpr ⟨hs, safe_cell hindex.1 (by omega)⟩
    rw [strlenFrom, bind_ok (readCell_inside hindex), Int.toNat_natCast]
    obtain rfl | hless := Nat.eq_or_lt_of_le hk
    · rw [if_pos hn]
      exact ⟨_, rfl, hnext⟩
    · rw [if_neg (hbefore k hless)]
      exact ih (k + 1) hless (by omega) _ hnext

theorem keeps_unsafe_readCell (b : Buffer) (index : Int) :
    Keeps (fun t => ¬AllSafe eol t) (readCell b index) := by
  refine keeps_bind (keeps_modify fun s hs => ?_) fun _ => keeps_ite (keeps_pure _) (keeps_throw _)
  exact fun h => hs (allSafe_read.mp h).1

theorem keeps_unsafe_strlenFrom (b : Buffer) (fuel k : Nat) :
    Keeps (fun t => ¬AllSafe eol t) (strlenFrom b fuel k) := by
  induction fuel generalizing k with
  | zero => exact keeps_throw _
  | succ fuel ih =>
    refine keeps_bind (keeps_unsafe_readCell b k) fun c => ?_
    exact keeps_ite (keeps_pure k) (ih (k + 1))

/-- Without a zero in the line, `strlen` reads the cell behind it. -/
theorem strlenFrom_open (hopen : ∀ k < b.i, b.cells k ≠ 0) (hb : b.terminator = none)
    (fuel k : Nat) (hk : k ≤ b.i) (hfuel : b.i - k < fuel) (s : LineState) :
    Ends (fun _ t => ¬AllSafe eol t) (fun _ t => ¬AllSafe eol t) (strlenFrom b fuel k s) := by
  induction fuel generalizing k s with
  | zero => exact absurd hfuel (Nat.not_lt_zero _)
  | succ fuel ih =>
    rw [strlenFrom]
    obtain rfl | hless := Nat.eq_or_lt_of_le hk
    · have hunsafe : ¬AllSafe eol { s with reads := s.reads ++ [.buffer b.i b.i b.terminator] } := by
        rw [allSafe_read]
        rintro ⟨-, hsafe | ⟨j, hj, -⟩⟩
        · omega
        · rw [hb] at hj
          cases hj
      by_cases hindex : 0 ≤ (b.i : Int) ∧ (b.i : Int) < b.nc
      · rw [bind_ok (readCell_inside hindex)]
        split
        · exact hunsafe
        · exact keeps_unsafe_strlenFrom b fuel (b.i + 1) _ hunsafe
      · rw [bind_error (readCell_outside hindex)]
        exact hunsafe
    · have hwritten := b.written
      rw [bind_ok (readCell_inside (by omega)), Int.toNat_natCast, if_neg (hopen k hless)]
      exact ih (k + 1) hless (by omega) _

theorem finishBuffer_nil (h : b.i = 0) : finishBuffer b s = .ok none s := by
  simp [finishBuffer, h]

/-- The cells before and at some byte of the line. -/
theorem cells_of_line {before after : Bytes} {c : UInt8} (h : b.line.buf = before ++ c :: after) :
    before.length < b.i ∧ b.cells before.length = c ∧
      (List.range before.length).map b.cells = before := by
  have hlength := length_line b
  rw [h, List.length_append, List.length_cons] at hlength
  have hlt : before.length < b.i := by omega
  refine ⟨hlt, ?_, ?_⟩
  · have hcell := cells_line hlt
    rw [h, List.getElem?_append_right le_rfl, Nat.sub_self] at hcell
    exact (Option.some.inj hcell).symm
  · calc (List.range before.length).map b.cells
        = b.line.buf.take before.length := by
          rw [Buffer.line, ← List.map_take, List.take_range, Nat.min_eq_left hlt.le]
      _ = before := by rw [h, List.take_left]

theorem finishBuffer_zero (hzero : 0 ∈ b.line.buf) (hs : AllSafe eol s) :
    ∃ t, finishBuffer b s = .ok (lineText b.line.buf) t ∧ AllSafe eol t := by
  obtain ⟨before, after, hline, hnot⟩ := List.eq_append_cons_of_mem hzero
  obtain ⟨hlt, hn, htext⟩ := cells_of_line hline
  have hne : ∀ k < before.length, b.cells k ≠ 0 := by
    intro k hk hc
    have hmem : b.cells k ∈ (List.range before.length).map b.cells :=
      List.mem_map_of_mem (List.mem_range.mpr hk)
    rw [hc, htext] at hmem
    exact hnot hmem
  have hwritten := b.written
  obtain ⟨t, ht, hsafe⟩ :=
    strlenFrom_terminated hn hlt hne (b.nc + 1) 0 (Nat.zero_le _) (by omega) s hs
  refine ⟨t, ?_, hsafe⟩
  rw [finishBuffer, if_neg (by omega), bind_ok ht, lineText, hline, cString_terminated,
    cString_noNul hnot, htext]
  by_cases hnil : before = []
  · rw [if_pos hnil, if_pos (List.length_eq_zero_iff.mpr hnil)]
    rfl
  · rw [if_neg hnil, if_neg (mt List.length_eq_zero_iff.mp hnil)]
    rfl

theorem finishBuffer_open (hnil : b.i ≠ 0) (hzero : 0 ∉ b.line.buf) (hb : b.terminator = none) :
    Ends (fun _ t => ¬AllSafe eol t) (fun _ t => ¬AllSafe eol t) (finishBuffer b s) := by
  have hopen : ∀ k < b.i, b.cells k ≠ 0 := by
    intro k hk hc
    have hmem := List.mem_of_getElem? (cells_line hk)
    rw [hc] at hmem
    exact hzero hmem
  rw [finishBuffer, if_neg hnil]
  refine ends_bind (strlenFrom_open hopen hb (b.nc + 1) 0 (Nat.zero_le _) ?_ s) fun _ _ ht => ht
  have hwritten := b.written
  omega

end Strlen

section Line

variable {signedChar : Bool} {eol content : Bytes} {fresh : Nat → UInt8}

def start (content : Bytes) : LineState where
  input := content
  reads := []

/-- The state after `eol[neol - 1]` is read. -/
def started (eol content : Bytes) : LineState where
  input := content
  reads := [.eol (eol.length - 1)]

theorem input_started (eol content : Bytes) : (started eol content).input = content := rfl

theorem allSafe_started (heol : eol ≠ []) (content : Bytes) : AllSafe eol (started eol content) := by
  have hpos := List.length_pos_iff.mpr heol
  intro a ha
  rw [List.mem_singleton.mp ha]
  exact safe_eol (by omega)

theorem readEol_start {ceol : UInt8} (heol : eol ≠ []) (hlast : eol.getLast? = some ceol) :
    readEol eol (eol.length - 1) (start content) = .ok ceol (started eol content) := by
  have hpos := List.length_pos_iff.mpr heol
  have hnat : (eol.length - 1 : Int).toNat = eol.length - 1 := by omega
  rw [List.getLast?_eq_getElem?] at hlast
  rw [readEol_inside (by omega), hnat, hlast]
  rfl

theorem view_loop_started (fresh : Nat → UInt8) (signedChar : Bool) (ceol : UInt8) (heol : eol ≠ [])
    (content : Bytes) :
    view Buffer.line project (loop .stuck (memoryRound signedChar eol ceol) (content.length + 1)
        (Buffer.malloc fresh) (started eol content)) =
      loop .stuck (getlineRound signedChar eol ceol) (content.length + 1)
        { buf := [], nc := 1024, foundEol := false } (project (started eol content)) :=
  view_loop (view_memoryRound signedChar ceol heol) _ _ _

variable (fresh)

/-- The loop in memory ends as the one over the written cells, and has read nothing else. -/
theorem getlineMemory_of_loop {ceol : UInt8} (heol : eol ≠ []) (hlast : eol.getLast? = some ceol)
    {l : LineBuffer} {st : ImportState Unit}
    (hloop : loop .stuck (getlineRound signedChar eol ceol) (content.length + 1)
      { buf := [], nc := 1024, foundEol := false } (project (started eol content)) = .ok l st) :
    ∃ (b : Buffer) (t : LineState), b.line = l ∧ b.terminator = none ∧ AllSafe eol t ∧
      getlineMemory fresh signedChar eol (start content) =
        finishBuffer (if b.foundEol then b.terminate eol.length else b) t := by
  have hview := view_loop_started fresh signedChar ceol heol content
  have hsafe := loop_safe signedChar ceol heol (Buffer.malloc fresh) (started eol content)
    (allSafe_started heol content) rfl
  rw [input_started] at hsafe
  rw [hloop] at hview
  cases hrun : loop .stuck (memoryRound signedChar eol ceol) (content.length + 1)
      (Buffer.malloc fresh) (started eol content) with
  | error e t =>
    rw [hrun] at hview
    cases hview
  | ok b t =>
    rw [hrun] at hsafe hview
    cases hview
    refine ⟨b, t, rfl, hsafe.2, hsafe.1, ?_⟩
    rw [getlineMemory, bind_ok (readEol_start heol hlast), bind_ok (get_apply _), input_started,
      bind_ok hrun]

theorem getlineMemory_of_error {ceol : UInt8} (heol : eol ≠ []) (hlast : eol.getLast? = some ceol)
    {e : ImportFault} {st : ImportState Unit}
    (hloop : loop .stuck (getlineRound signedChar eol ceol) (content.length + 1)
      { buf := [], nc := 1024, foundEol := false } (project (started eol content)) = .error e st) :
    ∃ t, getlineMemory fresh signedChar eol (start content) = .error e t := by
  have hview := view_loop_started fresh signedChar ceol heol content
  rw [hloop] at hview
  cases hrun : loop .stuck (memoryRound signedChar eol ceol) (content.length + 1)
      (Buffer.malloc fresh) (started eol content) with
  | ok b t =>
    rw [hrun] at hview
    cases hview
  | error e' t =>
    rw [hrun] at hview
    cases hview
    refine ⟨t, ?_⟩
    rw [getlineMemory, bind_ok (readEol_start heol hlast), bind_ok (get_apply _), input_started,
      bind_error hrun]

theorem getlineMemory_no_eol (fresh : Nat → UInt8) (signedChar : Bool) (content : Bytes) :
    ∃ t, getlineMemory fresh signedChar [] (start content) = .error .undefined t :=
  ⟨_, rfl⟩

theorem terminate_line {b : Buffer} {a : Bytes} (heol : eol ≠ []) (hline : b.line.buf = a ++ eol) :
    (b.terminate eol.length).line.buf = a ++ 0 :: eol.tail := by
  have hlength := length_line b
  have hpos := List.length_pos_iff.mpr heol
  have happ : (a ++ eol).length = a.length + eol.length := List.length_append
  rw [hline] at hlength
  rw [← set_terminator heol, ← hline]
  apply List.ext_getElem?
  intro k
  rw [List.getElem?_set, hline, hlength]
  by_cases hk : k < b.i
  · have hcell := cells_line (b := b.terminate eol.length) (k := k) hk
    rw [hcell]
    by_cases hsame : b.i - eol.length = k
    · subst hsame
      simp [Buffer.terminate, hk]
    · rw [if_neg hsame, ← hline, cells_line hk]
      simp [Buffer.terminate, Function.update_of_ne (Ne.symm hsame)]
  · have hnone : (b.terminate eol.length).line.buf[k]? = none := by
      rw [List.getElem?_eq_none]
      rw [length_line]
      exact Nat.le_of_not_lt hk
    rw [hnone, if_neg (by omega), List.getElem?_eq_none (by omega)]

/-- A line that ends with `eol`. -/
theorem getlineMemory_line (heol : eol ≠ []) (hseen : ¬Unseen signedChar eol)
    (hquiet : Quiet eol content) {a rest : Bytes} (hfirst : firstLine eol content = some (a, rest)) :
    ∃ t, getlineMemory fresh signedChar eol (start content) = .ok (lineText a) t ∧
      AllSafe eol t := by
  have hlast := List.getLast?_eq_some_getLast heol
  obtain ⟨nc, hloop⟩ := loop_line (sameByte_of_seen hlast hseen) hlast content
    { buf := [], nc := 1024, foundEol := false } (project (started eol content)) rfl room_first rfl
    (hquiet _ hlast)
  rw [scanDelim_of_firstLine hfirst] at hloop
  obtain ⟨b, t, hline, -, ht, hrun⟩ := getlineMemory_of_loop fresh heol hlast hloop
  have hfound : b.foundEol = true := congrArg LineBuffer.foundEol hline
  have hbuf := terminate_line heol (congrArg LineBuffer.buf hline)
  rw [hrun, if_pos hfound]
  obtain ⟨t', ht', hsafe⟩ := finishBuffer_zero (b := b.terminate eol.length)
    (by rw [hbuf]; simp) ht
  refine ⟨t', ?_, hsafe⟩
  rw [ht', hbuf, lineText, cString_terminated]
  rfl

/-- A rest without `eol`, after which nothing ends the string. -/
theorem getlineMemory_rest {ceol : UInt8} (heol : eol ≠ []) (hlast : eol.getLast? = some ceol)
    {nc : Nat} {st : ImportState Unit}
    (hloop : loop .stuck (getlineRound signedChar eol ceol) (content.length + 1)
      { buf := [], nc := 1024, foundEol := false } (project (started eol content)) =
        .ok { buf := content, nc := nc, foundEol := false } st) :
    (content = [] → ∃ t, getlineMemory fresh signedChar eol (start content) = .ok none t ∧
      AllSafe eol t) ∧
    (0 ∈ content → ∃ t, getlineMemory fresh signedChar eol (start content) =
      .ok (lineText content) t) ∧
    (content ≠ [] → 0 ∉ content → Ends (fun _ t => ¬AllSafe eol t) (fun _ t => ¬AllSafe eol t)
      (getlineMemory fresh signedChar eol (start content))) := by
  obtain ⟨b, t, hline, hb, ht, hrun⟩ := getlineMemory_of_loop fresh heol hlast hloop
  have hfound : ¬b.foundEol = true := by
    rw [show b.foundEol = false from congrArg LineBuffer.foundEol hline]
    exact Bool.false_ne_true
  have hbuf : b.line.buf = content := congrArg LineBuffer.buf hline
  have hlength := length_line b
  rw [hbuf] at hlength
  rw [hrun, if_neg hfound]
  refine ⟨?_, ?_, ?_⟩
  · rintro rfl
    exact ⟨t, finishBuffer_nil hlength.symm, ht⟩
  · intro hzero
    obtain ⟨t', ht', -⟩ := finishBuffer_zero (b := b) (by rw [hbuf]; exact hzero) ht
    exact ⟨t', by rw [ht', hbuf]⟩
  · intro hnil hzero
    refine finishBuffer_open ?_ (by rw [hbuf]; exact hzero) hb
    rw [← hlength]
    exact mt List.length_eq_zero_iff.mp hnil

end Line

/-- What the line reader needs of the rest of a file: nothing is left, or there is an `eol`
whose last byte is seen, and comes neither too early nor behind a zero. -/
def FindsLine (signedChar : Bool) (eol content : Bytes) : Prop :=
  eol ≠ [] ∧ (content = [] ∨ ¬Unseen signedChar eol ∧ Quiet eol content ∧
    ∃ a rest, firstLine eol content = some (a, rest) ∧ 0 ∉ a)

section Found

variable {signedChar : Bool} {eol content : Bytes}

theorem lineText_eq_iff {a : Bytes} :
    lineText a = (if a = [] then none else some a) ↔ 0 ∉ a := by
  constructor
  · intro h hzero
    have hnil : a ≠ [] := List.ne_nil_of_mem hzero
    rw [if_neg hnil, lineText] at h
    split at h
    · cases h
    · have hsame : cString a = a := Option.some.inj h
      rw [cString, List.takeWhile_eq_self_iff] at hsame
      simpa using hsame 0 hzero
  · intro h
    rw [lineText, cString_noNul h]

/-- A string that a zero ends before the file does is not the line. -/
theorem lineText_ne_nextLine (heol : eol ≠ []) (hnul : 0 ∉ eol) (hzero : 0 ∈ content) :
    lineText content ≠ nextLine eol content := by
  rw [nextLine]
  cases hfirst : firstLine eol content with
  | none => exact fun h => lineText_eq_iff.mp h hzero
  | some p =>
    obtain ⟨a, rest⟩ := p
    have happ := firstLine_append hfirst
    simp only
    by_cases hmem : 0 ∈ a
    · have hsame : lineText content = lineText a := by
        rw [lineText, lineText, happ, List.append_assoc, cString_of_mem hmem]
      rw [hsame]
      exact fun h => lineText_eq_iff.mp h hmem
    · have hboth : 0 ∉ a ++ eol := by simp [hmem, hnul]
      have hne : a ++ eol ++ cString rest ≠ [] := by simp [heol]
      rw [lineText, happ, cString_append hboth, if_neg hne]
      split
      · simp
      · intro h
        have hlen := congrArg List.length (Option.some.inj h)
        have hpos := List.length_pos_iff.mpr heol
        simp only [List.length_append] at hlen
        omega

end Found

section Reader

variable {signedChar : Bool} {eol : CString} {content : Bytes} (fresh : Nat → UInt8)

/-- Where no `eol` is found, the reads or the line are wrong, unless nothing is left. -/
theorem readsLine_open (heol : eol.bytes ≠ []) {nc : Nat} {st : ImportState Unit}
    (hloop : loop .stuck (getlineRound signedChar eol.bytes (eol.bytes.getLast heol))
      (content.length + 1) { buf := [], nc := 1024, foundEol := false }
      (project (started eol.bytes content)) = .ok { buf := content, nc := nc, foundEol := false } st) :
    ReadsLine eol.bytes content (getlineMemory fresh signedChar eol.bytes (start content)) ↔
      content = [] := by
  obtain ⟨hnil, hzero, hunsafe⟩ :=
    getlineMemory_rest fresh heol (List.getLast?_eq_some_getLast heol) hloop
  constructor
  · intro h
    by_contra hsome
    by_cases hmem : 0 ∈ content
    · obtain ⟨t, hrun⟩ := hzero hmem
      rw [hrun] at h
      exact lineText_ne_nextLine heol eol.noNul hmem h.2
    · have hends := hunsafe hsome hmem
      cases hrun : getlineMemory fresh signedChar eol.bytes (start content) with
      | ok line t =>
        rw [hrun] at h hends
        exact hends h.1
      | error e t =>
        rw [hrun] at h
        exact h
  · intro hcontent
    obtain ⟨t, hrun, hsafe⟩ := hnil hcontent
    rw [hrun, hcontent]
    exact ⟨hsafe, by simp [nextLine, firstLine, scanDelim]⟩

theorem readsLine_unseen (heol : eol.bytes ≠ []) (hunseen : Unseen signedChar eol.bytes) :
    ReadsLine eol.bytes content (getlineMemory fresh signedChar eol.bytes (start content)) ↔
      content = [] := by
  obtain ⟨nc, hloop⟩ := loop_unseen eol.bytes
    (sameByte_of_unseen (List.getLast?_eq_some_getLast heol) hunseen) content
    { buf := [], nc := 1024, foundEol := false } (project (started eol.bytes content)) rfl
    room_first rfl
  exact readsLine_open fresh heol hloop

theorem readsLine_rest (heol : eol.bytes ≠ []) (hseen : ¬Unseen signedChar eol.bytes)
    (hquiet : Quiet eol.bytes content) (hfirst : firstLine eol.bytes content = none) :
    ReadsLine eol.bytes content (getlineMemory fresh signedChar eol.bytes (start content)) ↔
      content = [] := by
  have hlast := List.getLast?_eq_some_getLast heol
  obtain ⟨nc, hloop⟩ := loop_line (sameByte_of_seen hlast hseen) hlast content
    { buf := [], nc := 1024, foundEol := false } (project (started eol.bytes content)) rfl
    room_first rfl (hquiet _ hlast)
  rw [scanDelim_of_none hfirst] at hloop
  exact readsLine_open fresh heol hloop

theorem readsLine_early (heol : eol.bytes ≠ []) (hseen : ¬Unseen signedChar eol.bytes)
    (hearly : ¬Quiet eol.bytes content) :
    ¬ReadsLine eol.bytes content (getlineMemory fresh signedChar eol.bytes (start content)) := by
  have hlast := List.getLast?_eq_some_getLast heol
  obtain ⟨st, hloop⟩ := loop_early (sameByte_of_seen hlast hseen) content
    { buf := [], nc := 1024, foundEol := false } (project (started eol.bytes content)) rfl
    room_first (mem_of_not_quiet heol hearly)
  obtain ⟨t, hrun⟩ := getlineMemory_of_error fresh heol hlast hloop
  rw [hrun]
  exact fun h => h

theorem readsLine_found (heol : eol.bytes ≠ []) (hseen : ¬Unseen signedChar eol.bytes)
    (hquiet : Quiet eol.bytes content) {a rest : Bytes}
    (hfirst : firstLine eol.bytes content = some (a, rest)) :
    ReadsLine eol.bytes content (getlineMemory fresh signedChar eol.bytes (start content)) ↔
      0 ∉ a := by
  obtain ⟨t, hrun, hsafe⟩ := getlineMemory_line fresh heol hseen hquiet hfirst
  have hnext : nextLine eol.bytes content = if a = [] then none else some a := by
    rw [nextLine, hfirst]
  rw [hrun, ReadsLine, ends_ok, hnext, lineText_eq_iff]
  exact and_iff_right hsafe

/-- Whatever is in the memory that is allocated, the line reader reads safely and returns the
next line of the file exactly where it finds one, or nothing is left. -/
theorem reads_line_iff (fresh : Nat → UInt8) (signedChar : Bool) (eol : CString) (content : Bytes) :
    ReadsLine eol.bytes content (getlineMemory fresh signedChar eol.bytes (start content)) ↔
      FindsLine signedChar eol.bytes content := by
  rw [FindsLine]
  by_cases heol : eol.bytes = []
  · obtain ⟨t, hrun⟩ := getlineMemory_no_eol fresh signedChar content
    rw [heol, hrun]
    exact iff_of_false (fun h => h) fun h => h.1 rfl
  · rw [and_iff_right heol]
    by_cases hunseen : Unseen signedChar eol.bytes
    · rw [readsLine_unseen fresh heol hunseen, or_iff_left fun h => h.1 hunseen]
    · by_cases hquiet : Quiet eol.bytes content
      · cases hfirst : firstLine eol.bytes content with
        | none =>
          rw [readsLine_rest fresh heol hunseen hquiet hfirst, or_iff_left]
          rintro ⟨-, -, a, rest, hsome, -⟩
          cases hsome
        | some p =>
          obtain ⟨a, rest⟩ := p
          rw [readsLine_found fresh heol hunseen hquiet hfirst]
          constructor
          · exact fun hnul => .inr ⟨hunseen, hquiet, a, rest, rfl, hnul⟩
          · rintro (h | ⟨-, -, a', rest', hsome, hnul⟩)
            · rw [h] at hfirst
              cases hfirst
            · cases hsome
              exact hnul
      · refine iff_of_false (readsLine_early fresh heol hunseen hquiet) ?_
        rintro (h | ⟨-, hq, -⟩)
        · exact hquiet (by simp [h, Quiet])
        · exact hquiet hq

end Reader

/-- The file `a` without a newline is read as `ab` where the next cell has a `b`. -/
theorem last_line_unterminated :
    ¬∀ (fresh : Nat → UInt8) (signedChar : Bool) (eol : CString) (content : Bytes),
      ReadsLine eol.bytes content (getlineMemory fresh signedChar eol.bytes (start content)) := by
  intro h
  have hline := h (fun k => if k < 2 then 98 else 0) true ⟨[10], by decide⟩ [97]
  have hrun : getlineMemory (fun k => if k < 2 then 98 else 0) true [10] (start [97]) =
      .ok (some [97, 98])
        { input := []
          reads := [.eol 0, .buffer 0 1 none, .buffer 1 1 none, .buffer 2 1 none] } := rfl
  rw [hrun] at hline
  exact absurd hline.2 (by decide)

end RSQLCipher.LineMemory
