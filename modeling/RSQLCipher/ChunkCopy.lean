import RSQLCipher.ChunkContents

namespace RSQLCipher.ChunkCopy

open RSQLCipher.Library RSQLCipher.Values RSQLCipher.ColumnDataSource RSQLCipher.ColumnStorage
open RSQLCipher.ChunkContents DbColumnStorage

def Written (x y : Sexp) (pos : Nat) (vs : List Elem) : Prop :=
  pos + vs.length ≤ x.length ∧
    y = { x with elems := x.elems.take pos ++ vs ++ x.elems.drop (pos + vs.length) }

theorem written_nil (x : Sexp) (pos : Nat) (h : pos ≤ x.length) : Written x x pos [] :=
  ⟨h, by simp⟩

theorem length_written {x y : Sexp} {pos : Nat} {vs : List Elem} (h : Written x y pos vs) :
    y.length = x.length := by
  obtain ⟨hle, rfl⟩ := h
  simp only [Sexp.length] at hle ⊢
  simp only [List.length_append, List.length_take, List.length_drop]
  omega

theorem written_set (x : Sexp) (pos : Nat) (v : Elem) (h : pos < x.length) :
    Written x { x with elems := x.elems.set pos v } pos [v] := by
  refine ⟨h, ?_⟩
  rw [Sexp.length] at h
  rw [List.set_eq_take_append_cons_drop, if_pos h]
  simp

theorem written_append {x y z : Sexp} {pos : Nat} {vs ws : List Elem} (h : Written x y pos vs)
    (h' : Written y z (pos + vs.length) ws) : Written x z pos (vs ++ ws) := by
  have hlen := length_written h
  obtain ⟨hle, rfl⟩ := h
  obtain ⟨hle', rfl⟩ := h'
  rw [hlen] at hle'
  refine ⟨by simpa [Nat.add_assoc] using hle', ?_⟩
  simp only [Sexp.length] at hle hle'
  have hpre : (x.elems.take pos ++ vs).length = pos + vs.length := by
    simp only [List.length_append, List.length_take]
    omega
  have htake : (x.elems.take pos ++ vs ++ x.elems.drop (pos + vs.length)).take (pos + vs.length) =
      x.elems.take pos ++ vs := by rw [← hpre, List.take_left]
  have hdrop : (x.elems.take pos ++ vs ++ x.elems.drop (pos + vs.length)).drop
      (pos + vs.length + ws.length) = x.elems.drop (pos + (vs ++ ws).length) := by
    rw [← List.drop_drop, ← hpre, List.drop_left, hpre, List.drop_drop, List.length_append,
      Nat.add_assoc]
  change ({ x with elems := _ } : Sexp) = _
  rw [htake, hdrop, List.append_assoc (x.elems.take pos)]

theorem get_eq {x : Sexp} {i : Nat} {e : Elem} (h : x.elems[i]? = some e) : x.get i = .ok e := by
  simp [Sexp.get, h]

theorem copyValue_spec {s : DbColumnStorage} {es : List Elem} (h : Holds s es) {wide : DataType}
    (hw : Widens wide s.dt) (x : Sexp) (tgt k : Nat) (hk : k < s.getCapacity) (e : Elem)
    (he : es[k]? = some e) (htgt : tgt < x.length) :
    s.copyValue x wide tgt k = .ok { x with elems := x.elems.set tgt (widen s.dt wide e) } := by
  have hlt : k < es.length := (List.getElem?_eq_some_iff.mp he).1
  have hget : s.data.get k = .ok e := get_eq ((h.stored k hk hlt).trans he)
  have hdt : s.dt ≠ .unknown := by
    intro hdt
    rw [h.untyped hdt] at hk
    exact Nat.not_lt_zero k hk
  have hfits : Fits s.dt e := h.fits e (List.mem_of_getElem? he)
  have htype := h.type
  have hset := fun v => set_eq x tgt v htgt
  generalize s.dt = dt at *
  unfold copyValue Sexp.integer Sexp.word Sexp.stringElt Sexp.vectorElt
  cases hfits with
  | unset => exact absurd rfl hdt
  | chr t =>
    cases hw with
    | refl => simp [htype, hget, hset, widen, sexptypeFromDatatype, bind, Except.bind, pure,
        Except.pure]
  | obj b =>
    cases hw with
    | refl => simp [htype, hget, hset, widen, sexptypeFromDatatype, bind, Except.bind, pure,
        Except.pure]
  | int v hint =>
    cases hw with
    | unknown => exact absurd rfl hdt
    | int hwide =>
      obtain rfl | rfl := hwide
      · simp [htype, hget, hset, widen, sexptypeFromDatatype, bind, Except.bind, pure, Except.pure]
      · simp [htype, hget, hset, widen, sexptypeFromDatatype, bind, Except.bind, pure, Except.pure]
    | refl =>
      cases wide <;> first
        | (simp [sexptypeFromDatatype] at hint; done)
        | simp [htype, hget, hset, widen, sexptypeFromDatatype, bind, Except.bind, pure, Except.pure]
  | word w hword =>
    cases hw with
    | unknown => exact absurd rfl hdt
    | int hwide => simp [sexptypeFromDatatype] at hword
    | refl =>
      cases wide <;> first
        | (simp [sexptypeFromDatatype] at hword; done)
        | simp [htype, hget, hset, widen, sexptypeFromDatatype, bind, Except.bind, pure, Except.pure]

def widened (s : DbColumnStorage) (wide : DataType) (es : List Elem) : List Elem :=
  es.map (widen s.dt wide)

theorem take_succ_drop {vs : List Elem} {k m : Nat} {v : Elem} (h : vs[k]? = some v) :
    (vs.drop k).take (m + 1) = v :: (vs.drop (k + 1)).take m := by
  obtain ⟨hlt, rfl⟩ := List.getElem?_eq_some_iff.mp h
  rw [List.drop_eq_getElem_cons hlt, List.take_succ_cons]

/-- The first loop writes elements until the chunk's store, its elements or the
target are used up. -/
theorem copyValues_spec {s : DbColumnStorage} {es : List Elem} (h : Holds s es) {wide : DataType}
    (hw : Widens wide s.dt) (n : Nat) (x : Sexp) (tgt k : Nat) (hk : k ≤ es.length)
    (hn : es.length ≤ k + n) (htgt : tgt ≤ x.length) :
    ∃ y m, s.copyValues wide n x tgt k = .ok (y, tgt + m, k + m) ∧ k + m ≤ es.length ∧
      Written x y tgt (((widened s wide es).drop k).take m) ∧
      (s.getCapacity ≤ k + m ∨ es.length ≤ k + m ∨ x.length ≤ tgt + m) := by
  induction n generalizing x tgt k with
  | zero => exact ⟨x, 0, rfl, hk, written_nil x tgt htgt, .inr (.inl hn)⟩
  | succ n ih =>
    by_cases hc : k < s.getCapacity ∧ k < s.i ∧ tgt < x.length
    · obtain ⟨hcap, hi, hlt⟩ := hc
      rw [h.count] at hi
      have he : es[k]? = some es[k] := List.getElem?_eq_getElem hi
      have hv : (widened s wide es)[k]? = some (widen s.dt wide es[k]) := by simp [widened, hi]
      let x' : Sexp := { x with elems := x.elems.set tgt (widen s.dt wide es[k]) }
      have hx' : Written x x' tgt [widen s.dt wide es[k]] := written_set x tgt _ hlt
      have hlen : x'.length = x.length := length_written hx'
      obtain ⟨y, m, hy, hm, hwritten, hstop⟩ := ih x' (tgt + 1) (k + 1) hi (by omega) (by omega)
      refine ⟨y, m + 1, ?_, by omega, ?_, by omega⟩
      · rw [copyValues, if_pos ⟨hcap, h.count ▸ hi, hlt⟩,
          copyValue_spec h hw x tgt k hcap es[k] he hlt]
        simp only [bind, Except.bind]
        rw [hy]
        simp only [Nat.add_assoc, Nat.add_comm 1 m]
      · rw [take_succ_drop hv]
        exact written_append hx' hwritten
    · refine ⟨x, 0, by rw [copyValues, if_neg hc]; rfl, hk, written_nil x tgt htgt, ?_⟩
      rw [h.count] at hc
      omega

/-- The second loop fills up with missing values: past its store a chunk has only
NULLs. -/
theorem fillValues_spec {s : DbColumnStorage} {es : List Elem} (h : Holds s es) {wide : DataType}
    (hw : Widens wide s.dt) (hwide : wide ≠ .unknown) (n : Nat) (x : Sexp) (tgt k : Nat)
    (hk : k ≤ es.length) (hn : es.length ≤ k + n) (htgt : tgt ≤ x.length)
    (hstart : s.getCapacity ≤ k ∨ es.length ≤ k ∨ x.length ≤ tgt) :
    ∃ y m, s.fillValues wide n x tgt k = .ok (y, k + m) ∧ k + m ≤ es.length ∧
      Written x y tgt (((widened s wide es).drop k).take m) ∧
      (es.length ≤ k + m ∨ x.length ≤ tgt + m) := by
  induction n generalizing x tgt k with
  | zero => exact ⟨x, 0, rfl, hk, written_nil x tgt htgt, .inl hn⟩
  | succ n ih =>
    by_cases hc : k < s.i ∧ tgt < x.length
    · obtain ⟨hi, hlt⟩ := hc
      rw [h.count] at hi
      have hna : es[k] = naElem s.dt :=
        h.counted k es[k] (by omega) (List.getElem?_eq_getElem hi)
      have hv : (widened s wide es)[k]? = some (naElem wide) := by
        simp [widened, hi, hna, widen_naElem s.dt wide hw]
      let x' : Sexp := { x with elems := x.elems.set tgt (naElem wide) }
      have hx' : Written x x' tgt [naElem wide] := written_set x tgt _ hlt
      have hlen : x'.length = x.length := length_written hx'
      obtain ⟨y, m, hy, hm, hwritten, hstop⟩ :=
        ih x' (tgt + 1) (k + 1) hi (by omega) (by omega) (by omega)
      refine ⟨y, m + 1, ?_, by omega, ?_, by omega⟩
      · rw [fillValues, if_pos ⟨h.count ▸ hi, hlt⟩, fillDefaultValue_eq x wide tgt hwide hlt]
        simp only [bind, Except.bind]
        rw [hy]
        simp only [Nat.add_assoc, Nat.add_comm 1 m]
      · rw [take_succ_drop hv]
        exact written_append hx' hwritten
    · refine ⟨x, 0, by rw [fillValues, if_neg hc]; rfl, hk, written_nil x tgt htgt, ?_⟩
      rw [h.count] at hc
      omega

theorem copyTo_spec {s : DbColumnStorage} {es : List Elem} (h : Holds s es) {wide : DataType}
    (hw : Widens wide s.dt) (hwide : wide ≠ .unknown) (x : Sexp) (pos : Nat) (hpos : pos ≤ x.length) :
    ∃ y m, s.copyTo x wide pos = .ok (y, m) ∧ m = min es.length (x.length - pos) ∧
      Written x y pos ((widened s wide es).take m) := by
  obtain ⟨y, m, hy, hm, hwritten, hstop⟩ :=
    copyValues_spec h hw s.i x pos 0 (Nat.zero_le _) (by rw [h.count]; omega) hpos
  have hlen := length_written hwritten
  have htake : ((widened s wide es).take m).length = m := by
    simp only [widened, List.length_take, List.length_map]
    omega
  have hle : pos + m ≤ x.length := by
    have h1 := hwritten.1
    rw [List.drop_zero, htake] at h1
    exact h1
  rw [Nat.zero_add] at hy hm hstop
  obtain ⟨z, j, hz, hj, hwritten', hstop'⟩ :=
    fillValues_spec h hw hwide s.i y (pos + m) m hm (by rw [h.count]; omega) (by omega) (by omega)
  refine ⟨z, m + j, ?_, ?_, ?_⟩
  · simp only [copyTo, hy, bind, Except.bind]
    exact hz
  · have h2 := hwritten'.1
    have hdrop : (((widened s wide es).drop m).take j).length = j := by
      simp only [widened, List.length_take, List.length_drop, List.length_map]
      omega
    omega
  · rw [List.drop_zero] at hwritten
    have hnext : Written y z (pos + ((widened s wide es).take m).length)
        (((widened s wide es).drop m).take j) := by rwa [htake]
    rw [List.take_add]
    exact written_append hwritten hnext

end RSQLCipher.ChunkCopy
