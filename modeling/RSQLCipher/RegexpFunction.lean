import RSQLCipher.RegexpSearch

namespace RSQLCipher.RegexpFunction

open RSQLCipher.Values
open RSQLCipher.RegexpCompile
open RSQLCipher.RegexpMatch
open RSQLCipher.RegexpStates
open RSQLCipher.RegexpMeaning
open RSQLCipher.RegexpRender
open RSQLCipher.RegexpSearch

section Source

/-- What an SQL function gives back. -/
inductive SqlResult where
  | null
  | int (n : ℕ)
  | error (zErr : String)
deriving DecidableEq, Repr

def reMaxnfa (mxlen : ℕ) : ℕ := 75 + mxlen / 2

/-- `re_sql_func`: a call of `regexp(pattern, text)`, with the expression that an earlier call
of the statement left behind, for an SQLite whose patterns have so many bytes at most. -/
def reSqlFunc (mxLen : ℕ) (noCase : Bool) (pRe : Option ReCompiled) (zPattern zStr : Option Bytes) :
    Option (SqlResult × Option ReCompiled) :=
  let found (pRe : ReCompiled) : Option (SqlResult × Option ReCompiled) :=
    match zStr with
    | none => some (.null, some pRe)
    | some zStr => (reMatch pRe zStr).map fun b => (.int b.toNat, some pRe)
  match pRe with
  | some pRe => found pRe
  | none =>
    match zPattern with
    | none => some (.null, none)
    | some zPattern =>
      if zPattern.length > mxLen then some (.error "REGEXP pattern too big", none)
      else
        match reCompile zPattern (reMaxnfa mxLen) noCase with
        | none => none
        | some (.error zErr) => some (.error zErr, none)
        | some (.ok pRe) => found pRe

end Source

section Calls

variable {mxLen : ℕ} {noCase : Bool} {zPattern : Option Bytes}

/-- The calls that one statement makes with one pattern. Before each of them SQLite may
throw away what it keeps for the function. -/
def calls (mxLen : ℕ) (noCase : Bool) (zPattern : Option Bytes) :
    Option ReCompiled → List (Bool × Option Bytes) → Option (List SqlResult)
  | _, [] => some []
  | pRe, (forget, zStr) :: rows => do
    let (result, pRe) ← reSqlFunc mxLen noCase (if forget then none else pRe) zPattern zStr
    let results ← calls mxLen noCase zPattern pRe rows
    return result :: results

/-- What is kept between two calls is what the pattern compiles to. -/
def Kept (mxLen : ℕ) (noCase : Bool) (zPattern : Option Bytes) (pRe : ReCompiled) : Prop :=
  ∃ z, zPattern = some z ∧ z.length ≤ mxLen ∧
    reCompile z (reMaxnfa mxLen) noCase = some (.ok pRe)

theorem reSqlFunc_kept {pRe : ReCompiled} (h : Kept mxLen noCase zPattern pRe)
    (zStr : Option Bytes) : reSqlFunc mxLen noCase (some pRe) zPattern zStr =
      reSqlFunc mxLen noCase none zPattern zStr := by
  obtain ⟨z, rfl, hlen, hcompile⟩ := h
  simp only [reSqlFunc, hcompile]
  rw [if_neg (by omega)]

/-- A call without anything kept gives an answer, and keeps what the pattern compiles to. -/
theorem reSqlFunc_fresh (mxLen : ℕ) (noCase : Bool) (zPattern zStr : Option Bytes) :
    ∃ result kept, reSqlFunc mxLen noCase none zPattern zStr = some (result, kept) ∧
      ∀ pRe ∈ kept, Kept mxLen noCase zPattern pRe := by
  cases zPattern with
  | none => exact ⟨.null, none, rfl, by simp⟩
  | some z =>
    by_cases hlen : z.length > mxLen
    · refine ⟨.error "REGEXP pattern too big", none, ?_, by simp⟩
      simp only [reSqlFunc]
      rw [if_pos hlen]
    · simp only [reSqlFunc]
      rw [if_neg hlen]
      obtain ⟨compiled, hcompile⟩ := Option.ne_none_iff_exists'.mp
        (RegexpProgram.reCompile_ne_none z (reMaxnfa mxLen) noCase)
      rw [hcompile]
      cases compiled with
      | error zErr => exact ⟨.error zErr, none, rfl, by simp⟩
      | ok pRe =>
        have hkept : Kept mxLen noCase (some z) pRe := ⟨z, rfl, by omega, hcompile⟩
        cases zStr with
        | none => exact ⟨.null, some pRe, rfl, by simpa using hkept⟩
        | some zStr =>
          obtain ⟨b, hb⟩ := Option.ne_none_iff_exists'.mp (reMatch_ne_none hcompile zStr)
          refine ⟨.int b.toNat, some pRe, ?_, by simpa using hkept⟩
          dsimp only
          rw [hb]
          rfl

theorem calls_fresh (rows : List (Bool × Option Bytes)) (pRe : Option ReCompiled)
    (h : ∀ p ∈ pRe, Kept mxLen noCase zPattern p) :
    ∃ results, calls mxLen noCase zPattern pRe rows = some results ∧
      List.Forall₂ (fun row result => ∃ kept,
        reSqlFunc mxLen noCase none zPattern row.2 = some (result, kept)) rows results := by
  induction rows generalizing pRe with
  | nil => exact ⟨[], rfl, .nil⟩
  | cons row rows ih =>
    obtain ⟨forget, zStr⟩ := row
    obtain ⟨result, kept, hresult, hkept⟩ := reSqlFunc_fresh mxLen noCase zPattern zStr
    have hsame : reSqlFunc mxLen noCase (if forget then none else pRe) zPattern zStr =
        some (result, kept) := by
      cases forget with
      | true => exact hresult
      | false =>
        cases pRe with
        | none => exact hresult
        | some p => exact (reSqlFunc_kept (h p rfl) zStr).trans hresult
    obtain ⟨results, hcalls, hall⟩ := ih kept hkept
    refine ⟨result :: results, ?_, .cons ⟨kept, hresult⟩ hall⟩
    simp [calls, hsame, hcalls]

/-- Every call of a statement gives an answer, and the same one as a call that has nothing
left from the calls before it. -/
theorem calls_eq_fresh (mxLen : ℕ) (noCase : Bool) (zPattern : Option Bytes)
    (rows : List (Bool × Option Bytes)) :
    ∃ results, calls mxLen noCase zPattern none rows = some results ∧
      List.Forall₂ (fun row result => ∃ kept,
        reSqlFunc mxLen noCase none zPattern row.2 = some (result, kept)) rows results :=
  calls_fresh rows none (by simp)

end Calls

end RSQLCipher.RegexpFunction
