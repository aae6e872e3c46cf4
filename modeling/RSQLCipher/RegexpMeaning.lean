import RSQLCipher.RegexpPrefix

namespace RSQLCipher.RegexpMeaning

open RSQLCipher.Values
open RSQLCipher.RegexpCompile
open RSQLCipher.RegexpMatch
open RSQLCipher.RegexpProgram
open RSQLCipher.RegexpStates

/-- A place in a text: the character before it, and the characters after it. -/
abbrev Place := ℕ × List ℕ

section Relations

variable {α : Type} (R : α → α → Prop)

def power : ℕ → α → α → Prop
  | 0 => Eq
  | k + 1 => Relation.Comp R (power k)

/-- One character is taken, and it passes a test. -/
def takes (test : ℕ → Prop) (σ τ : Place) : Prop :=
  ∃ c w, σ.2 = c :: w ∧ c ≠ 0 ∧ test c ∧ τ = (c, w)

end Relations

def foldWith (noCase : Bool) (c : ℕ) : ℕ := if noCase then foldCase c else c

structure HexDigit where
  value : Fin 16
  capital : Bool
deriving DecidableEq, Repr

def hexValue (ds : List HexDigit) : ℕ := ds.foldl (fun v d => v * 16 + (d.value : ℕ)) 0

/-- A character in an expression: as itself, behind a backslash, or by the digits of its
number. -/
inductive Literal where
  | raw (c : Char)
  | esc (c : Char)
  | hex (ds : List HexDigit)
deriving DecidableEq, Repr

def Literal.value (noCase : Bool) : Literal → ℕ
  | .raw c => foldWith noCase c.toNat
  | .esc c => (signed (if zEsc.idxOf (byte c) < 6 then zTrans.getD (zEsc.idxOf (byte c)) 0
      else byte c)).toNat
  | .hex ds => hexValue ds

inductive Member where
  | one (l : Literal)
  | range (lo hi : Literal)
deriving DecidableEq, Repr

inductive Shorthand where
  | digit | notDigit | space | notSpace | word | notWord
deriving DecidableEq, Repr

inductive Simple where
  | lit (l : Literal)
  | any
  | cls (negated : Bool) (m : Member) (ms : List Member)
  | shorthand (s : Shorthand)
  | boundary
  | start
deriving DecidableEq, Repr

inductive Quant where
  | once | star | plus | opt
  | rep (m n : ℕ)
deriving DecidableEq, Repr

mutual

/-- Alternatives, each of which may ask for the end of the text. -/
inductive Re where
  | str (s : Str) (eol : Bool)
  | alt (r : Re) (s : Str) (eol : Bool)

/-- One after the other, with at most one quantifier each. -/
inductive Str where
  | nil
  | simple (a : Simple) (q : Quant) (s : Str)
  | group (r : Re) (q : Quant) (s : Str)

end

section Code

variable (noCase : Bool)

def Member.code : Member → List Instr
  | .one l => [(.ccValue, l.value noCase)]
  | .range lo hi => [(.ccRange, lo.value noCase), (.ccRange, hi.value noCase)]

def Shorthand.op : Shorthand → ReOp
  | .digit => .digit
  | .notDigit => .notdigit
  | .space => .space
  | .notSpace => .notspace
  | .word => .word
  | .notWord => .notword

def Simple.code : Simple → List Instr
  | .lit l => [(.match, l.value noCase)]
  | .any => [(.any, 0)]
  | .cls negated m ms =>
    let members := (m :: ms).flatMap (Member.code noCase)
    (if negated then .ccExc else .ccInc, (members.length : ℤ) + 1) :: members
  | .shorthand s => [(s.op, 0)]
  | .boundary => [(.boundary, 0)]
  | .start => [(.atstart, 0)]

def repeated (B : List Instr) (k : ℕ) : List Instr := (List.replicate k B).flatten

def Quant.code (B : List Instr) : Quant → List Instr
  | .once => B
  | .star => (.goto, (B.length : ℤ) + 1) :: (B ++ [(.fork, -(B.length : ℤ))])
  | .plus => B ++ [(.fork, -(B.length : ℤ))]
  | .opt => (.fork, (B.length : ℤ) + 1) :: B
  | .rep m n => repeated B m ++ repeated ((.fork, (B.length : ℤ) + 1) :: B) (n - m)

def simpleCode (a : Simple) (q : Quant) : List Instr :=
  if a = .any ∧ q = .star then [(.anystar, 0)] else q.code (a.code noCase)

def eolCode (eol : Bool) : List Instr := if eol then [(.match, 0)] else []

/-- A fork in front of the code of one side, and a jump over the other side behind it. -/
def altCode (B C : List Instr) : List Instr :=
  (.fork, (B.length : ℤ) + 2) :: (B ++ (.goto, (C.length : ℤ) + 1) :: C)

mutual

def Re.code : Re → List Instr
  | .str s eol => s.code ++ eolCode eol
  | .alt r s eol => altCode r.code (s.code ++ eolCode eol)

def Str.code : Str → List Instr
  | .nil => []
  | .simple a q s => simpleCode noCase a q ++ s.code
  | .group r q s => q.code r.code ++ s.code

end

end Code

section Meaning

variable (noCase : Bool)

def Member.Has (c : ℕ) : Member → Prop
  | .one l => l.value noCase = c
  | .range lo hi => lo.value noCase ≤ c ∧ c ≤ hi.value noCase

def Shorthand.Test (c : ℕ) : Shorthand → Prop
  | .digit => reDigitChar c
  | .notDigit => ¬reDigitChar c
  | .space => reSpaceChar c
  | .notSpace => ¬reSpaceChar c
  | .word => reWordChar c
  | .notWord => ¬reWordChar c

/-- What a part of an expression says about the places before and after it. -/
def Simple.means : Simple → Place → Place → Prop
  | .lit l => takes fun c => l.value noCase = c
  | .any => takes fun _ => True
  | .cls negated m ms => takes fun c => (∃ i ∈ m :: ms, i.Has noCase c) ↔ negated = false
  | .shorthand s => takes s.Test
  | .boundary => fun σ τ => σ = τ ∧ reWordChar (σ.2.headD 0) ≠ reWordChar σ.1
  | .start => fun σ τ => σ = τ ∧ σ.1 = RE_START

def Quant.means (R : Place → Place → Prop) : Quant → Place → Place → Prop
  | .once => R
  | .star => Relation.ReflTransGen R
  | .plus => Relation.TransGen R
  | .opt => Relation.ReflGen R
  | .rep m n => fun σ τ => ∃ k, m ≤ k ∧ k ≤ n ∧ power R k σ τ

mutual

def Re.means : Re → Place → Place → Prop
  | .str s eol => fun σ τ => s.means σ τ ∧ (eol = true → τ.2 = [])
  | .alt r s eol => fun σ τ => r.means σ τ ∨ s.means σ τ ∧ (eol = true → τ.2 = [])

def Str.means : Str → Place → Place → Prop
  | .nil => Eq
  | .simple a q s => Relation.Comp (q.means (a.means noCase)) s.means
  | .group r q s => Relation.Comp (q.means r.means) s.means

end

end Meaning

section Valid

/-- The characters that stand for something else, outside and inside a class. -/
def specials : List Char := ['|', '(', ')', '.', '*', '+', '?', '$', '^', '\x7b', '[', '\\']

def classSpecials : List Char := ['[', ']', '\\', '-', '^']

def escapable : List Char :=
  ['a', 'f', 'n', 'r', 't', 'v', '\\', '(', ')', '*', '.', '+', '?', '[', '$', '^', '\x7b', '|',
    '\x7d', ']', '-']

def Literal.Valid (specials : List Char) : Literal → Prop
  | .raw c => c.toNat ≠ 0 ∧ c ∉ specials
  | .esc c => c ∈ escapable
  | .hex ds => (ds.length = 4 ∨ ds.length = 2) ∧ 0 < hexValue ds

def Member.Valid : Member → Prop
  | .one l => l.Valid classSpecials
  | .range lo hi => lo.Valid classSpecials ∧ hi.Valid classSpecials

def Simple.Valid : Simple → Prop
  | .lit l => l.Valid specials
  | .cls _ m ms => ∀ i ∈ m :: ms, i.Valid
  | _ => True

def Quant.Valid : Quant → Prop
  | .rep m n => m ≤ n ∧ 0 < n
  | _ => True

/-- No alternative asks for the end of the text. -/
def Re.NoEol : Re → Prop
  | .str _ eol => eol = false
  | .alt r _ eol => r.NoEol ∧ eol = false

mutual

/-- The end of the text is asked for by alternatives of the whole expression only: behind a
repeated group the machine does not find its way to the end. -/
def Re.Valid : Re → Prop
  | .str s _ => s.Valid
  | .alt r s _ => r.Valid ∧ s.Valid

def Str.Valid : Str → Prop
  | .nil => True
  | .simple a q s => a.Valid ∧ q.Valid ∧ s.Valid
  | .group r q s => (r.Valid ∧ r.NoEol) ∧ q.Valid ∧ s.Valid

end

/-- The complexity limit that the bounds of a repetition ask for. -/
def Quant.limit : Quant → ℕ
  | .rep _ n => n * 2
  | _ => 0

mutual

def Re.limit : Re → ℕ
  | .str s _ => s.limit
  | .alt r s _ => max r.limit s.limit

def Str.limit : Str → ℕ
  | .nil => 0
  | .simple _ q s => max q.limit s.limit
  | .group r q s => max r.limit (max q.limit s.limit)

end

/-- A property that is checked on every element of a list. -/
theorem forall_of_all {α : Type} {P : α → Prop} [DecidablePred P] {l : List α}
    (h : (l.all fun a => decide (P a)) = true) : ∀ a ∈ l, P a := by
  simpa using h

theorem foldCase_eq (c n : ℕ) (h : n < 97 ∨ 122 < n) (hn : n < 65 ∨ 90 < n) :
    foldCase c = n ↔ c = n := by
  simp only [foldCase, show 'A'.toNat = 65 from rfl, show 'Z'.toNat = 90 from rfl]
  split_ifs <;> omega

theorem value_ne (noCase : Bool) {specials : List Char} {l : Literal} (h : l.Valid specials) :
    l.value noCase ≠ 0 := by
  cases l with
  | raw c =>
    cases noCase with
    | false => exact h.1
    | true =>
      simp only [Literal.value, foldWith, if_true, ne_eq]
      rw [foldCase_eq c.toNat 0 (by omega) (by omega)]
      exact h.1
  | esc c =>
    have hall : ∀ c ∈ escapable, (Literal.esc c).value noCase ≠ 0 := by
      cases noCase <;> exact forall_of_all (by decide)
    exact hall c h
  | hex ds => exact Nat.ne_of_gt h.2

end Valid

end RSQLCipher.RegexpMeaning
