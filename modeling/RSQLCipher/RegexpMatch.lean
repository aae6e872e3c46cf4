import RSQLCipher.Library.Worklist
import RSQLCipher.RegexpCompile

namespace RSQLCipher.RegexpMatch

open RSQLCipher.Values
open RSQLCipher.RegexpCompile
open RSQLCipher.Library.Worklist

def reWordChar (c : ℕ) : Bool :=
  ('0'.toNat ≤ c && c ≤ '9'.toNat) || ('a'.toNat ≤ c && c ≤ 'z'.toNat) ||
    ('A'.toNat ≤ c && c ≤ 'Z'.toNat) || c == '_'.toNat

def reDigitChar (c : ℕ) : Bool := '0'.toNat ≤ c && c ≤ '9'.toNat

def reSpaceChar (c : ℕ) : Bool := c ∈ [32, 9, 10, 13, 11, 12]

/-- A state that lies so far from another one, where that is in the program. -/
def jump (ops : List Instr) (x : ℕ) (arg : ℤ) : Option ℕ :=
  let y := (x : ℤ) + arg
  if 0 ≤ y ∧ y < ops.length then some y.toNat else none

/-- The loop over the members of a class: whether one of them has the character. -/
def classHit (ops : List Instr) (x : ℕ) (c : ℤ) (n : ℤ) : ℕ → ℕ → Option Bool
  | 0, _ => none
  | fuel + 1, j =>
    if (j : ℤ) < n then
      match ops[x + j]? with
      | none => none
      | some (.ccValue, v) => if v = c then some true else classHit ops x c n fuel (j + 1)
      | some (_, lo) =>
        if lo ≤ c then
          match ops[x + j + 1]? with
          | none => none
          | some (_, hi) => if c ≤ hi then some true else classHit ops x c n fuel (j + 2)
        else classHit ops x c n fuel (j + 2)
    else some false

/-- Moves on, to a state that has to be in the program, if a test holds. -/
def moveIf (ops : List Instr) (x : ℕ) (arg : ℤ) (test : Bool) : Option (List ℕ) :=
  if test then (jump ops x arg).map ([·]) else some []

/-- The cases of the `switch` that test a character, and go on behind it. -/
def charTest (c : ℕ) : Instr → Option Bool
  | (.match, arg) => some (arg = c)
  | (.any, _) => some (c ≠ 0)
  | (.word, _) => some (reWordChar c)
  | (.notword, _) => some (!reWordChar c && c ≠ 0)
  | (.digit, _) => some (reDigitChar c)
  | (.notdigit, _) => some (!reDigitChar c && c ≠ 0)
  | (.space, _) => some (reSpaceChar c)
  | (.notspace, _) => some (!reSpaceChar c && c ≠ 0)
  | _ => none

/-- The cases of the `switch` that test the place between two characters. -/
def placeTest (cPrev c : ℕ) : Instr → Option Bool
  | (.atstart, _) => some (cPrev = RE_START)
  | (.boundary, _) => some (reWordChar c != reWordChar cPrev)
  | _ => none

/-- The `switch`: what a state with an opcode asks for between two characters. -/
def perform (ops : List Instr) (cPrev c x : ℕ) (o : Instr) : Option (Visit ℕ) :=
  match charTest c o, placeTest cPrev c o with
  | some test, _ => (moveIf ops x 1 test).map fun l => .go [] l
  | none, some test => (moveIf ops x 1 test).map fun l => .go l []
  | none, none =>
    match o with
    | (.anystar, _) => (jump ops x 1).map fun y => .go [y] [x]
    | (.fork, arg) => (jump ops x arg).bind fun y => (jump ops x 1).map fun z => .go [y, z] []
    | (.goto, arg) => (jump ops x arg).map fun y => .go [y] []
    | (.accept, _) => some .accept
    | (.ccExc, n) =>
      if c = 0 then some (.go [] [])
      else (classHit ops x c n (ops.length + 1) 1).bind fun hit =>
        (moveIf ops x n !hit).map fun l => .go [] l
    | (.ccInc, n) => (classHit ops x c n (ops.length + 1) 1).bind fun hit =>
        (moveIf ops x n hit).map fun l => .go [] l
    | _ => some (.go [] [])

/-- What a state asks for. Nothing is returned where the program would be read outside its
bounds. -/
def visit (ops : List Instr) (cPrev c x : ℕ) : Option (Visit ℕ) :=
  ops[x]?.bind (perform ops cPrev c x)

/-- The inner loop of `re_match`, over the states of one set while it grows. -/
def round (ops : List Instr) (cPrev c : ℕ) (pThis : List ℕ) : Option (Swept ℕ) :=
  sweep ops.length (visit ops cPrev c) (ops.length + 1) 0 pThis []

/-- Follows jumps to the end, where the text has been read to its end. -/
def endsInAccept (ops : List Instr) : ℕ → ℕ → Option Bool
  | 0, _ => none
  | fuel + 1, x =>
    match ops[x]? with
    | none => none
    | some (.goto, arg) => (jump ops x arg).bind (endsInAccept ops fuel)
    | some (.accept, _) => some true
    | some _ => some false

/-- The last loop of `re_match`. -/
def anyAccepts (ops : List Instr) : List ℕ → Option Bool
  | [] => some false
  | x :: xs => do
    if ← endsInAccept ops (ops.length + 1) x then return true
    anyAccepts ops xs

/-- The outer loop of `re_match`, after the character `c`. -/
def rounds (next : Bytes → ℕ × Bytes) (ops : List Instr) :
    ℕ → ℕ → Bytes → List ℕ → Option Bool
  | 0, _, _, _ => none
  | fuel + 1, c, z, pNext =>
    if c ≠ RE_EOF ∧ pNext ≠ [] then do
      match ← round ops c (next z).1 pNext with
      | .accepted => return true
      | .next pNext => rounds next ops fuel (next z).1 (next z).2 pNext
    else anyAccepts ops pNext

/-- `strncmp(z, y, n) == 0`, for texts that end at a `NUL` or where their bytes end. -/
def strncmpEq : ℕ → Bytes → Bytes → Bool
  | 0, _, _ => true
  | n + 1, z, y =>
    z.headD 0 == y.headD 0 && (z.headD 0 == 0 || strncmpEq n z.tail y.tail)

/-- The loop that looks ahead for the bytes that every match begins with. -/
def search (zInit : Bytes) : Bytes → Option Bytes
  | [] => none
  | b :: z =>
    if (b :: z).length < zInit.length then none
    else if strncmpEq zInit.length (b :: z) zInit then some (b :: z)
    else search zInit z

def nextCharOf (noCase : Bool) : Bytes → ℕ × Bytes :=
  if noCase then reNextCharNocase else reNextChar

/-- `re_match`, of a text that ends at its first `NUL`. -/
def reMatch (pRe : ReCompiled) (zIn : Bytes) : Option Bool :=
  let z := zIn.takeWhile (· ≠ 0)
  let run (c : ℕ) (z : Bytes) :=
    rounds (nextCharOf pRe.noCase) pRe.ops (z.length + 2) c z [0]
  if pRe.zInit = [] then run RE_START z
  else
    match search pRe.zInit z with
    | none => some false
    | some z => run (RE_START - 1) z

end RSQLCipher.RegexpMatch
