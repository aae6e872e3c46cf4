import RSQLCipher.Values

namespace RSQLCipher.RegexpCompile

open RSQLCipher.Values

/-- The opcodes of the machine that runs a regular expression. -/
inductive ReOp where
  | «match» | any | anystar | fork | goto | accept | ccInc | ccExc | ccValue | ccRange
  | word | notword | digit | notdigit | space | notspace | boundary | atstart
deriving DecidableEq, Repr

abbrev Instr := ReOp × ℤ

def RE_EOF : ℕ := 0

def RE_START : ℕ := 0xfffffff

def byte (c : Char) : UInt8 := c.val.toUInt8

/-- A byte that goes on with a character of several bytes. -/
def trailing (b : UInt8) : Bool := b.toNat &&& 0xC0 == 0x80

/-- `re_next_char`: the next character of a text and what is left of the text. -/
def reNextChar : Bytes → ℕ × Bytes
  | [] => (0, [])
  | b :: z =>
    let c := b.toNat
    if c < 0x80 then (c, z)
    else if c &&& 0xE0 = 0xC0 then
      match z with
      | b₁ :: z₁ =>
        if trailing b₁ then
          let c := (c &&& 0x1F) * 64 + (b₁.toNat &&& 0x3F)
          (if c < 0x80 then 0xFFFD else c, z₁)
        else (0xFFFD, z)
      | _ => (0xFFFD, z)
    else if c &&& 0xF0 = 0xE0 then
      match z with
      | b₁ :: b₂ :: z₂ =>
        if trailing b₁ && trailing b₂ then
          let c := ((c &&& 0x0F) * 64 + (b₁.toNat &&& 0x3F)) * 64 + (b₂.toNat &&& 0x3F)
          (if c ≤ 0x7FF ∨ 0xD800 ≤ c ∧ c ≤ 0xDFFF then 0xFFFD else c, z₂)
        else (0xFFFD, z)
      | _ => (0xFFFD, z)
    else if c &&& 0xF8 = 0xF0 then
      match z with
      | b₁ :: b₂ :: b₃ :: z₃ =>
        if trailing b₁ && trailing b₂ && trailing b₃ then
          let c := (((c &&& 0x07) * 64 + (b₁.toNat &&& 0x3F)) * 64 + (b₂.toNat &&& 0x3F)) * 64 +
            (b₃.toNat &&& 0x3F)
          (if c ≤ 0xFFFF ∨ 0x10FFFF < c then 0xFFFD else c, z₃)
        else (0xFFFD, z)
      | _ => (0xFFFD, z)
    else (0xFFFD, z)

def foldCase (c : ℕ) : ℕ := if 'A'.toNat ≤ c ∧ c ≤ 'Z'.toNat then c + 32 else c

def reNextCharNocase (z : Bytes) : ℕ × Bytes :=
  let (c, z) := reNextChar z
  (foldCase c, z)

/-- An expression that is being compiled: `aOp` and `aArg` are one list, and the text is
what is left of it. -/
structure ReCompiled where
  sIn : Bytes
  zErr : Option String
  ops : List Instr
  noCase : Bool
  zInit : Bytes
  nAlloc : ℕ
  mxAlloc : ℕ
deriving DecidableEq

namespace ReCompiled

def nState (p : ReCompiled) : ℕ := p.ops.length

def xNextChar (p : ReCompiled) : ℕ × ReCompiled :=
  let (c, z) := if p.noCase then reNextCharNocase p.sIn else reNextChar p.sIn
  (c, { p with sIn := z })

def reResize (p : ReCompiled) (N : ℕ) : ReCompiled × Bool :=
  if N > p.mxAlloc then ({ p with zErr := some "REGEXP pattern too big" }, true)
  else ({ p with nAlloc := N }, false)

def reInsert (p : ReCompiled) (iBefore : ℕ) (op : ReOp) (arg : ℤ) : ReCompiled × ℕ :=
  let (p, failed) := if p.nAlloc ≤ p.nState then p.reResize (p.nAlloc * 2) else (p, false)
  if failed then (p, 0)
  else ({ p with ops := p.ops.take iBefore ++ (op, arg) :: p.ops.drop iBefore }, iBefore)

def reAppend (p : ReCompiled) (op : ReOp) (arg : ℤ) : ReCompiled × ℕ :=
  p.reInsert p.nState op arg

def reCopy (p : ReCompiled) (iStart N : ℕ) : ReCompiled :=
  let (p, failed) :=
    if p.nState + N ≥ p.nAlloc then p.reResize (p.nAlloc * 2 + N) else (p, false)
  if failed then p else { p with ops := p.ops ++ (p.ops.drop iStart).take N }

def setArg (p : ReCompiled) (i : ℕ) (arg : ℤ) : ReCompiled :=
  { p with ops := p.ops.modify i fun o => (o.1, arg) }

def rePeek (p : ReCompiled) : UInt8 := p.sIn.headD 0

def advance (p : ReCompiled) : ReCompiled := { p with sIn := p.sIn.tail }

def fail (p : ReCompiled) (zErr : String) : ReCompiled := { p with zErr := some zErr }

end ReCompiled

def reHex (c : UInt8) (v : ℕ) : Option ℕ :=
  if byte '0' ≤ c ∧ c ≤ byte '9' then some (v * 16 + (c.toNat - '0'.toNat))
  else if byte 'a' ≤ c ∧ c ≤ byte 'f' then some (v * 16 + (c.toNat - ('a'.toNat - 10)))
  else if byte 'A' ≤ c ∧ c ≤ byte 'F' then some (v * 16 + (c.toNat - ('A'.toNat - 10)))
  else none

/-- The value of that many hexadecimal digits, if that many bytes are there. -/
def reHexRun (n : ℕ) (z : Bytes) : Option ℕ :=
  if n ≤ z.length then (z.take n).foldlM (fun v c => reHex c v) 0 else none

def zEsc : Bytes :=
  ['a', 'f', 'n', 'r', 't', 'v', '\\', '(', ')', '*', '.', '+', '?', '[', '$', '^', '\x7b', '|',
    '\x7d', ']', '-'].map byte

def zTrans : Bytes := [7, 12, 10, 13, 9, 11]

/-- A byte as a signed `char`. -/
def signed (c : UInt8) : ℤ := if c < 128 then c.toNat else c.toNat - 256

/-- `re_esc_char`: the character that a backslash makes of what follows it. -/
def reEscChar (p : ReCompiled) : ℤ × ReCompiled :=
  match p.sIn with
  | [] => (0, p)
  | c :: z =>
    match if c = byte 'u' then reHexRun 4 z else none with
    | some v => (v, { p with sIn := z.drop 4 })
    | none =>
      match if c = byte 'x' then reHexRun 2 z else none with
      | some v => (v, { p with sIn := z.drop 2 })
      | none =>
        let i := zEsc.idxOf c
        if i < zEsc.length then (if i < 6 then signed (zTrans.getD i 0) else signed c, p.advance)
        else (signed c, p.fail "unknown \\ escape")

/-- What a part of the compiler returns: the expression or an error message. Nothing is
returned where it does not come to an end. -/
abbrev ReResult := Option (Except String ReCompiled)

def ReResult.andThen (r : ReResult) (f : ReCompiled → ReResult) : ReResult :=
  match r with
  | some (.ok p) => f p
  | some (.error zErr) => some (.error zErr)
  | none => none

/-- A character of a class, or what an escape there stands for. -/
def classChar (p : ReCompiled) : ℤ × ReCompiled :=
  let (c, p) := p.xNextChar
  if c = '\\'.toNat then reEscChar p else (c, p)

/-- A member of a class: its last character, and the code with it. -/
def classMember (p : ReCompiled) : ℤ × ReCompiled :=
  let (c, p) := classChar p
  if p.rePeek = byte '-' then
    let (c', p) := classChar (p.reAppend .ccRange c).1.advance
    (c', (p.reAppend .ccRange c').1)
  else (c, (p.reAppend .ccValue c).1)

/-- The loop over the members of a class. -/
def classLoop : ℕ → ReCompiled → ReResult
  | 0, _ => none
  | fuel + 1, p =>
    if p.xNextChar.1 = 0 then some (.error "unclosed '['")
    else if p.xNextChar.1 = '['.toNat ∧ p.xNextChar.2.rePeek = byte ':' then
      some (.error "POSIX character classes not supported")
    else
      let (c, p) := classMember p
      if p.rePeek = byte ']' then
        if c = 0 then some (.error "unclosed '['") else some (.ok p.advance)
      else classLoop fuel p

/-- A class, after its `[`. -/
def reClass (p : ReCompiled) : ReResult :=
  let iFirst := p.nState
  let p :=
    if p.rePeek = byte '^' then (p.reAppend .ccExc 0).1.advance else (p.reAppend .ccInc 0).1
  (classLoop (p.sIn.length + 1) p).andThen fun p =>
    some (.ok (if p.nState > iFirst then p.setArg iFirst ((p.nState : ℤ) - iFirst) else p))

/-- The digits of a bound, up to the complexity limit. -/
def number (mxAlloc : ℕ) : ℕ → Bytes → Option (ℕ × Bytes)
  | m, [] => some (m, [])
  | m, b :: z =>
    if byte '0' ≤ b ∧ b ≤ byte '9' then
      let m := m * 10 + (b.toNat - '0'.toNat)
      if m * 2 > mxAlloc then none else number mxAlloc m z
    else some (m, b :: z)

/-- So many optional copies, one after the other. -/
def optionalCopies (iPrev sz : ℕ) : ℕ → ReCompiled → ReCompiled
  | 0, p => p
  | k + 1, p => optionalCopies iPrev sz k ((p.reAppend .fork (sz + 1)).1.reCopy iPrev sz)

def copies (iPrev sz : ℕ) : ℕ → ReCompiled → ReCompiled
  | 0, p => p
  | k + 1, p => copies iPrev sz k (p.reCopy iPrev sz)

/-- The code of a repetition of what starts at `iPrev`, once its bounds are read. -/
def repeatCode (p : ReCompiled) (iPrev m n : ℕ) : Except String ReCompiled :=
  let sz := p.nState - iPrev
  if m = 0 then
    if n = 0 then .error "both m and n are zero in '\x7bm,n\x7d'"
    else .ok (optionalCopies (iPrev + 1) sz (n - 1) (p.reInsert iPrev .fork (sz + 1)).1)
  else
    let p := optionalCopies iPrev sz (n - m) (copies iPrev sz (m - 1) p)
    .ok (if n = 0 then (p.reAppend .fork (-sz)).1 else p)

/-- A repetition, after its `{`. -/
def reRepeat (p : ReCompiled) (iPrev : Option ℕ) : Except String ReCompiled :=
  match iPrev with
  | none => .error "'\x7bm,n\x7d' without operand"
  | some iPrev =>
    match number p.mxAlloc 0 p.sIn with
    | none => .error "REGEXP pattern too big"
    | some (m, z) =>
      match if z.headD 0 = byte ',' then number p.mxAlloc 0 z.tail else some (m, z) with
      | none => .error "REGEXP pattern too big"
      | some (n, z) =>
        if z.headD 0 ≠ byte '\x7d' then .error "unmatched '\x7b'"
        else if n < m then .error "n less than m in '\x7bm,n\x7d'"
        else repeatCode { p with sIn := z.tail } iPrev m n

/-- The opcode that a letter after a backslash stands for. -/
def specialOp (c : UInt8) : Option ReOp :=
  if c = byte 'b' then some .boundary
  else if c = byte 'd' then some .digit
  else if c = byte 'D' then some .notdigit
  else if c = byte 's' then some .space
  else if c = byte 'S' then some .notspace
  else if c = byte 'w' then some .word
  else if c = byte 'W' then some .notword
  else none

/-- The cases of `re_subcompile_string` that read no nested expression. -/
def reElement (c : ℕ) (iPrev : Option ℕ) (p : ReCompiled) : ReResult :=
  if c = '.'.toNat then
    if p.rePeek = byte '*' then some (.ok (p.reAppend .anystar 0).1.advance)
    else some (.ok (p.reAppend .any 0).1)
  else if c = '*'.toNat then
    match iPrev with
    | none => some (.error "'*' without operand")
    | some iPrev =>
      let p := (p.reInsert iPrev .goto ((p.nState : ℤ) - iPrev + 1)).1
      some (.ok (p.reAppend .fork ((iPrev : ℤ) - p.nState + 1)).1)
  else if c = '+'.toNat then
    match iPrev with
    | none => some (.error "'+' without operand")
    | some iPrev => some (.ok (p.reAppend .fork ((iPrev : ℤ) - p.nState)).1)
  else if c = '?'.toNat then
    match iPrev with
    | none => some (.error "'?' without operand")
    | some iPrev => some (.ok (p.reInsert iPrev .fork ((p.nState : ℤ) - iPrev + 1)).1)
  else if c = '$'.toNat then some (.ok (p.reAppend .match RE_EOF).1)
  else if c = '^'.toNat then some (.ok (p.reAppend .atstart 0).1)
  else if c = '\x7b'.toNat then some (reRepeat p iPrev)
  else if c = '['.toNat then reClass p
  else if c = '\\'.toNat then
    match specialOp p.rePeek with
    | some op => some (.ok (p.advance.reAppend op 0).1)
    | none =>
      let (c, p) := reEscChar p
      some (.ok (p.reAppend .match c).1)
  else some (.ok (p.reAppend .match c).1)

mutual

/-- `re_subcompile_re`: up to the first unmatched `)`. -/
def reSubcompileRe : ℕ → ReCompiled → ReResult
  | 0, _ => none
  | fuel + 1, p => (reElements fuel none p).andThen (reAlternatives fuel p.nState)

/-- The loop of `re_subcompile_re` over what follows a `|`. -/
def reAlternatives : ℕ → ℕ → ReCompiled → ReResult
  | 0, _, _ => none
  | fuel + 1, iStart, p =>
    if p.rePeek = byte '|' then
      let iEnd := p.nState
      let p := (p.reInsert iStart .fork ((iEnd : ℤ) + 2 - iStart)).1
      let (p, iGoto) := p.reAppend .goto 0
      (reElements fuel none p.advance).andThen fun p =>
        reAlternatives fuel iStart (p.setArg iGoto ((p.nState : ℤ) - iGoto))
    else some (.ok p)

/-- The loop of `re_subcompile_string`, which begins without an operand. -/
def reElements : ℕ → Option ℕ → ReCompiled → ReResult
  | 0, _, _ => none
  | fuel + 1, iPrev, p =>
    let iStart := p.nState
    let (c, q) := p.xNextChar
    if c = 0 then some (.ok q)
    else if c = '|'.toNat ∨ c = ')'.toNat then some (.ok p)
    else if c = '('.toNat then
      (reSubcompileRe fuel q).andThen fun q =>
        if q.rePeek ≠ byte ')' then some (.error "unmatched '('")
        else reElements fuel (some iStart) q.advance
    else (reElement c iPrev q).andThen (reElements fuel (some iStart))

end

/-- The bytes of the characters that every match begins with, for `zInit`. -/
def initBytes : Bytes → List Instr → Bytes
  | z, (.match, x) :: ops =>
    if z.length < 10 then
      if x < 0 then z
      else if x ≤ 0x7F then initBytes (z ++ [x.toNat.toUInt8]) ops
      else if x ≤ 0x7FF then
        initBytes (z ++ [(0xC0 + x.toNat / 64).toUInt8, (0x80 + x.toNat % 64).toUInt8]) ops
      else if x ≤ 0xFFFF then
        initBytes (z ++ [(0xE0 + x.toNat / 4096).toUInt8, (0x80 + x.toNat / 64 % 64).toUInt8,
          (0x80 + x.toNat % 64).toUInt8]) ops
      else z
    else z
  | z, _ => z

/-- A last `NUL` is left out: it stands for the end of the text. -/
def dropNul (z : Bytes) : Bytes := if z.getLast? = some 0 then z.dropLast else z

/-- As many steps as the recursion of the compiler can take on a text. -/
def enough (z : Bytes) : ℕ := 3 * z.length + 3

/-- The start of `re_compile`: unless it begins with `^`, an expression may match anywhere. -/
def started (p : ReCompiled) (zIn : Bytes) : ReCompiled :=
  if zIn.head? = some (byte '^') then { p with sIn := zIn.tail }
  else { (p.reAppend .anystar 0).1 with sIn := zIn }

/-- The end of `re_compile`, after the text has been read. -/
def finished (p : ReCompiled) : ReResult :=
  if p.sIn ≠ [] then some (.error "unrecognized character")
  else
    let p := (p.reAppend .accept 0).1
    let p :=
      if p.ops.head?.map Prod.fst = some .anystar ∧ ¬p.noCase then
        { p with zInit := dropNul (initBytes [] p.ops.tail) }
      else p
    match p.zErr with
    | some zErr => some (.error zErr)
    | none => some (.ok p)

/-- `re_compile`, of a text that ends at its first `NUL`. -/
def reCompile (zIn : Bytes) (mxRe : ℕ) (noCase : Bool) : ReResult :=
  let (p, failed) := (⟨[], none, [], noCase, [], 0, mxRe⟩ : ReCompiled).reResize 30
  if failed then some (.error (p.zErr.getD ""))
  else
    let zIn := zIn.takeWhile (· ≠ 0)
    (reSubcompileRe (enough zIn) (started p zIn)).andThen finished

end RSQLCipher.RegexpCompile
