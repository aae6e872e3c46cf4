import RSQLCipher.Library.Quoted
import Mathlib.Data.List.Infix

namespace RSQLCipher.KeyText

open RSQLCipher.Library

/-- An R string that is not missing: it has no `NUL`. -/
structure RString where
  chars : List Char
  noNul : Char.ofNat 0 ∉ chars
deriving DecidableEq

/-- An R object passed as a key: `NULL`, a missing value, a string, a value of another type
and length one, or an object of length zero or more than one. -/
inductive RKey where
  | null
  | na
  | string (k : RString)
  | other
  | empty
  | vector
deriving DecidableEq

inductive KeyType where
  | key | pass
deriving DecidableEq, Repr

def noSpaces (x : List Char) : List Char := x.filter (· ≠ ' ')

def isHexDigit (c : Char) : Bool :=
  ('0' ≤ c && c ≤ '9') || ('A' ≤ c && c ≤ 'F') || ('a' ≤ c && c ≤ 'f')

def isHex (x : List Char) : Bool :=
  (noSpaces x).length % 2 == 0 && (noSpaces x).all isHexDigit

def stringType (k : RString) : KeyType :=
  if isHex k.chars && ((noSpaces k.chars).length == 64 || (noSpaces k.chars).length == 96) then
    .key
  else .pass

/-- `key_type`; `none` is `NA`. -/
def keyType : RKey → Except String (Option KeyType)
  | .null | .na | .other => .ok none
  | .string k => .ok (some (stringType k))
  | .empty => .error "argument is of length zero"
  | .vector => .error "the condition has length > 1"

/-- The key as SQLCipher is to be given it: a raw key is written as a blob literal. -/
def keyMaterial (k : RString) : List Char :=
  match stringType k with
  | .key => "x'".toList ++ k.chars ++ "'".toList
  | .pass => k.chars

def pragmaHead (name : String) : List Char := "PRAGMA ".toList ++ name.toList ++ " = ".toList

/-- The statements into which `sprintf` puts a key, for `key` and `rekey`. -/
def pragmaSql (name : String) (k : RString) : List Char :=
  match stringType k with
  | .key => pragmaHead name ++ "\"x'".toList ++ k.chars ++ "'\";".toList
  | .pass => pragmaHead name ++ "'".toList ++ k.chars ++ "';".toList

inductive Gap where
  | code | line | block

/-- What the tokenizer takes for a space: also a byte order mark. -/
def isSpace (c : Char) : Bool :=
  c == ' ' || c == '\t' || c == '\n' || c == '\x0c' || c == '\r' || c == '\uFEFF'

/-- Whether the statement ends here, but for spaces and comments. -/
def endsStatement : Gap → List Char → Bool
  | .code, [] => true
  | .code, ['/', '*'] => false
  | .code, '-' :: '-' :: rest => endsStatement .line rest
  | .code, '/' :: '*' :: rest => endsStatement .block rest
  | .code, c :: rest => if isSpace c then endsStatement .code rest else c == ';'
  | .line, [] => true
  | .line, '\n' :: rest => endsStatement .code rest
  | .line, _ :: rest => endsStatement .line rest
  | .block, [] => true
  | .block, '*' :: '/' :: rest => endsStatement .code rest
  | .block, _ :: rest => endsStatement .block rest

/-- What SQLite makes of a text: the value with which the pragma is run while the text is
parsed, if it is, and whether the first statement of the text is well formed. -/
structure PragmaRead where
  value : Option (List Char)
  parsed : Bool
deriving DecidableEq, Repr

/-- The value of a pragma, from its opening quote. Behind a statement that does not end,
the parser finds an error; `early` says whether it has then already run the pragma. -/
def readValue (early : Bool) : List Char → PragmaRead
  | [] => { value := none, parsed := false }
  | q :: text =>
    if q = '\'' ∨ q = '"' then
      match scanQuoted q text with
      | none => { value := none, parsed := false }
      | some (value, rest) =>
        if endsStatement .code rest then { value := some value, parsed := true }
        else { value := if early then some value else none, parsed := false }
    else { value := none, parsed := false }

def readPragma (early : Bool) (name : String) (sql : List Char) : PragmaRead :=
  match (pragmaHead name).isPrefixOf? sql with
  | some text => readValue early text
  | none => { value := none, parsed := false }

inductive EntryPoint where
  | dbConnect | databaseKeyAdd | oldKey | newKey
deriving DecidableEq, Repr

structure KeyRun where
  codecKey : Option (List Char)
  failed : Bool
deriving DecidableEq, Repr

/-- The codec is not given an empty key, and the pragmas refuse it. -/
def pragmaRun (r : PragmaRead) : KeyRun where
  codecKey := r.value.filter (· ≠ [])
  failed := !r.parsed || r.value == some []

def attachRun (key : List Char) : KeyRun where
  codecKey := if key = [] then none else some key
  failed := false

def keyRun (early : Bool) (k : RString) : EntryPoint → KeyRun
  | .dbConnect => pragmaRun (readPragma early "key" (pragmaSql "key" k))
  | .databaseKeyAdd => attachRun (keyMaterial k)
  | .oldKey => pragmaRun (readPragma early "key" (pragmaSql "key" k))
  | .newKey => pragmaRun (readPragma early "rekey" (pragmaSql "rekey" k))

/-- No call fails on the key, all calls hand over the same key, and so what is encrypted
through any of them is what `dbConnect` opens. -/
structure SameKey (early : Bool) (k : RString) : Prop where
  succeeds : ∀ e, (keyRun early k e).failed = false
  same : ∀ e e', (keyRun early k e).codecKey = (keyRun early k e').codecKey
  opens : ∀ (κ : Type) (derive : List Char → κ) (e : EntryPoint), ∃ key,
    (keyRun early k e).codecKey.map derive = some key ∧
      (keyRun early k .dbConnect).codecKey.map derive = some key

theorem pragmaSql_pass {k : RString} (h : stringType k = .pass) (name : String) :
    pragmaSql name k = pragmaHead name ++ '\'' :: (k.chars ++ '\'' :: [';']) := by
  simp [pragmaSql, h]

theorem pragmaSql_key {k : RString} (h : stringType k = .key) (name : String) :
    pragmaSql name k = pragmaHead name ++ '"' :: (keyMaterial k ++ '"' :: [';']) := by
  simp [pragmaSql, keyMaterial, h]

theorem readPragma_head {early : Bool} {name : String} {l : List Char} :
    readPragma early name (pragmaHead name ++ l) = readValue early l := by
  rw [readPragma, List.isPrefixOf?_eq_some_iff_append_eq.mpr rfl]

theorem readValue_plain {early : Bool} {q : Char} (hq : q = '\'' ∨ q = '"') {k : List Char}
    (hk : q ∉ k) :
    readValue early (q :: (k ++ q :: [';'])) = { value := some k, parsed := true } := by
  have hsemi : [';'].head? ≠ some q := by
    obtain rfl | rfl := hq
    · decide
    · decide
  simp only [readValue, hq, if_true, scanQuoted_plain hk hsemi]
  rfl

theorem readValue_quote {early : Bool} {k : List Char} (hk : '\'' ∈ k) :
    readValue early ('\'' :: (k ++ '\'' :: [';'])) ≠ { value := some k, parsed := true } := by
  intro h
  simp only [readValue, true_or, if_true] at h
  cases hscan : scanQuoted '\'' (k ++ '\'' :: [';']) with
  | none =>
    rw [hscan] at h
    cases h
  | some p =>
    obtain ⟨value, rest⟩ := p
    rw [hscan] at h
    simp only at h
    split at h
    · cases h
      exact scanQuoted_same (by decide) hscan hk
    · exact absurd (congrArg PragmaRead.parsed h) (by simp)

theorem isHexDigit_quote {c : Char} (h : isHexDigit c = true) : c ≠ '\'' ∧ c ≠ '"' := by
  constructor
  · rintro rfl
    revert h
    decide
  · rintro rfl
    revert h
    decide

/-- What `key_type` requires of a raw key. -/
theorem stringType_key {k : RString} (h : stringType k = .key) :
    (∀ c ∈ noSpaces k.chars, isHexDigit c = true) ∧
      ((noSpaces k.chars).length = 64 ∨ (noSpaces k.chars).length = 96) := by
  simp only [stringType] at h
  split at h
  · rename_i hcond
    simp only [isHex, Bool.and_eq_true, Bool.or_eq_true, beq_iff_eq] at hcond
    exact ⟨List.all_eq_true.mp hcond.1.2, hcond.2⟩
  · cases h

theorem quote_not_mem_key {k : RString} (h : stringType k = .key) :
    '\'' ∉ k.chars ∧ '"' ∉ k.chars := by
  have hall : ∀ c ∈ k.chars, c ≠ ' ' → isHexDigit c = true := by
    intro c hc hspace
    exact (stringType_key h).1 c (List.mem_filter.mpr ⟨hc, by simpa using hspace⟩)
  constructor
  · intro hmem
    exact (isHexDigit_quote (hall _ hmem (by decide))).1 rfl
  · intro hmem
    exact (isHexDigit_quote (hall _ hmem (by decide))).2 rfl

theorem readPragma_iff (early : Bool) (name : String) (k : RString) :
    readPragma early name (pragmaSql name k) =
        { value := some (keyMaterial k), parsed := true } ↔ '\'' ∉ k.chars := by
  cases htype : stringType k with
  | key =>
    obtain ⟨hsingle, hdouble⟩ := quote_not_mem_key htype
    have hmaterial : '"' ∉ keyMaterial k := by
      simp [keyMaterial, htype, hdouble]
    rw [pragmaSql_key htype, readPragma_head, readValue_plain (.inr rfl) hmaterial]
    exact iff_of_true rfl hsingle
  | pass =>
    have hmaterial : keyMaterial k = k.chars := by
      simp [keyMaterial, htype]
    rw [pragmaSql_pass htype, readPragma_head, hmaterial]
    by_cases hk : '\'' ∈ k.chars
    · exact iff_of_false (readValue_quote hk) (not_not.mpr hk)
    · exact iff_of_true (readValue_plain (.inl rfl) hk) hk

theorem keyMaterial_ne_nil {k : RString} (hk : k.chars ≠ []) : keyMaterial k ≠ [] := by
  cases htype : stringType k with
  | key => simp [keyMaterial, htype]
  | pass => simpa [keyMaterial, htype] using hk

/-- Without a single quote the key reaches the codec as it is meant. -/
theorem keyRun_eq (early : Bool) {k : RString} (hk : k.chars ≠ []) (hquote : '\'' ∉ k.chars)
    (e : EntryPoint) :
    keyRun early k e = { codecKey := some (keyMaterial k), failed := false } := by
  have hmaterial := keyMaterial_ne_nil hk
  have hkey := (readPragma_iff early "key" k).mpr hquote
  have hrekey := (readPragma_iff early "rekey" k).mpr hquote
  cases e with
  | dbConnect | oldKey => simp [keyRun, hkey, pragmaRun, hmaterial]
  | databaseKeyAdd => simp [keyRun, attachRun, hmaterial]
  | newKey => simp [keyRun, hrekey, pragmaRun, hmaterial]

/-- All entry points use the same key exactly when it has no single quote. -/
theorem same_key_iff (early : Bool) (k : RString) (hk : k.chars ≠ []) :
    SameKey early k ↔ '\'' ∉ k.chars := by
  have hmaterial := keyMaterial_ne_nil hk
  constructor
  · intro h
    have hsame := h.same .dbConnect .databaseKeyAdd
    have hrun := h.succeeds .dbConnect
    rw [← readPragma_iff early "key" k]
    cases hread : readPragma early "key" (pragmaSql "key" k) with
    | mk value parsed =>
      simp only [keyRun, hread, pragmaRun, attachRun, if_neg hmaterial, Option.filter_eq_some_iff,
        Bool.or_eq_false_iff, Bool.not_eq_false'] at hsame hrun
      rw [hsame.1, hrun.1]
  · intro hquote
    have hall := keyRun_eq early hk hquote
    refine ⟨fun e => by rw [hall], fun e e' => by rw [hall, hall], fun κ derive e => ?_⟩
    rw [hall, hall]
    exact ⟨derive (keyMaterial k), rfl, rfl⟩

theorem same_key_iff_word :
    SameKey true ⟨['k'], by decide⟩ ↔ '\'' ∉ ['k'] :=
  same_key_iff true ⟨['k'], by decide⟩ (by decide)

/-- The password `a'b` makes the pragmas fail, and `a''b` arrives as `a'b`. -/
theorem quote_in_password : ¬∀ (early : Bool) (k : RString), k.chars ≠ [] → SameKey early k := by
  intro h
  have hrun := (h true ⟨['a', '\'', '\'', 'b'], by decide⟩ (by decide)).same
    .dbConnect .databaseKeyAdd
  revert hrun
  decide

end RSQLCipher.KeyText
