import RSQLCipher.KeyText
import Mathlib.Tactic.Ext

namespace RSQLCipher.KeyChange

open RSQLCipher.KeyText

/-- The pages of a database file: none yet, plain ones, or ones encrypted with a key. -/
inductive Pages (κ : Type) where
  | none
  | plain
  | encrypted (key : κ)
deriving DecidableEq, Repr

structure Codec (κ : Type) where
  readKey : κ
  writeKey : κ
  used : Bool
deriving DecidableEq, Repr

@[ext] structure Connection (κ : Type) where
  pages : Pages κ
  codec : Option (Codec κ)
  used_key : ∀ c, codec = some c → c.used = true → pages = .encrypted c.readKey

/-- What is not decided by the package: the key derived from a text, whether the parser
runs a pragma before it finds an error behind it, and whether the transaction in which
rekeying reads and writes all pages commits. -/
structure Cipher (κ : Type) where
  derive : List Char → κ
  early : Bool
  rewrites : Pages κ → Codec κ → Bool

variable {κ : Type} (cipher : Cipher κ)

/-- The key that the pages have; those of a file without pages will have the codec's. -/
def Connection.key (conn : Connection κ) : Option κ :=
  match conn.pages with
  | .encrypted key => some key
  | .plain => none
  | .none => conn.codec.map Codec.readKey

def fresh (key : List Char) : Codec κ :=
  { readKey := cipher.derive key, writeKey := cipher.derive key, used := false }

def attach (conn : Connection κ) (key : List Char) : Connection κ where
  pages := conn.pages
  codec := some (fresh cipher key)
  used_key := by
    rintro c hc hused
    cases hc
    cases hused

def keyV2 (conn : Connection κ) (key : List Char) : Connection κ × Bool :=
  if key = [] then (conn, false)
  else
    match conn.codec with
    | some c => if c.used then (conn, true) else (attach cipher conn key, true)
    | none => (attach cipher conn key, true)

/-- `sqlite3_rekey_v2`. The write key is set before the pages are rewritten. Where that
fails, pages may have been read by then, but `used` stays as it was. -/
def rekeyV2 (conn : Connection κ) (key : List Char) : Connection κ × Bool :=
  if key = [] then (conn, false)
  else
    match hcodec : conn.codec with
    | none => (conn, false)
    | some c =>
      if cipher.rewrites conn.pages c then
        ({ pages := .encrypted (cipher.derive key)
           codec := some { fresh cipher key with used := true }
           used_key := by
             rintro d hd -
             cases hd
             rfl }, true)
      else
        ({ pages := conn.pages
           codec := some { c with writeKey := cipher.derive key }
           used_key := by
             rintro d hd hused
             cases hd
             exact conn.used_key c hcodec hused }, false)

/-- `dbExecute` of a pragma: it may have run although the statement fails. -/
def dbExecute (run : Connection κ → List Char → Connection κ × Bool) (r : PragmaRead)
    (conn : Connection κ) : Connection κ × Bool :=
  match r.value with
  | none => (conn, false)
  | some value => ((run conn value).1, (run conn value).2 && r.parsed)

inductive Answer where
  | raised
  | returned (result : Bool) (warning : Option String)
deriving DecidableEq, Repr

def withKey (key : RKey) (warning : String) (conn : Connection κ)
    (use : RString → Answer × Connection κ) : Answer × Connection κ :=
  match keyType key, key with
  | .error _, _ => (.raised, conn)
  | .ok none, _ => (.returned false (some warning), conn)
  | .ok (some _), .string k => use k
  | .ok (some _), _ => (.raised, conn)

def changeKey (old new : RString) (conn : Connection κ) : Answer × Connection κ :=
  let (conn, ok) := dbExecute (keyV2 cipher)
    (readPragma cipher.early "key" (pragmaSql "key" old)) conn
  if ok then
    let (conn, ok) := dbExecute (rekeyV2 cipher)
      (readPragma cipher.early "rekey" (pragmaSql "rekey" new)) conn
    if ok then (.returned true none, conn) else (.raised, conn)
  else (.raised, conn)

def databaseKeyChange (oldKey newKey : RKey) (conn : Connection κ) : Answer × Connection κ :=
  withKey oldKey "Cannot change database key. The 'old_key' provided is not valid." conn fun old =>
    withKey newKey "Cannot change database key. The 'new_key' provided is not valid." conn fun new =>
      changeKey cipher old new conn

/-- How `dbConnect` ends: with an error, or with a connection and perhaps a warning. -/
inductive Connected where
  | raised
  | connected (warning : Option String)
deriving DecidableEq, Repr

/-- What `dbConnect` does with its argument `key` on the connection that it has opened. The
message of SQLite is left out of the second warning. -/
def connectKey (key : RKey) (conn : Connection κ) : Connected × Connection κ :=
  match keyType key, key with
  | _, .null => (.connected none, conn)
  | .error _, _ => (.raised, conn)
  | .ok none, _ =>
    (.connected (some "The 'key' provided is not valid. Continuing with plain database."), conn)
  | .ok (some _), .string k =>
    let (conn, ok) := dbExecute (keyV2 cipher)
      (readPragma cipher.early "key" (pragmaSql "key" k)) conn
    (.connected (if ok then none else some "Couldn't set key for database: "), conn)
  | .ok (some _), _ => (.raised, conn)

/-- `TRUE` says that the old key is the key the database had, and that it has the new one
now; any other end leaves the pages and the codec as they were. -/
def Authentic (conn : Connection κ) (oldKey newKey : RKey) : Answer × Connection κ → Prop
  | (.returned true _, conn') => ∃ old new, oldKey = .string old ∧ newKey = .string new ∧
      conn.key = some (cipher.derive (keyMaterial old)) ∧
      conn'.key = some (cipher.derive (keyMaterial new))
  | (_, conn') => conn' = conn

def keyedCodec (conn : Connection κ) (key : List Char) : Codec κ :=
  match conn.codec with
  | some c => if c.used then c else fresh cipher key
  | none => fresh cipher key

/-- The value that SQLite reads from a key statement, if it is one that SQLCipher takes. -/
def keyValue (name : String) (k : RString) : Option (List Char) :=
  (readPragma cipher.early name (pragmaSql name k)).value.filter (· ≠ [])

def parses (name : String) (k : RString) : Bool :=
  (readPragma cipher.early name (pragmaSql name k)).parsed

/-- Where rekeying, reached with a codec, leaves what `Authentic` asks for. -/
def RekeysWell (conn : Connection κ) (c : Codec κ) (old new : RString) : Prop :=
  match keyValue cipher "rekey" new with
  | none => conn.codec = some c
  | some value =>
    if cipher.rewrites conn.pages c then
      if parses cipher "rekey" new then
        conn.key = some (cipher.derive (keyMaterial old)) ∧
          cipher.derive value = cipher.derive (keyMaterial new)
      else
        conn.pages = .encrypted (cipher.derive value) ∧
          conn.codec = some { fresh cipher value with used := true }
    else conn.codec = some { c with writeKey := cipher.derive value }

def ChangesWell (conn : Connection κ) (old new : RString) : Prop :=
  match keyValue cipher "key" old with
  | none => True
  | some value =>
    if parses cipher "key" old then
      RekeysWell cipher conn (keyedCodec cipher conn value) old new
    else conn.codec = some (keyedCodec cipher conn value)

/-- Where a change is authentic: one of the keys is refused by its type, or it is for the
strings. -/
def Trustworthy (conn : Connection κ) : RKey → RKey → Prop
  | .string old, .string new => ChangesWell cipher conn old new
  | _, _ => True

section Spec

variable {cipher : Cipher κ} {conn : Connection κ} {name : String} {k : RString}

theorem keyV2_spec (cipher : Cipher κ) (conn : Connection κ) {key : List Char} (hkey : key ≠ []) :
    ∃ conn', keyV2 cipher conn key = (conn', true) ∧ conn'.pages = conn.pages ∧
      conn'.codec = some (keyedCodec cipher conn key) := by
  cases hcodec : conn.codec with
  | none => exact ⟨attach cipher conn key, by simp [keyV2, hkey, hcodec], rfl,
      by simp [attach, keyedCodec, hcodec]⟩
  | some c =>
    cases hused : c.used with
    | false => exact ⟨attach cipher conn key, by simp [keyV2, hkey, hcodec, hused], rfl,
        by simp [attach, keyedCodec, hcodec, hused]⟩
    | true => exact ⟨conn, by simp [keyV2, hkey, hcodec, hused], rfl,
        by simp [keyedCodec, hcodec, hused]⟩

theorem rekeyV2_spec (cipher : Cipher κ) {key : List Char} {c : Codec κ} (hkey : key ≠ [])
    (hcodec : conn.codec = some c) :
    ∃ conn', rekeyV2 cipher conn key = (conn', cipher.rewrites conn.pages c) ∧
      (cipher.rewrites conn.pages c = true → conn'.pages = .encrypted (cipher.derive key) ∧
        conn'.codec = some { fresh cipher key with used := true }) ∧
      (cipher.rewrites conn.pages c = false → conn'.pages = conn.pages ∧
        conn'.codec = some { c with writeKey := cipher.derive key }) := by
  obtain ⟨pages, codec, used_key⟩ := conn
  subst hcodec
  simp only [rekeyV2, if_neg hkey]
  cases hrewrites : cipher.rewrites pages c with
  | false => exact ⟨_, rfl, by simp, fun _ => ⟨rfl, rfl⟩⟩
  | true => exact ⟨_, rfl, fun _ => ⟨rfl, rfl⟩, by simp⟩

theorem dbExecute_none {run : Connection κ → List Char → Connection κ × Bool}
    (hrun : run conn [] = (conn, false)) (h : keyValue cipher name k = none) :
    dbExecute run (readPragma cipher.early name (pragmaSql name k)) conn = (conn, false) := by
  simp only [keyValue, Option.filter_eq_none_iff] at h
  simp only [dbExecute]
  cases hvalue : (readPragma cipher.early name (pragmaSql name k)).value with
  | none => rfl
  | some value =>
    have hnil : value = [] := by simpa using h value hvalue
    subst hnil
    simp [hrun]

theorem dbExecute_some (run : Connection κ → List Char → Connection κ × Bool)
    (conn : Connection κ) {value : List Char} (h : keyValue cipher name k = some value) :
    value ≠ [] ∧ dbExecute run (readPragma cipher.early name (pragmaSql name k)) conn =
      ((run conn value).1, (run conn value).2 && parses cipher name k) := by
  simp only [keyValue, Option.filter_eq_some_iff] at h
  obtain ⟨hvalue, hnil⟩ := h
  exact ⟨by simpa using hnil, by simp [dbExecute, hvalue, parses]⟩

theorem same_iff {conn' : Connection κ} (hpages : conn'.pages = conn.pages) {c : Codec κ}
    (hcodec : conn'.codec = some c) : conn' = conn ↔ conn.codec = some c := by
  rw [Connection.ext_iff, hcodec, eq_comm (a := some c)]
  exact and_iff_right hpages

theorem rekey_authentic {conn' : Connection κ} {c : Codec κ} {old new : RString}
    (hpages : conn'.pages = conn.pages) (hcodec : conn'.codec = some c) :
    Authentic cipher conn (.string old) (.string new)
        (let (conn, ok) := dbExecute (rekeyV2 cipher)
          (readPragma cipher.early "rekey" (pragmaSql "rekey" new)) conn'
        if ok then (.returned true none, conn) else (.raised, conn)) ↔
      RekeysWell cipher conn c old new := by
  cases hvalue : keyValue cipher "rekey" new with
  | none =>
    have hrun : rekeyV2 cipher conn' [] = (conn', false) := if_pos rfl
    rw [dbExecute_none hrun hvalue]
    simp only [RekeysWell, hvalue]
    exact same_iff hpages hcodec
  | some value =>
    obtain ⟨hnil, hexec⟩ := dbExecute_some (rekeyV2 cipher) conn' hvalue
    obtain ⟨after, hrun, hyes, hno⟩ := rekeyV2_spec cipher hnil hcodec
    rw [hexec, hrun]
    rw [hpages] at hyes hno ⊢
    simp only [RekeysWell, hvalue]
    cases hrewrites : cipher.rewrites conn.pages c with
    | false =>
      obtain ⟨hpages', hcodec'⟩ := hno hrewrites
      simp only [Bool.false_and, Bool.false_eq_true, if_false]
      exact same_iff hpages' hcodec'
    | true =>
      obtain ⟨hpages', hcodec'⟩ := hyes hrewrites
      cases hparses : parses cipher "rekey" new with
      | false =>
        simp only [Bool.and_false, Bool.false_eq_true, if_false, if_true]
        change after = conn ↔ _
        rw [Connection.ext_iff, hpages', hcodec', eq_comm, eq_comm (a := some _)]
      | true =>
        simp only [Bool.and_true, if_true]
        constructor
        · rintro ⟨_, _, ho, hn, hbefore, hafter⟩
          cases ho
          cases hn
          refine ⟨hbefore, ?_⟩
          rw [Connection.key, hpages'] at hafter
          exact Option.some.inj hafter
        · rintro ⟨hbefore, hsame⟩
          refine ⟨old, new, rfl, rfl, hbefore, ?_⟩
          rw [Connection.key, hpages', ← hsame]

theorem changeKey_authentic (old new : RString) :
    Authentic cipher conn (.string old) (.string new) (changeKey cipher old new conn) ↔
      ChangesWell cipher conn old new := by
  cases hvalue : keyValue cipher "key" old with
  | none =>
    have hrun : keyV2 cipher conn [] = (conn, false) := if_pos rfl
    simp only [changeKey, dbExecute_none hrun hvalue, ChangesWell, hvalue]
    exact iff_of_true rfl trivial
  | some value =>
    obtain ⟨hnil, hexec⟩ := dbExecute_some (keyV2 cipher) conn hvalue
    obtain ⟨conn', hrun, hpages, hcodec⟩ := keyV2_spec cipher conn hnil
    simp only [changeKey, hexec, hrun, Bool.true_and, ChangesWell, hvalue]
    cases hparses : parses cipher "key" old with
    | false => exact same_iff hpages hcodec
    | true => exact rekey_authentic hpages hcodec

end Spec

/-- A change of the key is authentic, and all or nothing, exactly there. -/
theorem change_authentic_iff (conn : Connection κ) (oldKey newKey : RKey) :
    Authentic cipher conn oldKey newKey (databaseKeyChange cipher oldKey newKey conn) ↔
      Trustworthy cipher conn oldKey newKey := by
  cases oldKey with
  | null | na | other | empty | vector => exact iff_of_true rfl trivial
  | string old =>
    cases newKey with
    | null | na | other | empty | vector => exact iff_of_true rfl trivial
    | string new => exact changeKey_authentic old new

def plainCipher : Cipher (List Char) where
  derive := id
  early := true
  rewrites _ _ := true

def keyedWithK : Connection (List Char) where
  pages := .encrypted ['k']
  codec := some { readKey := ['k'], writeKey := ['k'], used := true }
  used_key := by
    rintro c hc -
    cases hc
    rfl

/-- The key `w` is accepted as the old key of that database. -/
theorem wrong_key_accepted :
    ¬∀ (cipher : Cipher (List Char)) (conn : Connection (List Char)) (oldKey newKey : RKey),
      Authentic cipher conn oldKey newKey (databaseKeyChange cipher oldKey newKey conn) := by
  intro h
  have hrun := h plainCipher keyedWithK (.string ⟨['w'], by decide⟩) (.string ⟨['n'], by decide⟩)
  have hwell := (changeKey_authentic ⟨['w'], by decide⟩ ⟨['n'], by decide⟩).mp hrun
  have hkey : keyValue plainCipher "key" ⟨['w'], by decide⟩ = some ['w'] := by decide
  have hrekey : keyValue plainCipher "rekey" ⟨['n'], by decide⟩ = some ['n'] := by decide
  have hparses : parses plainCipher "key" ⟨['w'], by decide⟩ = true := by decide
  have hreparses : parses plainCipher "rekey" ⟨['n'], by decide⟩ = true := by decide
  simp only [ChangesWell, hkey, hparses, RekeysWell, hrekey, hreparses, if_true] at hwell
  exact absurd hwell.1 (by decide)

end RSQLCipher.KeyChange
