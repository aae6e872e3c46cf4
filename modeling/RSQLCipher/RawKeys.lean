import RSQLCipher.KeyText
import RSQLCipher.Values

namespace RSQLCipher.RawKeys

open RSQLCipher.KeyText RSQLCipher.Values

/-- The sizes in hex digits of a raw key and of a raw salt. -/
def rawKeySz : Nat := 64

def rawSaltSz : Nat := 32

def cipherHex2int (c : Char) : UInt8 :=
  if '0' ≤ c ∧ c ≤ '9' then UInt8.ofNat (c.toNat - '0'.toNat)
  else if 'A' ≤ c ∧ c ≤ 'F' then UInt8.ofNat (c.toNat - 'A'.toNat + 10)
  else if 'a' ≤ c ∧ c ≤ 'f' then UInt8.ofNat (c.toNat - 'a'.toNat + 10)
  else 0

def cipherHex2bin : List Char → Bytes
  | a :: b :: rest => (cipherHex2int a <<< 4 ||| cipherHex2int b) :: cipherHex2bin rest
  | _ => []

/-- What is between the quotes of a text such as `x'12'`. -/
def contents (pass : List Char) : List Char := (pass.drop 2).take (pass.length - 3)

/-- The `x` may be of either case. -/
def blobFormat (pass : List Char) : Bool :=
  decide (5 ≤ pass.length) && (pass.take 2).map Char.toLower == ['x', '\''] &&
    pass.getLast? == some '\'' && (pass.length - 3) % 2 == 0 && (contents pass).all isHexDigit

/-- The keys of a cipher context. Without a raw salt it is that of the file. -/
structure CipherKey where
  key : Bytes
  hmacKey : Option Bytes
  salt : Option Bytes
deriving DecidableEq, Repr

/-- `sqlcipher_cipher_ctx_key_derive`, up to the HMAC key that is derived from the others.
What PBKDF2 makes of a password is a parameter. -/
def keyDerive (kdf : List Char → Bytes) (pass : List Char) : CipherKey :=
  let z := pass.drop 2
  if blobFormat pass && pass.length == rawKeySz + 3 then
    { key := cipherHex2bin (z.take rawKeySz), hmacKey := none, salt := none }
  else if blobFormat pass && pass.length == rawKeySz + rawSaltSz + 3 then
    { key := cipherHex2bin (z.take rawKeySz), hmacKey := none
      salt := some (cipherHex2bin ((z.drop rawKeySz).take rawSaltSz)) }
  else if blobFormat pass && pass.length == rawKeySz + rawKeySz + rawSaltSz + 3 then
    { key := cipherHex2bin (z.take rawKeySz)
      hmacKey := some (cipherHex2bin ((z.drop rawKeySz).take rawKeySz))
      salt := some (cipherHex2bin ((z.drop (rawKeySz + rawKeySz)).take rawSaltSz)) }
  else { key := kdf pass, hmacKey := none, salt := none }

/-- The key that the digits of a raw key say, and the salt if there are enough of them. -/
def digitsKey (digits : List Char) : CipherKey where
  key := cipherHex2bin (digits.take rawKeySz)
  hmacKey := none
  salt := if digits.length = rawKeySz then none else some (cipherHex2bin (digits.drop rawKeySz))

/-- The key with which a database is encrypted. -/
def encryptionKey (kdf : List Char → Bytes) (early : Bool) (k : RString) (e : EntryPoint) :
    Option CipherKey := (keyRun early k e).codecKey.map (keyDerive kdf)

/-- Through every entry point the digits of a string are the key. -/
def UsedRaw (early : Bool) (k : RString) : Prop :=
  ∀ e kdf, (keyRun early k e).failed = false ∧
    encryptionKey kdf early k e = some (digitsKey (noSpaces k.chars))

/-- Two strings open the same databases, whatever a password is turned into. -/
def Interchangeable (early : Bool) (k k' : RString) : Prop :=
  ∀ e e' kdf, encryptionKey kdf early k e = encryptionKey kdf early k' e'

theorem noSpaces_eq {l : List Char} (h : ' ' ∉ l) : noSpaces l = l := by
  apply List.filter_eq_self.mpr
  intro c hc
  have hne : c ≠ ' ' := fun hspace => h (hspace ▸ hc)
  simpa using hne

section Derive

variable {k : RString}

theorem keyMaterial_key (h : stringType k = .key) :
    keyMaterial k = 'x' :: '\'' :: (k.chars ++ ['\'']) := by
  simp [keyMaterial, h]

theorem contents_blob (l : List Char) : contents ('x' :: '\'' :: (l ++ ['\''])) = l := by
  simp [contents]

theorem blobFormat_blob (l : List Char) :
    blobFormat ('x' :: '\'' :: (l ++ ['\''])) =
      (decide (2 ≤ l.length) && l.length % 2 == 0 && l.all isHexDigit) := by
  have hlast : ('x' :: '\'' :: (l ++ ['\''])).getLast? = some '\'' := by
    rw [← List.cons_append, ← List.cons_append, List.getLast?_concat]
  have hhead : (('x' :: '\'' :: (l ++ ['\''])).take 2).map Char.toLower = ['x', '\''] := by
    simp only [List.take_succ_cons, List.take_zero, List.map_cons, List.map_nil]
    decide
  rw [blobFormat, contents_blob, hlast, hhead]
  simp

/-- A key text without spaces is in the format that is used directly. -/
theorem keyDerive_raw (kdf : List Char → Bytes) (h : stringType k = .key) (hspace : ' ' ∉ k.chars) :
    keyDerive kdf (keyMaterial k) = digitsKey k.chars := by
  obtain ⟨hhex, hlength⟩ := stringType_key h
  rw [noSpaces_eq hspace] at hhex hlength
  have hblob : blobFormat (keyMaterial k) = true := by
    rw [keyMaterial_key h, blobFormat_blob, List.all_eq_true.mpr hhex]
    obtain hl | hl := hlength
    · simp [hl]
    · simp [hl]
  have hlong : (keyMaterial k).length = k.chars.length + 3 := by
    simp [keyMaterial_key h]
  have hdrop : (keyMaterial k).drop 2 = k.chars ++ ['\''] := by
    rw [keyMaterial_key h]
    rfl
  rw [keyDerive, hblob, hlong, hdrop, digitsKey]
  obtain hl | hl := hlength
  · have htake : k.chars.take 64 = k.chars := List.take_of_length_le (Nat.le_of_eq hl)
    simp [hl, rawKeySz, htake]
  · simp [hl, rawKeySz, rawSaltSz, List.take_append_of_le_length, List.drop_append_of_le_length]

/-- A key text with a space is taken for a password. -/
theorem keyDerive_password (kdf : List Char → Bytes) (h : stringType k = .key)
    (hspace : ' ' ∈ k.chars) :
    keyDerive kdf (keyMaterial k) = { key := kdf (keyMaterial k), hmacKey := none, salt := none } := by
  have hblob : blobFormat (keyMaterial k) = false := by
    rw [keyMaterial_key h, blobFormat_blob, Bool.and_eq_false_iff]
    right
    rw [List.all_eq_false]
    exact ⟨' ', hspace, by decide⟩
  simp [keyDerive, hblob]

theorem keyRun_key (early : Bool) (h : stringType k = .key) (e : EntryPoint) :
    keyRun early k e = { codecKey := some (keyMaterial k), failed := false } := by
  have hk : k.chars ≠ [] := by
    intro hnil
    obtain ⟨-, hlength⟩ := stringType_key h
    rw [hnil] at hlength
    revert hlength
    decide
  exact keyRun_eq early hk (quote_not_mem_key h).1 e

theorem encryptionKey_key (kdf : List Char → Bytes) (early : Bool) (h : stringType k = .key)
    (e : EntryPoint) : encryptionKey kdf early k e = some (keyDerive kdf (keyMaterial k)) := by
  rw [encryptionKey, keyRun_key early h]
  rfl

theorem digitsKey_ne_nil (h : stringType k = .key) : (digitsKey (noSpaces k.chars)).key ≠ [] := by
  obtain ⟨-, hlength⟩ := stringType_key h
  have hlong : ((noSpaces k.chars).take rawKeySz).length = 64 := by
    rw [List.length_take, rawKeySz]
    omega
  rw [digitsKey]
  cases htake : (noSpaces k.chars).take rawKeySz with
  | nil =>
    rw [htake] at hlong
    cases hlong
  | cons a l =>
    cases l with
    | nil =>
      rw [htake] at hlong
      cases hlong
    | cons b l => exact List.cons_ne_nil _ _

/-- The digits of a string are the key exactly when it has no spaces. -/
theorem usedRaw_iff (early : Bool) (h : stringType k = .key) :
    UsedRaw early k ↔ ' ' ∉ k.chars := by
  constructor
  · intro hraw hspace
    have hkey := (hraw .dbConnect fun _ => []).2
    rw [encryptionKey_key _ early h, keyDerive_password _ h hspace, Option.some.injEq] at hkey
    exact digitsKey_ne_nil h (congrArg CipherKey.key hkey).symm
  · intro hspace e kdf
    rw [encryptionKey_key kdf early h, keyDerive_raw kdf h hspace, noSpaces_eq hspace,
      keyRun_key early h]
    exact ⟨rfl, rfl⟩

end Derive

section Pairs

variable {k k' : RString}

theorem chars_eq (hsame : noSpaces k.chars = noSpaces k'.chars) (hspace : ' ' ∉ k.chars)
    (hspace' : ' ' ∉ k'.chars) : k.chars = k'.chars := by
  rw [← noSpaces_eq hspace, ← noSpaces_eq hspace', hsame]

theorem keyMaterial_inj (hk : stringType k = .key) (hk' : stringType k' = .key)
    (h : keyMaterial k = keyMaterial k') : k.chars = k'.chars := by
  rw [keyMaterial_key hk, keyMaterial_key hk'] at h
  simpa using h

/-- A raw key is not what every derivation makes of a password. -/
theorem not_interchangeable (early : Bool) (hk : stringType k = .key) (hk' : stringType k' = .key)
    (hspace : ' ' ∈ k.chars) (hspace' : ' ' ∉ k'.chars) : ¬Interchangeable early k k' := by
  intro h
  have hkey := h .dbConnect .dbConnect fun _ => []
  rw [encryptionKey_key _ early hk, encryptionKey_key _ early hk', keyDerive_password _ hk hspace,
    keyDerive_raw _ hk' hspace', Option.some.injEq] at hkey
  have hnil := digitsKey_ne_nil hk'
  rw [noSpaces_eq hspace'] at hnil
  exact hnil (congrArg CipherKey.key hkey).symm

theorem interchangeable_comm (early : Bool) :
    Interchangeable early k k' ↔ Interchangeable early k' k :=
  ⟨fun h e e' kdf => (h e' e kdf).symm, fun h e e' kdf => (h e' e kdf).symm⟩

/-- Strings of the same digits denote the same key only if they are spelt the same. -/
theorem interchangeable_iff (early : Bool) (hk : stringType k = .key) (hk' : stringType k' = .key)
    (hsame : noSpaces k.chars = noSpaces k'.chars) :
    Interchangeable early k k' ↔ k.chars = k'.chars := by
  constructor
  · intro h
    by_cases hspace : ' ' ∈ k.chars
    · by_cases hspace' : ' ' ∈ k'.chars
      · have hkey := h .dbConnect .dbConnect fun text => if text = keyMaterial k then [] else [0]
        rw [encryptionKey_key _ early hk, encryptionKey_key _ early hk',
          keyDerive_password _ hk hspace, keyDerive_password _ hk' hspace', if_pos rfl] at hkey
        by_cases hmaterial : keyMaterial k' = keyMaterial k
        · exact (keyMaterial_inj hk' hk hmaterial).symm
        · rw [if_neg hmaterial] at hkey
          cases hkey
      · exact absurd h (not_interchangeable early hk hk' hspace hspace')
    · by_cases hspace' : ' ' ∈ k'.chars
      · exact absurd ((interchangeable_comm early).mp h)
          (not_interchangeable early hk' hk hspace' hspace)
      · exact chars_eq hsame hspace hspace'
  · intro hchars e e' kdf
    have hmaterial : keyMaterial k = keyMaterial k' := by
      rw [keyMaterial_key hk, keyMaterial_key hk', hchars]
    rw [encryptionKey_key kdf early hk, encryptionKey_key kdf early hk', hmaterial]

end Pairs

/-- The digits of a string of type `key` are the key exactly when it has no space, and strings
that differ only in spaces denote the same key exactly when they do not differ. -/
theorem raw_keys_iff (early : Bool) (k k' : RString) (hk : stringType k = .key)
    (hk' : stringType k' = .key) (hsame : noSpaces k.chars = noSpaces k'.chars) :
    ((UsedRaw early k ∧ UsedRaw early k' ∧ Interchangeable early k k') ↔
      ' ' ∉ k.chars ∧ ' ' ∉ k'.chars) ∧
    (UsedRaw early k ↔ ' ' ∉ k.chars) ∧ (Interchangeable early k k' ↔ k.chars = k'.chars) := by
  have hinter := interchangeable_iff early hk hk' hsame
  refine ⟨?_, usedRaw_iff early hk, hinter⟩
  rw [usedRaw_iff early hk, usedRaw_iff early hk', hinter]
  constructor
  · rintro ⟨hspace, hspace', -⟩
    exact ⟨hspace, hspace'⟩
  · rintro ⟨hspace, hspace'⟩
    exact ⟨hspace, hspace', chars_eq hsame hspace hspace'⟩

def zeros : RString := { chars := List.replicate 64 '0', noNul := by decide }

def spacedZeros : RString := { chars := ' ' :: List.replicate 64 '0', noNul := by decide }

theorem raw_keys_iff_zeros :
    ((UsedRaw true zeros ∧ UsedRaw true spacedZeros ∧ Interchangeable true zeros spacedZeros) ↔
      ' ' ∉ zeros.chars ∧ ' ' ∉ spacedZeros.chars) ∧
    (UsedRaw true zeros ↔ ' ' ∉ zeros.chars) ∧
    (Interchangeable true zeros spacedZeros ↔ zeros.chars = spacedZeros.chars) :=
  raw_keys_iff true zeros spacedZeros (by decide +kernel) (by decide +kernel) (by decide +kernel)

/-- A raw key written with a space is taken for a password, and is another key. -/
theorem spaced_key_derived :
    ¬∀ (early : Bool) (k k' : RString), stringType k = .key → stringType k' = .key →
      noSpaces k.chars = noSpaces k'.chars →
      UsedRaw early k ∧ Interchangeable early k k' := by
  intro h
  have hraw := (h true spacedZeros zeros (by decide +kernel) (by decide +kernel)
    (by decide +kernel)).1
  exact (usedRaw_iff true (by decide +kernel)).mp hraw (by decide +kernel)

end RSQLCipher.RawKeys
