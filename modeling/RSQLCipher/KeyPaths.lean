import RSQLCipher.KeyChange
import RSQLCipher.KeyCopy

namespace RSQLCipher.KeyPaths

open RSQLCipher.KeyText RSQLCipher.KeyChange RSQLCipher.KeyCopy

variable {κ : Type} {cipher : Cipher κ} {conn : Connection κ} {k : RString}

theorem parsed_readValue {early : Bool} {text : List Char}
    (h : (readValue early text).value = none) : (readValue early text).parsed = false := by
  cases text with
  | nil => rfl
  | cons q text =>
    simp only [readValue] at h ⊢
    split
    · rename_i hq
      rw [if_pos hq] at h
      split
      · rfl
      · rename_i hscan
        rw [hscan] at h
        simp only at h
        split
        · rename_i hends
          rw [if_pos hends] at h
          cases h
        · rfl
    · rfl

/-- A statement without a value is not well formed. -/
theorem parsed_readPragma (early : Bool) (name : String) (sql : List Char)
    (h : (readPragma early name sql).value = none) :
    (readPragma early name sql).parsed = false := by
  simp only [readPragma] at h ⊢
  cases hhead : (pragmaHead name).isPrefixOf? sql with
  | none => rfl
  | some text =>
    rw [hhead] at h
    exact parsed_readValue h

variable (cipher) in
/-- A pragma hands over the key of its run, and fails as that does, when its function
refuses the empty key only. -/
theorem pragma_run {run : Connection κ → List Char → Connection κ × Bool} (name : String)
    (hnil : run conn [] = (conn, false)) (hsome : ∀ key, key ≠ [] → (run conn key).2 = true) :
    dbExecute run (readPragma cipher.early name (pragmaSql name k)) conn =
      (match (pragmaRun (readPragma cipher.early name (pragmaSql name k))).codecKey with
        | none => conn
        | some key => (run conn key).1,
        !(pragmaRun (readPragma cipher.early name (pragmaSql name k))).failed) := by
  cases hread : readPragma cipher.early name (pragmaSql name k) with
  | mk value parsed =>
    cases value with
    | none =>
      have hparsed : parsed = false := by
        have h := parsed_readPragma cipher.early name (pragmaSql name k)
        rw [hread] at h
        exact h rfl
      simp [dbExecute, pragmaRun, hparsed]
    | some value =>
      by_cases hempty : value = []
      · simp [dbExecute, pragmaRun, Option.filter, hempty, hnil]
      · simp [dbExecute, pragmaRun, Option.filter, hempty, hsome value hempty]

variable (cipher) in
/-- `dbConnect` gives the codec of a new connection the key that it hands over. -/
theorem connectKey_run (hcodec : conn.codec = none) :
    ∃ warning, connectKey cipher (.string k) conn =
        (.connected warning,
          match (keyRun cipher.early k .dbConnect).codecKey with
          | none => conn
          | some key => attach cipher conn key) ∧
      ((keyRun cipher.early k .dbConnect).failed = false → warning = none) := by
  have hnil : keyV2 cipher conn [] = (conn, false) := if_pos rfl
  have hattach : ∀ key, key ≠ [] → keyV2 cipher conn key = (attach cipher conn key, true) := by
    intro key hkey
    simp [keyV2, hkey, hcodec]
  have hrun := pragma_run cipher (k := k) "key" hnil
    fun key hkey => by rw [hattach key hkey]
  refine ⟨if (keyRun cipher.early k .dbConnect).failed = false then none
    else some "Couldn't set key for database: ", ?_, ?_⟩
  · simp only [connectKey, keyType, hrun]
    rw [keyRun]
    cases hkey : (pragmaRun (readPragma cipher.early "key" (pragmaSql "key" k))).codecKey with
    | none => simp
    | some key =>
      have hne : key ≠ [] := by
        have hfilter := (Option.filter_eq_some_iff.mp hkey).2
        simpa using hfilter
      simp [hattach key hne]
  · intro hfailed
    rw [hfailed]
    rfl

/-- A copy that `databaseKeyAdd` reports as made is opened by `dbConnect` with the same key,
if that has no quote. -/
theorem copy_opens {ends : CopyEnds} {s s' : CopyState} {file : List Char} (hk : k.chars ≠ [])
    (hquote : '\'' ∉ k.chars) (hcodec : conn.codec = none)
    (hadd : databaseKeyAdd ends (.string k) file s = (.returned true file, s')) :
    ∃ key, s'.copies = s.copies ++ [(file, some key)] ∧
      ∃ conn', connectKey cipher (.string k) conn = (.connected none, conn') ∧
        conn'.codec = some (fresh cipher key) := by
  have hmaterial := keyMaterial_ne_nil hk
  have hread := (readPragma_iff cipher.early "key" k).mpr hquote
  have hrun : keyRun cipher.early k .dbConnect = ⟨some (keyMaterial k), false⟩ := by
    simp [keyRun, hread, pragmaRun, hmaterial]
  obtain ⟨warning, hconnect, hnone⟩ := connectKey_run cipher (k := k) hcodec
  rw [hrun] at hconnect hnone
  simp only [databaseKeyAdd, keyType, Prod.mk.injEq, CopyAnswer.returned.injEq, and_true] at hadd
  obtain ⟨hresult, hs'⟩ := hadd
  have hcopy : copyDatabase ends "encrypted" (keyMaterial k) file s = (s', true) := by
    rw [← hresult, ← hs']
  have hcopies := ((copyDatabase_reached (keyMaterial k) file).mp hcopy).2
  refine ⟨keyMaterial k, by simp [hcopies, hmaterial], attach cipher conn (keyMaterial k), ?_, rfl⟩
  rw [hconnect, hnone rfl]

end RSQLCipher.KeyPaths
