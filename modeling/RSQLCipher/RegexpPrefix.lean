import RSQLCipher.RegexpStates

namespace RSQLCipher.RegexpPrefix

open RSQLCipher.Values
open RSQLCipher.RegexpCompile
open RSQLCipher.RegexpMatch
open RSQLCipher.RegexpProgram
open RSQLCipher.RegexpStates
open RSQLCipher.Library.Worklist (Here There)

section Characters

/-- The bytes of a character of at most three bytes. -/
def initChar (x : ℕ) : Bytes :=
  if x ≤ 0x7F then [x.toUInt8]
  else if x ≤ 0x7FF then [(0xC0 + x / 64).toUInt8, (0x80 + x % 64).toUInt8]
  else [(0xE0 + x / 4096).toUInt8, (0x80 + x / 64 % 64).toUInt8, (0x80 + x % 64).toUInt8]

/-- The characters whose bytes `initBytes` collects, after so many bytes. -/
def initChars : ℕ → List Instr → List ℕ
  | n, (.match, x) :: ops =>
    if n < 10 ∧ 0 ≤ x ∧ x ≤ 0xFFFF then
      x.toNat :: initChars (n + (initChar x.toNat).length) ops
    else []
  | _, _ => []

theorem initBytes_eq (z : Bytes) (ops : List Instr) :
    initBytes z ops = z ++ (initChars z.length ops).flatMap initChar := by
  induction ops generalizing z with
  | nil => simp [initBytes, initChars]
  | cons o ops ih =>
    obtain ⟨op, x⟩ := o
    cases op with
    | «match» =>
      have hstep (hx : 0 ≤ x ∧ x ≤ 0xFFFF) (hz : z.length < 10) :
          initBytes (z ++ initChar x.toNat) ops =
            z ++ (initChars z.length ((.match, x) :: ops)).flatMap initChar := by
        rw [ih, initChars, if_pos ⟨hz, hx⟩, List.length_append, List.flatMap_cons,
          List.append_assoc]
      unfold initBytes
      split_ifs with hz hneg hone htwo hthree
      · rw [initChars, if_neg (by omega)]
        simp
      · rw [← hstep (by omega) hz, initChar, if_pos (by omega)]
      · rw [← hstep (by omega) hz, initChar, if_neg (by omega), if_pos (by omega)]
      · rw [← hstep (by omega) hz, initChar, if_neg (by omega), if_neg (by omega)]
      · rw [initChars, if_neg (by omega)]
        simp
      · rw [initChars, if_neg (by omega)]
        simp
    | _ => simp [initBytes, initChars]

theorem map_initChars (n : ℕ) (ops : List Instr) :
    (initChars n ops).map (fun x : ℕ => ((.match, (x : ℤ)) : Instr)) <+: ops := by
  induction ops generalizing n with
  | nil => simp [initChars]
  | cons o ops ih =>
    obtain ⟨op, x⟩ := o
    cases op with
    | «match» =>
      unfold initChars
      split_ifs with h
      · have hx : ((x.toNat : ℕ) : ℤ) = x := Int.toNat_of_nonneg h.2.1
        rw [List.map_cons, hx, List.prefix_cons_inj]
        exact ih _
      · exact List.nil_prefix
    | _ => exact List.nil_prefix

theorem initChars_le (n : ℕ) (ops : List Instr) : ∀ x ∈ initChars n ops, x ≤ 0xFFFF := by
  induction ops generalizing n with
  | nil => simp [initChars]
  | cons o ops ih =>
    obtain ⟨op, x⟩ := o
    cases op with
    | «match» =>
      unfold initChars
      split_ifs with h
      · intro y hy
        obtain rfl | hy := List.mem_cons.mp hy
        · omega
        · exact ih _ y hy
      · simp
    | _ => simp [initChars]

set_option maxRecDepth 8000 in
theorem lead_two : ∀ n < 256, n &&& 0xE0 = 0xC0 → 0xC0 + (n &&& 0x1F) = n := by decide

set_option maxRecDepth 8000 in
theorem lead_three : ∀ n < 256, n &&& 0xF0 = 0xE0 → 0xE0 + (n &&& 0x0F) = n := by decide

set_option maxRecDepth 8000 in
theorem trail : ∀ n < 256, n &&& 0xC0 = 0x80 → 0x80 + (n &&& 0x3F) = n ∧ n &&& 0x3F < 64 := by
  decide

set_option maxRecDepth 8000 in
theorem low : ∀ n < 256, n &&& 0x1F < 32 ∧ n &&& 0x0F < 16 := by decide

set_option maxRecDepth 8000 in
theorem first_byte : ∀ n < 256, n < 0x80 ∨ 0xC0 ≤ n → (n &&& 0xC0 == 0x80) = false := by decide

theorem toUInt8_of_eq {b : UInt8} {n : ℕ} (h : n = b.toNat) : n.toUInt8 = b := by
  rw [h]
  exact UInt8.ofNat_toNat

/-- A character that is read, other than the one that stands for malformed text, is there
with just its own bytes. -/
theorem reNextChar_bytes {z : Bytes} (hz : z ≠ []) (hx : (reNextChar z).1 ≤ 0xFFFF)
    (hvalid : (reNextChar z).1 ≠ 0xFFFD) : z = initChar (reNextChar z).1 ++ (reNextChar z).2 := by
  obtain ⟨b, z, rfl⟩ := List.exists_cons_of_ne_nil hz
  have hb := UInt8.toNat_lt b
  have hlow := low b.toNat hb
  generalize hr : reNextChar (b :: z) = r at hx hvalid ⊢
  unfold reNextChar at hr
  dsimp only at hr
  split_ifs at hr with hone htwo hthree hfour
  · subst hr
    rw [initChar, if_pos (by omega), toUInt8_of_eq rfl]
    rfl
  · split at hr
    · rename_i b₁ z₁
      split_ifs at hr with htrail hshort
      · subst hr
        exact absurd rfl hvalid
      · subst hr
        have hlead := lead_two b.toNat hb htwo
        have htail := trail b₁.toNat (UInt8.toNat_lt b₁) (by simpa [trailing] using htrail)
        rw [initChar, if_neg (by omega), if_pos (by omega), toUInt8_of_eq (b := b) (by omega),
          toUInt8_of_eq (b := b₁) (by omega)]
        rfl
      · subst hr
        exact absurd rfl hvalid
    · subst hr
      exact absurd rfl hvalid
  · split at hr
    · rename_i b₁ b₂ z₂
      split_ifs at hr with htrail hshort
      · subst hr
        exact absurd rfl hvalid
      · subst hr
        have hlead := lead_three b.toNat hb hthree
        rw [Bool.and_eq_true] at htrail
        have htail₁ := trail b₁.toNat (UInt8.toNat_lt b₁) (by simpa [trailing] using htrail.1)
        have htail₂ := trail b₂.toNat (UInt8.toNat_lt b₂) (by simpa [trailing] using htrail.2)
        rw [initChar, if_neg (by omega), if_neg (by omega), toUInt8_of_eq (b := b) (by omega),
          toUInt8_of_eq (b := b₁) (by omega), toUInt8_of_eq (b := b₂) (by omega)]
        rfl
      · subst hr
        exact absurd rfl hvalid
    · subst hr
      exact absurd rfl hvalid
  · split at hr
    · split_ifs at hr with htrail hlong
      · subst hr
        exact absurd rfl hvalid
      · subst hr
        dsimp only at hx
        omega
      · subst hr
        exact absurd rfl hvalid
    · subst hr
      exact absurd rfl hvalid
  · subst hr
    exact absurd rfl hvalid

/-- The first byte of a character does not go on with another one. -/
theorem initChar_head (x : ℕ) (hx : x ≤ 0xFFFF) :
    ∃ b z, initChar x = b :: z ∧ trailing b = false := by
  have htoNat {n : ℕ} (hn : n < 256) : n.toUInt8.toNat = n := UInt8.toNat_ofNat_of_lt' hn
  unfold initChar trailing
  split_ifs with hone htwo
  · refine ⟨_, _, rfl, ?_⟩
    rw [htoNat (by omega)]
    exact first_byte x (by omega) (by omega)
  · refine ⟨_, _, rfl, ?_⟩
    rw [htoNat (by omega)]
    exact first_byte _ (by omega) (by omega)
  · refine ⟨_, _, rfl, ?_⟩
    rw [htoNat (by omega)]
    exact first_byte _ (by omega) (by omega)

/-- The bytes that a character takes after its first one all go on with it. -/
theorem reNextChar_trailing (b : UInt8) (z : Bytes) :
    ∃ t, z = t ++ (reNextChar (b :: z)).2 ∧ ∀ b' ∈ t, trailing b' = true := by
  unfold reNextChar
  dsimp only
  split_ifs
  · exact ⟨[], rfl, by simp⟩
  · split
    · split_ifs with h
      · exact ⟨[_], rfl, by simpa using h⟩
      · exact ⟨[_], rfl, by simpa using h⟩
      · exact ⟨[], rfl, by simp⟩
    · exact ⟨[], rfl, by simp⟩
  · split
    · split_ifs with h
      · exact ⟨[_, _], rfl, by simpa using h⟩
      · exact ⟨[_, _], rfl, by simpa using h⟩
      · exact ⟨[], rfl, by simp⟩
    · exact ⟨[], rfl, by simp⟩
  · split
    · split_ifs with h
      · exact ⟨[_, _, _], rfl, by simpa [and_assoc] using h⟩
      · exact ⟨[_, _, _], rfl, by simpa [and_assoc] using h⟩
      · exact ⟨[], rfl, by simp⟩
    · exact ⟨[], rfl, by simp⟩
  · exact ⟨[], rfl, by simp⟩

/-- A byte that does not go on with a character begins one, also where a text is malformed. -/
theorem chars_of_suffix {z u : Bytes} {b : UInt8} {y : Bytes} (h : z = u ++ b :: y)
    (hb : trailing b = false) : ∃ pre, chars reNextChar z = pre ++ chars reNextChar (b :: y) := by
  induction hn : u.length using Nat.strong_induction_on generalizing z u with
  | _ n ih =>
    cases u with
    | nil => exact ⟨[], by rw [h]; rfl⟩
    | cons b₀ u =>
      rw [h, List.cons_append, chars_cons reader_reNextChar]
      obtain ⟨t, ht, htrail⟩ := reNextChar_trailing b₀ (u ++ b :: y)
      -- The bytes taken end before the one that begins a character.
      obtain ⟨u', hu, hrest⟩ : ∃ u', u = t ++ u' ∧
          (reNextChar (b₀ :: (u ++ b :: y))).2 = u' ++ b :: y := by
        obtain ⟨a', hta, hby⟩ | ⟨u', hu, hrest⟩ := List.append_eq_append_iff.mp ht
        · cases a' with
          | nil => exact ⟨[], by simpa using hta.symm, hby.symm⟩
          | cons b' a' =>
            rw [List.cons_append, List.cons.injEq] at hby
            have hmem : b ∈ t := by
              rw [hta, hby.1]
              simp
            rw [htrail b hmem] at hb
            cases hb
        · exact ⟨u', hu, hrest⟩
      have hlen : u'.length < n := by
        rw [← hn, hu, List.length_cons, List.length_append]
        omega
      obtain ⟨pre, hpre⟩ := ih _ hlen hrest rfl
      exact ⟨_ :: pre, by rw [hpre]; rfl⟩

/-- Characters that a text begins with are there with their own bytes. -/
theorem bytes_of_chars {w : Bytes} {lits cs : List ℕ} (h : chars reNextChar w = lits ++ cs)
    (hle : ∀ x ∈ lits, x ≤ 0xFFFF) (hvalid : ∀ x ∈ lits, x ≠ 0xFFFD) :
    lits.flatMap initChar <+: w := by
  induction lits generalizing w with
  | nil => exact List.nil_prefix
  | cons x lits ih =>
    obtain ⟨hx, hle'⟩ := List.forall_mem_cons.mp hle
    obtain ⟨hxv, hvalid'⟩ := List.forall_mem_cons.mp hvalid
    cases w with
    | nil => cases h
    | cons b w =>
      rw [chars_cons reader_reNextChar, List.cons_append, List.cons.injEq] at h
      obtain ⟨rfl, hrest⟩ := h
      have hbytes := reNextChar_bytes (List.cons_ne_nil b w) hx hxv
      have hmore := (List.prefix_append_right_inj (initChar (reNextChar (b :: w)).1)).mpr
        (ih hrest hle' hvalid')
      rwa [← hbytes] at hmore

end Characters

section Paths

variable {ops : List Instr} {c x : ℕ} {cs : List ℕ}

/-- The state that takes any text goes on behind every place before the end. -/
theorem reaches_anystar {arg : ℤ} (hx : ops[x]? = some (.anystar, arg))
    (hnext : x + 1 < ops.length) : Reaches ops c cs x ↔
    ∃ pre post, cs = pre ++ post ∧ post ≠ [] ∧ Reaches ops (pre.getLastD c) post (x + 1) := by
  induction cs generalizing c with
  | nil =>
    have hnot : ¬Reaches ops c [] x := not_reaches_nil hx (by simp) (by simp)
    simp only [hnot, List.nil_eq, List.append_eq_nil_iff, false_iff, not_exists, not_and]
    rintro pre post ⟨-, hpost⟩ hne
    exact absurd hpost hne
  | cons d cs ih =>
    rw [reaches_step (visit_anystar hx hnext)]
    simp only [List.mem_singleton, exists_eq_left]
    rw [ih]
    constructor
    · rintro (h | ⟨pre, post, rfl, hne, h⟩)
      · exact ⟨[], d :: cs, rfl, List.cons_ne_nil d cs, h⟩
      · exact ⟨d :: pre, post, rfl, hne, by rwa [List.getLastD_cons]⟩
    · rintro ⟨pre, post, hcs, hne, h⟩
      cases pre with
      | nil =>
        rw [List.nil_append] at hcs
        exact .inl (hcs ▸ h)
      | cons d' pre =>
        rw [List.cons_append, List.cons.injEq] at hcs
        obtain ⟨rfl, rfl⟩ := hcs
        exact .inr ⟨pre, post, rfl, hne, by rwa [List.getLastD_cons] at h⟩

/-- Characters that have to be there one after the other. -/
theorem reaches_literals (h : WellFormed ops) (lits : List ℕ)
    (hops : lits.map (fun l : ℕ => ((.match, (l : ℤ)) : Instr)) <+: ops.drop x) :
    Reaches ops c cs x ↔
      ∃ post, cs = lits ++ post ∧ Reaches ops (lits.getLastD c) post (x + lits.length) := by
  induction lits generalizing c cs x with
  | nil => simp
  | cons l lits ih =>
    rw [List.map_cons] at hops
    obtain ⟨rest, hrest⟩ := hops
    have hx : ops[x]? = some (.match, (l : ℤ)) := by
      rw [← List.head?_drop, ← hrest]
      rfl
    have htail : lits.map (fun l : ℕ => ((.match, (l : ℤ)) : Instr)) <+: ops.drop (x + 1) := by
      rw [← List.tail_drop, ← hrest]
      exact List.prefix_append _ _
    have hnext := next_lt_of_wellFormed h hx (by simp)
    cases cs with
    | nil =>
      have hnot : ¬Reaches ops c [] x := not_reaches_nil hx (by simp) (by simp)
      simp [hnot]
    | cons d cs =>
      rw [reaches_step (visit_char hx rfl hnext)]
      by_cases hld : l = d
      · subst hld
        simp only [decide_true, if_true, List.mem_singleton, exists_eq_left, List.not_mem_nil,
          false_and, exists_false, false_or, ih htail, List.cons_append, List.cons.injEq, true_and,
          List.getLastD_cons, List.length_cons, Nat.add_assoc, Nat.add_comm 1]
      · have hld' : ¬(l : ℤ) = d := by exact_mod_cast hld
        simp [hld', Ne.symm hld]

end Paths

section Search

theorem strncmpEq_append {y z : Bytes} (h : y <+: z) : strncmpEq y.length z y = true := by
  induction y generalizing z with
  | nil => rfl
  | cons b y ih =>
    obtain ⟨rest, rfl⟩ := h
    simp only [List.length_cons, strncmpEq, List.cons_append, List.headD_cons, List.tail_cons,
      beq_self_eq_true, Bool.true_and, Bool.or_eq_true]
    exact .inr (ih (List.prefix_append y rest))

theorem search_none {zInit z : Bytes} (h : search zInit z = none) (hne : zInit ≠ []) :
    ∀ w, w <:+ z → ¬zInit <+: w := by
  induction z with
  | nil =>
    intro w hw hpre
    rw [List.suffix_nil.mp hw, List.prefix_nil] at hpre
    exact hne hpre
  | cons b z ih =>
    intro w hw hpre
    unfold search at h
    split_ifs at h with hlen hcmp
    · have := hpre.length_le.trans hw.length_le
      omega
    · obtain rfl | hw := List.suffix_cons_iff.mp hw
      · exact hcmp (strncmpEq_append hpre)
      · exact ih h w hw hpre

theorem search_some {zInit z y : Bytes} (h : search zInit z = some y) :
    (∃ b y', y = b :: y' ∧ strncmpEq zInit.length y zInit = true) ∧
      ∀ w, w <:+ z → zInit <+: w → w <:+ y := by
  induction z with
  | nil => cases h
  | cons b z ih =>
    unfold search at h
    split_ifs at h with hlen hcmp
    · cases h
      exact ⟨⟨b, z, rfl, hcmp⟩, fun w hw _ => hw⟩
    · obtain ⟨hy, hfirst⟩ := ih h
      refine ⟨hy, fun w hw hpre => ?_⟩
      obtain rfl | hw := List.suffix_cons_iff.mp hw
      · exact absurd (strncmpEq_append hpre) hcmp
      · exact hfirst w hw hpre

theorem nul_notMem_initChar {x : ℕ} (hx : x ≤ 0xFFFF) (h : x ≠ 0) : 0 ∉ initChar x := by
  have hne {n : ℕ} (hn : n < 256) (hpos : 0 < n) : (0 : UInt8) ≠ n.toUInt8 := by
    intro heq
    have hval := congrArg UInt8.toNat heq
    rw [show n.toUInt8.toNat = n from UInt8.toNat_ofNat_of_lt' hn] at hval
    simp at hval
    omega
  unfold initChar
  split_ifs with hone htwo
  · simpa using hne (n := x) (by omega) (by omega)
  · simp only [List.mem_cons, List.not_mem_nil, or_false, not_or]
    exact ⟨hne (by omega) (by omega), hne (by omega) (by omega)⟩
  · simp only [List.mem_cons, List.not_mem_nil, or_false, not_or]
    exact ⟨hne (by omega) (by omega), hne (by omega) (by omega), hne (by omega) (by omega)⟩

theorem dropNul_of_notMem {z : Bytes} (h : 0 ∉ z) : dropNul z = z := by
  unfold dropNul
  rw [if_neg]
  intro hlast
  exact h (List.mem_of_getLast? hlast)

theorem dropNul_concat (z : Bytes) : dropNul (z ++ [0]) = z := by
  simp [dropNul]

theorem zero_notMem_chars {next : Bytes → ℕ × Bytes} (hnext : Reader next) {z : Bytes}
    (h : 0 ∉ z) : 0 ∉ chars next z := by
  induction hn : z.length using Nat.strong_induction_on generalizing z with
  | _ n ih =>
    cases z with
    | nil => simp [chars_nil]
    | cons b z =>
      rw [chars_cons hnext, List.mem_cons, not_or]
      have hb : b ≠ 0 := by
        rintro rfl
        exact h List.mem_cons_self
      refine ⟨(hnext.nonzero b z hb).symm, ?_⟩
      refine ih _ ?_ (nul_notMem_next hnext h) rfl
      have := hnext.shorter b z
      rw [← hn, List.length_cons]
      omega

/-- Every place between the characters of a text is a place between its bytes. -/
theorem exists_suffix_of_chars {z : Bytes} {pre cs : List ℕ}
    (h : chars reNextChar z = pre ++ cs) : ∃ w, w <:+ z ∧ chars reNextChar w = cs := by
  induction pre generalizing z with
  | nil => exact ⟨z, List.suffix_rfl, h⟩
  | cons c pre ih =>
    cases z with
    | nil => cases h
    | cons b z =>
      rw [chars_cons reader_reNextChar, List.cons_append, List.cons.injEq] at h
      obtain ⟨w, hw, hchars⟩ := ih h.2
      exact ⟨w, hw.trans (reader_reNextChar.suffix _), hchars⟩

variable {ops : List Instr}

/-- The literals are in the text, and what follows them leads on from there. -/
def Found (ops : List Instr) (lits cs : List ℕ) : Prop :=
  ∃ pre post, cs = pre ++ (lits ++ post) ∧ Reaches ops (lits.getLastD 0) post (1 + lits.length)

theorem found_append {lits cs : List ℕ} (h : Found ops lits cs) (pre : List ℕ) :
    Found ops lits (pre ++ cs) := by
  obtain ⟨pre', post, rfl, h⟩ := h
  exact ⟨pre ++ pre', post, by rw [List.append_assoc], h⟩

theorem reaches_iff_found (h : WellFormed ops) {arg : ℤ} {rest : List Instr}
    (hops : ops = (.anystar, arg) :: rest) {lits : List ℕ} (hne : lits ≠ [])
    (hlits : lits.map (fun l : ℕ => ((.match, (l : ℤ)) : Instr)) <+: rest) (c : ℕ)
    (cs : List ℕ) : Reaches ops c cs 0 ↔ Found ops lits cs := by
  have hx : ops[0]? = some (.anystar, arg) := by rw [hops]; rfl
  have hlast (c : ℕ) : lits.getLastD c = lits.getLastD 0 := by
    obtain ⟨l, lits, rfl⟩ := List.exists_cons_of_ne_nil hne
    rw [List.getLastD_cons, List.getLastD_cons]
  rw [reaches_anystar hx (next_lt_of_wellFormed h hx (by simp))]
  have hdrop : lits.map (fun l : ℕ => ((.match, (l : ℤ)) : Instr)) <+: ops.drop (0 + 1) := by
    rw [hops]
    exact hlits
  simp only [reaches_literals h lits hdrop, hlast]
  constructor
  · rintro ⟨pre, post, rfl, -, post', rfl, hreach⟩
    exact ⟨pre, post', rfl, hreach⟩
  · rintro ⟨pre, post, rfl, hreach⟩
    exact ⟨pre, lits ++ post, rfl, by simp [hne], post, rfl, hreach⟩

/-- Where the literals are found, the bytes that are looked ahead for are found. -/
theorem zInit_prefix_of_found {z : Bytes} (hz : 0 ∉ z) {lits : List ℕ}
    (hle : ∀ x ∈ lits, x ≤ 0xFFFF)
    (hvalid : ∀ x ∈ lits, x ∈ chars reNextChar z → x ≠ 0xFFFD)
    (hinit : dropNul (lits.flatMap initChar) ≠ [])
    (h : Found ops lits (chars reNextChar z ++ [0])) :
    ∃ w, w <:+ z ∧ dropNul (lits.flatMap initChar) <+: w ∧
      Found ops lits (chars reNextChar w ++ [0]) := by
  obtain ⟨pre, post, hsplit, hreach⟩ := h
  have hzero := zero_notMem_chars reader_reNextChar hz
  have hprefix (lits' cs : List ℕ) (hsub : ∀ x ∈ lits', x ∈ lits)
      (hchars : chars reNextChar z = pre ++ (lits' ++ cs)) :
      0 ∉ lits'.flatMap initChar ∧ ∃ w, w <:+ z ∧ lits'.flatMap initChar <+: w ∧
        chars reNextChar w = lits' ++ cs := by
    have hmem : ∀ x ∈ lits', x ∈ chars reNextChar z := by
      intro x hx
      rw [hchars]
      simp [hx]
    constructor
    · rw [List.mem_flatMap]
      rintro ⟨x, hx, h0⟩
      refine nul_notMem_initChar (hle x (hsub x hx)) ?_ h0
      rintro rfl
      exact hzero (hmem 0 hx)
    · obtain ⟨w, hw, hwchars⟩ := exists_suffix_of_chars hchars
      exact ⟨w, hw, bytes_of_chars hwchars (fun x hx => hle x (hsub x hx))
        (fun x hx => hvalid x (hsub x hx) (hmem x hx)), hwchars⟩
  obtain rfl | ⟨post', d, rfl⟩ := List.eq_nil_or_concat' post
  · -- The last literal is the end of the text.
    obtain rfl | ⟨lits', l, rfl⟩ := List.eq_nil_or_concat' lits
    · exact absurd rfl hinit
    rw [List.append_nil, ← List.append_assoc] at hsplit
    obtain ⟨hchars, hl⟩ := List.append_inj' hsplit rfl
    rw [List.singleton_inj] at hl
    subst hl
    obtain ⟨h0, w, hw, hbytes, hwchars⟩ :=
      hprefix lits' [] (by simp +contextual) (by simpa using hchars)
    refine ⟨w, hw, ?_, [], [], by simp [hwchars], hreach⟩
    rw [List.flatMap_append, show ([0] : List ℕ).flatMap initChar = [0] from rfl, dropNul_concat]
    exact hbytes
  · rw [← List.append_assoc, ← List.append_assoc] at hsplit
    obtain ⟨hchars, hd⟩ := List.append_inj' hsplit rfl
    rw [List.singleton_inj] at hd
    subst hd
    rw [List.append_assoc] at hchars
    obtain ⟨h0, w, hw, hbytes, hwchars⟩ := hprefix lits post' (fun x hx => hx) hchars
    refine ⟨w, hw, ?_, [], post' ++ [0], by simp [hwchars], hreach⟩
    rwa [dropNul_of_notMem h0]

/-- The first byte that is looked ahead for begins a character. -/
theorem zInit_head {lits : List ℕ} (hle : ∀ x ∈ lits, x ≤ 0xFFFF)
    (hinit : dropNul (lits.flatMap initChar) ≠ []) :
    ∃ b z, dropNul (lits.flatMap initChar) = b :: z ∧ trailing b = false := by
  cases lits with
  | nil => exact absurd rfl hinit
  | cons l lits =>
    obtain ⟨b, t, hbt, hb⟩ := initChar_head l (hle l List.mem_cons_self)
    rw [List.flatMap_cons, hbt, List.cons_append] at hinit ⊢
    unfold dropNul at hinit ⊢
    split_ifs at hinit ⊢
    · cases hrest : t ++ lits.flatMap initChar with
      | nil => simp [hrest] at hinit
      | cons b' t' => exact ⟨b, _, List.dropLast_cons_cons, hb⟩
    · exact ⟨b, _, rfl, hb⟩

/-- The matcher finds what the paths from the first state find, whether it looks ahead for the
bytes that every match begins with or not. -/
theorem reMatch_spec {p : ReCompiled} (h : Compiled p) (zIn : Bytes)
    (hvalid : (.match, 0xFFFD) ∉ p.ops ∨ 0xFFFD ∉ chars reNextChar (zIn.takeWhile (· ≠ 0))) :
    ∃ b, reMatch p zIn = some b ∧ (b = true ↔ Reaches p.ops RE_START
      (chars (nextCharOf p.noCase) (zIn.takeWhile (· ≠ 0)) ++ [0]) 0) := by
  obtain ⟨hwell, hinit⟩ := h
  have hz := nul_notMem_takeWhile zIn
  obtain ⟨b, hb, hiff⟩ :=
    run_spec (reader_nextCharOf p.noCase) hwell RE_START (by decide) _ hz
  refine ⟨b, ?_, hiff⟩
  by_cases hne : p.zInit = []
  · simp only [reMatch, hne, if_true, hb]
  obtain hnil | ⟨⟨arg, rest, hops, hzInit⟩, hcase⟩ := hinit
  · exact absurd hnil hne
  rw [initBytes_eq, List.nil_append, List.length_nil] at hzInit
  have hlits := map_initChars 0 rest
  have hle := initChars_le 0 rest
  generalize initChars 0 rest = lits at hzInit hlits hle
  have hsame : ∀ x ∈ lits, x ∈ chars reNextChar (zIn.takeWhile (· ≠ 0)) → x ≠ 0xFFFD := by
    rintro x hx hmem rfl
    obtain hvalid | hvalid := hvalid
    · apply hvalid
      rw [hops]
      exact List.mem_cons_of_mem _ (hlits.subset (List.mem_map_of_mem hx))
    · exact hvalid hmem
  have hlitsne : lits ≠ [] := by
    rintro rfl
    exact hne hzInit
  have hfound (c : ℕ) (cs : List ℕ) := reaches_iff_found hwell hops hlitsne hlits c cs
  have hnext : nextCharOf p.noCase = reNextChar := by rw [hcase]; rfl
  rw [hnext, hfound] at hiff
  unfold reMatch
  dsimp only
  rw [if_neg hne, hnext]
  rw [hzInit] at hne ⊢
  cases hsearch : search (dropNul (lits.flatMap initChar)) (zIn.takeWhile (· ≠ 0)) with
  | none =>
    have hnot : ¬b = true := by
      intro hbtrue
      obtain ⟨w, hw, hbytes, -⟩ :=
        zInit_prefix_of_found hz hle hsame hne (hiff.mp hbtrue)
      exact search_none hsearch hne w hw hbytes
    dsimp only
    rw [Bool.eq_false_iff.mpr hnot]
  | some y =>
    obtain ⟨⟨b₀, y', rfl, hcmp⟩, hfirst⟩ := search_some hsearch
    obtain ⟨pre, hpre⟩ := search_suffix hsearch
    obtain ⟨b₁, t, hhead, hlead⟩ := zInit_head hle hne
    -- The place that is found lies between two characters.
    have hb₀ : trailing b₀ = false := by
      rw [hhead] at hcmp
      simp only [List.length_cons, strncmpEq, List.headD_cons, Bool.and_eq_true, beq_iff_eq] at hcmp
      rw [hcmp.1]
      exact hlead
    obtain ⟨skipped, hskipped⟩ := chars_of_suffix hpre.symm hb₀
    have hy : 0 ∉ b₀ :: y' := fun hmem => hz (hpre ▸ List.mem_append_right pre hmem)
    obtain ⟨b', hb', hiff'⟩ := run_spec reader_reNextChar hwell (RE_START - 1) (by decide) _ hy
    rw [hfound] at hiff'
    dsimp only
    rw [hb', Option.some.injEq, Bool.eq_iff_iff, hiff, hiff']
    constructor
    · intro hf
      rw [hskipped, List.append_assoc]
      exact found_append hf skipped
    · intro hf
      obtain ⟨w, hw, hbytes, hwfound⟩ := zInit_prefix_of_found hz hle hsame hne hf
      obtain ⟨u, hu⟩ := hfirst w hw hbytes
      rw [hhead] at hbytes
      obtain ⟨t', ht'⟩ := hbytes
      rw [← ht', List.cons_append] at hu hwfound
      obtain ⟨skipped', hskipped'⟩ := chars_of_suffix hu.symm hlead
      rw [hskipped', List.append_assoc]
      exact found_append hwfound skipped'

/-- Looking ahead for the bytes that every match begins with changes no result, unless the
replacement character is among them and the text has it too, or is malformed. -/
theorem reMatch_eq_plain {zPattern : Bytes} {mxRe : ℕ} {noCase : Bool} {p : ReCompiled}
    (h : reCompile zPattern mxRe noCase = some (.ok p)) (zIn : Bytes)
    (hvalid : (.match, 0xFFFD) ∉ p.ops ∨ 0xFFFD ∉ chars reNextChar (zIn.takeWhile (· ≠ 0))) :
    reMatch p zIn = reMatch { p with zInit := [] } zIn := by
  obtain ⟨hcompiled, -⟩ := compiled_of_reCompile h
  obtain ⟨b, hb, hiff⟩ := reMatch_spec hcompiled zIn hvalid
  obtain ⟨b', hb', hiff'⟩ := reMatch_spec (p := { p with zInit := [] })
    ⟨hcompiled.wellFormed, .inl rfl⟩ zIn hvalid
  rw [hb, hb', Option.some.injEq, Bool.eq_iff_iff, hiff, hiff']

/-- An expression for one letter, and a text with bytes that are no characters. -/
theorem compile_letter : reCompile [0x61] 100 false = some (.ok ⟨[], none,
    [(.anystar, 0), (.match, 0x61), (.accept, 0)], false, [0x61], 30, 100⟩) := by
  decide

theorem reMatch_eq_plain_malformed :
    ∃ p, reCompile [0x61] 100 false = some (.ok p) ∧ p.zInit = [0x61] ∧
      reMatch p [0xC3, 0x62, 0x61] = reMatch { p with zInit := [] } [0xC3, 0x62, 0x61] :=
  ⟨_, compile_letter, rfl, reMatch_eq_plain compile_letter [0xC3, 0x62, 0x61] (.inl (by decide))⟩

end Search

end RSQLCipher.RegexpPrefix
