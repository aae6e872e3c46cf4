import RSQLCipher.Placeholders

namespace RSQLCipher.Association

open RSQLCipher.Library RSQLCipher.Statement RSQLCipher.Params RSQLCipher.ResultImpl
open RSQLCipher.Placeholders

section Numbering

variable {v : Variables} {p q : Placeholder} {x : Nat} {before after query : List Placeholder}

theorem numbered_append (before after : List Placeholder) :
    numbered (before ++ after) =
      after.foldl (fun v p => (assignVarNumber v p).2) (numbered before) := List.foldl_append

theorem numbered_snoc (before : List Placeholder) (p : Placeholder) :
    numbered (before ++ [p]) = (assignVarNumber (numbered before) p).2 := numbered_append _ _

/-- What a query adds to the variables: names of its own, each number once. -/
structure Invariant (query : List Placeholder) (v : Variables) : Prop where
  bounds : ∀ e ∈ v.vlist, 0 < e.1 ∧ e.1 ≤ v.nVar
  texts : ∀ e ∈ v.vlist, e.2 ∈ query ∧ e.2.text ≠ ""
  distinct : (v.vlist.map Prod.fst).Nodup

theorem numToName_eq_none : v.numToName x = none ↔ ∀ e ∈ v.vlist, e.1 ≠ x := by
  simp [Variables.numToName]

theorem numToName_mem (h : v.numToName x = some p) : (x, p) ∈ v.vlist := by
  rw [Variables.numToName, Option.map_eq_some_iff] at h
  obtain ⟨e, he, rfl⟩ := h
  have hx := List.find?_some he
  rw [beq_iff_eq] at hx
  rw [← hx]
  exact List.mem_of_find?_eq_some he

theorem numToName_of_mem (hdistinct : (v.vlist.map Prod.fst).Nodup) (h : (x, p) ∈ v.vlist) :
    v.numToName x = some p := by
  cases hname : v.numToName x with
  | none => exact absurd rfl (numToName_eq_none.mp hname _ h)
  | some q =>
    have hq := numToName_mem hname
    have hsame := List.inj_on_of_nodup_map hdistinct hq h rfl
    rw [(Prod.mk.inj hsame).2]

theorem numToName_add (h : v.numToName x = some p) (y : Nat) (q : Placeholder) :
    (v.add y q).numToName x = some p := by
  rw [Variables.numToName, Option.map_eq_some_iff] at h ⊢
  obtain ⟨e, he, hp⟩ := h
  exact ⟨e, by rw [Variables.add, List.find?_append, he]; rfl, hp⟩

theorem numToName_added (h : v.numToName x = none) : (v.add x p).numToName x = some p := by
  have hnone : v.vlist.find? (fun e => e.1 == x) = none := by
    simpa [Variables.numToName] using h
  rw [Variables.numToName, Variables.add, List.find?_append, hnone]
  simp

theorem Invariant.free (h : Invariant query v) (hx : v.nVar < x) : v.numToName x = none := by
  rw [numToName_eq_none]
  intro e he hex
  have hle := (h.bounds e he).2
  omega

theorem nameToNum_mem (h : v.nameToNum p = some x) : (x, p) ∈ v.vlist := by
  rw [Variables.nameToNum, Option.map_eq_some_iff] at h
  obtain ⟨e, he, rfl⟩ := h
  have hp := List.find?_some he
  rw [beq_iff_eq] at hp
  rw [← hp]
  exact List.mem_of_find?_eq_some he

theorem Invariant.mono (h : Invariant query v) (hsub : ∀ q ∈ query, q ∈ before) :
    Invariant before v :=
  ⟨h.bounds, fun e he => ⟨hsub _ (h.texts e he).1, (h.texts e he).2⟩, h.distinct⟩

theorem Invariant.add (h : Invariant query v) (hp : p ∈ query) (htext : p.text ≠ "") (hx : 0 < x)
    (hnone : v.numToName x = none) : Invariant query (v.add x p) := by
  refine ⟨?_, ?_, ?_⟩
  · intro e he
    obtain he | he := List.mem_append.mp he
    · have hle := h.bounds e he
      exact ⟨hle.1, le_max_of_le_left hle.2⟩
    · rw [List.mem_singleton.mp he]
      exact ⟨hx, le_max_right _ _⟩
  · intro e he
    obtain he | he := List.mem_append.mp he
    · exact h.texts e he
    · rw [List.mem_singleton.mp he]
      exact ⟨hp, htext⟩
  · rw [Variables.add, List.map_append, List.nodup_append]
    refine ⟨h.distinct, List.nodup_singleton _, ?_⟩
    intro y hy z hz hyz
    obtain ⟨e, he, rfl⟩ := List.mem_map.mp hy
    rw [numToName_eq_none] at hnone
    apply hnone e he
    rw [hyz]
    simpa using hz

/-- How a placeholder is numbered: a new number, or that of the name that it finds. -/
theorem assign_cases (h : Invariant query v) (p : Placeholder) :
    (p.text = "" ∧ assignVarNumber v p = (v.nVar + 1, { v with nVar := v.nVar + 1 })) ∨
    (p.text ≠ "" ∧ ∃ x, 0 < x ∧ (p.sigil = .question → x = digitsValue p.text) ∧
      v.numToName x = none ∧ assignVarNumber v p = (x, v.add x p)) ∨
    (p.text ≠ "" ∧ ∃ x q, (p.sigil = .question → x = digitsValue p.text) ∧
      (p.sigil ≠ .question → q = p) ∧ v.numToName x = some q ∧ assignVarNumber v p = (x, v)) := by
  by_cases htext : p.text = ""
  · exact .inl ⟨htext, by simp [assignVarNumber, htext]⟩
  · refine .inr ?_
    by_cases hsigil : p.sigil = .question
    · have hpos : 0 < digitsValue p.text := by
        have hwell := p.wellFormed
        rw [if_pos hsigil] at hwell
        exact (hwell htext).2
      cases hname : v.numToName (digitsValue p.text) with
      | none =>
        refine .inl ⟨htext, digitsValue p.text, hpos, fun _ => rfl, hname, ?_⟩
        simp [assignVarNumber, htext, hsigil, hname]
      | some q =>
        have hle : ¬v.nVar < digitsValue p.text := by
          have hbound := (h.bounds _ (numToName_mem hname)).2
          simpa using hbound
        refine .inr ⟨htext, digitsValue p.text, q, fun _ => rfl, fun hne => absurd hsigil hne,
          hname, ?_⟩
        simp [assignVarNumber, htext, hsigil, hname, hle]
    · cases hnum : v.nameToNum p with
      | none =>
        refine .inl ⟨htext, v.nVar + 1, Nat.succ_pos _, fun hq => absurd hq hsigil,
          h.free (Nat.lt_succ_self _), ?_⟩
        simp [assignVarNumber, htext, hsigil, hnum]
      | some x =>
        refine .inr ⟨htext, x, p, fun hq => absurd hq hsigil, fun _ => rfl,
          numToName_of_mem h.distinct (nameToNum_mem hnum), ?_⟩
        simp [assignVarNumber, htext, hsigil, hnum]

theorem assign_invariant (h : Invariant query v) (hp : p ∈ query) :
    Invariant query (assignVarNumber v p).2 := by
  obtain ⟨-, hassign⟩ | ⟨htext, x, hx, -, hnone, hassign⟩ | ⟨-, x, q, -, -, -, hassign⟩ :=
    assign_cases h p
  · rw [hassign]
    exact ⟨fun e he => ⟨(h.bounds e he).1, Nat.le_succ_of_le (h.bounds e he).2⟩, h.texts, h.distinct⟩
  · rw [hassign]
    exact h.add hp htext hx hnone
  · rw [hassign]
    exact h

theorem numbered_invariant (query : List Placeholder) : Invariant query (numbered query) := by
  induction query using List.reverseRecOn with
  | nil =>
    exact ⟨List.forall_mem_nil _, List.forall_mem_nil _, List.nodup_nil⟩
  | append_singleton before p ih =>
    rw [numbered_snoc]
    apply assign_invariant
    · exact ih.mono fun q hq => List.mem_append_left _ hq
    · simp

/-- What is numbered later keeps the numbers and names that there are. -/
theorem assign_keeps (h : Invariant query v) (p : Placeholder) :
    v.nVar ≤ (assignVarNumber v p).2.nVar ∧
      ∀ x q, v.numToName x = some q → (assignVarNumber v p).2.numToName x = some q := by
  obtain ⟨-, hassign⟩ | ⟨-, x, -, -, -, hassign⟩ | ⟨-, x, q, -, -, -, hassign⟩ := assign_cases h p
  · rw [hassign]
    exact ⟨Nat.le_succ _, fun x q hq => hq⟩
  · rw [hassign]
    exact ⟨le_max_left _ _, fun y q hq => numToName_add hq x p⟩
  · rw [hassign]
    exact ⟨le_rfl, fun x q hq => hq⟩

theorem numbered_keeps (before after : List Placeholder) :
    (numbered before).nVar ≤ (numbered (before ++ after)).nVar ∧
      ∀ x q, (numbered before).numToName x = some q →
        (numbered (before ++ after)).numToName x = some q := by
  induction after using List.reverseRecOn with
  | nil =>
    rw [List.append_nil]
    exact ⟨le_rfl, fun x q hq => hq⟩
  | append_singleton after p ih =>
    rw [← List.append_assoc, numbered_snoc]
    have hkeeps := assign_keeps (numbered_invariant (before ++ after)) p
    exact ⟨ih.1.trans hkeeps.1, fun x q hq => hkeeps.2 x q (ih.2 x q hq)⟩

/-- The number of a placeholder is that of a parameter of the query; if it has a text, the
parameter has a name, which for a name is its own. -/
theorem numberOf_spec (before : List Placeholder) (p : Placeholder) (after : List Placeholder) :
    0 < numberOf before p ∧ numberOf before p ≤ (numbered (before ++ p :: after)).nVar ∧
      (p.text ≠ "" → ∃ q, (numbered (before ++ p :: after)).numToName (numberOf before p) = some q ∧
        (p.sigil ≠ .question → q = p)) := by
  have hkeeps := numbered_keeps (before ++ [p]) after
  rw [List.append_assoc, List.singleton_append, numbered_snoc] at hkeeps
  unfold numberOf
  obtain ⟨htext, hassign⟩ | ⟨htext, x, hx, -, hnone, hassign⟩ |
    ⟨htext, x, q, -, hq, hname, hassign⟩ := assign_cases (numbered_invariant before) p
  · rw [hassign] at hkeeps ⊢
    exact ⟨Nat.succ_pos _, hkeeps.1, fun hne => absurd htext hne⟩
  · rw [hassign] at hkeeps ⊢
    refine ⟨hx, le_trans (le_max_right _ _) hkeeps.1, fun _ => ⟨p, ?_, fun _ => rfl⟩⟩
    exact hkeeps.2 x p (numToName_added hnone)
  · rw [hassign] at hkeeps ⊢
    have hbound := (numbered_invariant before).bounds _ (numToName_mem hname)
    exact ⟨hbound.1, hbound.2.trans hkeeps.1, fun _ => ⟨q, hkeeps.2 x q hname, hq⟩⟩

/-- Without a text before it, a placeholder without one gets the next number. -/
theorem numbered_anonymous (hall : ∀ p ∈ query, p.text = "") :
    numbered query = { nVar := query.length, vlist := [] } := by
  induction query using List.reverseRecOn with
  | nil => rfl
  | append_singleton before p ih =>
    have hbefore := ih fun q hq => hall q (List.mem_append_left _ hq)
    have hp : p.text = "" := hall p (by simp)
    rw [numbered_snoc, hbefore, assignVarNumber, if_pos hp]
    simp

/-- The text that `get_placeholder_names` reports for a parameter. -/
def reported (query : List Placeholder) (x : Nat) : String :=
  (((numbered query).numToName x).map Placeholder.text).getD ""

theorem placeholderNames_at (before : List Placeholder) (p : Placeholder)
    (after : List Placeholder) :
    (placeholderNames (before ++ p :: after))[numberOf before p - 1]? =
      some (reported (before ++ p :: after) (numberOf before p)) := by
  obtain ⟨hpos, hle, -⟩ := numberOf_spec before p after
  have hlt : numberOf before p - 1 < (numbered (before ++ p :: after)).nVar := by omega
  have hback : numberOf before p - 1 + 1 = numberOf before p := by omega
  rw [placeholderNames, List.getElem?_map, List.getElem?_range hlt, Option.map_some, hback]
  rfl

theorem mem_placeholderNames {name : String} (h : name ∈ placeholderNames query)
    (hname : name ≠ "") : ∃ q ∈ query, q.text = name := by
  rw [placeholderNames, List.mem_map] at h
  obtain ⟨i, -, rfl⟩ := h
  cases hi : (numbered query).numToName (i + 1) with
  | none => simp [hi] at hname
  | some q =>
    have hmem := numToName_mem hi
    exact ⟨q, ((numbered_invariant query).texts _ hmem).1, by simp⟩

theorem reported_mem (before : List Placeholder) (p : Placeholder) (after : List Placeholder) :
    reported (before ++ p :: after) (numberOf before p) ∈ placeholderNames (before ++ p :: after) :=
  List.mem_of_getElem? (placeholderNames_at before p after)

theorem reported_ne_empty (before : List Placeholder) {p : Placeholder} (hp : p.text ≠ "")
    (after : List Placeholder) :
    reported (before ++ p :: after) (numberOf before p) ≠ "" := by
  obtain ⟨-, -, hname⟩ := numberOf_spec before p after
  obtain ⟨q, hq, -⟩ := hname hp
  rw [reported, hq]
  exact ((numbered_invariant _).texts _ (numToName_mem hq)).2

end Numbering

inductive Kind where
  | anonymous | number | name
deriving DecidableEq, Repr

def kindOf (text : String) : Kind :=
  if text = "" then .anonymous else if isNumber text then .number else .name

def Mixed (texts : List String) : Prop := ∃ a ∈ texts, ∃ b ∈ texts, kindOf a ≠ kindOf b

section Kinds

variable {text : String} {texts : List String}

theorem kindOf_anonymous : kindOf text = .anonymous ↔ text = "" := by
  unfold kindOf
  split
  · simp [*]
  · split <;> simp [*]

theorem kindOf_number : kindOf text = .number ↔ isNumber text = true := by
  unfold kindOf
  split
  · rename_i h
    subst h
    simp [isNumber]
  · split <;> simp [*]

theorem not_mixed (h : ¬Mixed texts) : ∃ k, ∀ a ∈ texts, kindOf a = k := by
  cases texts with
  | nil => exact ⟨.name, List.forall_mem_nil _⟩
  | cons b texts =>
    refine ⟨kindOf b, fun a ha => ?_⟩
    by_contra hne
    exact h ⟨a, ha, b, List.mem_cons_self, hne⟩

variable {α : Type} {asText : α → α} {allow : Bool} {params : RList α}

theorem same_of_any_all {f : String → Bool} {a b : String}
    (h : ¬((texts.any f && !texts.all f) = true)) (ha : a ∈ texts) (hb : b ∈ texts) :
    f a = f b := by
  rw [Bool.and_eq_true, Bool.not_eq_true', not_and, Bool.not_eq_false] at h
  cases hfa : f a with
  | true =>
    have hall := h (List.any_eq_true.mpr ⟨a, ha, hfa⟩)
    exact (List.all_eq_true.mp hall b hb).symm
  | false =>
    cases hfb : f b with
    | false => rfl
    | true =>
      have hall := h (List.any_eq_true.mpr ⟨b, hb, hfb⟩)
      rw [List.all_eq_true.mp hall a ha] at hfa
      cases hfa

theorem dbBind_mixed (h : Mixed texts) :
    ∃ message, dbBind asText texts allow params = .error message := by
  obtain ⟨a, ha, b, hb, hne⟩ := h
  unfold dbBind
  simp only [List.any_map, List.all_map, Function.id_comp]
  split
  · exact ⟨_, rfl⟩
  · rename_i hempty
    split
    · exact ⟨_, rfl⟩
    · rename_i hnumbers
      exfalso
      apply hne
      have hsame := same_of_any_all hempty ha hb
      have hnumber := same_of_any_all hnumbers ha hb
      rw [beq_eq_beq] at hsame
      unfold kindOf
      rw [hnumber]
      simp only [hsame]

theorem any_all_const {f : String → Bool} {c : Bool} (h : ∀ a ∈ texts, f a = c) :
    texts.any f = (decide (texts ≠ []) && c) ∧ texts.all f = (decide (texts = []) || c) := by
  cases texts with
  | nil => simp
  | cons a texts =>
    cases c with
    | false => exact ⟨by simpa using h, by simp [h a List.mem_cons_self]⟩
    | true => exact ⟨by simp [h a List.mem_cons_self], by simpa using h⟩

/-- A query whose placeholders are of one kind passes the checks of the kinds. -/
theorem dbBind_unmixed {k : Kind} (h : ∀ a ∈ texts, kindOf a = k) :
    dbBind asText texts allow params =
      if texts ≠ [] ∧ k ≠ .name then
        if params.names.isSome then
          .error "Cannot use named parameters for anonymous/numbered placeholders"
        else .ok (params.values.map asText, [])
      else bindNamed asText texts allow params := by
  have hempty : ∀ a ∈ texts, (a == "") = decide (k = .anonymous) := by
    intro a ha
    rw [Bool.eq_iff_iff, beq_iff_eq, decide_eq_true_iff, ← h a ha, kindOf_anonymous]
  have hnumber : ∀ a ∈ texts, isNumber a = decide (k = .number) := by
    intro a ha
    rw [Bool.eq_iff_iff, decide_eq_true_iff, ← h a ha, kindOf_number]
  have hnone : (params.names.isSome || (params.names.getD []).any (· ≠ "")) =
      params.names.isSome := by
    cases params.names with
    | none => rfl
    | some ns => rfl
  unfold dbBind
  simp only [List.any_map, List.all_map, Function.id_comp, (any_all_const hempty).1,
    (any_all_const hempty).2, (any_all_const hnumber).1, (any_all_const hnumber).2, hnone]
  by_cases hnil : texts = []
  · simp [hnil]
  · cases k with
    | anonymous | number | name => simp [hnil]

theorem paramIndexes_cons (name : String) (names : List String) (params : RList α) :
    paramIndexes (name :: names) params =
      ((params.names.getD []).idxOf? name).bind fun i =>
        (paramIndexes names params).map fun indexes => i :: indexes := by
  rw [paramIndexes, List.mapM_cons]
  cases (params.names.getD []).idxOf? name with
  | none => rfl
  | some i =>
    simp only [Option.bind_eq_bind, Option.bind_some]
    rw [← paramIndexes]
    cases paramIndexes names params with
    | none | some indexes => rfl

theorem paramIndexes_eq_none :
    paramIndexes texts params = none ↔ ∃ name ∈ texts, name ∉ params.names.getD [] := by
  induction texts with
  | nil => simp [paramIndexes]
  | cons name texts ih =>
    rw [paramIndexes_cons]
    cases hi : (params.names.getD []).idxOf? name with
    | none => simp [List.idxOf?_eq_none_iff.mp hi]
    | some i =>
      have hmem : name ∈ params.names.getD [] := by
        rw [← List.isSome_idxOf?, hi]
        rfl
      simp [hmem, ih]

theorem mem_paramIndexes {indexes : List Nat} (h : paramIndexes texts params = some indexes)
    {i : Nat} (hi : i ∈ indexes) : ∃ t ∈ texts, (params.names.getD []).idxOf? t = some i := by
  induction texts generalizing indexes with
  | nil =>
    cases h
    cases hi
  | cons name texts ih =>
    rw [paramIndexes_cons, Option.bind_eq_some_iff] at h
    obtain ⟨j, hj, hrest⟩ := h
    rw [Option.map_eq_some_iff] at hrest
    obtain ⟨rest, hrest, rfl⟩ := hrest
    obtain rfl | hi := List.mem_cons.mp hi
    · exact ⟨name, List.mem_cons_self, hj⟩
    · obtain ⟨t, ht, hidx⟩ := ih hrest hi
      exact ⟨t, List.mem_cons_of_mem _ ht, hidx⟩

theorem paramIndexes_mem {indexes : List Nat} (h : paramIndexes texts params = some indexes)
    {t : String} (ht : t ∈ texts) {i : Nat} (hi : (params.names.getD []).idxOf? t = some i) :
    i ∈ indexes := by
  induction texts generalizing indexes with
  | nil => cases ht
  | cons name texts ih =>
    rw [paramIndexes_cons, Option.bind_eq_some_iff] at h
    obtain ⟨j, hj, hrest⟩ := h
    rw [Option.map_eq_some_iff] at hrest
    obtain ⟨rest, hrest, rfl⟩ := hrest
    obtain rfl | ht := List.mem_cons.mp ht
    · rw [hi] at hj
      rw [Option.some.inj hj]
      exact List.mem_cons_self
    · exact List.mem_cons_of_mem _ (ih hrest ht)

theorem idxOf?_value {name : String} {i : Nat}
    (h : (params.names.getD []).idxOf? name = some i) : i < params.values.length := by
  rw [List.idxOf?_eq_some_iff] at h
  obtain ⟨hlt, -⟩ := h
  cases hnames : params.names with
  | none => simp [hnames] at hlt
  | some ns =>
    rw [← params.sameLength ns hnames]
    simpa [hnames] using hlt

/-- The k-th of the matched parameters is the one with the k-th name. -/
theorem matched_getElem? {indexes : List Nat} (h : paramIndexes texts params = some indexes)
    (k : Nat) : (indexes.filterMap fun i => params.values[i]?)[k]? = texts[k]?.bind params.get := by
  induction texts generalizing indexes k with
  | nil =>
    cases h
    rfl
  | cons name texts ih =>
    rw [paramIndexes_cons] at h
    cases hi : (params.names.getD []).idxOf? name with
    | none =>
      rw [hi] at h
      cases h
    | some i =>
      rw [hi, Option.bind_some, Option.map_eq_some_iff] at h
      obtain ⟨rest, hrest, rfl⟩ := h
      have hvalue := List.getElem?_eq_getElem (idxOf?_value hi)
      rw [List.filterMap_cons, hvalue]
      cases k with
      | zero => simp [RList.get, hi, hvalue]
      | succ k => simpa using ih hrest k

end Kinds

/-- The parameter that a placeholder should receive. -/
def expected {α : Type} (params : RList α) (before : List Placeholder) (p : Placeholder) : Option α :=
  match kindOf p.text with
  | .anonymous => params.values[(before.filter fun q => q.text = "").length]?
  | .number => params.values[digitsValue p.text - 1]?
  | .name => params.get p.text

/-- A query with placeholders of several kinds, or a list that misses a name, or that has, in
strict mode, a name that is not used or that another element has. -/
def Refused {α : Type} (query : List Placeholder) (allow : Bool) (params : RList α) : Prop :=
  Mixed (query.map Placeholder.text) ∨
  (∃ p ∈ query, kindOf p.text = .name ∧ p.text ∉ params.names.getD []) ∨
  (allow = false ∧ ∃ (i : Nat) (name : String), (params.names.getD [])[i]? = some name ∧
    ((∀ p ∈ query, kindOf p.text = .name → p.text ≠ name) ∨
      ∃ j < i, (params.names.getD [])[j]? = some name))

/-- Every placeholder receives its parameter, if there is a call of `result_bind`, and there
is none, nor any change of the result, for what is to be refused. -/
structure Associates (query : List Placeholder) : Prop where
  receives : ∀ (α : Type) (asText : α → α) (allow : Bool) (params : RList α) (bound : List α)
    (warnings : List String),
    dbBind asText (placeholderNames query) allow params = .ok (bound, warnings) →
    ∀ before p after, query = before ++ p :: after →
      bound[numberOf before p - 1]? = (expected params before p).map asText
  refuses : ∀ (α : Type) (asText : α → α) (allow : Bool) (params : RList α),
    Refused query allow params →
    ∃ message, dbBind asText (placeholderNames query) allow params = .error message
  unchanged : ∀ (σ : Type) (env : Environment) (asText : Param → Param) (allow : Bool)
    (params : RList Param) (r : SqliteResult σ), r.handle.stmt.parameters = parameterNames query →
    Refused query allow params →
    ∃ message, dbBindResult env asText allow params r = .error (.stop message) r

/-- A placeholder whose number is its parameter's: for a text that is a number, that number,
and for a name, that of a parameter that is reported under the name. -/
def Fits (query before : List Placeholder) (p : Placeholder) : Prop :=
  match kindOf p.text with
  | .anonymous => True
  | .number => numberOf before p = digitsValue p.text
  | .name => reported query (numberOf before p) = p.text

/-- The texts that are reported are of several kinds, or those of the query are not and its
placeholders fit. -/
def Agrees (query : List Placeholder) : Prop :=
  Mixed (placeholderNames query) ∨
    ¬Mixed (query.map Placeholder.text) ∧
      ∀ before p after, query = before ++ p :: after → Fits query before p

section Agreement

variable {query : List Placeholder} {k : Kind}

theorem getPlaceholderNames_eq {σ : Type} {r : SqliteResult σ}
    (h : r.handle.stmt.parameters = parameterNames query) :
    r.getPlaceholderNames = placeholderNames query := by
  rw [SqliteResult.getPlaceholderNames, h, parameterNames, placeholderNames, List.map_map]
  apply List.map_congr_left
  intro i _
  simp only [Function.comp_apply]
  cases (numbered query).numToName (i + 1) with
  | none => rfl
  | some p => simp

/-- The texts that are reported have the kind of those of the query, unless there are gaps. -/
theorem kind_reported (hquery : ∀ p ∈ query, kindOf p.text = k)
    (hmixed : ¬Mixed (placeholderNames query)) : ∀ a ∈ placeholderNames query, kindOf a = k := by
  cases query with
  | nil => exact List.forall_mem_nil _
  | cons p after =>
    by_cases hk : k = .anonymous
    · subst hk
      have hempty : ∀ q ∈ p :: after, q.text = "" := fun q hq => kindOf_anonymous.mp (hquery q hq)
      intro a ha
      rw [placeholderNames, numbered_anonymous hempty, List.mem_map] at ha
      obtain ⟨i, -, rfl⟩ := ha
      exact kindOf_anonymous.mpr rfl
    · have hp : p.text ≠ "" := by
        intro htext
        exact hk ((hquery p List.mem_cons_self).symm.trans (kindOf_anonymous.mpr htext))
      have hmem := reported_mem [] p after
      obtain ⟨q, hq, hname⟩ := mem_placeholderNames hmem (reported_ne_empty [] hp after)
      intro a ha
      by_contra hne
      apply hmixed
      refine ⟨a, ha, _, hmem, fun heq => hne (heq.trans ?_)⟩
      rw [← hname]
      exact hquery q hq

theorem placeholderNames_ne_nil (before : List Placeholder) (p : Placeholder)
    (after : List Placeholder) : placeholderNames (before ++ p :: after) ≠ [] :=
  List.ne_nil_of_mem (reported_mem before p after)

/-- What one kind of placeholders, which fit, makes of a list that is accepted. -/
theorem fits_receives {α : Type} {asText : α → α} {allow : Bool} {params : RList α}
    {bound : List α} {warnings : List String} {before after : List Placeholder} {p : Placeholder}
    (hquery : ∀ q ∈ before ++ p :: after, kindOf q.text = k)
    (hnames : ∀ a ∈ placeholderNames (before ++ p :: after), kindOf a = k)
    (hfits : Fits (before ++ p :: after) before p)
    (hbind : dbBind asText (placeholderNames (before ++ p :: after)) allow params =
      .ok (bound, warnings)) :
    bound[numberOf before p - 1]? = (expected params before p).map asText := by
  have hkp : kindOf p.text = k := hquery p (by simp)
  rw [dbBind_unmixed hnames] at hbind
  have hnil := placeholderNames_ne_nil before p after
  have hpositional : k ≠ .name → bound = params.values.map asText := by
    intro hk
    rw [if_pos ⟨hnil, hk⟩] at hbind
    split at hbind
    · cases hbind
    · cases hbind
      rfl
  unfold expected
  unfold Fits at hfits
  cases k with
  | anonymous =>
    have hempty : ∀ q ∈ before, q.text = "" := by
      intro q hq
      exact kindOf_anonymous.mp (hquery q (by simp [hq]))
    have hnumber : numberOf before p = before.length + 1 := by
      rw [numberOf, numbered_anonymous hempty, assignVarNumber, if_pos (kindOf_anonymous.mp hkp)]
    have hfilter : before.filter (fun q => q.text = "") = before := by
      rw [List.filter_eq_self]
      intro q hq
      simpa using hempty q hq
    rw [hkp, hpositional (by decide), hnumber]
    simp only [hfilter, Nat.add_sub_cancel, List.getElem?_map]
  | number =>
    rw [hkp] at hfits ⊢
    simp only at hfits
    rw [hpositional (by decide), hfits, List.getElem?_map]
  | name =>
    rw [hkp] at hfits ⊢
    simp only at hfits
    rw [if_neg (by simp), bindNamed] at hbind
    cases hindexes : paramIndexes (placeholderNames (before ++ p :: after)) params with
    | none =>
      rw [hindexes] at hbind
      cases hbind
    | some indexes =>
      rw [hindexes] at hbind
      simp only at hbind
      split at hbind
      · cases hbind
      · cases hbind
        rw [List.getElem?_map, matched_getElem? hindexes, placeholderNames_at, Option.bind_some,
          hfits]

/-- A list with a name that is not matched leaves a position over. -/
theorem unmatched_ne_nil {α : Type} {params : RList α} {texts : List String} {indexes : List Nat}
    (hindexes : paramIndexes texts params = some indexes) {i : Nat} {name : String}
    (hi : (params.names.getD [])[i]? = some name)
    (hunused : name ∉ texts ∨ ∃ j < i, (params.names.getD [])[j]? = some name) :
    unmatched params indexes ≠ [] := by
  have hlt : i < params.values.length := by
    obtain ⟨hlen, -⟩ := List.getElem?_eq_some_iff.mp hi
    cases hnames : params.names with
    | none => simp [hnames] at hlen
    | some ns =>
      rw [← params.sameLength ns hnames]
      simpa [hnames] using hlen
  have hnot : i ∉ indexes := by
    intro hmem
    obtain ⟨t, ht, hidx⟩ := mem_paramIndexes hindexes hmem
    rw [List.idxOf?_eq_some_iff] at hidx
    obtain ⟨hlen, hname, hfirst⟩ := hidx
    have hsame : name = t := by
      rw [List.getElem?_eq_getElem hlen, hname] at hi
      exact (Option.some.inj hi).symm
    obtain hno | ⟨j, hj, hjname⟩ := hunused
    · exact hno (hsame ▸ ht)
    · apply hfirst j hj
      obtain ⟨hjlen, hjval⟩ := List.getElem?_eq_some_iff.mp hjname
      rw [hjval, hsame]
  apply List.ne_nil_of_mem (a := i)
  rw [unmatched, List.mem_filter]
  exact ⟨List.mem_range.mpr hlt, by simpa using hnot⟩

theorem bindNamed_unmatched {α : Type} {asText : α → α} {params : RList α} {texts : List String}
    (h : ∀ indexes, paramIndexes texts params = some indexes → unmatched params indexes ≠ []) :
    ∃ message, bindNamed asText texts false params = .error message := by
  unfold bindNamed
  cases hindexes : paramIndexes texts params with
  | none => exact ⟨_, rfl⟩
  | some indexes =>
    refine ⟨unusedMessage params (unmatched params indexes), ?_⟩
    simp [h indexes hindexes]

theorem fits_refuses {α : Type} {asText : α → α} {allow : Bool} {params : RList α}
    (hquery : ∀ q ∈ query, kindOf q.text = k) (hnames : ∀ a ∈ placeholderNames query, kindOf a = k)
    (hfits : ∀ before p after, query = before ++ p :: after → Fits query before p)
    (hrefused : Refused query allow params) :
    ∃ message, dbBind asText (placeholderNames query) allow params = .error message := by
  rw [dbBind_unmixed hnames]
  obtain hmixed | ⟨p, hp, hkind, hmissing⟩ | ⟨rfl, i, name, hi, hunused⟩ := hrefused
  · obtain ⟨a, ha, b, hb, hne⟩ := hmixed
    obtain ⟨p, hp, rfl⟩ := List.mem_map.mp ha
    obtain ⟨q, hq, rfl⟩ := List.mem_map.mp hb
    exact absurd ((hquery p hp).trans (hquery q hq).symm) hne
  · have hk : k = .name := (hquery p hp).symm.trans hkind
    obtain ⟨before, after, rfl⟩ := List.append_of_mem hp
    have hfit := hfits before p after rfl
    rw [Fits, hkind] at hfit
    have hnone : paramIndexes (placeholderNames (before ++ p :: after)) params = none := by
      rw [paramIndexes_eq_none]
      exact ⟨_, reported_mem before p after, hfit ▸ hmissing⟩
    rw [if_neg (fun h => h.2 hk), bindNamed, hnone]
    exact ⟨_, rfl⟩
  · by_cases hpositional : placeholderNames query ≠ [] ∧ k ≠ .name
    · have hsome : params.names.isSome = true := by
        cases hnames : params.names with
        | none => simp [hnames] at hi
        | some ns => rfl
      rw [if_pos hpositional, if_pos hsome]
      exact ⟨_, rfl⟩
    · rw [if_neg hpositional]
      apply bindNamed_unmatched
      intro indexes hindexes
      apply unmatched_ne_nil hindexes hi
      obtain hno | hbefore := hunused
      · refine .inl fun hmem => ?_
        have hk : k = .name := by
          by_contra hne
          exact hpositional ⟨List.ne_nil_of_mem hmem, hne⟩
        have hne : name ≠ "" := by
          intro hempty
          have hanonymous := kindOf_anonymous.mpr hempty
          rw [hnames name hmem, hk] at hanonymous
          cases hanonymous
        obtain ⟨q, hq, hname⟩ := mem_placeholderNames hmem hne
        exact hno q hq ((hquery q hq).trans hk) hname
      · exact .inr hbefore

theorem dbBindResult_refused {σ : Type} {env : Environment} {asText : Param → Param} {allow : Bool}
    {params : RList Param} {r : SqliteResult σ}
    (hparameters : r.handle.stmt.parameters = parameterNames query)
    (h : ∃ message, dbBind asText (placeholderNames query) allow params = .error message) :
    ∃ message, dbBindResult env asText allow params r = .error (.stop message) r := by
  obtain ⟨message, herror⟩ := h
  rw [← getPlaceholderNames_eq hparameters] at herror
  exact ⟨message, dbBindResult_error herror⟩

/-- In a query of placeholders that fit, all receive what they should. -/
theorem agrees_associates (h : Agrees query) : Associates query := by
  have hrefuses : ∀ (α : Type) (asText : α → α) (allow : Bool) (params : RList α),
      Refused query allow params →
      ∃ message, dbBind asText (placeholderNames query) allow params = .error message := by
    intro α asText allow params hrefused
    by_cases hmixed : Mixed (placeholderNames query)
    · exact dbBind_mixed hmixed
    · obtain ⟨hunmixed, hfits⟩ := h.resolve_left hmixed
      obtain ⟨k, hk⟩ := not_mixed hunmixed
      have hquery : ∀ q ∈ query, kindOf q.text = k :=
        fun q hq => hk _ (List.mem_map_of_mem hq)
      exact fits_refuses hquery (kind_reported hquery hmixed) hfits hrefused
  refine ⟨?_, hrefuses, ?_⟩
  · intro α asText allow params bound warnings hbind before p after hsplit
    have hmixed : ¬Mixed (placeholderNames query) := by
      intro hmixed
      obtain ⟨message, herror⟩ : ∃ message, dbBind asText (placeholderNames query) allow params =
          .error message := dbBind_mixed hmixed
      rw [herror] at hbind
      cases hbind
    obtain ⟨hunmixed, hfits⟩ := h.resolve_left hmixed
    obtain ⟨k, hk⟩ := not_mixed hunmixed
    have hquery : ∀ q ∈ query, kindOf q.text = k :=
      fun q hq => hk _ (List.mem_map_of_mem hq)
    have hnames := kind_reported hquery hmixed
    have hfit := hfits before p after hsplit
    subst hsplit
    exact fits_receives hquery hnames hfit hbind
  · intro σ env asText allow params r hparameters hrefused
    exact dbBindResult_refused hparameters (hrefuses Param asText allow params hrefused)

/-- A list whose elements are their own positions. -/
def positions (n : Nat) : RList Nat where
  values := List.range n
  names := none
  sameLength := by
    intro ns h
    cases h

def labels (texts : List String) : RList Nat where
  values := List.range texts.dedup.length
  names := some texts.dedup
  sameLength := by
    intro ns h
    cases h
    simp

theorem labels_get (texts : List String) (name : String) :
    (labels texts).get name = texts.dedup.idxOf? name := by
  rw [RList.get, labels]
  simp only [Option.getD_some]
  cases hi : texts.dedup.idxOf? name with
  | none => rfl
  | some i =>
    obtain ⟨hlt, -⟩ := List.idxOf?_eq_some_iff.mp hi
    rw [Option.bind_some, List.getElem?_range hlt]

theorem idxOf?_nodup {l : List String} (hl : l.Nodup) {i : Nat} (hi : i < l.length) :
    l.idxOf? l[i] = some i := by
  rw [List.idxOf?_eq_some_iff]
  refine ⟨hi, rfl, fun j hj hsame => ?_⟩
  exact (Nat.ne_of_lt hj) (hl.getElem_inj_iff.mp hsame)

theorem labels_accepted (texts : List String) : ∃ indexes,
    paramIndexes texts (labels texts) = some indexes ∧ unmatched (labels texts) indexes = [] := by
  cases hindexes : paramIndexes texts (labels texts) with
  | none =>
    obtain ⟨name, hname, hno⟩ := paramIndexes_eq_none.mp hindexes
    exact absurd (List.mem_dedup.mpr hname) hno
  | some indexes =>
    refine ⟨indexes, rfl, ?_⟩
    rw [unmatched, List.filter_eq_nil_iff]
    intro i hi
    have hlt : i < texts.dedup.length := by simpa [labels] using hi
    have hmem := paramIndexes_mem hindexes (List.mem_dedup.mp (List.getElem_mem hlt))
      (idxOf?_nodup (List.nodup_dedup texts) hlt)
    simpa using hmem

theorem foldl_digits_pos (cs : List Char) {n : Nat} (hn : 0 < n) :
    0 < cs.foldl (fun n c => 10 * n + (c.toNat - '0'.toNat)) n := by
  induction cs generalizing n with
  | nil => exact hn
  | cons c cs ih =>
    exact ih (Nat.add_pos_left (Nat.mul_pos (by decide) hn) _)

theorem digitsValue_pos {text : String} (h : isNumber text = true) : 0 < digitsValue text := by
  unfold isNumber at h
  unfold digitsValue
  cases htext : text.toList with
  | nil =>
    rw [htext] at h
    cases h
  | cons c cs =>
    rw [htext] at h
    simp only [Bool.and_eq_true, decide_eq_true_eq] at h
    obtain ⟨⟨hdigit, hzero⟩, -⟩ := h
    rw [List.foldl_cons]
    apply foldl_digits_pos
    have hle : '0'.toNat ≤ c.toNat := by
      simp only [Char.isDigit, Bool.and_eq_true, decide_eq_true_eq] at hdigit
      exact hdigit.1
    have hne : c.toNat ≠ '0'.toNat := by
      intro heq
      exact hzero (Char.toNat_inj.mp heq)
    omega

/-- The reported texts of one kind accept a list whose elements tell their positions. -/
theorem positions_accepted (hk : k ≠ .name) (hnames : ∀ a ∈ placeholderNames query, kindOf a = k)
    (hne : placeholderNames query ≠ []) (n : Nat) :
    dbBind id (placeholderNames query) false (positions n) = .ok (List.range n, []) := by
  rw [dbBind_unmixed hnames, if_pos ⟨hne, hk⟩]
  simp [positions]

theorem labels_bound (hnames : ∀ a ∈ placeholderNames query, kindOf a = .name) : ∃ bound,
    dbBind id (placeholderNames query) false (labels (placeholderNames query)) = .ok (bound, []) ∧
      ∀ i : Nat, bound[i]? = (placeholderNames query)[i]?.bind fun name =>
        (placeholderNames query).dedup.idxOf? name := by
  obtain ⟨indexes, hindexes, hunmatched⟩ := labels_accepted (placeholderNames query)
  refine ⟨indexes.filterMap fun i => (labels (placeholderNames query)).values[i]?, ?_, ?_⟩
  · rw [dbBind_unmixed hnames, if_neg (by simp), bindNamed, hindexes]
    simp [hunmatched]
  · intro i
    rw [matched_getElem? hindexes]
    cases (placeholderNames query)[i]? with
    | none => rfl
    | some name => exact labels_get _ name

theorem reported_accepted (hnames : ∀ a ∈ placeholderNames query, kindOf a = k) :
    ∃ (params : RList Nat) (bound : List Nat),
      dbBind id (placeholderNames query) false params = .ok (bound, []) := by
  by_cases hk : placeholderNames query ≠ [] ∧ k ≠ .name
  · exact ⟨_, _, positions_accepted hk.2 hnames hk.1 0⟩
  · have hname : ∀ a ∈ placeholderNames query, kindOf a = .name := by
      intro a ha
      rw [hnames a ha]
      by_contra hne
      exact hk ⟨List.ne_nil_of_mem ha, hne⟩
    obtain ⟨bound, hbound, -⟩ := labels_bound hname
    exact ⟨_, bound, hbound⟩

theorem associates_unmixed (h : Associates query) (hmixed : ¬Mixed (placeholderNames query)) :
    ¬Mixed (query.map Placeholder.text) := by
  intro hquery
  obtain ⟨k, hnames⟩ := not_mixed hmixed
  obtain ⟨params, bound, hbind⟩ := reported_accepted hnames
  obtain ⟨message, herror⟩ := h.refuses Nat id false params (.inl hquery)
  rw [hbind] at herror
  cases herror

/-- Where a placeholder does not fit, a list is accepted that goes wrong. -/
theorem associates_fits {before after : List Placeholder} {p : Placeholder}
    (h : Associates (before ++ p :: after))
    (hquery : ∀ q ∈ before ++ p :: after, kindOf q.text = k)
    (hnames : ∀ a ∈ placeholderNames (before ++ p :: after), kindOf a = k) :
    Fits (before ++ p :: after) before p := by
  have hreceives := fun params bound hbind => h.receives Nat id false params bound []
    hbind before p after rfl
  have hkind : kindOf p.text = k := hquery p (by simp)
  obtain ⟨hpos, hle, -⟩ := numberOf_spec before p after
  unfold Fits
  unfold expected at hreceives
  rw [hkind] at hreceives ⊢
  cases k with
  | anonymous => trivial
  | number =>
    have hvalue := digitsValue_pos (kindOf_number.mp hkind)
    have hbound := hreceives _ _ (positions_accepted (by decide) hnames
      (placeholderNames_ne_nil before p after) (numbered (before ++ p :: after)).nVar)
    rw [List.getElem?_range (by omega)] at hbound
    simp only [positions, Option.map_id_fun, id_eq] at hbound
    obtain ⟨_, hat⟩ := List.getElem?_eq_some_iff.mp hbound.symm
    rw [List.getElem_range] at hat
    omega
  | name =>
    obtain ⟨bound, hbind, hat⟩ := labels_bound hnames
    have hbound := hreceives _ _ hbind
    rw [hat, placeholderNames_at, Option.bind_some] at hbound
    simp only [labels_get, Option.map_id_fun, id_eq] at hbound
    cases hi : (placeholderNames (before ++ p :: after)).dedup.idxOf?
        (reported (before ++ p :: after) (numberOf before p)) with
    | none =>
      rw [List.idxOf?_eq_none_iff] at hi
      exact absurd (List.mem_dedup.mpr (reported_mem before p after)) hi
    | some i =>
      rw [hi] at hbound
      obtain ⟨hlt, hreported, -⟩ := List.idxOf?_eq_some_iff.mp hi
      obtain ⟨_, htext, -⟩ := List.idxOf?_eq_some_iff.mp hbound.symm
      exact hreported.symm.trans htext

theorem associates_agrees (h : Associates query) : Agrees query := by
  by_cases hmixed : Mixed (placeholderNames query)
  · exact .inl hmixed
  · have hunmixed := associates_unmixed h hmixed
    refine .inr ⟨hunmixed, ?_⟩
    obtain ⟨k, hk⟩ := not_mixed hunmixed
    intro before p after hsplit
    subst hsplit
    have hquery : ∀ q ∈ before ++ p :: after, kindOf q.text = k :=
      fun q hq => hk _ (List.mem_map_of_mem hq)
    exact associates_fits h hquery (kind_reported hquery hmixed)

end Agreement

/-- The placeholders of a query receive their parameters, and lists that do not suit it are
refused, exactly when the query agrees with the numbers that SQLite gives it. -/
theorem associates_iff (query : List Placeholder) : Associates query ↔ Agrees query :=
  ⟨associates_agrees, agrees_associates⟩

/-- The placeholders `:2` and `:1` have the numbers 1 and 2. -/
theorem numbers_swapped : ¬∀ query : List Placeholder, Associates query := by
  intro h
  have hswap := (h [⟨.colon, "2", by decide⟩, ⟨.colon, "1", by decide⟩]).receives Nat id false
    { values := [10, 20], names := none, sameLength := fun ns h => by cases h } [10, 20] []
    (by decide +kernel) [] _ _ rfl
  revert hswap
  decide +kernel

end RSQLCipher.Association
