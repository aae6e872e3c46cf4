import RSQLCipher.Library.Quoted
import RSQLCipher.Library.Regexp

namespace RSQLCipher.Identifiers

open RSQLCipher.Library Regexp

/-- The components of an `Id`, with their names. -/
abbrev Id := List (String × String)

def isTick (c : Char) : Bool := c == '`'

def isPlain (c : Char) : Bool := c != '`' && c != '.' && c != ' '

def tick : Regexp Char := .set isTick

/-- What is repeated between backticks. -/
def body : Regexp Char := .alt (.set (!isTick ·)) (.seq tick tick)

/-- The alternatives of `id_rx`, whose groups are the text between backticks and the
plain text. -/
def idRx (quoted plain : ℕ) : Regexp Char :=
  .alt (.seq tick (.seq (.group quoted (.plus body)) tick))
    (.group plain (.plus (.set isPlain)))

/-- The anchors are left out: it is matched against whole texts. -/
def rx : Regexp Char :=
  .seq (.alt .empty (.seq (idRx 1 2) (.set (· == '.')))) (.alt .empty (idRx 3 4))

def quote (s : String) : String := "`" ++ String.ofList (twice '`' s.toList) ++ "`"

/-- The names of `x` are left out. -/
def dbQuoteIdentifier (x : List (Option String)) : Except String (List String) :=
  if x.any Option.isNone then .error "Cannot pass NA to dbQuoteIdentifier()"
  else .ok ((x.filterMap id).map quote)

/-- `gsub` with the expression, replacing a match by groups. -/
def gsubGroups (E : Engine Char) (groups : List ℕ) (x : Option String) : Option String :=
  x.map fun s =>
    match E.run rx s.toList with
    | none => s
    | some g => String.ofList (groups.flatMap fun n => (g.lookup n).getD [])

def gsubTicks (x : Option String) : Option String :=
  x.map fun s => String.ofList (halve '`' s.toList)

def asTable (schema table : Option String) : Id :=
  [("schema", schema), ("table", table)].filterMap fun (name, arg) =>
    match arg with
    | none => none
    | some s => if s = "" then none else some (name, s)

def grepRx (E : Engine Char) (x : Option String) : Bool :=
  x.any fun s => (E.run rx s.toList).isSome

def dbUnquoteIdentifier (E : Engine Char) (x : List (Option String)) : Except String (List Id) :=
  match x.find? (!grepRx E ·) with
  | some bad => .error ("Can't unquote " ++ bad.getD "NA")
  | none =>
    let schema := (x.map (gsubGroups E [1, 2])).map gsubTicks
    let table := (x.map (gsubGroups E [3, 4])).map gsubTicks
    .ok (schema.zipWith asTable table)

theorem matches_tick {s : List Char} {g : Groups Char} :
    Matches tick s g ↔ s = ['`'] ∧ g = [] := by
  rw [tick, matches_set]
  constructor
  · rintro ⟨c, hc, rfl, rfl⟩
    rw [isTick, beq_iff_eq] at hc
    exact ⟨by rw [hc], rfl⟩
  · rintro ⟨rfl, rfl⟩
    exact ⟨'`', rfl, rfl, rfl⟩

/-- A round of the expression between backticks reads one character. -/
theorem matches_body {s : List Char} {g : Groups Char} :
    Matches body s g ↔ (∃ c, s = twice '`' [c]) ∧ g = [] := by
  rw [body, matches_alt, matches_set, matches_seq]
  simp only [matches_tick]
  constructor
  · rintro (⟨c, hc, rfl, rfl⟩ | ⟨_, _, _, _, ⟨rfl, rfl⟩, ⟨rfl, rfl⟩, rfl, rfl⟩)
    · have hne : c ≠ '`' := by simpa [isTick] using hc
      exact ⟨⟨c, by simp [twice, hne]⟩, rfl⟩
    · exact ⟨⟨'`', rfl⟩, rfl⟩
  · rintro ⟨⟨c, rfl⟩, rfl⟩
    by_cases hc : c = '`'
    · exact .inr ⟨['`'], ['`'], [], [], ⟨rfl, rfl⟩, ⟨rfl, rfl⟩, by simp [twice, hc], rfl⟩
    · exact .inl ⟨c, by simp [isTick, hc], by simp [twice, hc], rfl⟩

theorem matches_plus_body {s : List Char} {g : Groups Char} :
    Matches (.plus body) s g ↔ (∃ u, u ≠ [] ∧ s = twice '`' u) ∧ g = [] := by
  constructor
  · apply matches_plus_induction
    · intro s g h
      obtain ⟨⟨c, rfl⟩, rfl⟩ := matches_body.mp h
      exact ⟨⟨[c], List.cons_ne_nil c [], rfl⟩, rfl⟩
    · rintro s g _ _ h ⟨⟨u, -, rfl⟩, rfl⟩
      obtain ⟨⟨c, rfl⟩, rfl⟩ := matches_body.mp h
      exact ⟨⟨[c] ++ u, by simp, (twice_append _ _ _).symm⟩, rfl⟩
  · rintro ⟨⟨u, hu, rfl⟩, rfl⟩
    induction u with
    | nil => exact absurd rfl hu
    | cons c u ih =>
      have hc : Matches body (twice '`' [c]) [] := matches_body.mpr ⟨⟨c, rfl⟩, rfl⟩
      cases u with
      | nil => exact .plusOne hc
      | cons d u =>
        have hrest := ih (List.cons_ne_nil d u)
        have happend := twice_append '`' [c] (d :: u)
        rw [List.singleton_append] at happend
        rw [happend]
        exact .plusMore hc hrest

/-- A text between backticks, in which backticks are doubled. -/
def ticked (u : List Char) : List Char := '`' :: (twice '`' u ++ ['`'])

theorem matches_idRx {quoted plain : ℕ} {s : List Char} {g : Groups Char} :
    Matches (idRx quoted plain) s g ↔
      (∃ u, u ≠ [] ∧ s = ticked u ∧ g = [(quoted, twice '`' u)]) ∨
        Matches (.group plain (.plus (.set isPlain))) s g := by
  rw [idRx, matches_alt]
  apply or_congr_left
  simp only [matches_seq, matches_group, matches_plus_body, matches_tick]
  constructor
  · rintro ⟨_, _, _, _, ⟨rfl, rfl⟩,
      ⟨_, _, _, _, ⟨_, ⟨⟨u, hu, rfl⟩, rfl⟩, rfl⟩, ⟨rfl, rfl⟩, rfl, rfl⟩, rfl, rfl⟩
    exact ⟨u, hu, rfl, rfl⟩
  · rintro ⟨u, hu, rfl, rfl⟩
    exact ⟨['`'], _, [], _, ⟨rfl, rfl⟩,
      ⟨_, ['`'], _, [], ⟨[], ⟨⟨u, hu, rfl⟩, rfl⟩, rfl⟩, ⟨rfl, rfl⟩, rfl, rfl⟩, rfl, rfl⟩

theorem head_plain {plain : ℕ} {s : List Char} {g : Groups Char}
    (h : Matches (.group plain (.plus (.set isPlain))) s g) : ∃ c t, s = c :: t ∧ isPlain c := by
  obtain ⟨g', hplus, -⟩ := matches_group.mp h
  refine matches_plus_induction (motive := fun s _ => ∃ c t, s = c :: t ∧ isPlain c) ?_ ?_ hplus
  · intro s g hset
    obtain ⟨c, hc, rfl, rfl⟩ := matches_set.mp hset
    exact ⟨c, [], rfl, hc⟩
  · intro s g s' g' hset _
    obtain ⟨c, hc, rfl, rfl⟩ := matches_set.mp hset
    exact ⟨c, s', rfl, hc⟩

/-- Where an identifier begins with a backtick, it is read up to the backtick that closes
it. -/
theorem matches_ticked {quoted plain : ℕ} {a : List Char} {g : Groups Char}
    (rest u t : List Char) (h : Matches (idRx quoted plain) a g) (heq : a ++ rest = ticked u ++ t)
    (hrest : rest.head? ≠ some '`') (ht : t.head? ≠ some '`') :
    u ≠ [] ∧ g = [(quoted, twice '`' u)] ∧ rest = t := by
  obtain ⟨v, hv, rfl, rfl⟩ | hplain := matches_idRx.mp h
  · simp only [ticked, List.cons_append, List.append_assoc, List.nil_append,
      List.cons.injEq, true_and] at heq
    have hscan := scanQuoted_twice v hrest
    rw [heq, scanQuoted_twice u ht] at hscan
    simp only [Option.some.injEq, Prod.mk.injEq] at hscan
    obtain ⟨rfl, rfl⟩ := hscan
    exact ⟨hv, rfl, rfl⟩
  · obtain ⟨c, s, rfl, hc⟩ := head_plain hplain
    rw [ticked, List.cons_append, List.cons_append, List.cons.injEq] at heq
    rw [heq.1] at hc
    cases hc

theorem matches_rx {s : List Char} {g : Groups Char} :
    Matches rx s g ↔ ∃ a b ga gb,
      (a = [] ∧ ga = [] ∨ ∃ x, Matches (idRx 1 2) x ga ∧ a = x ++ ['.']) ∧
      (b = [] ∧ gb = [] ∨ Matches (idRx 3 4) b gb) ∧ s = a ++ b ∧ g = ga ++ gb := by
  have hdot : ∀ {a ga}, Matches (.seq (idRx 1 2) (.set (· == '.'))) a ga ↔
      ∃ x, Matches (idRx 1 2) x ga ∧ a = x ++ ['.'] := by
    intro a ga
    simp only [matches_seq, matches_set, beq_iff_eq]
    constructor
    · rintro ⟨x, _, gx, _, hx, ⟨_, rfl, rfl, rfl⟩, rfl, rfl⟩
      exact ⟨x, (List.append_nil gx).symm ▸ hx, rfl⟩
    · rintro ⟨x, hx, rfl⟩
      exact ⟨x, ['.'], ga, [], hx, ⟨'.', rfl, rfl, rfl⟩, rfl, (List.append_nil ga).symm⟩
  simp only [rx, matches_seq, matches_alt, matches_empty, hdot]

/-- A quoted name has one reading. -/
theorem matches_rx_table {t : List Char} (ht : t ≠ []) {g : Groups Char} :
    Matches rx (ticked t) g ↔ g = [(3, twice '`' t)] := by
  rw [matches_rx]
  constructor
  · rintro ⟨a, b, ga, gb, ⟨rfl, rfl⟩ | ⟨x, hx, rfl⟩, hb, heq, rfl⟩
    · obtain ⟨rfl, rfl⟩ | hb := hb
      · cases heq
      · have hticked := matches_ticked [] t [] hb (by simp [heq])
          (by simp) (by simp)
        exact hticked.2.1
    · have hticked := matches_ticked ('.' :: b) t [] hx (by simp [heq])
        (by simp) (by simp)
      cases hticked.2.2
  · rintro rfl
    exact ⟨[], ticked t, [], _, .inl ⟨rfl, rfl⟩, .inr (matches_idRx.mpr (.inl ⟨t, ht, rfl, rfl⟩)),
      rfl, rfl⟩

/-- Two quoted names with a dot between them have one reading: no other dot divides them. -/
theorem matches_rx_schema {s t : List Char} (hs : s ≠ []) (ht : t ≠ []) {g : Groups Char} :
    Matches rx (ticked s ++ '.' :: ticked t) g ↔ g = [(1, twice '`' s), (3, twice '`' t)] := by
  rw [matches_rx]
  constructor
  · rintro ⟨a, b, ga, gb, ⟨rfl, rfl⟩ | ⟨x, hx, rfl⟩, hb, heq, rfl⟩
    · obtain ⟨rfl, rfl⟩ | hb := hb
      · cases heq
      · have hticked := matches_ticked [] s ('.' :: ticked t) hb
          (by simp [heq]) (by simp) (by simp)
        cases hticked.2.2
    · have hticked := matches_ticked ('.' :: b) s ('.' :: ticked t) hx
        (by simp [heq]) (by simp) (by simp)
      obtain ⟨-, rfl, hrest⟩ := hticked
      rw [List.cons.injEq] at hrest
      obtain ⟨rfl, rfl⟩ | hb := hb
      · cases hrest.2
      · have hticked' := matches_ticked [] t [] hb (by simp [hrest.2])
          (by simp) (by simp)
        rw [hticked'.2.1]
        rfl
  · rintro rfl
    refine ⟨ticked s ++ ['.'], ticked t, [(1, twice '`' s)], [(3, twice '`' t)], .inr ?_, .inr ?_,
      by simp, rfl⟩
    · exact ⟨ticked s, matches_idRx.mpr (.inl ⟨s, hs, rfl, rfl⟩), rfl⟩
    · exact matches_idRx.mpr (.inl ⟨t, ht, rfl, rfl⟩)

variable {E : Engine Char}

theorem toList_quote (s : String) : (quote s).toList = ticked s.toList := by
  simp [quote, ticked]

theorem run_quote (E : Engine Char) {t : String} (ht : t ≠ "") :
    E.run rx (quote t).toList = some [(3, twice '`' t.toList)] := by
  have hne : t.toList ≠ [] := by simpa using ht
  rw [toList_quote]
  exact E.run_eq ((matches_rx_table hne).mpr rfl) fun g h => (matches_rx_table hne).mp h

theorem run_quote_dot (E : Engine Char) {s t : String} (hs : s ≠ "") (ht : t ≠ "") :
    E.run rx (quote s ++ "." ++ quote t).toList =
      some [(1, twice '`' s.toList), (3, twice '`' t.toList)] := by
  have hs' : s.toList ≠ [] := by simpa using hs
  have ht' : t.toList ≠ [] := by simpa using ht
  have hlist : (quote s ++ "." ++ quote t).toList = ticked s.toList ++ '.' :: ticked t.toList := by
    simp [toList_quote]
  rw [hlist]
  exact E.run_eq ((matches_rx_schema hs' ht').mpr rfl) fun g h => (matches_rx_schema hs' ht').mp h

/-- What becomes of a text that is not bad. -/
def unquoted (E : Engine Char) (s : String) : Id :=
  asTable (gsubTicks (gsubGroups E [1, 2] (some s))) (gsubTicks (gsubGroups E [3, 4] (some s)))

theorem dbUnquoteIdentifier_ok {x : List String} (h : ∀ s ∈ x, (E.run rx s.toList).isSome) :
    dbUnquoteIdentifier E (x.map some) = .ok (x.map (unquoted E)) := by
  have hgood : (x.map some).find? (!grepRx E ·) = none := by
    simp only [List.find?_eq_none, List.forall_mem_map, grepRx]
    intro s hs
    simp [h s hs]
  rw [dbUnquoteIdentifier, hgood]
  simp only [List.map_map, List.zipWith_map, List.zipWith_self]
  rfl

theorem unquoted_of_run {s : String} {g : Groups Char} (h : E.run rx s.toList = some g) :
    unquoted E s = asTable
      (some (String.ofList (halve '`' ((g.lookup 1).getD [] ++ (g.lookup 2).getD []))))
      (some (String.ofList (halve '`' ((g.lookup 3).getD [] ++ (g.lookup 4).getD [])))) := by
  simp [unquoted, gsubGroups, gsubTicks, h]

theorem unquoted_quote {t : String} (ht : t ≠ "") : unquoted E (quote t) = [("table", t)] := by
  rw [unquoted_of_run (run_quote E ht)]
  simp [List.lookup_cons, halve, halve_twice, asTable, ht]

theorem unquoted_quote_dot {s t : String} (hs : s ≠ "") (ht : t ≠ "") :
    unquoted E (quote s ++ "." ++ quote t) = [("schema", s), ("table", t)] := by
  rw [unquoted_of_run (run_quote_dot E hs ht)]
  simp [List.lookup_cons, halve_twice, asTable, hs, ht]

theorem quote_injective : Function.Injective quote := by
  intro s t h
  have hlist := congrArg String.toList h
  rw [toList_quote, toList_quote, ticked, ticked, List.cons.injEq] at hlist
  have htwice := List.append_cancel_right hlist.2
  have hhalf := congrArg (halve '`') htwice
  rw [halve_twice, halve_twice] at hhalf
  exact String.toList_inj.mp hhalf

theorem dbQuoteIdentifier_some (x : List String) :
    dbQuoteIdentifier (x.map some) = .ok (x.map quote) := by
  simp [dbQuoteIdentifier]

/-- Whatever stands in them, quoted names are read back as they were, with every matcher. -/
theorem identifiers_round_trip (E : Engine Char) :
    (∀ ts : List String, (∀ t ∈ ts, t ≠ "") → ∃ q, dbQuoteIdentifier (ts.map some) = .ok q ∧
      dbUnquoteIdentifier E (q.map some) = .ok (ts.map fun t => [("table", t)])) ∧
    (∀ s t : String, s ≠ "" → t ≠ "" → ∃ p q, dbQuoteIdentifier [some s] = .ok [p] ∧
      dbQuoteIdentifier [some t] = .ok [q] ∧
      dbUnquoteIdentifier E [some (p ++ "." ++ q)] = .ok [[("schema", s), ("table", t)]]) ∧
    ∀ s t : String, dbQuoteIdentifier [some s] = dbQuoteIdentifier [some t] → s = t := by
  refine ⟨?_, ?_, ?_⟩
  · intro ts hts
    refine ⟨ts.map quote, dbQuoteIdentifier_some ts, ?_⟩
    have hrun : ∀ s ∈ ts.map quote, (E.run rx s.toList).isSome := by
      intro s hs
      obtain ⟨t, ht, rfl⟩ := List.mem_map.mp hs
      rw [run_quote E (hts t ht)]
      rfl
    rw [dbUnquoteIdentifier_ok hrun, List.map_map]
    exact congrArg _ (List.map_congr_left fun t ht => unquoted_quote (hts t ht))
  · intro s t hs ht
    refine ⟨quote s, quote t, dbQuoteIdentifier_some [s], dbQuoteIdentifier_some [t], ?_⟩
    have hrun : ∀ x ∈ [quote s ++ "." ++ quote t], (E.run rx x.toList).isSome := by
      intro x hx
      rw [List.mem_singleton.mp hx, run_quote_dot E hs ht]
      rfl
    have hok := dbUnquoteIdentifier_ok hrun
    rw [List.map_singleton, List.map_singleton, unquoted_quote_dot hs ht] at hok
    exact hok
  · intro s t h
    have hquote : quote s = quote t := by
      simpa [dbQuoteIdentifier_some [s], dbQuoteIdentifier_some [t]] using
        (dbQuoteIdentifier_some [s]).symm.trans (h.trans (dbQuoteIdentifier_some [t]))
    exact quote_injective hquote

theorem identifiers_round_trip_ticks :
    (∃ q, dbQuoteIdentifier (["`.`", " "].map some) = .ok q ∧
      dbUnquoteIdentifier .trying (q.map some) = .ok (["`.`", " "].map fun t => [("table", t)])) ∧
    (∃ p q, dbQuoteIdentifier [some "``"] = .ok [p] ∧ dbQuoteIdentifier [some "."] = .ok [q] ∧
      dbUnquoteIdentifier .trying [some (p ++ "." ++ q)] = .ok [[("schema", "``"), ("table", ".")]]) :=
  ⟨(identifiers_round_trip .trying).1 ["`.`", " "] (by decide),
    (identifiers_round_trip .trying).2.1 "``" "." (by decide) (by decide)⟩

end RSQLCipher.Identifiers
