import DbSaci.Translate.InsertScan

set_option relaxedAutoImplicit false
set_option autoImplicit false

/-!
# The layout the loops ask for

The MariaDB loop gives up at a clause whose keyword no blank follows, at a table without a column
list, and reads past a `THEN` that no blank precedes to the next one. The last costs it the `INTO`
clauses in between, so a list of clauses is read completely only if it is spaced.

## Main definitions

* `Clause.Simple` — no `THEN` stands in an `INTO` before its `VALUES`, and no `VALUES` in its list.
* `Shaped` — every `WHEN` is followed by an `INTO`.

## Main results

* `length_le_occurrences` — the loop reads no more targets than the text has `VALUES`.
* `spaced_of_readClausesMariadb` — clauses that are read completely are spaced.
-/

namespace DbSaci.Translate

open Text

/-! ### Counting `VALUES` -/

/-- Behind the start of a `VALUES` there is one less. -/
lemma occurrences_drop_lt {s : List Char} (h : startsWith "VALUES".toList s = true) (n : ℕ) :
    occurrences "VALUES".toList (s.drop (n + 1)) < occurrences "VALUES".toList s := by
  cases s with
  | nil => cases h
  | cons c s =>
    rw [occurrences, if_pos h, List.drop_succ_cons]
    have hle : occurrences "VALUES".toList (s.drop n) ≤ occurrences "VALUES".toList s :=
      occurrences_le_of_suffix (List.drop_suffix n s)
    omega

lemma trimStart_suffix (s : List Char) : trimStart s <:+ s := List.dropWhile_suffix _

lemma exists_of_bind_eq_ok {ε α β : Type} {x : Except ε α} {f : α → Except ε β} {b : β}
    (h : x >>= f = .ok b) : ∃ a, x = .ok a ∧ f a = .ok b := by
  cases x with
  | error e => cases h
  | ok a => exact ⟨a, rfl, h⟩

/-- **The loop reads no more targets than the text has `VALUES`.** -/
theorem length_le_occurrences {fuel : ℕ} {rest : List Char} {current : Option When}
    {prior : List (List Char)} {ts : List Target}
    (h : readClausesMariadb fuel rest current prior = .ok ts) :
    ts.length ≤ occurrences "VALUES".toList rest := by
  induction fuel generalizing rest current prior ts with
  | zero =>
    obtain rfl : [] = ts := Except.ok.inj h
    exact Nat.zero_le _
  | succ fuel ih =>
    have hdrop : ∀ (s : List Char) n, occurrences "VALUES".toList (trimStart (s.drop n)) ≤
        occurrences "VALUES".toList s :=
      fun s n => occurrences_le_of_suffix ((trimStart_suffix _).trans (List.drop_suffix n s))
    rw [readClausesMariadb] at h
    split_ifs at h with h0 hwhen helse hinto
    · obtain rfl : [] = ts := Except.ok.inj h
      exact Nat.zero_le _
    · split at h
      · cases h
      · split_ifs at h
        exact (ih h).trans (hdrop _ _)
    · exact (ih h).trans (hdrop _ _)
    · simp only at h
      split at h
      · cases h
      · split_ifs at h with hvalues
        split at h
        · cases h
        · obtain ⟨values, -, h⟩ := exists_of_bind_eq_ok h
          obtain ⟨ts', h', hts⟩ := exists_of_bind_eq_ok h
          obtain rfl := Except.ok.inj hts
          have hle := (ih h').trans ((hdrop _ _).trans (occurrences_le_of_suffix (trimStart_suffix _)))
          refine (Nat.succ_le_of_lt (hle.trans_lt (occurrences_drop_lt hvalues 5))).trans ?_
          refine occurrences_le_of_suffix ?_
          exact (trimStart_suffix _).trans ((List.drop_suffix _ _).trans ((trimStart_suffix _).trans
            ((List.dropWhile_suffix _).trans ((trimStart_suffix _).trans (List.drop_suffix 5 rest)))))

/-! ### Clauses and their lists -/

/-- No list has the word `VALUES` in it, and no ` THEN` comes before a list. -/
def Clause.Simple : Clause → Prop
  | into i => Without "VALUES".toList i.values ∧ Without " THEN".toList i.beforeValues
  | _ => True

instance : ∀ c : Clause, Decidable c.Simple
  | .into i => inferInstanceAs (Decidable (Without "VALUES".toList i.values ∧ _))
  | .when _ => inferInstanceAs (Decidable True)
  | .otherwise _ => inferInstanceAs (Decidable True)

/-- Every `WHEN` is followed by an `INTO`. -/
def Shaped : List Clause → Prop
  | [] => True
  | .when _ :: cs => (∃ i cs', cs = .into i :: cs') ∧ Shaped cs
  | _ :: cs => Shaped cs

namespace IntoClause

variable {i : IntoClause}

/-- Behind its first letter the text from `VALUES` on is quiet. -/
lemma fromValues_quiet (hs : Without "VALUES".toList i.values) (rest : List Char) :
    ∃ c x, i.fromValues rest = c :: (x ++ rest) ∧ Quiet "VALUES".toList x rest := by
  have hspelled := i.kwValues.spelled
  obtain ⟨c, t, ht⟩ : ∃ c t, i.kwValues.text = c :: t := by
    cases ht : i.kwValues.text with
    | nil => rw [ht] at hspelled; cases hspelled
    | cons c t => exact ⟨c, t, rfl⟩
  have htail : upper t = "ALUES".toList := by
    rw [ht, upper_cons] at hspelled
    exact (List.cons.inj hspelled).2
  refine ⟨c, t ++ (i.gapValues ++ ('(' :: (i.values ++ [')']))), ?_, ?_⟩
  · simp [fromValues, ht]
  · refine Quiet.append (Quiet.of_ne (d := 'V') (fun d hd h => ?_) _) ?_
    · have : 'V' ∈ "ALUES".toList := by
        rw [← htail, ← h]
        exact List.mem_map_of_mem hd
      exact absurd this (by decide)
    · refine Quiet.append (quiet_gap i.gaps.2.2.2.1 _) ?_
      refine Quiet.append (x := ['(']) (Quiet.of_ne (d := 'V') (by decide) _) ?_
      refine Quiet.append (Quiet.of_without hs ?_) (Quiet.of_ne (d := 'V') (by decide) _)
      rintro _ ⟨⟩
      decide

/-- An `INTO` clause has one `VALUES`. -/
lemma occurrences_write (hr : (Clause.into i).Readable) (hs : (Clause.into i).Simple)
    (rest : List Char) :
    occurrences "VALUES".toList ((Clause.into i).write rest) =
      1 + occurrences "VALUES".toList rest := by
  obtain ⟨c, x, hx, hq⟩ := fromValues_quiet hs.1 (i.gapEnd ++ rest)
  have hstart := startsWith_values (i := i) (i.gapEnd ++ rest)
  rw [hx] at hstart
  rw [i.write_eq_append, occurrences_quiet (i.quiet_beforeValues hr _), hx, occurrences,
    if_pos hstart, occurrences_quiet hq, occurrences_quiet (quiet_gap i.gaps.2.2.2.2 _)]

end IntoClause

lemma occurrences_writeAll {cs : List Clause} (hr : ∀ c ∈ cs, c.Readable)
    (hs : ∀ c ∈ cs, c.Simple) :
    occurrences "VALUES".toList (writeAll cs []) = Clause.intoCount cs := by
  induction cs with
  | nil => rfl
  | cons c cs ih =>
    simp only [List.mem_cons, forall_eq_or_imp] at hr hs
    have ih := ih hr.2 hs.2
    rw [writeAll_cons]
    cases c with
    | when w =>
      rw [write_eq_append, occurrences_quiet (quiet_write_when hr.1 _), ih]
      rfl
    | otherwise e =>
      rw [write_eq_append, occurrences_quiet (quiet_write_otherwise e _), ih]
      rfl
    | into i =>
      rw [IntoClause.occurrences_write hr.1 hs.1, ih, Nat.add_comm, Clause.intoCount,
        Clause.intoCount, List.countP_cons_of_pos rfl]

/-! ### The search for ` THEN` -/

lemma then_eq : " THEN".toList = ' ' :: 'T' :: "HEN".toList := rfl

/-- White space holds no ` THEN` that starts in it, unless its last blank stands before one. -/
lemma quiet_then_gap {g y : List Char} (hg : Gap g)
    (hy : g.getLast? ≠ some ' ' ∨ ∀ c ∈ y.head?, c.toUpper ≠ 'T') :
    Quiet " THEN".toList g y := by
  induction g with
  | nil => trivial
  | cons d g ih =>
    have htail : Gap g := fun c hc => hg c (List.mem_cons_of_mem _ hc)
    refine ⟨?_, ?_⟩
    · rw [← Bool.not_eq_true, startsWith, List.isPrefixOf_iff_prefix, upper_cons, then_eq]
      intro h
      obtain ⟨hd, h⟩ := List.cons_prefix_cons.1 h
      have hd : d = ' ' := by
        rw [hd, toUpper_of_isWhitespace (hg d List.mem_cons_self)]
      cases g with
      | nil =>
        rcases hy with hy | hy
        · exact hy (by rw [hd]; rfl)
        · cases y with
          | nil => simp at h
          | cons e y => exact hy e rfl (List.cons_prefix_cons.1 h).1.symm
      | cons e g =>
        have he : e.isWhitespace = true := htail e List.mem_cons_self
        have hT : 'T' = e.toUpper := (List.cons_prefix_cons.1 h).1
        rw [toUpper_of_isWhitespace he] at hT
        rw [← hT] at he
        cases he
    · refine ih htail (hy.imp_left fun h => ?_)
      cases g with
      | nil => simp
      | cons e g => simpa using h

/-- The search for ` THEN` passes a `WHEN` clause whose `THEN` no blank precedes, and the `INTO`
clause after it up to its `VALUES`. -/
lemma quiet_then_write {w : WhenClause} {i : IntoClause} (hr : (Clause.when w).Readable)
    (hgap : w.gapThen.getLast? ≠ some ' ') (hi : (Clause.into i).Simple) (rest : List Char) :
    Quiet " THEN".toList ((Clause.when w).write i.beforeValues) (i.fromValues rest) := by
  obtain ⟨hg1, hg2, hg3⟩ := w.gaps
  have hcond : Without " THEN".toList (w.gapWhen ++ w.cond) := by
    rw [Without, upper_append, upper_gap hg1]
    exact not_infix_gap_append (by decide) hg1 hr.2.2.2
  have hafter : ∀ s : List Char, ∀ c ∈ (w.gapThen ++ s).head?,
      c.toUpper ∉ 'T' :: "HEN".toList := by
    intro s
    obtain ⟨g, gs, hgs⟩ := List.exists_cons_of_ne_nil w.apart.2.1
    rw [hgs]
    rintro _ ⟨⟩
    have hws := hg2 g (by simp [hgs])
    rw [toUpper_of_isWhitespace hws]
    rcases isWhitespace_cases hws with rfl | rfl | rfl | rfl <;> decide
  have hinto : ∀ s : List Char, ∀ c ∈ (i.beforeValues ++ s).head?, c.toUpper ≠ 'T' := by
    intro s c hc
    have hspelled := i.kwInto.spelled
    cases ht : i.kwInto.text with
    | nil => rw [ht] at hspelled; cases hspelled
    | cons d t =>
      rw [ht, upper_cons] at hspelled
      have hd : d.toUpper = 'I' := (List.cons.inj hspelled).1
      rw [IntoClause.beforeValues, ht] at hc
      obtain rfl : d = c := by simpa using hc
      rw [hd]
      decide
  have hvalues : ∀ c ∈ (i.fromValues rest).head?, c.toUpper ∉ 'T' :: "HEN".toList := by
    obtain ⟨c, x, hx, hc, -⟩ := i.fromValues_cons
    rw [i.fromValues_eq_append, hx]
    rintro _ ⟨⟩
    rw [hc]
    decide
  rw [then_eq] at hcond ⊢
  have hbefore := hi.2
  rw [then_eq] at hbefore
  refine Quiet.append (Quiet.of_ne ?_ _) ?_
  · intro c hc h
    refine absurd ?_ (show ' ' ∉ "WHEN".toList by decide)
    rw [← w.kwWhen.spelled, ← h]
    exact List.mem_map_of_mem hc
  rw [← List.append_assoc w.gapWhen]
  refine Quiet.append (Quiet.of_without hcond ?_) ?_
  · rw [List.append_assoc]
    exact hafter _
  refine Quiet.append (quiet_then_gap hg2 (.inl hgap)) ?_
  refine Quiet.append (Quiet.of_ne ?_ _) ?_
  · intro c hc h
    refine absurd ?_ (show ' ' ∉ "THEN".toList by decide)
    rw [← w.kwThen.spelled, ← h]
    exact List.mem_map_of_mem hc
  exact Quiet.append (quiet_then_gap hg3 (.inr (hinto _))) (Quiet.of_without hbefore hvalues)

/-! ### Complete readings -/

section Complete

variable {fuel : ℕ} {current : Option When} {prior : List (List Char)} {rest : List Char}
  {ts : List Target}

/-- A `WHEN` is only read where a blank follows it. -/
lemma gapWhen_of_ok {w : WhenClause}
    (h : readClausesMariadb (fuel + 1) ((Clause.when w).write rest) current prior = .ok ts) :
    w.gapWhen.head? = some ' ' := by
  by_contra hgap
  have helse : startsWith "ELSE ".toList ((Clause.when w).write rest) = false :=
    startsWith_other w.kwWhen (c := 'E') (d := 'W') (w := "LSE ".toList) (t := "HEN".toList) rfl
      (by decide) _
  have hinto : startsWith "INTO ".toList ((Clause.when w).write rest) = false :=
    startsWith_other w.kwWhen (c := 'I') (d := 'W') (w := "NTO ".toList) (t := "HEN".toList) rfl
      (by decide) _
  rw [readClausesMariadb, if_neg (write_ne_nil _ _), if_neg (mt (startsWith_when w rest).1 hgap),
    if_neg (Bool.eq_false_iff.1 helse), if_neg (Bool.eq_false_iff.1 hinto)] at h
  cases h

/-- An `ELSE` is only read where a blank follows it. -/
lemma spaced_otherwise_of_ok {e : ElseClause}
    (h : readClausesMariadb (fuel + 1) ((Clause.otherwise e).write rest) current prior = .ok ts) :
    (Clause.otherwise e).Spaced := by
  by_contra hgap
  obtain ⟨hw, he⟩ := startsWith_otherwise e rest
  have hinto : startsWith "INTO ".toList ((Clause.otherwise e).write rest) = false :=
    startsWith_other e.kwElse (c := 'I') (d := 'E') (w := "NTO ".toList) (t := "LSE".toList) rfl
      (by decide) _
  rw [readClausesMariadb, if_neg (write_ne_nil _ _), if_neg (Bool.eq_false_iff.1 hw),
    if_neg (mt he.1 hgap), if_neg (Bool.eq_false_iff.1 hinto)] at h
  cases h

/-- An `INTO` is only read where a blank follows it and with a column list. -/
lemma spaced_into_of_ok {i : IntoClause} (hr : (Clause.into i).Readable)
    (h : readClausesMariadb (fuel + 1) ((Clause.into i).write rest) current prior = .ok ts) :
    (Clause.into i).Spaced := by
  obtain ⟨hw, he, hi⟩ := startsWith_into i rest
  rw [readClausesMariadb, if_neg (write_ne_nil _ _), if_neg (Bool.eq_false_iff.1 hw),
    if_neg (Bool.eq_false_iff.1 he)] at h
  have hgap : i.gapInto.head? = some ' ' := by
    by_contra hgap
    rw [if_neg (mt hi.1 hgap)] at h
    cases h
  refine ⟨hgap, ?_⟩
  rw [Option.isSome_iff_ne_none]
  intro hcols
  rw [if_pos (hi.2 hgap)] at h
  simp only [Clause.write, IntoClause.after_into _ hr, (IntoClause.takeWhile_table _ hr).2] at h
  have hnone : trimStart (i.gapTable ++ (i.colsText ++ (i.gapCols ++
      i.fromValues (i.gapEnd ++ rest)))) = i.fromValues (i.gapEnd ++ rest) := by
    rw [trimStart_gap i.gaps.2.1, IntoClause.colsText, hcols]
    exact IntoClause.after_cols _
  have hopen : startsWith ['('] (i.fromValues (i.gapEnd ++ rest)) = false :=
    startsWith_other i.kwValues (c := '(') (d := 'V') (w := []) (t := "ALUES".toList) rfl
      (by decide) _
  rw [hnone, hopen, if_neg Bool.false_ne_true] at h
  cases h

/-- A `WHEN` whose `THEN` no blank precedes costs the `INTO` after it. -/
lemma length_le_of_gapThen {w : WhenClause} {i : IntoClause} (hr : (Clause.when w).Readable)
    (hi : (Clause.into i).Readable) (hs : (Clause.into i).Simple)
    (hgap : w.gapThen.getLast? ≠ some ' ')
    (h : readClausesMariadb (fuel + 1) ((Clause.when w).write ((Clause.into i).write rest)) current
      prior = .ok ts) : ts.length ≤ occurrences "VALUES".toList rest := by
  have hhead := gapWhen_of_ok h
  have htext : (Clause.when w).write ((Clause.into i).write rest) =
      (Clause.when w).write i.beforeValues ++ i.fromValues (i.gapEnd ++ rest) := by
    rw [i.write_eq_append, write_append]
  have hcount : occurrences "VALUES".toList (i.fromValues (i.gapEnd ++ rest)) =
      1 + occurrences "VALUES".toList rest := by
    rw [← IntoClause.occurrences_write hi hs, i.write_eq_append,
      occurrences_quiet (i.quiet_beforeValues hi _)]
  have hstart := IntoClause.startsWith_values (i := i) (i.gapEnd ++ rest)
  rw [readClausesMariadb, if_neg (write_ne_nil _ _), if_pos ((startsWith_when w _).2 hhead), htext,
    (quiet_then_write hr hgap hs _).find_append] at h
  split at h
  · cases h
  · rename_i thenAt hthen
    split_ifs at h
    obtain ⟨n, -, rfl⟩ := Option.map_eq_some_iff.1 hthen
    have hle := length_le_occurrences h
    rw [Nat.add_right_comm, Nat.add_comm, ← List.drop_drop, List.drop_left] at hle
    have hlt : occurrences "VALUES".toList ((i.fromValues (i.gapEnd ++ rest)).drop (n + 5)) < _ :=
      occurrences_drop_lt hstart (n + 4)
    have := hle.trans (occurrences_le_of_suffix (trimStart_suffix _))
    omega

end Complete

/-- **Clauses that are read completely are spaced.** -/
theorem spaced_of_readClausesMariadb {cs : List Clause} (hr : ∀ c ∈ cs, c.Readable)
    (hs : ∀ c ∈ cs, c.Simple) (hshape : Shaped cs) {fuel : ℕ} {current : Option When}
    {prior : List (List Char)} {ts : List Target} (hf : (writeAll cs []).length < fuel)
    (h : readClausesMariadb fuel (writeAll cs []) current prior = .ok ts)
    (hall : Clause.intoCount cs ≤ ts.length) : ∀ c ∈ cs, c.Spaced := by
  induction cs generalizing fuel current prior ts with
  | nil => exact fun c hc => absurd hc List.not_mem_nil
  | cons c cs ih =>
    obtain ⟨fuel, rfl⟩ := Nat.exists_eq_succ_of_ne_zero (Nat.ne_zero_of_lt hf)
    rw [Nat.succ_eq_add_one] at h
    simp only [List.mem_cons, forall_eq_or_imp] at hr hs ⊢
    have hlen := length_write_lt c (writeAll cs [])
    rw [writeAll_cons] at hf h
    have hf' : (writeAll cs []).length < fuel := by omega
    have hrest := trimStart_writeAll cs
    cases c with
    | when w =>
      obtain ⟨⟨i, cs', rfl⟩, hshape⟩ := hshape
      have hspaced : (Clause.when w).Spaced := by
        refine ⟨gapWhen_of_ok h, ?_⟩
        by_contra hgap
        have hi := hr.2 (.into i) List.mem_cons_self
        have hsi := hs.2 (.into i) List.mem_cons_self
        have hle : ts.length ≤ occurrences "VALUES".toList (writeAll cs' []) :=
          length_le_of_gapThen hr.1 hi hsi hgap h
        rw [occurrences_writeAll (fun c hc => hr.2 c (List.mem_cons_of_mem _ hc))
          (fun c hc => hs.2 c (List.mem_cons_of_mem _ hc))] at hle
        have hcount : Clause.intoCount (.when w :: .into i :: cs') = Clause.intoCount cs' + 1 := by
          rw [Clause.intoCount, List.countP_cons_of_neg (by simp), List.countP_cons_of_pos rfl,
            Clause.intoCount]
        omega
      rw [readClausesMariadb_when hr.1 hspaced hrest] at h
      refine ⟨hspaced, ih hr.2 hs.2 hshape hf' h ?_⟩
      rw [Clause.intoCount, List.countP_cons_of_neg (by simp)] at hall
      exact hall
    | otherwise e =>
      have hspaced := spaced_otherwise_of_ok h
      rw [readClausesMariadb_otherwise hspaced hrest] at h
      refine ⟨hspaced, ih hr.2 hs.2 hshape hf' h ?_⟩
      rw [Clause.intoCount, List.countP_cons_of_neg (by simp)] at hall
      exact hall
    | into i =>
      have hspaced := spaced_into_of_ok hr.1 h
      rw [readClausesMariadb_into hr.1 hspaced hrest] at h
      refine ⟨hspaced, ?_⟩
      cases hread : readClausesMariadb fuel (writeAll cs []) current prior with
      | error e =>
        rw [hread] at h
        cases h
      | ok us =>
        rw [hread] at h
        obtain rfl := Except.ok.inj h
        refine ih hr.2 hs.2 hshape hf' hread ?_
        rw [Clause.intoCount, List.countP_cons_of_pos rfl, List.length_cons] at hall
        exact Nat.le_of_succ_le_succ hall

end DbSaci.Translate
