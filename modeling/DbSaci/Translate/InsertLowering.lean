import DbSaci.Translate.MultiTableInsert

set_option relaxedAutoImplicit false
set_option autoImplicit false

/-!
# Lowering multi-table `INSERT`s

What the two passes make of the text of a statement: the scan cuts it behind the last `INTO`
clause, and the loop reads the clauses.

## Main results

* `MultiInsert.rewriteInsertAll_text`, `MultiInsert.rewriteInsertAllMariadb_text` — the passes on
  a text, up to the loop.
* `MultiInsert.preserved_of_good`, `MultiInsert.good_of_preserved` — the two directions.
* `preserved_iff_good` — the meaning is preserved exactly by the statements that are good.
-/

namespace DbSaci.Translate

open Text

/-! ### The first words -/

section Header

variable {k : String} (kwInsert : Keyword "INSERT") (kw : Keyword k) {gap gap' : List Char}
  (hgap : Gap gap) (hgap' : Gap gap') (hne : gap ≠ []) (hne' : gap' ≠ []) (body : List Char)
  {d : Char} {t : List Char} (hk : k.toList = d :: t) (hd : d.isWhitespace = false)

include hgap hgap' hne hne' hk hd in
/-- The first words are found when one blank stands between them and a blank follows. -/
lemma startsWith_header :
    startsWith ("INSERT ".toList ++ (k.toList ++ [' ']))
        (kwInsert.text ++ (gap ++ (kw.text ++ (gap' ++ body)))) = true ↔
      gap = [' '] ∧ gap'.head? = some ' ' := by
  obtain ⟨g, gs, rfl⟩ := List.exists_cons_of_ne_nil hne
  obtain ⟨g', gs', rfl⟩ := List.exists_cons_of_ne_nil hne'
  have hg' : g'.toUpper = g' := toUpper_of_isWhitespace (hgap' g' List.mem_cons_self)
  have hsplit : "INSERT ".toList = "INSERT".toList ++ [' '] := rfl
  rw [startsWith, upper_append, kwInsert.spelled, hsplit, List.append_assoc,
    List.isPrefixOf_iff_prefix, List.prefix_append_right_inj, upper_append, upper_gap hgap,
    upper_append, kw.spelled, List.singleton_append, List.cons_append, List.cons_prefix_cons]
  cases gs with
  | nil =>
    rw [List.nil_append, List.prefix_append_right_inj]
    simp [hg', List.cons_prefix_cons, eq_comm]
  | cons e gs =>
    have he : e.isWhitespace = true := hgap e (by simp)
    constructor
    · rintro ⟨-, h⟩
      rw [hk] at h
      obtain ⟨rfl, -⟩ := List.cons_prefix_cons.1 h
      rw [he] at hd
      cases hd
    · rintro ⟨h, -⟩
      simp at h

omit hd in
include hgap hne hk in
/-- The first words are not those of the other kind. -/
lemma startsWith_header_other {c : Char} (hc : c.isWhitespace = false) (hcd : c ≠ d)
    (w : List Char) :
    startsWith ("INSERT ".toList ++ (c :: w))
        (kwInsert.text ++ (gap ++ (kw.text ++ (gap' ++ body)))) = false := by
  obtain ⟨g, gs, rfl⟩ := List.exists_cons_of_ne_nil hne
  have hsplit : "INSERT ".toList = "INSERT".toList ++ [' '] := rfl
  rw [← Bool.not_eq_true, startsWith, upper_append, kwInsert.spelled, hsplit, List.append_assoc,
    List.isPrefixOf_iff_prefix, List.prefix_append_right_inj, upper_append, upper_gap hgap,
    upper_append, kw.spelled, List.singleton_append, List.cons_append, List.cons_prefix_cons]
  rintro ⟨-, h⟩
  cases gs with
  | nil =>
    rw [List.nil_append, hk] at h
    exact hcd (List.cons_prefix_cons.1 h).1
  | cons e gs =>
    have he : e.isWhitespace = true := hgap e (by simp)
    obtain ⟨rfl, -⟩ := List.cons_prefix_cons.1 h
    rw [he] at hc
    cases hc

/-- What stands behind the first words. -/
lemma drop_header (hgap : Gap gap') :
    trimStart ((kwInsert.text ++ ([' '] ++ (kw.text ++ (gap' ++ body)))).drop
      (7 + k.toList.length)) = trimStart body := by
  have h6 : kwInsert.text.length = 6 := kwInsert.length_text
  rw [show 7 + k.toList.length = 6 + (1 + k.toList.length) by omega, ← List.drop_drop, ← h6,
    List.drop_left, ← List.drop_drop]
  change trimStart (List.drop _ (kw.text ++ (gap' ++ body))) = _
  rw [kw.drop_append, trimStart_gap hgap]

end Header

/-! ### The clauses in the text -/

namespace IntoClause

/-- The clause without the white space at its end. -/
def bare (i : IntoClause) : IntoClause :=
  { i with
    gapEnd := []
    gaps := ⟨i.gaps.1, i.gaps.2.1, i.gaps.2.2.1, i.gaps.2.2.2.1, fun _ h => by simp at h⟩ }

lemma write_bare (i : IntoClause) : (Clause.into i.bare).write [] = i.writeCore [] := rfl

lemma spaced_bare {i : IntoClause} : (Clause.into i.bare).Spaced ↔ (Clause.into i).Spaced :=
  Iff.rfl

lemma expected_bare (i : IntoClause) (cs : List Clause) (w : Option When)
    (prior : List (List Char)) :
    expected w prior (cs ++ [.into i.bare]) = expected w prior (cs ++ [.into i]) := by
  induction cs generalizing w prior with
  | nil => rfl
  | cons c cs ih => cases c <;> simp only [List.cons_append, expected, ih]

end IntoClause

lemma writeAll_text (cs : List Clause) (s t : List Char) :
    writeAll cs (s ++ t) = writeAll cs s ++ t := by
  induction cs with
  | nil => rfl
  | cons c cs ih => rw [writeAll_cons, ih, write_append, writeAll_cons]

/-- The clauses end with a parenthesis. -/
lemma trim_clauses (cs : List Clause) (i : IntoClause) :
    trim (writeAll cs (i.writeCore [])) = writeAll cs (i.writeCore []) := by
  have hstart : trimStart (writeAll cs (i.writeCore [])) = writeAll cs (i.writeCore []) := by
    rw [← i.write_bare]
    cases cs with
    | nil => exact trimStart_write (.into i.bare) []
    | cons c cs => exact trimStart_write c _
  have hend : writeAll cs (i.writeCore []) =
      writeAll cs (i.beforeValues ++ (i.kwValues.text ++ (i.gapValues ++ ('(' :: i.values)))) ++
        [')'] := by
    rw [← writeAll_text, i.writeCore_eq_append, IntoClause.fromValues]
    simp
  rw [trim, hstart, trimEnd, hend, List.rdropWhile_concat_neg _ _ _ (by decide)]

/-- What stands behind the clauses is the source. -/
lemma subqueryAfter_source {g source : List Char} (hg : Gap g) (hs : Trimmed source)
    (hsemi : source.getLast? ≠ some ';') (x : List Char) :
    subqueryAfter (x ++ (g ++ source)) x.length = source := by
  have hgap : Gap [] := fun _ h => by simp at h
  have htrim : ∀ g, Gap g → trim (g ++ source) = source := by
    intro g hg
    have := trim_gaps hg hgap hs
    rwa [List.append_nil] at this
  have hdrop : source.rdropWhile (fun c => decide (c = ';')) = source := by
    rw [List.rdropWhile_eq_self_iff]
    intro hne h
    rw [List.getLast?_eq_some_getLast hne] at hsemi
    exact hsemi (congrArg some (of_decide_eq_true h))
  rw [subqueryAfter, List.drop_left, htrim g hg, hdrop]
  exact htrim [] hgap

namespace MultiInsert

variable {m : MultiInsert}

lemma exists_last_intos {is : List IntoClause} (h : is ≠ []) :
    ∃ cs i, is.map Clause.into = cs ++ [.into i] := by
  obtain ⟨is, i, rfl⟩ := (List.eq_nil_or_concat' is).resolve_left h
  exact ⟨is.map .into, i, by simp⟩

/-- The last clause of a statement is an `INTO`. -/
lemma exists_last (m : MultiInsert) : ∃ cs i, m.clauses = cs ++ [.into i] := by
  rw [clauses]
  cases m.otherwise with
  | some o =>
    obtain ⟨cs, i, h⟩ := exists_last_intos o.nonempty
    exact ⟨m.plain.map .into ++ (m.branches.flatMap Branch.clauses ++ (.otherwise o.head :: cs)), i,
      by simp [Otherwise.clauses, h]⟩
  | none =>
    rcases List.eq_nil_or_concat' m.branches with hnil | ⟨bs, b, hbs⟩
    · have hplain : m.plain ≠ [] := by
        rcases m.shape with ⟨hplain, -⟩ | ⟨-, hne⟩
        · exact hplain
        · exact absurd hnil hne
      obtain ⟨cs, i, h⟩ := exists_last_intos hplain
      exact ⟨cs, i, by simp [hnil, h]⟩
    · obtain ⟨cs, i, h⟩ := exists_last_intos b.nonempty
      exact ⟨m.plain.map .into ++ (bs.flatMap Branch.clauses ++ (.when b.head :: cs)), i,
        by simp [hbs, Branch.clauses, h]⟩

/-- The text of a statement whose last clause is known. -/
lemma text_eq {cs : List Clause} {i : IntoClause} (h : m.clauses = cs ++ [.into i]) :
    writeAll m.clauses m.source =
      writeAll cs (i.writeCore []) ++ (i.gapEnd ++ m.source) := by
  rw [h, writeAll_append, ← writeAll_text]
  congr 1
  simp [Clause.write, IntoClause.writeCore]

/-- White space does not precede the clauses. -/
lemma trimStart_body (m : MultiInsert) :
    trimStart (writeAll m.clauses m.source) = writeAll m.clauses m.source := by
  obtain ⟨cs, i, h⟩ := m.exists_last
  rw [h]
  cases cs with
  | nil => exact trimStart_write (.into i) m.source
  | cons c cs => exact trimStart_write c _

lemma trimStart_text (m : MultiInsert) :
    trimStart m.text = m.kwInsert.text ++ (m.gapInsert ++ (m.kwKind.text ++ (m.gapKind ++
      writeAll m.clauses m.source))) := by
  rw [text, trimStart_gap m.gaps.1]
  exact m.kwInsert.trimStart_append (d := 'I') (t := "NSERT".toList) rfl (by decide) _

/-- The passes find the first words they expect. -/
def Headed (m : MultiInsert) : Prop := m.gapInsert = [' '] ∧ m.gapKind.head? = some ' '

/-- The first words of a statement with `FIRST` and of one with `ALL`. -/
lemma startsWith_kind (m : MultiInsert) (x : Char) :
    (m.first = true → (startsWith "INSERT FIRST ".toList (trimStart m.text) = true ↔ m.Headed) ∧
      startsWith ("INSERT ALL".toList ++ [x]) (trimStart m.text) = false) ∧
    (m.first = false → (startsWith "INSERT ALL ".toList (trimStart m.text) = true ↔ m.Headed) ∧
      startsWith ("INSERT FIRST".toList ++ [x]) (trimStart m.text) = false) := by
  have hgaps := m.gaps
  have happart := m.apart
  rw [trimStart_text]
  refine ⟨fun hf => ?_, fun hf => ?_⟩
  · have hk : (if m.first then "FIRST" else "ALL").toList = 'F' :: "IRST".toList := by
      rw [hf]
      rfl
    have h := startsWith_header m.kwInsert m.kwKind hgaps.2.1 hgaps.2.2 happart.1 happart.2
      (writeAll m.clauses m.source) hk (by decide)
    rw [hk] at h
    exact ⟨h, startsWith_header_other m.kwInsert m.kwKind hgaps.2.1 happart.1 _ hk
      (c := 'A') (by decide) (by decide) ("LL".toList ++ [x])⟩
  · have hk : (if m.first then "FIRST" else "ALL").toList = 'A' :: "LL".toList := by
      rw [hf]
      rfl
    have h := startsWith_header m.kwInsert m.kwKind hgaps.2.1 hgaps.2.2 happart.1 happart.2
      (writeAll m.clauses m.source) hk (by decide)
    rw [hk] at h
    exact ⟨h, startsWith_header_other m.kwInsert m.kwKind hgaps.2.1 happart.1 _ hk
      (c := 'F') (by decide) (by decide) ("IRST".toList ++ [x])⟩

/-- What stands behind the first words. -/
lemma body_eq (h : m.Headed) :
    trimStart ((trimStart m.text).drop (if m.first then 12 else 10)) =
      writeAll m.clauses m.source := by
  have hlen : (if m.first then 12 else 10) =
      7 + (if m.first then "FIRST" else "ALL").toList.length := by
    split_ifs <;> rfl
  rw [trimStart_text, h.1, hlen, drop_header _ _ _ m.gaps.2.2, trimStart_body]

variable (hr : m.Readable) {cs : List Clause} {i : IntoClause}
  (h : m.clauses = cs ++ [.into i])

include hr h in
/-- Both scans cut the text behind the last `INTO` clause. -/
lemma scan_body :
    lastValuesClose (writeAll m.clauses m.source) 0 0 0 none 0 =
      some (writeAll cs (i.writeCore [])).length ∧
    lastValuesCloseMariadb (writeAll m.clauses m.source) 0 0 0 =
      (writeAll cs (i.writeCore [])).length := by
  obtain ⟨hclauses, hascii, hno⟩ := hr
  have hcs : ∀ c ∈ cs, c.Readable := fun c hc => hclauses c (by rw [h]; simp [hc])
  have hi : (Clause.into i).Readable := hclauses _ (by rw [h]; simp)
  have hq : Quiet "VALUES".toList m.source [] := Quiet.of_without hno (by simp)
  rw [h, writeAll_append, writeAll_cons, writeAll_nil]
  constructor
  · rw [lastValuesClose_clauses hcs hi hq hascii, Nat.zero_add]
  · rw [lastValuesCloseMariadb_clauses hcs hi hq, Nat.zero_add]

include h in
/-- The text of the clauses, and the source behind them. -/
lemma cut_body :
    (writeAll cs (i.writeCore [])).length ≠ 0 ∧
    subqueryAfter (writeAll m.clauses m.source) (writeAll cs (i.writeCore [])).length = m.source ∧
    trim ((writeAll m.clauses m.source).take (writeAll cs (i.writeCore [])).length) =
      writeAll (cs ++ [.into i.bare]) [] := by
  refine ⟨?_, ?_, ?_⟩
  · intro hzero
    have hlen := length_write_lt (.into i.bare) []
    have happ := writeAll_text cs [] (i.writeCore [])
    rw [List.nil_append] at happ
    rw [happ, List.length_append] at hzero
    rw [i.write_bare] at hlen
    omega
  · rw [text_eq h, subqueryAfter_source i.gaps.2.2.2.2 m.trimmed.1 m.trimmed.2]
  · rw [text_eq h, List.take_left, trim_clauses, writeAll_append, writeAll_cons, writeAll_nil,
      i.write_bare]

lemma source_ne_nil (m : MultiInsert) : m.source ≠ [] := m.trimmed.1.1

include hr h in
/-- The pass for PostgreSQL, up to its loop. -/
theorem rewriteInsertAll_text (hh : m.Headed) :
    rewriteInsertAll m.text = do
      let clauses := writeAll (cs ++ [.into i.bare]) []
      let targets ← readClauses (clauses.length + 1) clauses none []
      if targets = [] then .error .unchanged else return (targets, m.source) := by
  obtain ⟨hzero, hsub, hclauses⟩ := cut_body h
  have hbody := body_eq hh
  have hscan := (scan_body hr h).1
  have hnone : ¬ ((writeAll cs (i.writeCore [])).length = 0 ∨ m.source = []) :=
    not_or.2 ⟨hzero, m.source_ne_nil⟩
  obtain ⟨hfirst, hall⟩ := m.startsWith_kind '\n'
  have hcond : (startsWith "INSERT FIRST ".toList (trimStart m.text) ||
      startsWith "INSERT FIRST\n".toList (trimStart m.text)) = m.first := by
    cases hf : m.first with
    | true => rw [(hfirst hf).1.2 hh, Bool.true_or]
    | false => exact Bool.or_eq_false_iff.2 ⟨((m.startsWith_kind ' ').2 hf).2, (hall hf).2⟩
  have hkind : (!m.first && !(startsWith "INSERT ALL ".toList (trimStart m.text) ||
      startsWith "INSERT ALL\n".toList (trimStart m.text))) = false := by
    cases hf : m.first with
    | true => rfl
    | false => rw [(hall hf).1.2 hh, Bool.true_or, Bool.not_true, Bool.and_false]
  simp only [rewriteInsertAll, hcond, hkind, hbody, hscan, hsub, hclauses, if_neg hnone,
    Bool.false_eq_true, if_false]

/-- The pass for MariaDB leaves a statement alone whose first words it does not find. -/
lemma rewriteInsertAllMariadb_unheaded (hh : ¬ m.Headed) :
    rewriteInsertAllMariadb m.text = .error .unchanged := by
  obtain ⟨hfirst, hall⟩ := m.startsWith_kind ' '
  have hnone : startsWith "INSERT FIRST ".toList (trimStart m.text) = false ∧
      startsWith "INSERT ALL ".toList (trimStart m.text) = false := by
    cases hf : m.first with
    | true => exact ⟨Bool.eq_false_iff.2 (mt (hfirst hf).1.1 hh), (hfirst hf).2⟩
    | false => exact ⟨(hall hf).2, Bool.eq_false_iff.2 (mt (hall hf).1.1 hh)⟩
  simp only [rewriteInsertAllMariadb, hnone.1, hnone.2, Bool.not_false, Bool.and_true, if_true]

include hr h in
/-- The pass for MariaDB, up to its loop. -/
theorem rewriteInsertAllMariadb_text (hh : m.Headed) :
    rewriteInsertAllMariadb m.text = do
      let clauses := writeAll (cs ++ [.into i.bare]) []
      let targets ← readClausesMariadb (clauses.length + 1) clauses none []
      if targets = [] then .error .unchanged else return (targets, m.source) := by
  obtain ⟨hzero, hsub, hclauses⟩ := cut_body h
  have hbody := body_eq hh
  have hscan := (scan_body hr h).2
  have hnone : ¬ ((writeAll cs (i.writeCore [])).length = 0 ∨ m.source = []) :=
    not_or.2 ⟨hzero, m.source_ne_nil⟩
  obtain ⟨hfirst, hall⟩ := m.startsWith_kind ' '
  have hcond : startsWith "INSERT FIRST ".toList (trimStart m.text) = m.first := by
    cases hf : m.first with
    | true => exact (hfirst hf).1.2 hh
    | false => exact (hall hf).2
  have hkind : (!m.first && !startsWith "INSERT ALL ".toList (trimStart m.text)) = false := by
    cases hf : m.first with
    | true => rfl
    | false => rw [(hall hf).1.2 hh, Bool.not_true, Bool.and_false]
  simp only [rewriteInsertAllMariadb, hcond, hkind, hbody, hscan, hsub, hclauses, if_neg hnone,
    Bool.false_eq_true, if_false]

/-- The texts of a statement do not hide its structure: no list has the word `VALUES` in it, and no
` THEN` comes before one. -/
def Simple (m : MultiInsert) : Prop := ∀ c ∈ m.clauses, c.Simple

instance (m : MultiInsert) : Decidable m.Simple := inferInstanceAs (Decidable (∀ c ∈ m.clauses, _))

include h in
/-- What holds of every clause holds of them without the white space behind the last. -/
lemma forall_bare {p : Clause → Prop} (hbare : p (.into i) → p (.into i.bare))
    (hp : ∀ c ∈ m.clauses, p c) : ∀ c ∈ cs ++ [.into i.bare], p c := by
  rw [h] at hp
  simp only [List.mem_append, List.mem_singleton] at hp ⊢
  rintro c (hc | rfl)
  · exact hp c (.inl hc)
  · exact hbare (hp _ (.inr rfl))

lemma targets_ne_nil (m : MultiInsert) : m.targets ≠ [] := by
  intro hnil
  obtain ⟨cs, i, h⟩ := m.exists_last
  have hrows := m.rows_targets
  rw [hnil, List.map_nil, eq_comm, List.map_eq_nil_iff, intos, List.append_eq_nil_iff,
    List.append_eq_nil_iff] at hrows
  obtain ⟨hplain, hbranches, -⟩ := hrows
  rcases m.shape with ⟨hne, -⟩ | ⟨-, hne⟩
  · exact hne hplain
  · obtain ⟨b, bs, hbs⟩ := List.exists_cons_of_ne_nil hne
    rw [hbs, List.flatMap_cons, List.append_eq_nil_iff] at hbranches
    exact b.nonempty hbranches.1

/-- **The passes lower a spaced statement to its targets.** -/
theorem passes_text (hr : m.Readable) (hs : m.Spaced) :
    ∀ pass ∈ [rewriteInsertAll, rewriteInsertAllMariadb],
      pass m.text = .ok (m.targets, m.source) := by
  obtain ⟨cs, i, h⟩ := m.exists_last
  have hread := readClauses_write (forall_bare h id hr.1) (forall_bare h id hs.2.2) _
    (Nat.lt_succ_self _) none []
  rw [IntoClause.expected_bare, ← h] at hread
  have hne : ¬ expected none [] m.clauses = [] := m.targets_ne_nil
  intro pass hpass
  simp only [List.mem_cons, List.not_mem_nil, or_false] at hpass
  rcases hpass with rfl | rfl
  · rw [rewriteInsertAll_text hr h ⟨hs.1, hs.2.1⟩]
    simp only [Nat.succ_eq_add_one] at hread
    simp only [hread.1]
    exact if_neg hne
  · rw [rewriteInsertAllMariadb_text hr h ⟨hs.1, hs.2.1⟩]
    simp only [Nat.succ_eq_add_one] at hread
    simp only [hread.2]
    exact if_neg hne

/-- **Good statements keep their meaning.** -/
theorem preserved_of_good (hr : m.Readable) (hg : m.Good) : m.Preserved := fun pass hpass =>
  ⟨m.targets, passes_text hr hg.1 pass hpass, m.rows_targets, lowered_eq_inserts hg.2⟩

/-- Every condition is followed by an `INTO`. -/
lemma shaped_clauses (m : MultiInsert) : Shaped m.clauses := by
  have hintos : ∀ (is : List IntoClause) cs, Shaped cs → Shaped (is.map .into ++ cs) := by
    intro is cs hcs
    induction is with
    | nil => exact hcs
    | cons i is ih => exact ih
  have hbranches : ∀ (bs : List Branch) cs, Shaped cs →
      Shaped (bs.flatMap Branch.clauses ++ cs) := by
    intro bs cs hcs
    induction bs with
    | nil => exact hcs
    | cons b bs ih =>
      obtain ⟨i, is, his⟩ := List.exists_cons_of_ne_nil b.nonempty
      rw [List.flatMap_cons, Branch.clauses, List.append_assoc, List.cons_append]
      refine ⟨⟨i, is.map .into ++ (bs.flatMap Branch.clauses ++ cs), ?_⟩, hintos _ _ ih⟩
      rw [his, List.map_cons, List.cons_append]
  have helse : Shaped (m.otherwise.elim [] Otherwise.clauses) := by
    cases m.otherwise with
    | none => trivial
    | some o =>
      have := hintos o.intos [] trivial
      rw [List.append_nil] at this
      exact this
  exact hintos _ _ (hbranches _ _ helse)

lemma shaped_append_into {cs : List Clause} {i j : IntoClause} (h : Shaped (cs ++ [.into i])) :
    Shaped (cs ++ [.into j]) := by
  induction cs with
  | nil => trivial
  | cons c cs ih =>
    cases c with
    | otherwise e => exact ih h
    | into k => exact ih h
    | when w =>
      obtain ⟨⟨k, ks, hk⟩, h⟩ := h
      refine ⟨?_, ih h⟩
      cases cs with
      | nil => exact ⟨j, [], rfl⟩
      | cons c cs =>
        obtain ⟨rfl, -⟩ := List.cons.inj hk
        exact ⟨k, cs ++ [.into j], rfl⟩

lemma intoCount_clauses (m : MultiInsert) : Clause.intoCount m.clauses = m.intos.length := by
  have hexp : ∀ cs w prior, (expected w prior cs).length = Clause.intoCount cs := by
    intro cs
    induction cs with
    | nil => exact fun _ _ => rfl
    | cons c cs ih =>
      intro w prior
      cases c with
      | when _ => rw [expected, ih, Clause.intoCount, Clause.intoCount,
          List.countP_cons_of_neg (by simp)]
      | otherwise _ => rw [expected, ih, Clause.intoCount, Clause.intoCount,
          List.countP_cons_of_neg (by simp)]
      | into _ => rw [expected, List.length_cons, ih, Clause.intoCount, Clause.intoCount,
          List.countP_cons_of_pos rfl]
  have hrows := congrArg List.length m.rows_targets
  rw [List.length_map, List.length_map] at hrows
  rw [← hexp m.clauses none [], ← hrows]
  rfl

/-- Only good statements keep their meaning. -/
theorem good_of_preserved (hr : m.Readable) (hs : m.Simple) (hp : m.Preserved) : m.Good := by
  obtain ⟨ts, hpass, hrows, -⟩ := hp rewriteInsertAllMariadb (by simp)
  obtain ⟨cs, i, h⟩ := m.exists_last
  have hheaded : m.Headed := by
    by_contra hh
    rw [rewriteInsertAllMariadb_unheaded hh] at hpass
    cases hpass
  have hspaced : m.Spaced := by
    refine ⟨hheaded.1, hheaded.2, ?_⟩
    rw [rewriteInsertAllMariadb_text hr h hheaded] at hpass
    obtain ⟨us, hread, hus⟩ := exists_of_bind_eq_ok hpass
    split_ifs at hus
    obtain rfl : us = ts := (Prod.mk.inj (Except.ok.inj hus)).1
    have hcount : Clause.intoCount (cs ++ [.into i.bare]) ≤ us.length := by
      have hlen := congrArg List.length hrows
      rw [List.length_map, List.length_map, ← intoCount_clauses, h] at hlen
      simp only [Clause.intoCount, List.countP_append] at hlen ⊢
      exact hlen.ge
    have hshape : Shaped (cs ++ [.into i.bare]) := shaped_append_into (h ▸ m.shaped_clauses)
    have hall := spaced_of_readClausesMariadb (forall_bare h id hr.1) (forall_bare h id hs) hshape
      (Nat.lt_succ_self _) hread hcount
    rw [h]
    simp only [List.mem_append, List.mem_singleton] at hall ⊢
    rintro c (hc | rfl)
    · exact hall c (.inl hc)
    · exact IntoClause.spaced_bare.1 (hall _ (.inr rfl))
  refine ⟨hspaced, exclusive_of_lowered_eq fun v => ?_⟩
  obtain ⟨us, hus, -, hlowered⟩ := hp rewriteInsertAllMariadb (by simp)
  rw [passes_text hr hspaced rewriteInsertAllMariadb (by simp)] at hus
  obtain rfl : m.targets = us := (Prod.mk.inj (Except.ok.inj hus)).1
  exact hlowered v

end MultiInsert

/-- A condition with one target: `WHEN cond THEN INTO t (a) VALUES (x)`. -/
def branchInto (cond table : List Char) (hcond : Trimmed cond) (htable : table ≠ []) : Branch where
  head :=
    { kwWhen := ⟨"WHEN".toList, rfl⟩
      gapWhen := [' ']
      cond := cond
      gapThen := [' ']
      kwThen := ⟨"THEN".toList, rfl⟩
      gapEnd := [' ']
      gaps := by decide
      apart := by decide
      trimmed := hcond }
  intos :=
    [{ kwInto := ⟨"INTO".toList, rfl⟩
       gapInto := [' ']
       table := table
       gapTable := [' ']
       cols := some "a".toList
       gapCols := [' ']
       kwValues := ⟨"VALUES".toList, rfl⟩
       gapValues := [' ']
       values := "x".toList
       gapEnd := [' ']
       gaps := by decide
       apart := ⟨by decide, fun _ => by decide⟩
       named := htable }]
  nonempty := by simp

/-- `INSERT FIRST` with some conditions. -/
def insertFirst (branches : List Branch) (h : branches ≠ []) : MultiInsert where
  lead := []
  kwInsert := ⟨"INSERT".toList, rfl⟩
  gapInsert := [' ']
  first := true
  kwKind := ⟨"FIRST".toList, rfl⟩
  gapKind := [' ']
  plain := []
  branches := branches
  otherwise := none
  source := "SELECT x FROM s".toList
  gaps := by decide
  apart := by decide
  shape := .inr ⟨rfl, h⟩
  trimmed := ⟨⟨by decide, by decide, by decide⟩, by decide⟩

/-- `INSERT FIRST WHEN x > 1 THEN INTO t (a) VALUES (x) SELECT x FROM s`. -/
def insertOne : MultiInsert :=
  insertFirst [branchInto "x > 1".toList "t".toList ⟨by decide, by decide, by decide⟩ (by decide)]
    (by simp)

/-- The same with `WHEN x > 0 THEN INTO u (a) VALUES (x)` behind it. -/
def insertTwo : MultiInsert :=
  insertFirst [branchInto "x > 1".toList "t".toList ⟨by decide, by decide, by decide⟩ (by decide),
    branchInto "x > 0".toList "u".toList ⟨by decide, by decide, by decide⟩ (by decide)] (by simp)

lemma insertOne_readable : insertOne.Readable := by decide

end DbSaci.Translate
