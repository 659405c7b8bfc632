import DbSaci.Library.Fronts
import DbSaci.Translate.InsertClauses

set_option relaxedAutoImplicit false
set_option autoImplicit false

/-!
# The end of the last `VALUES` list

Both passes look for the last `VALUES` list to tell the clauses from the subquery. One looks at
the word wherever it stands, the other only outside parentheses and quotes; in clauses that are
readable both come to the list of the last `INTO`.

## Main definitions

* `Plain` — the text can be sliced everywhere for the comparison with the word.

## Main results

* `lastValuesClose_clauses`, `lastValuesCloseMariadb_clauses` — the scans end after the list of
  the last `INTO`.
-/

namespace DbSaci.Translate

open Text

/-! ### Where the word `VALUES` starts -/

/-- White space is quiet. -/
lemma quiet_gap {g : List Char} (hg : Gap g) (y : List Char) : Quiet "VALUES".toList g y := by
  refine Quiet.of_ne (d := 'V') (fun c hc h => ?_) y
  rw [toUpper_of_isWhitespace (hg c hc)] at h
  have := hg c hc
  rw [h] at this
  cases this

/-- A keyword without a `V` is quiet. -/
lemma quiet_keyword {k : String} (kw : Keyword k) (hk : 'V' ∉ k.toList) (y : List Char) :
    Quiet "VALUES".toList kw.text y := by
  refine Quiet.of_ne (d := 'V') (fun c hc h => hk ?_) y
  rw [← kw.spelled, ← h]
  exact List.mem_map_of_mem hc

/-- White space does not go on with a word. -/
lemma not_mem_of_isWhitespace {c : Char} (h : c.isWhitespace = true) :
    c.toUpper ∉ "ALUES".toList := by
  rw [toUpper_of_isWhitespace h]
  rcases isWhitespace_cases h with rfl | rfl | rfl | rfl <;> decide

/-- White space at the start of a text, or a character that does not go on with a word. -/
lemma head_gap {g : List Char} (hg : Gap g) {s : List Char}
    (hs : ∀ c ∈ s.head?, c.toUpper ∉ "ALUES".toList) :
    ∀ c ∈ (g ++ s).head?, c.toUpper ∉ "ALUES".toList := by
  cases g with
  | nil => exact hs
  | cons d g =>
    rintro _ ⟨⟩
    exact not_mem_of_isWhitespace (hg d List.mem_cons_self)

namespace IntoClause

/-- The text of a clause before its `VALUES`. -/
def beforeValues (i : IntoClause) : List Char :=
  i.kwInto.text ++ (i.gapInto ++ (i.table ++ (i.gapTable ++ (i.colsText ++ i.gapCols))))

lemma writeCore_eq_append (i : IntoClause) (rest : List Char) :
    i.writeCore rest = i.beforeValues ++ i.fromValues rest := by
  simp [writeCore_eq, beforeValues]

/-- The word `VALUES` does not occur before it should. -/
lemma quiet_beforeValues {i : IntoClause} (hr : (Clause.into i).Readable) (rest : List Char) :
    Quiet "VALUES".toList i.beforeValues (i.fromValues rest) := by
  obtain ⟨hg1, hg2, hg3, -, -⟩ := i.gaps
  have hcols : ∀ s, Quiet "VALUES".toList i.colsText s := by
    intro s
    unfold colsText
    cases hc : i.cols with
    | none => trivial
    | some c =>
      obtain ⟨-, -, hno⟩ := hr.2.2.2.1 c hc
      refine Quiet.append (x := ['(']) (Quiet.of_ne (by decide) _) ?_
      refine Quiet.append (Quiet.of_without hno ?_) (Quiet.of_ne (by decide) _)
      rintro _ ⟨⟩
      decide
  refine Quiet.append (quiet_keyword _ (by decide) _) ?_
  refine Quiet.append (quiet_gap hg1 _) ?_
  refine Quiet.append (Quiet.of_without hr.2.1 ?_) ?_
  · rw [List.append_assoc, List.append_assoc]
    cases hc : i.cols with
    | none =>
      obtain ⟨g, gs, hgs⟩ := List.exists_cons_of_ne_nil (i.apart.2 hc)
      rw [hgs]
      rintro _ ⟨⟩
      exact not_mem_of_isWhitespace (hg2 g (by simp [hgs]))
    | some c =>
      refine head_gap hg2 ?_
      rw [colsText_append hc]
      rintro _ ⟨⟩
      decide
  · exact Quiet.append (quiet_gap hg2 _) (Quiet.append (hcols _) (quiet_gap hg3 _))

end IntoClause

/-- The word `VALUES` does not occur in a `WHEN` or an `ELSE`. -/
lemma quiet_write_when {w : WhenClause} (hr : (Clause.when w).Readable) (rest : List Char) :
    Quiet "VALUES".toList ((Clause.when w).write []) rest := by
  obtain ⟨hg1, hg2, hg3⟩ := w.gaps
  refine Quiet.append (quiet_keyword _ (by decide) _) (Quiet.append (quiet_gap hg1 _) ?_)
  refine Quiet.append (Quiet.of_without hr.2.2.1 ?_) (Quiet.append (quiet_gap hg2 _)
    (Quiet.append (quiet_keyword _ (by decide) _) (Quiet.append (quiet_gap hg3 _) trivial)))
  obtain ⟨g, gs, hgs⟩ := List.exists_cons_of_ne_nil w.apart.2.1
  rw [hgs]
  rintro _ ⟨⟩
  exact not_mem_of_isWhitespace (hg2 g (by simp [hgs]))

lemma quiet_write_otherwise (e : ElseClause) (rest : List Char) :
    Quiet "VALUES".toList ((Clause.otherwise e).write []) rest :=
  Quiet.append (quiet_keyword _ (by decide) _) (Quiet.append (quiet_gap e.gaps _) trivial)

lemma write_append (c : Clause) (s t : List Char) : c.write (s ++ t) = c.write s ++ t := by
  cases c <;> simp [Clause.write, IntoClause.writeCore]

lemma write_eq_append (c : Clause) (s : List Char) : c.write s = c.write [] ++ s := by
  rw [← write_append, List.nil_append]

/-- The text of an `INTO` clause is quiet but for its `VALUES`. -/
lemma IntoClause.write_eq_append (i : IntoClause) (s : List Char) :
    (Clause.into i).write s = i.beforeValues ++ i.fromValues (i.gapEnd ++ s) :=
  i.writeCore_eq_append _

/-! ### The end of a list -/

lemma find_cons_of_ne {p c : Char} (h : p ≠ c) (s : List Char) :
    find [p] (c :: s) = (find [p] s).map (· + 1) := by
  rw [find, if_neg (by simp [List.isPrefixOf, h])]

/-- The first parenthesis is found behind a text without parentheses. -/
lemma find_paren {x : List Char} (hx : '(' ∉ x) (s : List Char) :
    find ['('] (x ++ '(' :: s) = some x.length := by
  induction x with
  | nil => simp [find, List.isPrefixOf]
  | cons c x ih =>
    simp only [List.mem_cons, not_or] at hx
    rw [List.cons_append, find_cons_of_ne hx.1, ih hx.2]
    rfl

lemma ne_of_isWhitespace {c d : Char} (h : c.isWhitespace = true) (hd : d.isWhitespace = false) :
    c ≠ d := by
  rintro rfl
  rw [h] at hd
  cases hd

/-- A keyword has no character but its letters. -/
lemma Keyword.not_mem {k : String} (kw : Keyword k) {d : Char} (hd : d.toUpper ∉ k.toList) :
    d ∉ kw.text := by
  intro h
  refine hd ?_
  rw [← kw.spelled]
  exact List.mem_map_of_mem h

namespace IntoClause

variable {i : IntoClause} (hr : (Clause.into i).Readable)

/-- The length of the clause from its `VALUES` on. -/
def listLength (i : IntoClause) : ℕ := (i.fromValues []).length

lemma fromValues_append (i : IntoClause) (s t : List Char) :
    i.fromValues (s ++ t) = i.fromValues s ++ t := by
  simp [fromValues]

lemma fromValues_eq_append (i : IntoClause) (s : List Char) :
    i.fromValues s = i.fromValues [] ++ s := by
  rw [← fromValues_append, List.nil_append]

lemma length_fromValues (i : IntoClause) (s : List Char) :
    (i.fromValues s).length = i.listLength + s.length := by
  rw [fromValues_eq_append, List.length_append, listLength]

include hr in
/-- **The list of a clause ends at its parenthesis.** -/
lemma parenEnd_fromValues (rest : List Char) :
    parenEnd (i.fromValues rest) = some i.listLength := by
  obtain ⟨-, -, -, hgap, -⟩ := i.gaps
  have hno : '(' ∉ i.kwValues.text ++ i.gapValues := by
    rw [List.mem_append, not_or]
    refine ⟨i.kwValues.not_mem (by decide), fun h => ?_⟩
    exact ne_of_isWhitespace (hgap _ h) (by decide) rfl
  have hfind := find_paren hno (i.values ++ ')' :: rest)
  rw [List.append_assoc] at hfind
  have hdrop : (i.fromValues rest).drop (i.kwValues.text ++ i.gapValues).length =
      '(' :: (i.values ++ ')' :: rest) := by
    rw [fromValues, ← List.append_assoc, List.drop_left]
  have hlen : i.listLength =
      (i.kwValues.text ++ i.gapValues).length + (i.values.length + 1) + 1 := by
    simp only [listLength, fromValues, List.length_append, List.length_cons, List.length_nil]
    omega
  rw [parenEnd, fromValues, hfind]
  change (do
    let closeAt ← matchingParen (List.drop _ (i.fromValues rest))
    return _ + closeAt + 1) = _
  rw [hdrop, matchingParen_closed hr.2.2.2.2, hlen]
  rfl

/-- The clause from its `VALUES` on has a first character. -/
lemma fromValues_cons (i : IntoClause) : ∃ c x, i.fromValues [] = c :: x ∧
    c.toUpper = 'V' ∧ i.listLength = x.length + 1 := by
  have hs := i.kwValues.spelled
  obtain ⟨c, t, ht⟩ : ∃ c t, i.kwValues.text = c :: t := by
    cases ht : i.kwValues.text with
    | nil => rw [ht] at hs; cases hs
    | cons c t => exact ⟨c, t, rfl⟩
  rw [ht, upper_cons] at hs
  refine ⟨c, t ++ (i.gapValues ++ ('(' :: (i.values ++ [')']))), ?_, (List.cons.inj hs).1, ?_⟩
  · rw [fromValues, ht]
    rfl
  · rw [listLength, fromValues, ht]
    rfl

end IntoClause

/-! ### The scan for MariaDB -/

section Mariadb

variable {x y : List Char} {idx last : ℕ}

/-- The scan passes a text in which the word does not start. -/
lemma lastValuesCloseMariadb_quiet (hx : Quiet "VALUES".toList x y) :
    lastValuesCloseMariadb (x ++ y) 0 idx last =
      lastValuesCloseMariadb y 0 (idx + x.length) last := by
  induction x generalizing idx with
  | nil => rfl
  | cons c x ih =>
    rw [List.cons_append, lastValuesCloseMariadb, if_neg (Bool.eq_false_iff.1 hx.1), ih hx.2,
      List.length_cons, Nat.add_assoc, Nat.add_comm 1]

/-- The scan skips what a list has been matched to. -/
lemma lastValuesCloseMariadb_skip (x y : List Char) (idx last : ℕ) :
    lastValuesCloseMariadb (x ++ y) x.length idx last =
      lastValuesCloseMariadb y 0 (idx + x.length) last := by
  induction x generalizing idx with
  | nil => rfl
  | cons c x ih =>
    rw [List.cons_append, List.length_cons, lastValuesCloseMariadb, ih, Nat.add_assoc,
      Nat.add_comm 1]

/-- The scan goes on after a list. -/
lemma lastValuesCloseMariadb_fromValues {i : IntoClause} (hr : (Clause.into i).Readable)
    (rest : List Char) (idx last : ℕ) :
    lastValuesCloseMariadb (i.fromValues rest) 0 idx last =
      lastValuesCloseMariadb rest 0 (idx + i.listLength) (idx + i.listLength) := by
  obtain ⟨c, x, hx, -, hlen⟩ := i.fromValues_cons
  have hstart := IntoClause.startsWith_values (i := i) rest
  have hend := IntoClause.parenEnd_fromValues hr rest
  rw [i.fromValues_eq_append, hx, List.cons_append] at hstart hend ⊢
  rw [lastValuesCloseMariadb, if_pos hstart, hend]
  simp only [hlen, Nat.add_sub_cancel]
  rw [lastValuesCloseMariadb_skip]
  congr 1
  omega

/-- **The scan for MariaDB ends after the list of the last `INTO`.** -/
theorem lastValuesCloseMariadb_clauses {cs : List Clause} {i : IntoClause} {src : List Char}
    (hcs : ∀ c ∈ cs, c.Readable) (hi : (Clause.into i).Readable)
    (hsrc : Quiet "VALUES".toList src [])
    (idx last : ℕ) :
    lastValuesCloseMariadb (writeAll cs ((Clause.into i).write src)) 0 idx last =
      idx + (writeAll cs (i.writeCore [])).length := by
  induction cs generalizing idx last with
  | nil =>
    have hend : ∀ idx last, lastValuesCloseMariadb (i.gapEnd ++ src) 0 idx last = last := by
      intro idx last
      rw [← List.append_nil (i.gapEnd ++ src), lastValuesCloseMariadb_quiet
        (Quiet.append (quiet_gap i.gaps.2.2.2.2 _) hsrc)]
      rfl
    rw [writeAll_nil, i.write_eq_append, lastValuesCloseMariadb_quiet
      (IntoClause.quiet_beforeValues hi _), lastValuesCloseMariadb_fromValues hi, hend, writeAll_nil,
      i.writeCore_eq_append, List.length_append, ← IntoClause.listLength, Nat.add_assoc]
  | cons c cs ih =>
    simp only [List.mem_cons, forall_eq_or_imp] at hcs
    cases c with
    | when w =>
      rw [writeAll_cons, writeAll_cons, write_eq_append, lastValuesCloseMariadb_quiet
        (quiet_write_when hcs.1 _), ih hcs.2, write_eq_append _ (writeAll cs _), List.length_append,
        Nat.add_assoc]
    | otherwise e =>
      rw [writeAll_cons, writeAll_cons, write_eq_append, lastValuesCloseMariadb_quiet
        (quiet_write_otherwise e _), ih hcs.2, write_eq_append _ (writeAll cs _),
        List.length_append, Nat.add_assoc]
    | into j =>
      rw [writeAll_cons, writeAll_cons, j.write_eq_append, lastValuesCloseMariadb_quiet
        (IntoClause.quiet_beforeValues hcs.1 _), lastValuesCloseMariadb_fromValues hcs.1,
        lastValuesCloseMariadb_quiet (quiet_gap j.gaps.2.2.2.2 _), ih hcs.2, j.write_eq_append,
        List.length_append, j.length_fromValues, List.length_append]
      omega

end Mariadb

/-! ### Where the text is sliced -/

/-- The text can be sliced at every place of the first text when it is followed by the second. -/
def Plain : List Char → List Char → Prop
  | [], _ => True
  | c :: x, y => sliceable (c :: (x ++ y)) = true ∧ Plain x y

lemma isCharBoundary_of_ascii {n : ℕ} {s : List Char} (hs : Ascii (s.take n)) (hn : n ≤ s.length) :
    isCharBoundary n s = true := by
  induction s generalizing n with
  | nil =>
    obtain rfl : n = 0 := Nat.le_zero.1 hn
    rfl
  | cons c s ih =>
    cases n with
    | zero => rfl
    | succ n =>
      have hc : c.utf8Size = 1 := hs c (by simp)
      have htail : Ascii (s.take n) := hs.mono (by simp)
      have := ih htail (Nat.le_of_succ_le_succ hn)
      simp [isCharBoundary, hc, this]

lemma byteLen_of_ascii {s : List Char} (hs : Ascii s) : byteLen s = s.length := by
  induction s with
  | nil => rfl
  | cons c s ih =>
    have hc : c.utf8Size = 1 := hs c List.mem_cons_self
    have := ih (hs.mono (List.subset_cons_self c s))
    simp only [byteLen, List.map_cons, List.sum_cons, List.length_cons, hc] at this ⊢
    omega

lemma sliceable_of_ascii {s : List Char} (hs : Ascii (s.take 6)) : sliceable s = true := by
  have hfirst : (s.take 1).all (fun c => decide (c.utf8Size = 1)) = true := by
    rw [List.all_eq_true]
    intro c hc
    refine decide_eq_true (hs c ?_)
    exact (List.take_subset_take_left s (by omega)) hc
  rw [sliceable, hfirst, Bool.true_and, Bool.or_eq_true, decide_eq_true_eq]
  rcases Nat.lt_or_ge s.length 6 with hlt | hge
  · left
    rw [List.take_of_length_le hlt.le] at hs
    rw [byteLen_of_ascii hs]
    omega
  · right
    exact isCharBoundary_of_ascii hs hge

namespace Plain

variable {x y z : List Char}

lemma of_ascii (hx : Ascii x) (hy : Ascii (y.take 5)) : Plain x y := by
  induction x with
  | nil => trivial
  | cons c x ih =>
    refine ⟨sliceable_of_ascii ?_, ih (hx.mono (List.subset_cons_self c x))⟩
    rw [List.take_succ_cons, List.take_append]
    intro d hd
    rw [List.mem_cons, List.mem_append] at hd
    rcases hd with rfl | hd | hd
    · exact hx d List.mem_cons_self
    · exact hx d (List.mem_cons_of_mem _ (List.mem_of_mem_take hd))
    · exact hy d (List.take_subset_take_left y (by omega) hd)

end Plain

lemma utf8Size_of_isWhitespace {c : Char} (h : c.isWhitespace = true) : c.utf8Size = 1 := by
  rcases isWhitespace_cases h with rfl | rfl | rfl | rfl <;> rfl

lemma ascii_gap {g : List Char} (hg : Gap g) : Ascii g := fun c hc =>
  utf8Size_of_isWhitespace (hg c hc)

lemma Keyword.ascii {k : String} (kw : Keyword k) (hk : Ascii k.toList) : Ascii kw.text := by
  intro c hc
  refine utf8Size_of_toUpper (hk _ ?_)
  rw [← kw.spelled]
  exact List.mem_map_of_mem hc

lemma Keyword.ascii_take {k : String} (kw : Keyword k) (hk : Ascii k.toList) {g : List Char}
    (hg : Gap g) (hne : g ≠ []) (s : List Char) :
    Ascii ((kw.text ++ (g ++ s)).take (k.toList.length + 1)) := by
  obtain ⟨d, g, rfl⟩ := List.exists_cons_of_ne_nil hne
  have hd : d.utf8Size = 1 := utf8Size_of_isWhitespace (hg d List.mem_cons_self)
  rw [← kw.length_text, List.take_length_add_append, List.cons_append, List.take_succ_cons,
    List.take_zero]
  refine (kw.ascii hk).append fun c hc => ?_
  obtain rfl := List.mem_singleton.1 hc
  exact hd

/-- A clause starts with ASCII characters. -/
lemma ascii_take_write (c : Clause) (rest : List Char) : Ascii ((c.write rest).take 5) := by
  cases c with
  | when w => exact w.kwWhen.ascii_take (by decide) w.gaps.1 w.apart.1 _
  | otherwise e => exact e.kwElse.ascii_take (by decide) e.gaps e.apart _
  | into i => exact i.kwInto.ascii_take (by decide) i.gaps.1 i.apart.1 _

lemma closed_gap {g : List Char} (hg : Gap g) : Closed g := by
  refine closed_of_ordinary fun c hc => ?_
  rcases isWhitespace_cases (hg c hc) with rfl | rfl | rfl | rfl <;> decide

lemma Keyword.closed {k : String} (kw : Keyword k)
    (hk : ∀ c ∈ ['\'', '"', '(', ')'], c ∉ k.toList) : Closed kw.text := by
  refine closed_of_ordinary fun c hc => ?_
  have hno : ∀ d, d.toUpper = d → d ∈ ['\'', '"', '(', ')'] → c ≠ d := by
    rintro d hd hmem rfl
    exact kw.not_mem (by rw [hd]; exact hk c hmem) hc
  exact ⟨hno _ rfl (by decide), hno _ rfl (by decide), hno _ rfl (by decide), hno _ rfl (by decide)⟩

namespace IntoClause

variable {i : IntoClause} (hr : (Clause.into i).Readable)

include hr in
lemma ascii_beforeValues : Ascii i.beforeValues := by
  obtain ⟨hg1, hg2, hg3, -, -⟩ := i.gaps
  have hcols : Ascii i.colsText := by
    unfold colsText
    cases hc : i.cols with
    | none => exact fun c hc => absurd hc List.not_mem_nil
    | some c =>
      obtain ⟨hascii, -, -⟩ := hr.2.2.2.1 c hc
      exact Ascii.append (s := ['(']) (by decide) (hascii.append (by decide))
  exact (i.kwInto.ascii (by decide)).append ((ascii_gap hg1).append (hr.1.append
    ((ascii_gap hg2).append (hcols.append (ascii_gap hg3)))))

include hr in
lemma closed_beforeValues : Closed i.beforeValues := by
  obtain ⟨hg1, hg2, hg3, -, -⟩ := i.gaps
  have htable : Closed i.table := by
    refine closed_of_ordinary fun c hc => ?_
    obtain ⟨hname, h1, h2, h3⟩ := hr.2.2.1 c hc
    refine ⟨h1, h2, ?_, h3⟩
    rintro rfl
    exact absurd hname (by decide)
  have hcols : Closed i.colsText := by
    unfold colsText
    cases hc : i.cols with
    | none => rfl
    | some c => exact (hr.2.2.2.1 c hc).2.1.parens
  exact (i.kwInto.closed (by decide)).append ((closed_gap hg1).append (htable.append
    ((closed_gap hg2).append (hcols.append (closed_gap hg3)))))

lemma ascii_take_fromValues (i : IntoClause) (rest : List Char) :
    Ascii ((i.fromValues rest).take 6) := by
  have hlen : i.kwValues.text.length = 6 := i.kwValues.length_text
  rw [fromValues, ← hlen, List.take_left]
  exact i.kwValues.ascii (by decide)

lemma isValuesWord_fromValues (i : IntoClause) (rest : List Char) :
    isValuesWord (i.fromValues rest) = true := by
  have hlen : i.kwValues.text.length = 6 := i.kwValues.length_text
  have hpos : ∀ s : List Char, s.length ≤ byteLen s := by
    intro s
    induction s with
    | nil => exact Nat.le_refl 0
    | cons c s ih =>
      have := c.utf8Size_pos
      simp only [byteLen, List.map_cons, List.sum_cons, List.length_cons] at ih ⊢
      omega
  have hbytes : 7 ≤ byteLen (i.fromValues rest) := by
    refine le_trans ?_ (hpos _)
    simp only [fromValues, List.length_append, List.length_cons, hlen]
    omega
  have hnext : (((i.fromValues rest).drop 6).take 1).all (fun c => !c.isAlphanum) = true := by
    rw [fromValues, ← hlen, List.drop_left]
    cases hgap : i.gapValues with
    | nil => rfl
    | cons g gs =>
      have hg := i.gaps.2.2.2.1 g (by rw [hgap]; exact List.mem_cons_self)
      rcases isWhitespace_cases hg with rfl | rfl | rfl | rfl <;> rfl
  rw [isValuesWord, decide_eq_true hbytes, startsWith_values, hnext]
  rfl

end IntoClause

/-! ### The scan for PostgreSQL -/

section Postgres

variable {x y : List Char} {idx last : ℕ}

/-- The scan passes a text in which the word does not start, following its parentheses and
quotes. -/
lemma lastValuesClose_quiet {depth depth' : ℕ} {quote quote' : Option Char}
    (hf : follow depth quote x = some (depth', quote')) (hq : Quiet "VALUES".toList x y)
    (hp : Plain x y) :
    lastValuesClose (x ++ y) 0 idx depth quote last =
      lastValuesClose y 0 (idx + x.length) depth' quote' last := by
  induction x generalizing idx depth quote with
  | nil =>
    obtain ⟨rfl, rfl⟩ : depth = depth' ∧ quote = quote' := by simpa [follow] using hf
    rfl
  | cons c x ih =>
    have hlen : idx + (c :: x).length = idx + 1 + x.length := by
      rw [List.length_cons]
      omega
    rw [hlen, List.cons_append]
    cases quote with
    | some q => rw [lastValuesClose, ih hf hq.2 hp.2]
    | none =>
      have hword : isValuesWord (c :: (x ++ y)) = false := by
        rw [isValuesWord, hq.1, Bool.and_false, Bool.false_and]
      simp only [follow] at hf
      rw [lastValuesClose, hp.1, hword, if_pos rfl, if_neg Bool.false_ne_true]
      split_ifs at hf ⊢
      · exact ih hf hq.2 hp.2
      · rw [← ih hf hq.2 hp.2, Nat.cast_add, Nat.cast_one]
      · cases depth with
        | zero => cases hf
        | succ depth =>
          rw [Nat.cast_add, Nat.cast_one, add_sub_cancel_right]
          exact ih hf hq.2 hp.2
      · exact ih hf hq.2 hp.2
      · exact ih hf hq.2 hp.2

/-- The scan passes a closed text in which the word does not start. -/
lemma lastValuesClose_closed (hc : Closed x) (hq : Quiet "VALUES".toList x y) (hp : Plain x y) :
    lastValuesClose (x ++ y) 0 idx 0 none last =
      lastValuesClose y 0 (idx + x.length) 0 none last := by
  have hf : follow 0 none x = some (0, none) := hc
  exact_mod_cast lastValuesClose_quiet hf hq hp

/-- The scan skips what a list has been matched to. -/
lemma lastValuesClose_skip (x y : List Char) (idx : ℕ) (depth : ℤ) (quote : Option Char)
    (last : ℕ) :
    lastValuesClose (x ++ y) x.length idx depth quote last =
      lastValuesClose y 0 (idx + x.length) depth quote last := by
  induction x generalizing idx with
  | nil => rfl
  | cons c x ih =>
    rw [List.cons_append, List.length_cons, lastValuesClose, ih, Nat.add_assoc, Nat.add_comm 1]

/-- The scan goes on after a list. -/
lemma lastValuesClose_fromValues {i : IntoClause} (hr : (Clause.into i).Readable)
    (rest : List Char) (idx last : ℕ) :
    lastValuesClose (i.fromValues rest) 0 idx 0 none last =
      lastValuesClose rest 0 (idx + i.listLength) 0 none (idx + i.listLength) := by
  obtain ⟨c, x, hx, hc, hlen⟩ := i.fromValues_cons
  have hslice := sliceable_of_ascii (i.ascii_take_fromValues rest)
  have hword := i.isValuesWord_fromValues rest
  have hend := IntoClause.parenEnd_fromValues hr rest
  rw [i.fromValues_eq_append, hx, List.cons_append] at hslice hword hend ⊢
  have hne : ∀ d : Char, d.toUpper ≠ 'V' → c ≠ d := by
    rintro d hd rfl
    exact hd hc
  rw [lastValuesClose, if_neg (not_or.2 ⟨hne _ (by decide), hne _ (by decide)⟩),
    if_neg (hne _ (by decide)), if_neg (hne _ (by decide)), if_pos rfl, if_pos hslice,
    if_pos hword, hend]
  simp only [hlen, Nat.add_sub_cancel]
  rw [lastValuesClose_skip]
  congr 1
  omega

/-- No list ends in a text in which the word does not start. -/
lemma lastValuesClose_tail {x : List Char} (hq : Quiet "VALUES".toList x []) (hp : Plain x [])
    (idx : ℕ) (depth : ℤ) (quote : Option Char) (last : ℕ) :
    lastValuesClose x 0 idx depth quote last = some last := by
  induction x generalizing idx depth quote with
  | nil => rfl
  | cons c x ih =>
    have hq1 := hq.1
    have hp1 := hp.1
    rw [List.append_nil] at hq1 hp1
    have hword : isValuesWord (c :: x) = false := by
      rw [isValuesWord, hq1, Bool.and_false, Bool.false_and]
    have ih := fun idx depth quote => ih hq.2 hp.2 idx depth quote
    cases quote with
    | some q => exact ih _ _ _
    | none =>
      rw [lastValuesClose, hp1, hword, if_pos rfl, if_neg Bool.false_ne_true]
      split_ifs <;> exact ih _ _ _

/-- The scan passes a clause without a list. -/
lemma lastValuesClose_write {c : Clause} {rest : List Char} (hclosed : Closed (c.write []))
    (hascii : Ascii (c.write [])) (hquiet : Quiet "VALUES".toList (c.write []) rest)
    (hrest : Ascii (rest.take 5)) :
    lastValuesClose (c.write rest) 0 idx 0 none last =
      lastValuesClose rest 0 (idx + (c.write []).length) 0 none last := by
  rw [write_eq_append]
  exact lastValuesClose_closed hclosed hquiet (Plain.of_ascii hascii hrest)

/-- The scan goes on after an `INTO` clause. -/
lemma lastValuesClose_into {i : IntoClause} (hr : (Clause.into i).Readable) (rest : List Char) :
    lastValuesClose ((Clause.into i).write rest) 0 idx 0 none last =
      lastValuesClose (i.gapEnd ++ rest) 0 (idx + (i.beforeValues.length + i.listLength)) 0 none
        (idx + (i.beforeValues.length + i.listLength)) := by
  have hplain : Plain i.beforeValues (i.fromValues (i.gapEnd ++ rest)) :=
    Plain.of_ascii (IntoClause.ascii_beforeValues hr)
      ((i.ascii_take_fromValues _).mono (List.take_subset_take_left _ (by omega)))
  rw [i.write_eq_append, lastValuesClose_closed (IntoClause.closed_beforeValues hr)
    (IntoClause.quiet_beforeValues hr _) hplain, lastValuesClose_fromValues hr, Nat.add_assoc]

/-- **The scan for PostgreSQL ends after the list of the last `INTO`**, and never slices a
character apart. -/
theorem lastValuesClose_clauses {cs : List Clause} {i : IntoClause} {src : List Char}
    (hcs : ∀ c ∈ cs, c.Readable) (hi : (Clause.into i).Readable)
    (hsrc : Quiet "VALUES".toList src [])
    (hascii : Ascii src) (idx last : ℕ) :
    lastValuesClose (writeAll cs ((Clause.into i).write src)) 0 idx 0 none last =
      some (idx + (writeAll cs (i.writeCore [])).length) := by
  have htail : ∀ cs', Ascii ((writeAll cs' ((Clause.into i).write src)).take 5) := by
    intro cs'
    cases cs' with
    | nil => exact ascii_take_write (Clause.into i) src
    | cons c cs' => exact ascii_take_write c _
  induction cs generalizing idx last with
  | nil =>
    obtain ⟨-, -, -, -, hg⟩ := i.gaps
    have hq : Quiet "VALUES".toList (i.gapEnd ++ src) [] := Quiet.append (quiet_gap hg _) hsrc
    have hp : Plain (i.gapEnd ++ src) [] := Plain.of_ascii ((ascii_gap hg).append hascii) (by decide)
    rw [writeAll_nil, lastValuesClose_into hi, lastValuesClose_tail hq hp, writeAll_nil,
      i.writeCore_eq_append, List.length_append, ← IntoClause.listLength]
  | cons c cs ih =>
    have hrest := htail cs
    have ih := ih fun d hd => hcs d (List.mem_cons_of_mem _ hd)
    have hc := hcs c List.mem_cons_self
    rw [writeAll_cons, writeAll_cons]
    cases c with
    | when w =>
      obtain ⟨hg1, hg2, hg3⟩ := w.gaps
      have hclosed : Closed ((Clause.when w).write []) :=
        (w.kwWhen.closed (by decide)).append ((closed_gap hg1).append (hc.2.1.append
          ((closed_gap hg2).append ((w.kwThen.closed (by decide)).append
            ((closed_gap hg3).append rfl)))))
      have hasc : Ascii ((Clause.when w).write []) :=
        (w.kwWhen.ascii (by decide)).append ((ascii_gap hg1).append (hc.1.append
          ((ascii_gap hg2).append ((w.kwThen.ascii (by decide)).append
            ((ascii_gap hg3).append (by decide))))))
      rw [lastValuesClose_write hclosed hasc (quiet_write_when hc _) hrest, ih,
        write_eq_append _ (writeAll cs _), List.length_append, Nat.add_assoc]
    | otherwise e =>
      have hclosed : Closed ((Clause.otherwise e).write []) :=
        (e.kwElse.closed (by decide)).append ((closed_gap e.gaps).append rfl)
      have hasc : Ascii ((Clause.otherwise e).write []) :=
        (e.kwElse.ascii (by decide)).append ((ascii_gap e.gaps).append (by decide))
      rw [lastValuesClose_write hclosed hasc (quiet_write_otherwise e _) hrest, ih,
        write_eq_append _ (writeAll cs _), List.length_append, Nat.add_assoc]
    | into j =>
      have hg := j.gaps.2.2.2.2
      rw [lastValuesClose_into hc, lastValuesClose_closed (closed_gap hg) (quiet_gap hg _)
        (Plain.of_ascii (ascii_gap hg) hrest), ih, j.write_eq_append, List.length_append,
        j.length_fromValues, List.length_append]
      congr 1
      omega

end Postgres

end DbSaci.Translate
