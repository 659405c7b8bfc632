import DbSaci.Translate.Rownum

set_option relaxedAutoImplicit false
set_option autoImplicit false

/-!
# The `WHERE` clause that is printed

The conjuncts of a `WHERE` clause are printed without the parentheses `flattenAnd` looked
through. The clause keeps its truth value when no disjunction stands bare beside another
conjunct; where one does, the server reads another predicate.

## Main definitions

* `WhereClause` — a clause as the parser hands it over, without `ROWNUM`.
* `whereText`, `WhereFaithful` — the text that is printed, and that it means what the clause
  means.
* `KeepsGrouping` — no disjunction is a conjunct beside another conjunct.

## Main results

* `read_rebuildAnd`, `rebuildAnd_changes` — when printed conjuncts keep their meaning.
* `whereFaithful_iff_keepsGrouping` — the same for a whole clause.
-/

namespace DbSaci.Translate

open Sql

/-- A `WHERE` clause as the parser hands it over: its tree is one the parser builds, and it does
not mention `ROWNUM`. -/
structure WhereClause where
  expr : Expr
  parsed : expr.formula.Parsed
  noRownum : expr.mentionsRownum = false

/-- The text of the predicate that remains after `stripRownumPredicate`. -/
def whereText (selection : Expr) : Option (List (Formula.Token Expr)) :=
  (stripRownumPredicate selection).1.map fun e => e.formula.print

/-- The printed text is read as a predicate with the truth value of the clause, whatever the
truth values of the atoms. -/
def WhereFaithful (selection : Expr) : Prop :=
  ∃ f, (whereText selection).bind Formula.read = some f ∧
    ∀ v, f.truth v = selection.formula.truth v

/-- No disjunction is a conjunct beside another conjunct. -/
def KeepsGrouping (cs : List Expr) : Prop :=
  cs.length ≤ 1 ∨ ∀ c ∈ cs, c.formula.level ≠ 0

instance (cs : List Expr) : Decidable (KeepsGrouping cs) := by
  unfold KeepsGrouping
  infer_instance

/-- **Printed conjuncts keep their meaning** when no disjunction stands bare beside another. -/
theorem read_rebuildAnd {cs : List Expr} (hne : cs ≠ [])
    (hp : ∀ c ∈ cs, c.formula.Parsed ∧ c.formula.level ≠ 1) (hk : KeepsGrouping cs) :
    ∃ f, ((rebuildAnd cs).map fun e => e.formula.print).bind Formula.read = some f ∧
      ∀ v, f.truth v = Formula.meet v (cs.map Expr.formula) ⊤ := by
  obtain ⟨c, ds, rfl⟩ := List.exists_cons_of_ne_nil hne
  have hprint : (rebuildAnd (c :: ds)).map (fun e => e.formula.print) =
      some ((ds.map Expr.formula).foldl .and c.formula).print := by
    rw [← Function.comp_def, ← Option.map_map, formula_rebuildAnd, Option.map_some]
  rw [hprint, Option.bind_some]
  simp only [List.mem_cons, forall_eq_or_imp] at hp
  rcases hk with hlen | hor
  · -- a single conjunct is printed as it is
    obtain rfl : ds = [] := by simpa using hlen
    exact ⟨c.formula, Formula.read_print _ hp.1.1, fun v => by simp⟩
  · simp only [List.mem_cons, forall_eq_or_imp] at hor
    obtain ⟨f, hf, hv⟩ := Formula.truth_read_chain c.formula (ds.map Expr.formula)
      (by simpa using ⟨hp.1.1, fun d hd => (hp.2 d hd).1⟩)
      (by simpa using ⟨by omega, fun d hd => by have := hor.2 d hd; omega⟩)
    refine ⟨f, hf, fun v => ?_⟩
    rw [hv, Formula.truth_foldl_and, List.map_cons, Formula.meet_cons, top_inf_eq]

/-- **Printed conjuncts change their meaning** when a disjunction stands bare beside another:
over distinct atoms, some assignment makes a conjunct false and the text true. -/
theorem rebuildAnd_changes {cs : List Expr}
    (hp : ∀ c ∈ cs, c.formula.Parsed ∧ c.formula.level ≠ 1) (hk : ¬ KeepsGrouping cs)
    (hd : (cs.flatMap fun c => c.formula.atoms).Nodup) :
    ∃ v f, ((rebuildAnd cs).map fun e => e.formula.print).bind Formula.read = some f ∧
      f.truth v = ⊤ ∧ Formula.meet v (cs.map Expr.formula) ⊤ = ⊥ := by
  simp only [KeepsGrouping, not_or, not_le, not_forall, not_not] at hk
  obtain ⟨hlen, d, hdmem, hd0⟩ := hk
  obtain ⟨c, ds, rfl⟩ : ∃ c ds, cs = c :: ds := by
    cases cs with
    | nil => simp at hlen
    | cons c ds => exact ⟨c, ds, rfl⟩
  have hprint : (rebuildAnd (c :: ds)).map (fun e => e.formula.print) =
      some ((ds.map Expr.formula).foldl .and c.formula).print := by
    rw [← Function.comp_def, ← Option.map_map, formula_rebuildAnd, Option.map_some]
  obtain ⟨v, f, hf, hft, hfb⟩ := Formula.exists_chain_changes c.formula (ds.map Expr.formula)
    (by
      rw [← List.map_cons]
      simpa using fun c hc => (hp c hc).1)
    ⟨d.formula, by rw [← List.map_cons]; exact List.mem_map_of_mem hdmem, hd0⟩
    (by
      rintro h
      simp [List.map_eq_nil_iff.1 h] at hlen)
    (by rwa [← List.map_cons, List.flatMap_map])
  refine ⟨v, f, by rw [hprint, Option.bind_some, hf], hft, ?_⟩
  rw [List.map_cons, Formula.meet_cons, top_inf_eq, ← Formula.truth_foldl_and, hfb]

lemma whereText_eq (w : WhereClause) :
    whereText w.expr = (rebuildAnd (conjuncts w.expr)).map fun e => e.formula.print := by
  rw [whereText, stripRownumPredicate_of_not_mentionsRownum w.noRownum]

/-- **When the printed `WHERE` clause keeps its meaning.** It does when no disjunction is a
conjunct beside another conjunct; and over distinct atoms it does only then. -/
theorem whereFaithful_iff_keepsGrouping (w : WhereClause) :
    (KeepsGrouping (conjuncts w.expr) → WhereFaithful w.expr) ∧
    (w.expr.formula.atoms.Nodup →
      (WhereFaithful w.expr ↔ KeepsGrouping (conjuncts w.expr))) := by
  have hp : ∀ c ∈ conjuncts w.expr, c.formula.Parsed ∧ c.formula.level ≠ 1 :=
    fun c hc => parsed_of_mem_conjuncts w.parsed hc
  have hkeep : KeepsGrouping (conjuncts w.expr) → WhereFaithful w.expr := by
    intro hk
    obtain ⟨f, hf, hv⟩ := read_rebuildAnd (conjuncts_ne_nil w.expr) hp hk
    exact ⟨f, by rw [whereText_eq, hf], fun v => by rw [hv, truth_eq_meet_conjuncts]⟩
  refine ⟨hkeep, fun hd => ⟨fun ⟨f, hf, hv⟩ => ?_, hkeep⟩⟩
  by_contra hk
  rw [← flatMap_atoms_conjuncts] at hd
  obtain ⟨v, g, hg, hgt, hgb⟩ := rebuildAnd_changes hp hk hd
  rw [whereText_eq, hg] at hf
  have hvv := hv v
  rw [truth_eq_meet_conjuncts, hgb, ← Option.some.inj hf, hgt] at hvv
  exact absurd hvv (by decide)

/-- The clause `(a OR b) AND c`. -/
def groupedOr : WhereClause where
  expr := .binaryOp (.nested (.binaryOp (.other "a") .or (.other "b"))) .and (.other "c")
  parsed := by decide
  noRownum := by decide

/-- Its atoms are distinct, so the grouping decides. -/
theorem groupedOr_faithful_iff :
    WhereFaithful groupedOr.expr ↔ KeepsGrouping (conjuncts groupedOr.expr) :=
  (whereFaithful_iff_keepsGrouping groupedOr).2 (by decide)

/-- `(a OR b) AND c` is printed as `a OR b AND c` and read as `a OR (b AND c)`: where `a` is true
and `c` is false, the clause is false and the text is true. -/
theorem groupedOr_not_faithful : ¬ WhereFaithful groupedOr.expr := by
  rintro ⟨f, hf, hv⟩
  have hf' : (whereText groupedOr.expr).bind Formula.read =
      some (.or (.atom (.other "a")) (.and (.atom (.other "b")) (.atom (.other "c")))) := by
    decide
  obtain rfl := Option.some.inj (hf'.symm.trans hf)
  have := hv fun e => if e = .other "a" then .yes else .no
  revert this
  decide

end DbSaci.Translate
