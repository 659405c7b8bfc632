import DbSaci.Translate.Untranslated
import DbSaci.Translate.TranslateQuery

set_option relaxedAutoImplicit false
set_option autoImplicit false

/-!
# What the translation of a statement reaches

Every clause of a statement gives the traversal expressions and queries: some it rewrites, some it
keeps as they are.  A statement comes out without a `DECODE` of three or more arguments, an
`NVL2`, an `LNNVL`, a `ROWNUM` or an empty text exactly when none of these stood in what is kept.

## Main definitions

* `Parts` — the expressions and queries of a clause, sorted by what happens to them.
* `QueryNode.prepared` — a query with its `(+)` conditions, its `ROWNUM` bounds and the aliases in
  its `ORDER BY` resolved, before any expression is rewritten.
* `Query.Occurs`, `Query.Missed`, `Statement.Occurs`, `Statement.Missed` — what stands in a query
  or a statement, and what its translation does not reach.

## Main results

* `translateQuery_occurs` — what a translated query holds is what was missed.
* `oracleToPostgres_clean_iff` — the same for a statement.
-/

namespace DbSaci.Translate.Syntax

open DbSaci.Sql.Syntax

variable {κ : Type}

/-! ### Parts -/

/-- The expressions and the queries of a clause: those the traversal rewrites or translates, and
those it keeps. -/
structure Parts (κ : Type) where
  visited : List (Expr κ) := []
  hidden : List (Expr κ) := []
  visitedQueries : List κ := []
  hiddenQueries : List κ := []

namespace Parts

/-- The parts of two clauses together. -/
def append (p q : Parts κ) : Parts κ where
  visited := p.visited ++ q.visited
  hidden := p.hidden ++ q.hidden
  visitedQueries := p.visitedQueries ++ q.visitedQueries
  hiddenQueries := p.hiddenQueries ++ q.hiddenQueries

instance : Append (Parts κ) := ⟨append⟩

/-- All expressions. -/
def exprs (p : Parts κ) : List (Expr κ) := p.visited ++ p.hidden

/-- All queries. -/
def queries (p : Parts κ) : List κ := p.visitedQueries ++ p.hiddenQueries

/-- Something that has to be translated stands in one of the parts. -/
def Holds (occ : κ → Prop) (p : Parts κ) : Prop :=
  (∃ e ∈ p.exprs, Occurs occ e) ∨ ∃ q ∈ p.queries, occ q

/-- Something that has to be translated is not reached in one of the parts. -/
def Leaves (occ missed : κ → Prop) (p : Parts κ) : Prop :=
  (∃ e ∈ p.visited, Missed occ missed e) ∨ (∃ e ∈ p.hidden, Occurs occ e) ∨
    (∃ q ∈ p.visitedQueries, missed q) ∨ ∃ q ∈ p.hiddenQueries, occ q

/-- What the traversal makes of the parts. -/
structure Rewritten (translate : κ → Except Error κ) (p p' : Parts κ) : Prop where
  visited : List.Forall₂ (fun e e' => rewriteExpr translate e = .ok e') p.visited p'.visited
  hidden : p'.hidden = p.hidden
  visitedQueries : List.Forall₂ (fun q q' => translate q = .ok q') p.visitedQueries p'.visitedQueries
  hiddenQueries : p'.hiddenQueries = p.hiddenQueries

variable {translate : κ → Except Error κ} {p p' q q' : Parts κ}

lemma Rewritten.append (hp : Rewritten translate p p') (hq : Rewritten translate q q') :
    Rewritten translate (p ++ q) (p' ++ q') where
  visited := List.rel_append hp.visited hq.visited
  hidden := congrArg₂ (· ++ ·) hp.hidden hq.hidden
  visitedQueries := List.rel_append hp.visitedQueries hq.visitedQueries
  hiddenQueries := congrArg₂ (· ++ ·) hp.hiddenQueries hq.hiddenQueries

/-- Parts that are kept as they are. -/
lemma Rewritten.kept (h : List (Expr κ)) (hq : List κ) :
    Rewritten translate { hidden := h, hiddenQueries := hq } { hidden := h, hiddenQueries := hq } where
  visited := .nil
  hidden := rfl
  visitedQueries := .nil
  hiddenQueries := rfl

/-- Expressions that are rewritten. -/
lemma Rewritten.exprs {es es' : List (Expr κ)}
    (h : List.Forall₂ (fun e e' => rewriteExpr translate e = .ok e') es es') :
    Rewritten translate { visited := es } { visited := es' } where
  visited := h
  hidden := rfl
  visitedQueries := .nil
  hiddenQueries := rfl

/-- **What rewritten parts hold is what was not reached in them.** -/
theorem Rewritten.holds_iff {occ missed : κ → Prop} (h : Rewritten translate p p')
    (hquery : ∀ q q', translate q = .ok q' → (occ q' ↔ missed q)) :
    p'.Holds occ ↔ p.Leaves occ missed := by
  have hexprs := exists_forall₂ h.visited fun e _ e' he =>
    show Occurs occ e' ↔ Missed occ missed e from rewriteExpr_occurs hquery he
  have hqueries := exists_forall₂ h.visitedQueries fun q _ q' hq => hquery q q' hq
  rw [Holds, Leaves, Parts.exprs, queries, h.hidden, h.hiddenQueries, ← hexprs, ← hqueries]
  simp only [List.mem_append, or_and_right, exists_or, or_assoc]

end Parts

/-! ### The parts of the clauses -/

/-- The parts of a `SELECT` list; the options of a wildcard are kept. -/
def itemsParts : List (SelectItem κ) → Parts κ
  | [] => {}
  | .unnamedExpr e :: items => { visited := [e] } ++ itemsParts items
  | .exprWithAlias e _ :: items => { visited := [e] } ++ itemsParts items
  | .other exprs :: items => { hidden := exprs } ++ itemsParts items

/-- The parts of what a `FROM` clause names: only a query in parentheses is translated. -/
def factorParts : TableFactor κ → Parts κ
  | .table _ _ args => { hidden := args }
  | .derived query _ => { visitedQueries := [query] }
  | .tableFunction e _ => { hidden := [e] }
  | .other exprs queries => { hidden := exprs, hiddenQueries := queries }

/-- The parts of a join condition. -/
def constraintParts (operator : JoinOperator) : JoinConstraint κ → Parts κ
  | .on e => if hasConstraint operator then { visited := [e] } else { hidden := [e] }
  | _ => {}

/-- The parts of joins; the match condition of an `ASOF` join is kept. -/
def joinsParts : List (Join κ) → Parts κ
  | [] => {}
  | j :: js => factorParts j.relation ++ constraintParts j.operator j.constraint ++
      { hidden := j.matchCondition.toList } ++ joinsParts js

/-- The parts of a `FROM` clause. -/
def tablesParts : List (TableWithJoins κ) → Parts κ
  | [] => {}
  | t :: ts => factorParts t.relation ++ joinsParts t.joins ++ tablesParts ts

/-- The parts of a `SELECT`. -/
def selectParts (s : Select κ) : Parts κ :=
  itemsParts s.projection ++ { visited := s.groupBy } ++ { visited := s.having.toList } ++
    tablesParts s.fromClause ++ { visited := s.selection.toList } ++
    { hidden := s.rest.map Prod.snd }

/-- The parts of the body of a query. -/
def bodyParts : SetExpr κ → Parts κ
  | .select s => selectParts s
  | .query query => { visitedQueries := [query] }
  | .values rows => { visited := rows.flatten }
  | .setOperation left _ right => bodyParts left ++ bodyParts right
  | .other exprs queries => { hidden := exprs, hiddenQueries := queries }

/-- The expressions of a limit clause. -/
def limitExprs : Option (LimitClause κ) → List (Expr κ)
  | none => []
  | some (.limitOffset limit offset limitBy) => limit.toList ++ offset.toList ++ limitBy
  | some (.offsetCommaLimit offset limit) => [offset, limit]

/-- The parts of a query: the queries of its `WITH` clause, its limit and its other clauses are
kept. -/
def nodeParts (node : QueryNode κ) : Parts κ :=
  bodyParts node.body ++ { visited := node.orderBy } ++
    { hidden := limitExprs node.limitClause ++ node.rest, hiddenQueries := node.ctes }

/-! ### Before the expressions are rewritten -/

/-- A `SELECT` whose `(+)` conditions are joins, without `DUAL` and without `ROWNUM` bounds. -/
def prepareSelect (select : Select κ) : Select κ :=
  let select := dropDual (translateLegacyOuterJoin select)
  { select with selection := select.selection.bind fun e => (stripRownumPredicate e).1 }

/-- The row limit of a `SELECT`. -/
def selectBound (select : Select κ) : Option (Expr κ) :=
  (dropDual (translateLegacyOuterJoin select)).selection.bind fun e => (stripRownumPredicate e).2

/-- A body whose `SELECT`s are prepared. -/
def prepareBody : SetExpr κ → SetExpr κ
  | .select s => .select (prepareSelect s)
  | .setOperation left op right => .setOperation (prepareBody left) op (prepareBody right)
  | body => body

/-- The row limit of a body. -/
def bodyBound : SetExpr κ → Option (Expr κ)
  | .select s => selectBound s
  | _ => none

/-- A query whose body is prepared, whose `ORDER BY` has no aliases in larger terms, and whose
`ROWNUM` bound has become its limit. -/
def prepareNode (node : QueryNode κ) : QueryNode κ :=
  { node with
    body := prepareBody node.body
    orderBy := orderTerms node
    limitClause := ((bodyBound node.body).map fun e => some (limitOnly e)).getD node.limitClause }

/-! ### The traversal -/

section Traversal

variable {translate : κ → Except Error κ}

lemma rewriteItems_rewritten {items items' : List (SelectItem κ)}
    (h : rewriteItems translate items = .ok items') :
    (itemsParts items).Rewritten translate (itemsParts items') := by
  induction items generalizing items' with
  | nil =>
    cases h
    exact .kept [] []
  | cons item items ih =>
    cases item with
    | unnamedExpr e =>
      obtain ⟨e', he, h⟩ := bind_eq_ok.mp h
      obtain ⟨rest', hrest, h⟩ := bind_eq_ok.mp h
      cases h
      exact (Parts.Rewritten.exprs (.cons he .nil)).append (ih hrest)
    | exprWithAlias e aliasName =>
      obtain ⟨e', he, h⟩ := bind_eq_ok.mp h
      obtain ⟨rest', hrest, h⟩ := bind_eq_ok.mp h
      cases h
      exact (Parts.Rewritten.exprs (.cons he .nil)).append (ih hrest)
    | other exprs =>
      obtain ⟨rest', hrest, h⟩ := bind_eq_ok.mp h
      cases h
      exact (Parts.Rewritten.kept exprs []).append (ih hrest)

lemma rewriteTableFactor_rewritten {seq : ℕ} {t : TableFactor κ} {r : TableFactor κ × ℕ}
    (h : rewriteTableFactor translate seq t = .ok r) :
    (factorParts t).Rewritten translate (factorParts r.1) := by
  cases t with
  | derived query aliasName =>
    obtain ⟨query', hquery, h⟩ := bind_eq_ok.mp h
    cases aliasName <;> cases h <;> exact ⟨.nil, rfl, .cons hquery .nil, rfl⟩
  | table name aliasName args =>
    cases h
    exact .kept args []
  | tableFunction e aliasName =>
    cases h
    exact .kept [e] []
  | other exprs queries =>
    cases h
    exact .kept exprs queries

lemma rewriteConstraint_rewritten {operator : JoinOperator} {c c' : JoinConstraint κ}
    (h : rewriteConstraint translate operator c = .ok c') :
    (constraintParts operator c).Rewritten translate (constraintParts operator c') := by
  cases c with
  | on e =>
    rw [rewriteConstraint] at h
    by_cases hop : hasConstraint operator = true
    · rw [if_pos hop] at h
      obtain ⟨e', he, h⟩ := bind_eq_ok.mp h
      cases h
      rw [constraintParts, constraintParts, if_pos hop, if_pos hop]
      exact .exprs (.cons he .nil)
    · rw [if_neg hop] at h
      cases h
      rw [constraintParts, if_neg hop]
      exact .kept [e] []
  | _ =>
    cases h
    exact .kept [] []

lemma rewriteJoins_rewritten {seq : ℕ} {js : List (Join κ)} {r : List (Join κ) × ℕ}
    (h : rewriteJoins translate seq js = .ok r) :
    (joinsParts js).Rewritten translate (joinsParts r.1) := by
  induction js generalizing seq r with
  | nil =>
    cases h
    exact .kept [] []
  | cons j js ih =>
    obtain ⟨relation, hrelation, h⟩ := bind_eq_ok.mp h
    obtain ⟨c', hc, h⟩ := bind_eq_ok.mp h
    obtain ⟨rest, hrest, h⟩ := bind_eq_ok.mp h
    cases h
    exact (((rewriteTableFactor_rewritten hrelation).append
      (rewriteConstraint_rewritten hc)).append (.kept _ [])).append (ih hrest)

lemma rewriteTables_rewritten {seq : ℕ} {ts ts' : List (TableWithJoins κ)}
    (h : rewriteTables translate seq ts = .ok ts') :
    (tablesParts ts).Rewritten translate (tablesParts ts') := by
  induction ts generalizing seq ts' with
  | nil =>
    cases h
    exact .kept [] []
  | cons t ts ih =>
    obtain ⟨relation, hrelation, h⟩ := bind_eq_ok.mp h
    obtain ⟨joins, hjoins, h⟩ := bind_eq_ok.mp h
    obtain ⟨rest, hrest, h⟩ := bind_eq_ok.mp h
    cases h
    exact ((rewriteTableFactor_rewritten hrelation).append
      (rewriteJoins_rewritten hjoins)).append (ih hrest)

lemma rewriteOption_rewritten {o o' : Option (Expr κ)} (h : rewriteOption translate o = .ok o') :
    Parts.Rewritten translate { visited := o.toList } { visited := o'.toList } := by
  rcases rewriteOption_cases h with ⟨rfl, rfl⟩ | ⟨e, e', rfl, rfl, he⟩
  · exact .exprs .nil
  · exact .exprs (.cons he .nil)

/-- A `SELECT` is prepared, and then its parts are rewritten. -/
lemma translateSelect_rewritten {s : Select κ} {r : Select κ × Option (Expr κ)}
    (h : translateSelect translate s = .ok r) :
    (selectParts (prepareSelect s)).Rewritten translate (selectParts r.1) ∧
      r.2 = selectBound s := by
  obtain ⟨projection, hprojection, h⟩ := bind_eq_ok.mp h
  obtain ⟨groupBy, hgroupBy, h⟩ := bind_eq_ok.mp h
  obtain ⟨having, hhaving, h⟩ := bind_eq_ok.mp h
  obtain ⟨fromClause, hfrom, h⟩ := bind_eq_ok.mp h
  have hfront := (((rewriteItems_rewritten hprojection).append
    (.exprs (rewriteExprs_forall₂ hgroupBy))).append (rewriteOption_rewritten hhaving)).append
    (rewriteTables_rewritten hfrom)
  rw [prepareSelect, selectBound]
  cases hsel : (dropDual (translateLegacyOuterJoin s)).selection with
  | none =>
    rw [hsel] at h
    cases h
    exact ⟨(hfront.append (.exprs .nil)).append (.kept _ []), rfl⟩
  | some selection =>
    rw [hsel] at h
    obtain ⟨remaining, hremaining, h⟩ := bind_eq_ok.mp h
    cases h
    exact ⟨(hfront.append (rewriteOption_rewritten hremaining)).append (.kept _ []), rfl⟩

lemma rewriteRows_rewritten {rows rows' : List (List (Expr κ))}
    (h : rewriteRows translate rows = .ok rows') :
    List.Forall₂ (fun e e' => rewriteExpr translate e = .ok e') rows.flatten rows'.flatten := by
  induction rows generalizing rows' with
  | nil =>
    cases h
    exact .nil
  | cons row rows ih =>
    obtain ⟨row', hrow, h⟩ := bind_eq_ok.mp h
    obtain ⟨rest', hrest, h⟩ := bind_eq_ok.mp h
    cases h
    exact List.rel_append (rewriteExprs_forall₂ hrow) (ih hrest)

/-- So is a body. -/
lemma translateSetExpr_rewritten {body : SetExpr κ} {r : SetExpr κ × Option (Expr κ)}
    (h : translateSetExpr translate body = .ok r) :
    (bodyParts (prepareBody body)).Rewritten translate (bodyParts r.1) ∧ r.2 = bodyBound body := by
  induction body generalizing r with
  | select s =>
    obtain ⟨s', hs, h⟩ := bind_eq_ok.mp h
    cases h
    exact translateSelect_rewritten hs
  | query q =>
    obtain ⟨q', hq, h⟩ := bind_eq_ok.mp h
    cases h
    exact ⟨⟨.nil, rfl, .cons hq .nil, rfl⟩, rfl⟩
  | values rows =>
    obtain ⟨rows', hrows, h⟩ := bind_eq_ok.mp h
    cases h
    exact ⟨.exprs (rewriteRows_rewritten hrows), rfl⟩
  | setOperation left op right ihl ihr =>
    obtain ⟨⟨left', boundLeft⟩, hleft, h⟩ := bind_eq_ok.mp h
    cases boundLeft with
    | some bound => cases h
    | none =>
      obtain ⟨⟨right', boundRight⟩, hright, h⟩ := bind_eq_ok.mp h
      cases boundRight with
      | some bound => cases h
      | none =>
        cases h
        exact ⟨(ihl hleft).1.append (ihr hright).1, rfl⟩
  | other exprs queries =>
    cases h
    exact ⟨.kept exprs queries, rfl⟩

end Traversal

/-! ### Queries -/

/-- Something that has to be translated stands in a query, or in one nested in it. -/
inductive Query.Occurs : Query → Prop
  | expr {node : QueryNode Query} {e : Expr Query} (he : e ∈ (nodeParts node).exprs)
      (h : Syntax.Occurs Query.Occurs e) : Occurs (.mk node)
  | query {node : QueryNode Query} {q : Query} (hq : q ∈ (nodeParts node).queries)
      (h : Query.Occurs q) : Occurs (.mk node)

/-- Something that has to be translated stands where the translation of a query does not reach. -/
inductive Query.Missed : Query → Prop
  | hidden {node : QueryNode Query} {e : Expr Query}
      (he : e ∈ (nodeParts (prepareNode node)).hidden) (h : Syntax.Occurs Query.Occurs e) :
      Missed (.mk node)
  | hiddenQuery {node : QueryNode Query} {q : Query}
      (hq : q ∈ (nodeParts (prepareNode node)).hiddenQueries) (h : Query.Occurs q) :
      Missed (.mk node)
  | visited {node : QueryNode Query} {e : Expr Query}
      (he : e ∈ (nodeParts (prepareNode node)).visited)
      (h : Syntax.Missed Query.Occurs Query.Missed e) : Missed (.mk node)
  | query {node : QueryNode Query} {q : Query}
      (hq : q ∈ (nodeParts (prepareNode node)).visitedQueries) (h : Query.Missed q) :
      Missed (.mk node)

/-- What a query holds its parts hold. -/
lemma query_occurs_iff {node : QueryNode Query} :
    Query.Occurs (.mk node) ↔ (nodeParts node).Holds Query.Occurs := by
  constructor
  · intro h
    cases h with
    | expr he h => exact .inl ⟨_, he, h⟩
    | query hq h => exact .inr ⟨_, hq, h⟩
  · rintro (⟨e, he, h⟩ | ⟨q, hq, h⟩)
    · exact .expr he h
    · exact .query hq h

/-- What is missed in a query is not reached in the parts of the prepared one. -/
lemma query_missed_iff {node : QueryNode Query} :
    Query.Missed (.mk node) ↔
      (nodeParts (prepareNode node)).Leaves Query.Occurs Query.Missed := by
  constructor
  · intro h
    cases h with
    | hidden he h => exact .inr (.inl ⟨_, he, h⟩)
    | hiddenQuery hq h => exact .inr (.inr (.inr ⟨_, hq, h⟩))
    | visited he h => exact .inl ⟨_, he, h⟩
    | query hq h => exact .inr (.inr (.inl ⟨_, hq, h⟩))
  · rintro (⟨e, he, h⟩ | ⟨e, he, h⟩ | ⟨q, hq, h⟩ | ⟨q, hq, h⟩)
    · exact .visited he h
    · exact .hidden he h
    · exact .query hq h
    · exact .hiddenQuery hq h

/-- What two clauses hold. -/
lemma Parts.holds_append {occ : κ → Prop} {p q : Parts κ} :
    (p ++ q).Holds occ ↔ p.Holds occ ∨ q.Holds occ := by
  show ((∃ e ∈ (p.visited ++ q.visited) ++ (p.hidden ++ q.hidden), _) ∨
    ∃ r ∈ (p.visitedQueries ++ q.visitedQueries) ++ (p.hiddenQueries ++ q.hiddenQueries), _) ↔ _
  rw [Parts.Holds, Parts.Holds, Parts.exprs, Parts.exprs, Parts.queries, Parts.queries]
  simp only [List.mem_append, or_and_right, exists_or]
  exact Iff.of_eq (by ac_rfl)

/-- Taking the list of a body out loses none of its parts. -/
lemma takeProjection_holds (occ : κ → Prop) (body : SetExpr κ) :
    (itemsParts (takeProjection body).1).Holds occ ∨ (bodyParts (takeProjection body).2).Holds occ ↔
      (bodyParts body).Holds occ := by
  have hnone : ¬(itemsParts [SelectItem.other []] : Parts κ).Holds occ := by
    rintro (⟨e, he, -⟩ | ⟨q, hq, -⟩)
    · cases he
    · cases hq
  cases body with
  | select s =>
    simp only [takeProjection, bodyParts, selectParts, Parts.holds_append]
    tauto
  | _ =>
    simp only [takeProjection]
    exact or_iff_right hnone

/-- A wrapped query holds what the query holds that it stands for. -/
lemma wrapQueryWithOrderBy_holds (node : QueryNode Query) (body : SetExpr Query)
    (orderBy : List (Expr Query)) :
    (nodeParts (wrapQueryWithOrderBy { node with body := (takeProjection body).2, orderBy := [] }
        orderBy (takeProjection body).1)).Holds Query.Occurs ↔
      (nodeParts { node with body := body, orderBy := orderBy }).Holds Query.Occurs := by
  have hinner : ∀ inner : QueryNode Query, (factorParts
      (.derived (.mk inner) (some "__rownum_sub"))).Holds Query.Occurs ↔
        (nodeParts inner).Holds Query.Occurs := fun inner => by
    rw [← query_occurs_iff]
    simp [factorParts, Parts.Holds, Parts.exprs, Parts.queries]
  have hempty : ¬({ } : Parts Query).Holds Query.Occurs := by
    rintro (⟨e, he, -⟩ | ⟨q, hq, -⟩)
    · cases he
    · cases hq
  have hbody := takeProjection_holds Query.Occurs body
  simp only [nodeParts, wrapQueryWithOrderBy, bodyParts, selectParts, tablesParts, joinsParts,
    Parts.holds_append, hinner, Option.toList, limitExprs, List.map_nil, List.append_nil]
  rw [← hbody]
  have h1 : ¬({ visited := [] } : Parts Query).Holds Query.Occurs := hempty
  have h2 : ¬({ hidden := [] } : Parts Query).Holds Query.Occurs := hempty
  tauto

/-- **What a translated query holds is what was missed in it**, if the same is so for the queries
nested in it. -/
lemma translateNode_holds {translate : Query → Except Error Query}
    (hquery : ∀ q q', translate q = .ok q' → (Query.Occurs q' ↔ Query.Missed q))
    {node node' : QueryNode Query} (h : translateNode translate node = .ok node') :
    (nodeParts node').Holds Query.Occurs ↔ Query.Missed (.mk node) := by
  obtain ⟨⟨body, rowLimit⟩, hbody, h⟩ := bind_eq_ok.mp h
  obtain ⟨orderBy, horder, h⟩ := bind_eq_ok.mp h
  obtain ⟨hparts, hbound⟩ := translateSetExpr_rewritten hbody
  have hrewritten : ∀ limitClause,
      (nodeParts { prepareNode node with limitClause := limitClause }).Rewritten translate
        (nodeParts { node with body := body, orderBy := orderBy, limitClause := limitClause }) :=
    fun limitClause => (hparts.append (.exprs (rewriteExprs_forall₂ horder))).append (.kept _ _)
  rw [query_missed_iff]
  cases rowLimit with
  | none =>
    cases h
    have hnode : prepareNode node = { prepareNode node with limitClause := node.limitClause } := by
      rw [prepareNode, ← hbound]
      rfl
    rw [hnode]
    exact (hrewritten _).holds_iff hquery
  | some limit =>
    have hnode : prepareNode node =
        { prepareNode node with limitClause := some (limitOnly limit) } := by
      rw [prepareNode, ← hbound]
      rfl
    rw [hnode, ← (hrewritten _).holds_iff hquery]
    dsimp only at h
    split at h
    · cases h
    · split at h
      · cases h
        rfl
      · cases h
        exact wrapQueryWithOrderBy_holds { node with limitClause := some (limitOnly limit) } body
          orderBy

/-- The same at every depth. -/
theorem translateQuery_occurs (depth : ℕ) {q q' : Query} (h : translateQuery depth q = .ok q') :
    Query.Occurs q' ↔ Query.Missed q := by
  induction depth generalizing q q' with
  | zero => cases h
  | succ depth ih =>
    cases q with
    | mk node =>
      obtain ⟨node', hnode, h⟩ := bind_eq_ok.mp h
      cases h
      rw [query_occurs_iff]
      exact translateNode_holds (fun q q' hq => ih hq) hnode

/-! ### Statements -/

/-- The parts of a statement: the source of an `INSERT`, the values and the condition of an
`UPDATE`, and queries that stand alone are reached; all of a `DELETE` and of a `MERGE` is kept. -/
def statementParts : Statement Query → Parts Query
  | .query q => { visitedQueries := [q] }
  | .insert source exprs queries =>
    { visitedQueries := source.toList, hidden := exprs, hiddenQueries := queries }
  | .update table assignments selection fromTables rest =>
    { visited := assignments ++ selection.toList
      hidden := (tablesParts (table :: fromTables)).exprs ++ rest
      hiddenQueries := (tablesParts (table :: fromTables)).queries }
  | .delete fromTables selection rest =>
    { hidden := (tablesParts fromTables).exprs ++ selection.toList ++ rest
      hiddenQueries := (tablesParts fromTables).queries }
  | .merge table source on clauses =>
    { hidden := (factorParts table ++ factorParts source).exprs ++ on :: clauses
      hiddenQueries := (factorParts table ++ factorParts source).queries }
  | .createView q => { visitedQueries := [q] }
  | .createTable q rest => { visitedQueries := q.toList, hidden := rest }
  | .other exprs queries => { hidden := exprs, hiddenQueries := queries }

/-- Something that has to be translated stands in a statement. -/
def Statement.Occurs (s : Statement Query) : Prop := (statementParts s).Holds Query.Occurs

/-- Something that has to be translated stands where the translation of a statement does not
reach. -/
def Statement.Missed (s : Statement Query) : Prop :=
  (statementParts s).Leaves Query.Occurs Query.Missed

lemma translateOption_forall₂ {translate : Query → Except Error Query} {o o' : Option Query}
    (h : translateOption translate o = .ok o') :
    List.Forall₂ (fun q q' => translate q = .ok q') o.toList o'.toList := by
  cases o with
  | none =>
    cases h
    exact .nil
  | some q =>
    obtain ⟨q', hq, h⟩ := bind_eq_ok.mp h
    cases h
    exact .cons hq .nil

/-- A statement of any kind has its parts rewritten. -/
lemma translateStatement_rewritten {depth : ℕ} {s s' : Statement Query}
    (h : translateStatement depth s = .ok s') :
    (statementParts s).Rewritten (translateQuery depth) (statementParts s') := by
  cases s with
  | query q =>
    obtain ⟨q', hq, h⟩ := bind_eq_ok.mp h
    cases h
    exact ⟨.nil, rfl, .cons hq .nil, rfl⟩
  | insert source exprs queries =>
    obtain ⟨source', hsource, h⟩ := bind_eq_ok.mp h
    cases h
    exact ⟨.nil, rfl, translateOption_forall₂ hsource, rfl⟩
  | update table assignments selection fromTables rest =>
    obtain ⟨assignments', hassignments, h⟩ := bind_eq_ok.mp h
    obtain ⟨selection', hselection, h⟩ := bind_eq_ok.mp h
    cases h
    exact ⟨List.rel_append (rewriteExprs_forall₂ hassignments)
      (rewriteOption_rewritten hselection).visited, rfl, .nil, rfl⟩
  | createView q =>
    obtain ⟨q', hq, h⟩ := bind_eq_ok.mp h
    cases h
    exact ⟨.nil, rfl, .cons hq .nil, rfl⟩
  | createTable q rest =>
    obtain ⟨q', hq, h⟩ := bind_eq_ok.mp h
    cases h
    exact ⟨.nil, rfl, translateOption_forall₂ hq, rfl⟩
  | delete fromTables selection rest =>
    cases h
    exact .kept _ _
  | merge table source on clauses =>
    cases h
    exact .kept _ _
  | other exprs queries =>
    cases h
    exact .kept _ _

/-- **A statement comes out clean exactly when nothing was missed**: no `DECODE` with three or
more arguments, `NVL2`, `LNNVL`, `ROWNUM` or empty text is left in it if and only if each of them
stood where one of the traversals descends. -/
theorem oracleToPostgres_clean_iff {depth : ℕ} {s s' : Statement Query}
    (h : oracleToPostgres depth (some [s]) = .ok (some s')) :
    ¬Statement.Occurs s' ↔ ¬Statement.Missed s := by
  obtain ⟨s'', hs, h⟩ := bind_eq_ok.mp h
  cases h
  rw [Statement.Occurs, Statement.Missed, (translateStatement_rewritten hs).holds_iff
    fun q q' hq => translateQuery_occurs depth hq]

/-- `UPDATE t SET n = NVL2(a, '', ROWNUM)`. -/
def updateStatement : Statement Query :=
  .update ⟨.table ["t"] none [], []⟩
    [call "nvl2" [.identifier "a", .value (.singleQuotedString ""), .identifier "rownum"]]
    none [] []

/-- It comes out clean. -/
theorem updateStatement_clean :
    ∃ s', oracleToPostgres 0 (some [updateStatement]) = .ok (some s') ∧ ¬Statement.Occurs s' := by
  have hrun : oracleToPostgres 0 (some [updateStatement]) = .ok (some _) := rfl
  refine ⟨_, hrun, (oracleToPostgres_clean_iff hrun).mpr ?_⟩
  rintro (⟨e, he, h⟩ | ⟨e, he, -⟩ | ⟨q, hq, -⟩ | ⟨q, hq, -⟩)
  · obtain rfl := List.mem_singleton.mp he
    have hkind : callKind ["nvl2"] = .nvl2 := by decide
    rw [call, missed_iff] at h
    simp [hidden, hiddenQueries, visited, visitedQueries, hiddenParts, visitedArgs, hkind,
      ordinaryArgs, FunctionArguments.queries] at h
  · cases he
  · cases hq
  · cases hq

/-- `NVL2(a, b, c)`. -/
def nvl2Call : Expr Query := call "NVL2" [.identifier "a", .identifier "b", .identifier "c"]

lemma nvl2Call_occurs : Occurs Query.Occurs nvl2Call := .here (by decide)

/-- `SELECT x FROM t WHERE y LIKE NVL2(a, b, c)`. -/
def likeStatement : Statement Query :=
  .query (.mk { body := .select {
    projection := [.unnamedExpr (.identifier "x")]
    fromClause := [⟨.table ["t"] none [], []⟩]
    selection := some (.other .like [.identifier "y", nvl2Call] []) } })

/-- `DELETE FROM t WHERE NVL2(a, b, c)`. -/
def deleteStatement : Statement Query :=
  .delete [⟨.table ["t"] none [], []⟩] (some nvl2Call) []

/-- `WITH w AS (SELECT NVL2(a, b, c) FROM t) SELECT x FROM w`. -/
def withStatement : Statement Query :=
  .query (.mk {
    ctes := [.mk { body := .select {
      projection := [.unnamedExpr nvl2Call]
      fromClause := [⟨.table ["t"] none [], []⟩] } }]
    body := .select {
      projection := [.unnamedExpr (.identifier "x")]
      fromClause := [⟨.table ["w"] none [], []⟩] } })

/-- **The traversals stop at forms they do not name**: an `NVL2` is left below a `LIKE`, in the
condition of a `DELETE` and in a query of a `WITH` clause. -/
theorem unnamedForms_not_clean :
    (∃ s, oracleToPostgres 2 (some [likeStatement]) = .ok (some s) ∧ Statement.Occurs s) ∧
    (∃ s, oracleToPostgres 2 (some [deleteStatement]) = .ok (some s) ∧ Statement.Occurs s) ∧
    ∃ s, oracleToPostgres 2 (some [withStatement]) = .ok (some s) ∧ Statement.Occurs s := by
  refine ⟨?_, ?_, ?_⟩
  · refine ⟨_, rfl, .inr ⟨_, List.mem_cons_self, ?_⟩⟩
    refine .expr (List.mem_cons_of_mem _ List.mem_cons_self) ?_
    exact .child (List.mem_cons_of_mem _ List.mem_cons_self) nvl2Call_occurs
  · exact ⟨_, rfl, .inl ⟨nvl2Call, List.mem_cons_self, nvl2Call_occurs⟩⟩
  · refine ⟨_, rfl, .inr ⟨_, List.mem_cons_self, .query List.mem_cons_self ?_⟩⟩
    exact .expr List.mem_cons_self nvl2Call_occurs

end DbSaci.Translate.Syntax
