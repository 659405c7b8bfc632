import DbSaci.Library.Arrangement
import DbSaci.Library.Joins
import DbSaci.Library.Text

set_option relaxedAutoImplicit false
set_option autoImplicit false

/-!
# Queries over a `FULL OUTER JOIN`

A query over the full join of two tables, its text, and its result on all contents of the tables:
the records it selects, each with the joined rows it is made of, in any order its sort keys allow.
What expressions mean is a parameter.

## Main definitions

* `FullJoin`, `FullJoin.text` — the query.
* `JoinMeaning` — what the texts of expressions mean.
* `FullJoin.records`, `FullJoin.le`, `FullJoin.names` — the result.
-/

namespace DbSaci

open Text Sorting Joins

/-- An item of a select list: an expression, and the label of its column, with or without `AS`. -/
structure SelectedItem where
  expr : List Char
  label : Option (Bool × List Char)
  deriving DecidableEq

namespace SelectedItem

/-- The text of an item. -/
def text (i : SelectedItem) : List Char :=
  i.expr ++ i.label.elim [] fun l => (if l.1 then " AS ".toList else [' ']) ++ l.2

/-- An item that stands for all columns of a table. -/
def star (i : SelectedItem) : Prop := i.expr.getLast? = some '*'

instance (i : SelectedItem) : Decidable i.star := inferInstanceAs (Decidable (_ = _))

/-- A label can be put behind the item. -/
def Plain (i : SelectedItem) : Prop := i.label = none ∧ ¬ i.star

instance (i : SelectedItem) : Decidable i.Plain := inferInstanceAs (Decidable (_ ∧ _))

end SelectedItem

/-- A sort key: an expression, `ASC` or `DESC`, and `NULLS FIRST` or `NULLS LAST`. -/
structure SortKey where
  expr : List Char
  descending : Option Bool
  nullsFirst : Option Bool
  deriving DecidableEq

namespace SortKey

/-- The text of a sort key. -/
def text (k : SortKey) : List Char :=
  k.expr ++ (k.descending.elim [] (fun d => if d then " DESC".toList else " ASC".toList) ++
    k.nullsFirst.elim [] fun f => if f then " NULLS FIRST".toList else " NULLS LAST".toList)

/-- The sort key is an expression alone. -/
def Plain (k : SortKey) : Prop := k.descending = none ∧ k.nullsFirst = none

instance (k : SortKey) : Decidable k.Plain := inferInstanceAs (Decidable (_ ∧ _))

end SortKey

/-- `SELECT [DISTINCT] items FROM left FULL [OUTER] JOIN right ON on [WHERE where_] [GROUP BY group]
[ORDER BY order]`. The items of an `aggregate` query are made of all rows of a group. -/
structure FullJoin where
  distinct : Bool
  aggregate : Bool
  items : List SelectedItem
  left : List Char
  outer : Bool
  right : List Char
  on : List Char
  where_ : Option (List Char)
  group : Option (List Char)
  order : List SortKey
  nonempty : items ≠ []

/-- What the texts of expressions mean for the rows `α` and `β` of two tables: conditions, columns
of the left table, expressions and sort keys on a record, the row a select list gives, and the
names of its columns. -/
structure JoinMeaning (α β V Γ : Type) where
  on : List Char → α → β → Bool
  holds : List Char → Row α β → Bool
  column : List Char → Option (α → V)
  value : List Char → List (Row α β) → V
  sortValue : List Char → List (Row α β) → V
  project : List (List Char) → List (Row α β) → Γ
  groupKey : List Char → Row α β → V
  names : List Char → List (List Char)
  isNull : V → Bool
  le : V → V → Bool
  order : Order le

/-- Direction and place of `NULL` of a sort: descending sorts have `NULL` first unless told
otherwise. -/
def SortKey.compare {V : Type} (isNull : V → Bool) (le : V → V → Bool) (k : SortKey) :
    V → V → Bool :=
  let le := if k.descending = some true then fun v w => le w v else le
  if k.nullsFirst.getD (k.descending = some true) then Sorting.nullsFirst isNull le
  else nullsLast isNull le

/-- The records of some joined rows: one for each group, for all rows, or for each row. With
`DISTINCT` records with the same values are one; some values may be hidden. -/
def recordsOf {α β V Γ : Type} [DecidableEq V] [DecidableEq Γ] (M : JoinMeaning α β V Γ)
    (distinct aggregate : Bool) (group : Option (List Char)) (exprs hidden : List (List Char))
    (rows : List (Row α β)) : List (List (Row α β)) :=
  let records := group.elim (if aggregate then [rows] else rows.map fun x => [x]) fun g =>
    (rows.map (M.groupKey g)).dedup.map fun v => rows.filter fun x => M.groupKey g x = v
  if distinct then
    distinctBy (fun x => (M.project exprs x, hidden.map fun e => M.value e x)) records
  else records

namespace FullJoin

/-- The text of the select list. -/
def selectText (q : FullJoin) : List Char :=
  (if q.distinct then "DISTINCT ".toList else []) ++ commas (q.items.map SelectedItem.text)

/-- The text of the clauses behind the join condition. -/
def tailText (q : FullJoin) : List Char :=
  q.where_.elim [] (fun w => " WHERE ".toList ++ w) ++
    (q.group.elim [] (fun g => " GROUP BY ".toList ++ g) ++
      if q.order = [] then [] else " ORDER BY ".toList ++ commas (q.order.map SortKey.text))

/-- The words of the join. -/
def joinWords (q : FullJoin) : List Char :=
  if q.outer then "FULL OUTER JOIN ".toList else "FULL JOIN ".toList

/-- The text of the query. -/
def text (q : FullJoin) : List Char :=
  "SELECT ".toList ++ (q.selectText ++ (" FROM ".toList ++ (q.left ++ (' ' :: (q.joinWords ++
    (q.right ++ (" ON ".toList ++ (q.on ++ q.tailText))))))))

/-- The expressions of the select list. -/
def exprs (q : FullJoin) : List (List Char) := q.items.map SelectedItem.expr

section Result

variable {α β V Γ : Type} [DecidableEq V] [DecidableEq Γ] (M : JoinMeaning α β V Γ)

/-- The rows a query selects from. -/
def rows (q : FullJoin) (l : List α) (r : List β) : List (Row α β) :=
  (full (M.on q.on) l r).filter fun x => q.where_.all fun w => M.holds w x

/-- The records of the result. -/
def records (q : FullJoin) (l : List α) (r : List β) : List (List (Row α β)) :=
  recordsOf M q.distinct q.aggregate q.group q.exprs [] (q.rows M l r)

/-- The order of the result. -/
def le (q : FullJoin) : List (Row α β) → List (Row α β) → Bool :=
  lexLe (q.order.map fun k => comparing (M.sortValue k.expr) (k.compare M.isNull M.le))

/-- The names of the columns. -/
def names (q : FullJoin) : List (List Char) :=
  q.items.flatMap fun i => i.label.elim (M.names i.expr) fun l => [l.2]

end Result

end FullJoin

end DbSaci
