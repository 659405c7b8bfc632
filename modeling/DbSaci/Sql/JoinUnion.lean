import DbSaci.Sql.FullJoin

set_option relaxedAutoImplicit false
set_option autoImplicit false

/-!
# Unions of a left and a right join

The statements that are to stand for a query over a full join: the rows of a left join, and those
of a right join for which a column of the left table is `NULL`, sorted by hidden columns if at all.
What a statement of this form returns is read off its parts; where a part cannot stand where it is
put the statement is not well formed.

## Main definitions

* `Arm`, `JoinUnion` — a statement, with its text and its records.
* `JoinUnion.WellFormed` — each part can stand where it is put.
* `JoinUnion.Agrees` — the statement returns what the query returns.
-/

namespace DbSaci

open Text Sorting Joins

/-- What is selected: an item or a sort key, maybe with a label behind it. -/
inductive Entry
  | item (i : SelectedItem) (label : Option (List Char))
  | key (k : SortKey) (label : Option (List Char))

namespace Entry

/-- The text of a label. -/
def labelText (label : Option (List Char)) : List Char :=
  label.elim [] fun l => " AS ".toList ++ l

/-- The text of an entry. -/
def text : Entry → List Char
  | item i label => i.text ++ labelText label
  | key k label => k.text ++ labelText label

/-- One label can be put behind an expression, and none behind a star; a direction cannot stand in
a select list. -/
def WellFormed : Entry → Prop
  | item i label => label.isSome → i.Plain
  | key k _ => k.Plain

/-- The names of the columns of an entry, unless it is a hidden one. -/
def names {α β V Γ : Type} (M : JoinMeaning α β V Γ) : Entry → List (List Char)
  | item i none => i.label.elim (M.names i.expr) fun l => [l.2]
  | item _ (some l) => [l]
  | key _ _ => []

/-- The expressions of the items. -/
def expr? : Entry → Option (List Char)
  | item i _ => some i.expr
  | key _ _ => none

/-- The expressions of the sort keys. -/
def hidden? : Entry → Option (List Char)
  | item _ _ => none
  | key k _ => some k.expr

end Entry

/-- `SELECT entries FROM left LEFT JOIN right ON on`, or a right join, with conditions: one that a
column is `NULL`, and another one, in which a grouping may stand. -/
structure Arm where
  distinct : Bool
  aggregate : Bool
  entries : List Entry
  isRight : Bool
  left : List Char
  right : List Char
  on : List Char
  anti : Option (List Char)
  condition : Option (List Char)
  group : Option (List Char)

namespace Arm

/-- The text of the second condition. -/
def conditionText (arm : Arm) (w : List Char) : List Char :=
  w ++ arm.group.elim [] fun g => " GROUP BY ".toList ++ g

/-- The text of the conditions. -/
def filterText (arm : Arm) : List Char :=
  match arm.anti with
  | none => arm.condition.elim [] fun w => " WHERE ".toList ++ arm.conditionText w
  | some a => " WHERE ".toList ++ (a ++ (" IS NULL".toList ++
      arm.condition.elim [] fun w => " AND (".toList ++ (arm.conditionText w ++ [')'])))

/-- The text of an arm. -/
def text (arm : Arm) : List Char :=
  "SELECT ".toList ++ ((if arm.distinct then "DISTINCT ".toList else []) ++
    (commas (arm.entries.map Entry.text) ++ (" FROM ".toList ++ (arm.left ++
      ((if arm.isRight then " RIGHT JOIN ".toList else " LEFT JOIN ".toList) ++
        (arm.right ++ (" ON ".toList ++ (arm.on ++ arm.filterText))))))))

section Result

variable {α β V Γ : Type} [DecidableEq V] [DecidableEq Γ] (M : JoinMeaning α β V Γ)

/-- Each part can stand where it is put: no grouping stands in parentheses, and the column is one
of the left table. -/
structure WellFormed (arm : Arm) : Prop where
  entries : ∀ e ∈ arm.entries, e.WellFormed
  grouping : arm.anti.isSome → arm.condition.isSome → arm.group = none
  column : ∀ a ∈ arm.anti, (M.column a).isSome

/-- A column of the left table is `NULL`. -/
def isMissing (a : List Char) (x : Row α β) : Bool :=
  x.1.all fun row => (M.column a).all fun f => M.isNull (f row)

/-- The rows an arm selects from. -/
def rows (arm : Arm) (l : List α) (r : List β) : List (Row α β) :=
  (if arm.isRight then Joins.right (M.on arm.on) l r else Joins.left (M.on arm.on) l r).filter
    fun x => arm.anti.all (fun a => isMissing M a x) && arm.condition.all fun w => M.holds w x

/-- The expressions that are selected. -/
def exprs (arm : Arm) : List (List Char) := arm.entries.filterMap Entry.expr?

/-- The expressions of the hidden columns. -/
def hidden (arm : Arm) : List (List Char) := arm.entries.filterMap Entry.hidden?

/-- The records of an arm. -/
def records (arm : Arm) (l : List α) (r : List β) : List (List (Row α β)) :=
  recordsOf M arm.distinct arm.aggregate arm.group arm.exprs arm.hidden (arm.rows M l r)

end Result

end Arm

/-- `first UNION ALL second`, or `SELECT columns FROM (first UNION ALL second) __dbsaci_foj ORDER
BY` labels, each preceded by whether it is `NULL`. -/
structure JoinUnion where
  first : Arm
  second : Arm
  sort : Option (List (List Char) × List (List Char))

namespace JoinUnion

/-- The text of the two arms. -/
def armsText (u : JoinUnion) : List Char :=
  u.first.text ++ (" UNION ALL ".toList ++ u.second.text)

/-- The text of a statement. -/
def text (u : JoinUnion) : List Char :=
  u.sort.elim u.armsText fun s =>
    "SELECT ".toList ++ (commas s.1 ++ (" FROM (".toList ++ (u.armsText ++
      (") __dbsaci_foj ORDER BY ".toList ++
        commas (s.2.map fun o => o ++ (" IS NULL, ".toList ++ o))))))

section Result

variable {α β V Γ : Type} [DecidableEq V] [DecidableEq Γ] (M : JoinMeaning α β V Γ)

/-- The records of the result. -/
def records (u : JoinUnion) (l : List α) (r : List β) : List (List (Row α β)) :=
  u.first.records M l r ++ u.second.records M l r

/-- The order of the result: `NULL` is less than all values. -/
def le (u : JoinUnion) : List (Row α β) → List (Row α β) → Bool :=
  u.sort.elim (lexLe []) fun _ => lexLe (u.first.hidden.flatMap fun e =>
    [comparing (M.value e) (nullRank M.isNull), comparing (M.value e) (nullsFirst M.isNull M.le)])

/-- The names of the columns. -/
def names (u : JoinUnion) : List (List Char) :=
  u.sort.elim (u.first.entries.flatMap (Entry.names M)) Prod.fst

/-- The statement returns what a query returns: it is well formed, has all its clauses and the
names of its columns, and each of its results has the rows of the query, sorted as the query sorts
them. -/
structure Agrees (u : JoinUnion) (q : FullJoin) (l : List α) (r : List β) : Prop where
  wellFormed : u.first.WellFormed M ∧ u.second.WellFormed M
  grouped : u.first.group = q.group ∧ u.second.group = q.group
  sorted : u.sort.isSome = true ↔ q.order ≠ []
  names : u.names M = q.names M
  rows : ((u.records M l r).map (M.project q.exprs)).Perm
    ((q.records M l r).map (M.project q.exprs))
  ordered : ∀ arranged, Arrangement (u.le M) (u.records M l r) arranged →
    arranged.Pairwise fun x y => q.le M x y = true

end Result

end JoinUnion

end DbSaci
