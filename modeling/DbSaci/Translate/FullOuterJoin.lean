import DbSaci.Translate.TopLevel
import DbSaci.Translate.ReplaceIdentifier

set_option relaxedAutoImplicit false
set_option autoImplicit false

/-!
# `FULL OUTER JOIN` for MariaDB

The pass over the text of a query with a full join: a `LEFT JOIN`, and a `RIGHT JOIN` for the rows
whose key is `NULL`, where the key is the first column of the left table in the join condition. The
pass goes over its own result until it finds no full join.

## Main definitions

* `findFullOuterJoinKw` — where the words of the join stand; `none` is a slice inside a character.
* `splitJoinOnCondition`, `splitWhereOrder`, `fullOuterAntiPredicate` — the parts of the query.
* `rewriteMariadbFullOuterJoin` — the pass.
-/

namespace DbSaci.Translate

open Text

/-- What stands behind `JOIN` at the start of a text, if it does. The first four bytes are cut off
to compare them. -/
def behindJoin (s : List Char) : Option (Option (List Char)) :=
  if byteLen s < 4 then some none
  else (splitAtByte 4 s).map fun (word, rest) =>
    if upper word = "JOIN".toList ∧ rest.head?.any isWordByte = false then some rest else none

/-- The text without the word `OUTER`, in capitals or in small letters, and the white space around
it. -/
def withoutOuter (s : List Char) : List Char :=
  let after := trimStart s
  if "OUTER".toList.isPrefixOf after ∨ "outer".toList.isPrefixOf after then trimStart (after.drop 5)
  else after

/-- The loop of `find_full_outer_join_kw`: the text in front of the words and the text behind
them. -/
def findFullOuterJoinFuel : ℕ → List Char → List Char → Option (Option (List Char × List Char))
  | 0, _, _ => some none
  | fuel + 1, passed, s =>
    match findTopLevelKw s "FULL".toList with
    | none => some none
    | some at_ =>
      (behindJoin (withoutOuter (s.drop (at_ + 4)))).bind fun behind =>
        match behind with
        | some rest => some (some (passed ++ s.take at_, rest))
        | none => findFullOuterJoinFuel fuel (passed ++ s.take (at_ + 4)) (s.drop (at_ + 4))

/-- `find_full_outer_join_kw`. -/
def findFullOuterJoinKw (sql : List Char) : Option (Option (List Char × List Char)) :=
  findFullOuterJoinFuel (sql.length + 1) [] sql

/-- The keywords that end a join condition. -/
def joinStops : List (List Char) :=
  ["WHERE", "GROUP", "ORDER", "HAVING", "UNION", "FETCH", "LIMIT", "FOR", "INTERSECT", "EXCEPT",
    "MINUS"].map String.toList

/-- `split_join_on_condition`: the condition and the clauses behind it. -/
def splitJoinOnCondition (afterOn : List Char) : List Char × List Char :=
  let best := joinStops.foldl
    (fun best kw => (findTopLevelKw afterOn kw).elim best fun at_ => min best at_) afterOn.length
  (afterOn.take best, afterOn.drop best)

/-- The words at the start of a text, with white space between them. -/
def stripWords : List (List Char) → Bool → List Char → Option (List Char)
  | [], _, s => some s
  | word :: words, first, s =>
    if first = false ∧ trimStart s = s then none
    else
      let cur := if first then s else trimStart s
      if startsWith word cur = true then stripWords words false (cur.drop word.length) else none

/-- `strip_kw`: what stands behind some words. -/
def stripKw (s : List Char) (words : List (List Char)) : Option (List Char) :=
  (stripWords words true (trimStart s)).bind fun cur =>
    if atBoundary cur = true then some (trimStart cur) else none

/-- `split_where_order`: the condition and the sort keys. -/
def splitWhereOrder (tail : List Char) : List Char × List Char :=
  let t := trim tail
  match stripKw t ["WHERE".toList] with
  | some w =>
    match findTopLevelKw w "ORDER BY".toList with
    | some at_ => (trim (w.take at_), trim (w.drop (at_ + 8)))
    | none => (w, [])
  | none =>
    match stripKw t ["ORDER".toList, "BY".toList] with
    | some o => ([], o)
    | none => ([], [])

/-- `trailing_alias`: the last word. -/
def trailingAlias (tableRef : List Char) : List Char :=
  (trimEnd tableRef).rtakeWhile fun c => !isSpace c

/-- The loop of `full_outer_anti_predicate`, which leaves out so many characters first: the first
column behind the alias. It goes on byte by byte, so that behind a character of several bytes it
slices inside it. -/
def antiColumnFrom (aliasDot : List Char) :
    ℕ → Option Char → List Char → Option (Option (List Char))
  | _, _, [] => some none
  | skip + 1, _, c :: s => antiColumnFrom aliasDot skip (some c) s
  | 0, before, c :: s =>
    if c = '\'' ∨ c = '"' then antiColumnFrom aliasDot (skipQuoted c s) (some c) s
    else if aliasDot.isPrefixOf (c :: s) = true ∧ before.any isWordByte = false then
      let behind := (c :: s).drop aliasDot.length
      let col := behind.takeWhile isWordByte
      if col ≠ [] then some (some (aliasDot ++ col))
      else if behind.head?.any (fun d => 1 < d.utf8Size) = true then none
      else antiColumnFrom aliasDot aliasDot.length (some c) s
    else if 1 < c.utf8Size then none
    else antiColumnFrom aliasDot 0 (some c) s

/-- The column of `full_outer_anti_predicate`. -/
def fullOuterAntiColumn (onCond leftAlias : List Char) : Option (Option (List Char)) :=
  if leftAlias = [] then some none else antiColumnFrom (leftAlias ++ ['.']) 0 none onCond

/-- A number behind a name. -/
def numbered (name : List Char) (i : ℕ) : List Char := name ++ Nat.toDigits 10 i

/-- The text of the union. -/
def fullOuterUnion (projection leftRef rightRef onCond key whereClause orderClause : List Char) :
    List Char :=
  let leftWhere := if whereClause = [] then [] else " WHERE ".toList ++ whereClause
  let rightWhere := " WHERE ".toList ++ (key ++ (" IS NULL".toList ++
    if whereClause = [] then [] else " AND (".toList ++ (whereClause ++ [')'])))
  let leftFrom := " FROM ".toList ++ (leftRef ++ (" LEFT JOIN ".toList ++ (rightRef ++
    (" ON ".toList ++ (onCond ++ leftWhere)))))
  let rightFrom := " FROM ".toList ++ (leftRef ++ (" RIGHT JOIN ".toList ++ (rightRef ++
    (" ON ".toList ++ (onCond ++ rightWhere)))))
  if orderClause = [] then
    "SELECT ".toList ++ (projection ++ (leftFrom ++ (" UNION ALL ".toList ++
      ("SELECT ".toList ++ (projection ++ rightFrom)))))
  else
    let orderCols := ((splitTopLevelCommas orderClause).map trim).filter fun c => c ≠ []
    let items := splitTopLevelCommas projection
    let column := numbered "__dbsaci_foj_c".toList
    let hidden := numbered "__dbsaci_foj_o".toList
    let labeled := items.mapIdx fun i c => trim c ++ (" AS ".toList ++ column i)
    let hiddenList := orderCols.mapIdx fun i c => c ++ (" AS ".toList ++ hidden i)
    let orderOuter := (List.range orderCols.length).map fun i =>
      hidden i ++ (" IS NULL, ".toList ++ hidden i)
    "SELECT ".toList ++ (commas ((List.range items.length).map column) ++ (" FROM (".toList ++
      ("SELECT ".toList ++ (commas labeled ++ (", ".toList ++ (commas hiddenList ++
        (leftFrom ++ (" UNION ALL ".toList ++ ("SELECT ".toList ++ (projection ++
          (", ".toList ++ (commas orderCols ++ (rightFrom ++
            (") __dbsaci_foj ORDER BY ".toList ++ commas orderOuter))))))))))))))

/-- One round of `rewrite_mariadb_full_outer_join`: the union, if there is something to rewrite. -/
def fullOuterJoinRound (sql : List Char) : Option (Option (List Char)) :=
  (findFullOuterJoinKw sql).bind fun found =>
    match found with
    | none => some none
    | some (head, behind) =>
      let headT := trimStart (trimEnd head)
      let afterJoin := trimStart behind
      if ¬ ("SELECT ".toList.isPrefixOf headT ∨ "select ".toList.isPrefixOf headT) then some none
      else
        let afterSelect := headT.drop 7
        match findTopLevelKw afterSelect "FROM".toList with
        | none => some none
        | some fromRel =>
          let projection := trim (afterSelect.take fromRel)
          let leftRef := trim (afterSelect.drop (fromRel + 4))
          if leftRef = [] ∨ projection = [] then some none
          else
            match findTopLevelKw afterJoin "ON".toList with
            | none => some none
            | some onRel =>
              let rightRef := trim (afterJoin.take onRel)
              let (cond, tail) := splitJoinOnCondition (trimStart (afterJoin.drop (onRel + 2)))
              let onCond := trim cond
              if rightRef = [] ∨ onCond = [] then some none
              else
                (fullOuterAntiColumn onCond (trailingAlias leftRef)).map fun key =>
                  key.map fun key =>
                    let (whereClause, orderClause) := splitWhereOrder (trim tail)
                    fullOuterUnion projection leftRef rightRef onCond key whereClause orderClause

/-- `rewrite_mariadb_full_outer_join`, for so many rounds. -/
def rewriteMariadbFullOuterJoin : ℕ → List Char → Option (List Char)
  | 0, _ => none
  | rounds + 1, sql =>
    (fullOuterJoinRound sql).bind fun out =>
      out.elim (some sql) (rewriteMariadbFullOuterJoin rounds)

end DbSaci.Translate
