import DbSaci.Translate.TopLevel
import DbSaci.Translate.ReplaceIdentifier

set_option relaxedAutoImplicit false
set_option autoImplicit false

/-!
# `MERGE` for PostgreSQL

Two passes over the text of a `MERGE`. `rewriteMergeMatchedDelete` moves the `DELETE WHERE` of an
update in front of it, with the new values put into its condition one after the other;
`rewriteMergeSetAliases` removes the target alias from what follows the first `SET`.

## Main definitions

* `rewriteMergeMatchedDelete`, `substituteAssignments` — the first pass.
* `rewriteMergeSetAliases`, `removeAll` — the second pass; `none` is a slice inside a character.
-/

namespace DbSaci.Translate

open Text

/-! ### The condition of a `DELETE` -/

/-- The new value of one assignment put into a condition, if its target is qualified. -/
def substituteAssignment (predicate assignment : List Char) : List Char :=
  match find ['='] assignment with
  | none => predicate
  | some eq =>
    let target := trim (assignment.take eq)
    if '.' ∈ target then
      replaceIdentifierOutsideLiterals predicate target
        ('(' :: (trim (assignment.drop (eq + 1)) ++ [')']))
    else predicate

/-- The new values of all assignments put into a condition, one after the other. -/
def substituteAssignments (assignments predicate : List Char) : List Char :=
  (splitTopLevelCommas assignments).foldl substituteAssignment predicate

/-- The text starts with a word and a boundary. -/
def startsWithWord (word s : List Char) : Bool :=
  startsWith word s && atBoundary (s.drop word.length)

/-- `rewrite_merge_matched_delete`. -/
def rewriteMergeMatchedDelete (sql : List Char) : List Char :=
  if startsWith "MERGE ".toList (trimStart sql) = false then sql
  else
    match findTopLevelKw sql "UPDATE".toList with
    | none => sql
    | some updateAt =>
      let afterUpdate := sql.drop (updateAt + 6)
      let afterSet := trimStart afterUpdate
      if startsWithWord "SET".toList afterSet = false then sql
      else
        let setStart := updateAt + 6 + (afterUpdate.length - afterSet.length) + 3
        match findTopLevelKw (sql.drop setStart) "DELETE".toList with
        | none => sql
        | some deleteRel =>
          let deleteAt := setStart + deleteRel
          let afterDelete := sql.drop (deleteAt + 6)
          let afterWhere := trimStart afterDelete
          if startsWithWord "WHERE".toList afterWhere = false then sql
          else
            let predicateTail :=
              sql.drop (deleteAt + 6 + (afterDelete.length - afterWhere.length) + 5)
            let nextWhen :=
              (findTopLevelKw predicateTail "WHEN".toList).getD predicateTail.length
            let predicate := trim (predicateTail.take nextWhen)
            let remainder := predicateTail.drop nextWhen
            let assignments := trim ((sql.take deleteAt).drop setStart)
            let newPredicate := substituteAssignments assignments predicate
            let updateHead := sql.take updateAt
            match rfind "THEN".toList (upper updateHead) with
            | none => sql
            | some thenAt =>
              if trim (updateHead.drop (thenAt + 4)) ≠ [] then sql
              else
                match rfind "WHEN".toList (upper (updateHead.take thenAt)) with
                | none => sql
                | some whenAt =>
                  let beforeWhen := updateHead.take whenAt
                  let matchedHead := trimEnd ((updateHead.take thenAt).drop whenAt)
                  beforeWhen ++ (matchedHead ++ (" AND (".toList ++ (newPredicate ++
                    (") THEN DELETE ".toList ++ (matchedHead ++ (" THEN UPDATE SET ".toList ++
                      (assignments ++ (' ' :: trimStart remainder))))))))

/-! ### The alias in the `SET` list -/

/-- The text without the occurrences of a pattern, in any letter case. So many characters are left
out first. -/
def removeAll (needle : List Char) : ℕ → List Char → List Char
  | _, [] => []
  | skip + 1, _ :: s => removeAll needle skip s
  | 0, c :: s =>
    if startsWith (upper needle) (c :: s) = true then removeAll needle (needle.length - 1) s
    else c :: removeAll needle 0 s

/-- The alias of the target, from what follows `INTO`. -/
def mergeAlias (afterInto : List Char) : Option (List Char) := do
  let (_, rest) ← nextWord afterInto
  let (alias_, rest) ← nextWord rest
  if upper alias_ = "AS".toList then
    let (alias_, _) ← nextWord rest
    return alias_
  else return alias_

/-- `rewrite_merge_set_aliases`. The offsets are counted in the trimmed text and used in the whole
text. -/
def rewriteMergeSetAliases (sql : List Char) : Option (List Char) :=
  let trimmed := trimStart sql
  if startsWith "MERGE ".toList trimmed = false then some sql
  else
    match find " INTO ".toList (upper trimmed) with
    | none => some sql
    | some p => do
      let (_, afterInto) ← splitAtByte (byteLen (trimmed.take p) + 6) sql
      match mergeAlias afterInto with
      | none => return sql
      | some alias_ =>
        if upper alias_ = "USING".toList then return sql
        else
          match find " SET ".toList (upper trimmed) with
          | none => return sql
          | some setAt => do
            let (head, tail) ← splitAtByte (byteLen (trimmed.take setAt) + 5) sql
            return head ++ removeAll (alias_ ++ ['.']) 0 tail

/-- The two passes, one after the other. -/
def lowerMerge (sql : List Char) : Option (List Char) :=
  rewriteMergeSetAliases (rewriteMergeMatchedDelete sql)

end DbSaci.Translate
