import DbSaci.Translate.CommonDdl

set_option relaxedAutoImplicit false
set_option autoImplicit false

/-!
# Definitions for PostgreSQL

`rewrite_oracle_ddl` finds its keywords in the text without the white space it starts with, and cuts
the text with that white space at the same places. The places are counted in bytes; a cut inside a
character panics.

## Main definitions

* `rewriteOracleDdl` — the pass; `none` if it panics.
* `indexKeys`, `listBranch` — its branches for the keys of an index and for lists of columns.
* `rewriteModifyColumn` — one entry of `MODIFY (..)`.
-/

namespace DbSaci.Translate.Ddl

open Text Physical

/-! ### Identifiers -/

/-- The loop of `replace_ident_ci`: so many characters are copied, and then so many are left out. -/
def replaceIdentLoop (ident put : List Char) : ℕ → ℕ → Option Char → List Char → List Char
  | _, _, _, [] => []
  | copy + 1, skip, _, c :: s => c :: replaceIdentLoop ident put copy skip (some c) s
  | 0, skip + 1, _, c :: s => replaceIdentLoop ident put 0 skip (some c) s
  | 0, 0, before, c :: s =>
    if c = '\'' ∨ c = '"' ∨ c.toNat = 96 then
      c :: replaceIdentLoop ident put (skipQuoted c s) 0 (some c) s
    else if c.isAlpha = true ∨ c = '_' then
      let w := (c :: s).takeWhile isWordByte
      if upper w = ident ∧ before ≠ some '.' then
        put ++ replaceIdentLoop ident put 0 (w.length - 1) (some c) s
      else c :: replaceIdentLoop ident put (w.length - 1) 0 (some c) s
    else c :: replaceIdentLoop ident put 0 0 (some c) s

/-- `replace_ident_ci`, for a name in upper case. -/
def replaceIdentCi (s ident put : List Char) : List Char := replaceIdentLoop ident put 0 0 none s

/-! ### Lists of columns -/

/-- What a branch does: it panics, it is not taken, or it gives the statement. -/
inductive Branch where
  | panics
  | passes
  | returns (s : List Char)

/-- The branch for a list of columns behind a marker: the place of the marker in the one text is used
to cut the other one. -/
def listBranch (marker : List Char) (render : List (List Char) → Option (List Char))
    (trimmed out : List Char) : Branch :=
  match find marker (upper trimmed) with
  | none => .passes
  | some at_ =>
    let headLen := byteLen (trimmed.take at_)
    match splitAtByte headLen out, splitAtByte (headLen + marker.length) out with
    | some (head, _), some (_, inner) =>
      match rfind [')'] inner with
      | none => .passes
      | some close =>
        match render (splitTopLevelCommas (inner.take close)) with
        | some rebuilt => .returns (head ++ ' ' :: (rebuilt ++ inner.drop (close + 1)))
        | none => .passes
    | _, _ => .panics

/-- Entries with some words in front of each. -/
def eachWith (words : List Char) (entries : List (List Char)) : Option (List Char) :=
  some (commas (entries.map fun c => words ++ trim c))

/-- `rewrite_modify_column`. -/
def rewriteModifyColumn (entry : List Char) : Option (List Char) :=
  let entry := trim entry
  let column := entry.takeWhile fun c => !isSpace c
  match entry.dropWhile fun c => !isSpace c with
  | [] => none
  | _ :: rest =>
    let specification := trim rest
    let up := upper specification
    let front := "ALTER COLUMN ".toList ++ column
    if up = "NULL".toList then some (front ++ " DROP NOT NULL".toList)
    else if up = "NOT NULL".toList then some (front ++ " SET NOT NULL".toList)
    else if startsWith "DEFAULT ".toList specification = true then
      let default := trim (specification.drop "DEFAULT ".toList.length)
      some (if upper default = "NULL".toList then front ++ " DROP DEFAULT".toList
        else front ++ (" SET DEFAULT ".toList ++ default))
    else some (front ++ (" TYPE ".toList ++ specification))

/-- The entries of `MODIFY (..)`, unless none is left. -/
def modifyEntries (entries : List (List Char)) : Option (List Char) :=
  match entries.filterMap rewriteModifyColumn with
  | [] => none
  | actions => some (commas actions)

/-- The branches of `ALTER TABLE` in their order. -/
def alterBranches : List (List Char × (List (List Char) → Option (List Char))) :=
  [(" ADD (".toList, eachWith "ADD COLUMN ".toList), (" MODIFY (".toList, modifyEntries),
    (" DROP (".toList, eachWith "DROP COLUMN ".toList),
    (" SET UNUSED (".toList, eachWith "DROP COLUMN ".toList)]

/-- The first of some branches that is taken. -/
def firstBranch (trimmed out : List Char) :
    List (List Char × (List (List Char) → Option (List Char))) → Branch
  | [] => .passes
  | (marker, render) :: branches =>
    match listBranch marker render trimmed out with
    | .passes => firstBranch trimmed out branches
    | taken => taken

/-! ### Indexes and views -/

section Pass

variable (alphanumeric : Char → Bool)

/-- The characters of a column name. -/
def isKeyChar (c : Char) : Bool := alphanumeric c || c = '_' || c = '.' || c = '"'

/-- A column with `ASC` or `DESC`. -/
def isSortedIdent (k : List Char) : Bool :=
  match nextWord k with
  | none => false
  | some (first, rest) =>
    match nextWord rest with
    | none => false
    | some (second, rest) =>
      decide (trimStart rest = []) && first.all (isKeyChar alphanumeric) &&
        decide (upper second ∈ ["ASC".toList, "DESC".toList])

/-- One key of an index: what is no column is put in parentheses. -/
def wrapKey (k : List Char) : List Char :=
  let k := trim k
  if (k ≠ [] ∧ k.all (isKeyChar alphanumeric) = true) ∨
      (k.head? = some '(' ∧ matchingParen k = some (k.length - 1)) ∨
      isSortedIdent alphanumeric k = true then k
  else '(' :: (k ++ [')'])

/-- The branch for the keys of an index, behind `ON`. -/
def indexKeys (trimmed out : List Char) (onAt : ℕ) : Option (List Char) :=
  match find ['('] (trimmed.drop (onAt + "ON".toList.length)) with
  | none => some out
  | some openRel =>
    (splitAtByte (byteLen (trimmed.take (onAt + "ON".toList.length + openRel))) out).bind
      fun (front, list) =>
        match matchingParen list with
        | none => some out
        | some close =>
          (splitAtByte 1 (list.take close)).map fun (_, keys) =>
            front ++ '(' :: (commas ((splitTopLevelCommas keys).map (wrapKey alphanumeric)) ++
              ')' :: list.drop (close + 1))

/-- The starts of statements that create an index. -/
def indexPrefixes : List (List Char) :=
  ["CREATE INDEX ".toList, "CREATE UNIQUE INDEX ".toList, "CREATE BITMAP INDEX ".toList,
    "CREATE UNIQUE BITMAP INDEX ".toList]

/-- Where `ON` stands in such a statement. -/
def indexOn (trimmed : List Char) : Option ℕ :=
  if (indexPrefixes.any fun p => startsWith p trimmed) = true then
    findTopLevelKw trimmed "ON".toList
  else none

/-- `CREATE MATERIALIZED VIEW name .. AS select`. -/
def materializedView (trimmed : List Char) : Option (List Char) :=
  let view := "CREATE MATERIALIZED VIEW".toList
  if startsWith view trimmed = true ∧ atBoundary (trimmed.drop view.length) = true then
    let rest := trimStart (trimmed.drop view.length)
    (nextWord rest).bind fun (name, _) =>
      (findTopLevelKw rest "AS".toList).map fun asAt =>
        view ++ ' ' :: (name ++ (" AS".toList ++ rest.drop (asAt + "AS".toList.length)))
  else none

/-- `GENERATED .. VIRTUAL` becomes `STORED`. -/
def storedColumns (trimmed sql : List Char) : List Char :=
  if startsWith "CREATE ".toList trimmed = true ∧ (find " GENERATED ".toList (upper trimmed)).isSome
      = true then
    replaceIdentCi sql "VIRTUAL".toList "STORED".toList
  else sql

/-- The loop that takes `ON NULL` away, of so many rounds. -/
def defaultLoop : ℕ → List Char → List Char
  | 0, out => out
  | n + 1, out =>
    match find "DEFAULT ON NULL ".toList (upper out) with
    | none => out
    | some pos =>
      defaultLoop n (out.take pos ++
        ("DEFAULT ".toList ++ out.drop (pos + "DEFAULT ON NULL ".toList.length)))

/-- The end of the pass, where no branch is taken. -/
def lowerRest (out : List Char) : List Char :=
  stripOraclePhysicalClauses alphanumeric (defaultLoop out.length out)

/-- The pass behind what both engines lower. -/
def lowerDdl (sql : List Char) : Option (List Char) :=
  let trimmed := trimStart sql
  let out := storedColumns trimmed sql
  match materializedView trimmed with
  | some view => some view
  | none =>
    match indexOn trimmed with
    | some onAt => (indexKeys alphanumeric trimmed out onAt).map
        (stripOraclePhysicalClauses alphanumeric)
    | none =>
      if startsWith "ALTER TABLE ".toList trimmed = true then
        match firstBranch trimmed out alterBranches with
        | .panics => none
        | .returns altered => some altered
        | .passes => some (lowerRest alphanumeric out)
      else some (lowerRest alphanumeric out)

/-- `rewrite_oracle_ddl`. -/
def rewriteOracleDdl (sql : List Char) : Option (List Char) :=
  lowerDdl alphanumeric (rewriteOracleDdlCommon alphanumeric sql)

end Pass

end DbSaci.Translate.Ddl
