import DbSaci.Library.Transducer
import DbSaci.Sql.Lexemes
import DbSaci.Translate.PhysicalClauses

set_option relaxedAutoImplicit false
set_option autoImplicit false

/-!
# Oracle's tokens

`normalize_oracle_tokens` goes over a text, copies quoted parts and comments, and looks up each word
among some twenty rules.

## Main definitions

* `rule` — what a word becomes, by the text around it.
* `normalizeOracleTokens` — the pass.
* `replacements` — the words with a rule, and what they can become.

## Main results

* `mem_replacements` — the rules are in the table.
* `not_prefix_replacement` — a replacement is told from its word by its letters.
-/

namespace DbSaci.Translate.TokenScan

open Text
open Physical (startsKeyword)

/-! ### The pass -/

/-- How many characters behind a first one are of the same quoted part or comment. -/
def skipped (c : Char) (s : List Char) : Option ℕ :=
  if c = '\'' ∨ c = '"' then some (skipQuoted c s)
  else if c = '-' ∧ s.head? = some '-' then some (s.takeWhile fun d => d ≠ '\n').length
  else if c = '/' ∧ s.head? = some '*' then
    some (match find "*/".toList (s.drop 1) with
      | some offset => offset + 3
      | none => s.length)
  else none

/-- A word starts with such a character. -/
def isWordStart (c : Char) : Bool := c.isAlpha || c = '_'

/-- A parenthesis is behind a word. -/
def followedByParen (y : List Char) : Bool := (trimStart y).head? == some '('

/-- A dot is in front of a word. -/
def precededByDot (x : List Char) : Bool := x.getLast? == some '.'

/-- `GENERATED` is behind a word, or behind a size. -/
def isIdentity (y : List Char) : Bool :=
  startsWith "GENERATED".toList (trimStart y) ||
    startsWith "GENERATED".toList
      ((trimStart y).dropWhile fun c => c.isDigit || c = '(' || c = ')' || c = ',' || c = ' ')

/-- `AS` is in front of a word. -/
def precededByAs (x : List Char) : Bool :=
  " AS".toList.isSuffixOf (upper (trimEnd x)) || upper (trimEnd x) == "AS".toList

/-- What can be behind the type of a column. -/
def endsColumnType (y : List Char) : Bool :=
  (trimStart y).head?.all (fun c => c = ',' || c = ')') ||
    ["DEFAULT".toList, "NOT".toList, "NULL".toList, "PRIMARY".toList, "UNIQUE".toList,
      "CHECK".toList, "CONSTRAINT".toList, "REFERENCES".toList, "GENERATED".toList,
      "COLLATE".toList, "ENABLE".toList, "DISABLE".toList].any
        (startsKeyword · (trimStart y))

/-- The statement defines a table, and not by a query. -/
def tableDdl (sql : List Char) : Bool :=
  ["CREATE TABLE ".toList, "CREATE GLOBAL TEMPORARY TABLE ".toList,
    "CREATE PRIVATE TEMPORARY TABLE ".toList, "ALTER TABLE ".toList].any
      (startsWith · (trimStart sql)) &&
    (find " AS SELECT".toList (upper sql)).isNone

/-- The tests of a word, one after the other: the word in capitals, what else is asked of the text
in front of it and of the text behind it, and what the word becomes. -/
def rules (ddl : Bool) (x y : List Char) : List (List Char × Bool × List Char) :=
  [("MINUS".toList, true, "EXCEPT".toList),
    ("NVL".toList, true, "COALESCE".toList),
    ("SUBSTR".toList, followedByParen y && !precededByDot x, "oracle.substr".toList),
    ("NUMBER".toList, isIdentity y, "bigint".toList),
    ("SYSDATE".toList, true, "CURRENT_TIMESTAMP".toList),
    ("SYSTIMESTAMP".toList, true, "CURRENT_TIMESTAMP".toList),
    ("SESSIONTIMEZONE".toList, !followedByParen y, "public.sessiontimezone()".toList),
    ("DBTIMEZONE".toList, !followedByParen y, "public.dbtimezone()".toList),
    ("USER".toList, !followedByParen y, "UPPER(CURRENT_USER)".toList),
    ("UID".toList, !followedByParen y,
      "(SELECT oid::int FROM pg_catalog.pg_roles WHERE rolname = CURRENT_USER)".toList),
    ("ROWID".toList, !followedByParen y, "ctid".toList),
    ("VARCHAR2".toList, true, "VARCHAR".toList),
    ("NVARCHAR2".toList, true, "VARCHAR".toList),
    ("NCHAR".toList, true, "VARCHAR".toList),
    ("NUMBER".toList, true, "NUMERIC".toList),
    ("DATE".toList, ddl && !precededByDot x && !precededByAs x && endsColumnType y,
      "timestamp(0)".toList),
    ("BINARY_FLOAT".toList, true, "dbsaci.binary_float".toList),
    ("BINARY_DOUBLE".toList, true, "dbsaci.binary_double".toList),
    ("CLOB".toList, true, "TEXT".toList),
    ("NCLOB".toList, true, "TEXT".toList),
    ("LONG".toList, true, "TEXT".toList),
    ("BLOB".toList, true, "BYTEA".toList),
    ("RAW".toList, true, "BYTEA".toList)]

/-- What a word becomes: by the first test that it meets. -/
def rule (ddl : Bool) (x w y : List Char) : Option (List Char) :=
  ((rules ddl x y).find? fun r => upper w == r.1 && r.2.1).map fun r => r.2.2

/-- With these goes what stands in parentheses behind the word. -/
def takesArgs (r : List Char) : Bool :=
  r == "bigint".toList || r == "BYTEA".toList || r == "VARCHAR".toList

/-- How much of the text behind a word goes with it: up to the first closing parenthesis. -/
def taken (r y : List Char) : ℕ :=
  if takesArgs r && followedByParen y then
    match find ")".toList y with
    | some close => close + 1
    | none => 0
  else 0

/-- The length in the parentheses behind `VARCHAR2`, without its unit. -/
def lengthOf (args : List Char) : List Char :=
  trim ((trim ((trimStart args).drop 1).dropLast).rdropWhile fun c => c.isAlpha)

/-- What is written for a word, and for the parentheses that go with it. -/
def written (r args : List Char) : List Char :=
  if r = "VARCHAR".toList ∧ args ≠ [] then r ++ '(' :: (lengthOf args ++ [')']) else r

/-- One step: what is written at a character, and how many characters behind it are read. -/
def step (ddl : Bool) (x : List Char) (c : Char) (s : List Char) : List Char × ℕ :=
  match skipped c s with
  | some n => (c :: s.take n, n)
  | none =>
    if isWordStart c = true then
      let t := s.takeWhile isWordByte
      let y := s.drop t.length
      match rule ddl x (c :: t) y with
      | some r => (written r (y.take (taken r y)), t.length + taken r y)
      | none => (c :: t, t.length)
    else ([c], 0)

/-- The loop, with the text in front of a character for its state. -/
def scan (ddl : Bool) : Transducer (List Char) Char Char := fun x c s =>
  ((step ddl x c s).1, (step ddl x c s).2, x ++ c :: s.take (step ddl x c s).2)

/-- `normalize_oracle_tokens`. -/
def normalizeOracleTokens (sql : List Char) : List Char := (scan (tableDdl sql)).run [] sql

/-! ### The rules -/

/-- The words with a rule, and what they can become. -/
def replacements : List (List Char × List Char) :=
  (rules false [] []).map fun r => (r.1, r.2.2)

/-- **The rules are in the table.** -/
theorem mem_replacements {ddl : Bool} {x w y r : List Char} (h : rule ddl x w y = some r) :
    (upper w, r) ∈ replacements := by
  obtain ⟨row, hrow, rfl⟩ := Option.map_eq_some_iff.1 h
  have htest := List.find?_some hrow
  rw [Bool.and_eq_true, beq_iff_eq] at htest
  have hmem : (row.1, row.2.2) ∈ (rules ddl x y).map fun r => (r.1, r.2.2) :=
    List.mem_map_of_mem (f := fun r => (r.1, r.2.2)) (List.mem_of_find?_eq_some hrow)
  rw [htest.1]
  exact hmem

/-- **A replacement is told from its word** by its letters. -/
theorem not_prefix_replacement : ∀ p ∈ replacements, ¬ p.1 <+: upper p.2 := by
  decide

/-- Two replacements of a word are told by their first letters. -/
theorem head_replacement : ∀ p ∈ replacements, ∀ q ∈ replacements,
    p.1 = q.1 → p.2.head? = q.2.head? → p.2 = q.2 := by
  decide

end DbSaci.Translate.TokenScan
