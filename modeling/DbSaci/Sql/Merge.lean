import DbSaci.Translate.ReplaceIdentifier
import DbSaci.Translate.TopLevel

set_option relaxedAutoImplicit false
set_option autoImplicit false

/-!
# Oracle `MERGE`

A `MERGE` with an update, an optional `DELETE WHERE` and an optional insert: its text, and the
value its delete condition has for Oracle, which is that on the row with all assignments made at
once.

## Main definitions

* `Merge`, `Assignment` — the statement.
* `Merge.text` — its text.
* `Merge.resolve` — the column a word stands for.
* `newValue` — the value of a word on the updated row.
-/

namespace DbSaci

open Text Translate

/-- The two rows a condition of a `MERGE` reads. -/
inductive Side
  | target
  | source
  deriving DecidableEq, Repr

/-- A column: the row it is in, and its name in upper case. -/
abbrev Ref := Side × List Char

/-- `[alias.]col = rhs`. -/
structure Assignment where
  qualifier : Option (List Char)
  col : List Char
  rhs : Phrase
  deriving DecidableEq

namespace Assignment

/-- The left-hand side as it is written. -/
def lhs (a : Assignment) : List Char := a.qualifier.elim a.col fun q => q ++ '.' :: a.col

/-- The text of an assignment. -/
def text (a : Assignment) : List Char := a.lhs ++ (" = ".toList ++ a.rhs.text)

/-- The assignment without the alias. -/
def unqualified (a : Assignment) : Assignment := { a with qualifier := none }

/-- A word is the left-hand side, which has to be qualified. -/
def hits (a : Assignment) (w : List Char) : Prop := a.qualifier.isSome ∧ upper w = upper a.lhs

instance (a : Assignment) (w : List Char) : Decidable (a.hits w) :=
  inferInstanceAs (Decidable (_ ∧ _))

end Assignment

/-- The text of a list of assignments, in front of a text. -/
def assignmentsText : List Assignment → List Char → List Char
  | [], rest => rest
  | [a], rest => a.text ++ rest
  | a :: b :: as, rest => a.text ++ (", ".toList ++ assignmentsText (b :: as) rest)

/-- The text of an expression can be cut out and put back: its tokens are its text's, its
parentheses and quotes are closed, no comma stands at depth zero, and no white space at the
ends. -/
structure Expression (p : Phrase) : Prop where
  lexed : p.Lexed
  closed : Closed p.text
  comma : splitTopLevelCommas p.text = [p.text]
  trimmed : Trimmed p.text

/-- A name: word characters without a dot. -/
def Name (w : List Char) : Prop :=
  w ≠ [] ∧ ∀ c ∈ w, isWordChar c = true ∧ c ≠ '.' ∧ isSpace c = false

instance (w : List Char) : Decidable (Name w) := inferInstanceAs (Decidable (_ ∧ _))

/-- `MERGE INTO table alias USING source sourceAlias ON (cond) WHEN MATCHED THEN UPDATE SET assigns
[DELETE WHERE delete] [WHEN NOT MATCHED THEN INSERT insert]`, where the insert may also come first.
An `owner` says which row an unqualified column is in. -/
structure Merge where
  table : List Char
  alias_ : List Char
  source : List Char
  sourceAlias : List Char
  cond : List Char
  assigns : List Assignment
  delete : Option Phrase
  insert : Option (List Char)
  insertFirst : Bool
  owner : List Char → Option Side
  names : (table ≠ [] ∧ ∀ c ∈ table, isSpace c = false) ∧ Name alias_ ∧ Name sourceAlias
  distinct : upper alias_ ≠ upper sourceAlias
  keywords : upper alias_ ≠ "AS".toList ∧ upper alias_ ≠ "USING".toList
  nonempty : assigns ≠ []
  targets : ∀ a ∈ assigns, Name a.col ∧ ∀ q ∈ a.qualifier, Name q ∧ upper q = upper alias_
  columns : (assigns.map fun a => upper a.col).Nodup
  expressions : (∀ a ∈ assigns, Expression a.rhs) ∧ ∀ p ∈ delete, Expression p

namespace Merge

/-- The text of the insert. -/
def insertText (m : Merge) : List Char :=
  m.insert.elim [] fun i => "WHEN NOT MATCHED THEN INSERT ".toList ++ i

/-- The text up to the update. -/
def head (m : Merge) : List Char :=
  "MERGE INTO ".toList ++ (m.table ++ (' ' :: (m.alias_ ++ (" USING ".toList ++ (m.source ++
    (' ' :: (m.sourceAlias ++ (" ON (".toList ++ (m.cond ++ (") ".toList ++
      if m.insert.isSome && m.insertFirst then m.insertText ++ [' '] else []))))))))))

/-- The insert that stands behind the update. -/
def tail (m : Merge) : List Char := if m.insertFirst then [] else m.insertText

/-- What stands behind the update. -/
def rest (m : Merge) : List Char := if m.tail = [] then [] else ' ' :: m.tail

/-- The text of the delete. -/
def deleteText (m : Merge) : List Char :=
  m.delete.elim [] fun p => " DELETE WHERE ".toList ++ p.text

/-- The text of a statement. -/
def text (m : Merge) : List Char :=
  m.head ++ ("WHEN MATCHED THEN UPDATE SET ".toList ++
    assignmentsText m.assigns (m.deleteText ++ m.rest))

/-- The column a word stands for: one of the row its alias names, or for a word without an alias
one of the row that has it. -/
def resolve (m : Merge) (w : List Char) : Option Ref :=
  match (upper w).dropWhile fun c => c ≠ '.' with
  | [] => (m.owner (upper w)).map fun side => (side, upper w)
  | _ :: name =>
    if ((upper w).takeWhile fun c => c ≠ '.') = upper m.alias_ then some (.target, name)
    else if ((upper w).takeWhile fun c => c ≠ '.') = upper m.sourceAlias then some (.source, name)
    else none

/-- A word stands for the column an assignment is made to. -/
def names_ (m : Merge) (a : Assignment) (w : List Char) : Prop :=
  m.resolve w = some (.target, upper a.col)

instance (m : Merge) (a : Assignment) (w : List Char) : Decidable (m.names_ a w) :=
  inferInstanceAs (Decidable (_ = _))

/-- The value of a word on the two rows. -/
def value {V : Type} (m : Merge) (row : Ref → V) (w : List Char) : Option V :=
  (m.resolve w).map row

/-- The value of a word when all assignments have been made at once: the right-hand sides are
evaluated on the old rows. -/
def newValue {V : Type} (m : Merge) (M : Meaning V) (row : Ref → V) :
    List Assignment → List Char → Option V
  | [], w => m.value row w
  | a :: as, w =>
    if m.names_ a w then some (a.rhs.eval M (m.value row)) else newValue m M row as w

end Merge

end DbSaci
