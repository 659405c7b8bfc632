import DbSaci.Sql.Lexemes
import DbSaci.Translate.IntoStrict

set_option relaxedAutoImplicit false
set_option autoImplicit false

/-!
# `SELECT .. INTO` in a block

Which `INTO` of a block is to get `STRICT` is said by its tokens: those of a `SELECT` or an
`EXECUTE`, if `STRICT` does not stand behind them.

## Main definitions

* `statementVerb` — the statement that a token is part of.
* `withStrict` — the tokens that are meant for a block.
* `places` — the characters of a block, with each `INTO` that is to get `STRICT`.

## Main results

* `sound_places` — behind such an `INTO` no `STRICT` is read.
* `stricted_iff` — when a block gets `STRICT` where it should, and nowhere else.
-/

namespace DbSaci.Translate.IntoStrict

open Text Sql

/-! ### Statements -/

/-- The words that a statement with an `INTO` starts with. -/
def verbs : List (List Char) :=
  ["SELECT".toList, "EXECUTE".toList, "INSERT".toList, "UPDATE".toList, "DELETE".toList,
    "MERGE".toList, "FETCH".toList]

/-- The first of these words behind the last semicolon. The tokens in front are read, the nearest
first; what stands in parentheses is not part of the statement itself. -/
def statementVerb : ℕ → List Lexeme → Option (List Char)
  | _, [] => none
  | depth, .sym c :: ts =>
    if c = ')' then statementVerb (depth + 1) ts
    else if c = '(' then
      match depth with
      | 0 => none
      | depth + 1 => statementVerb depth ts
    else if c = ';' then none
    else statementVerb depth ts
  | 0, .word w :: ts =>
    (statementVerb 0 ts).or (if verbs.contains (upper w) then some (upper w) else none)
  | depth, _ :: ts => statementVerb depth ts

/-- The next word is `STRICT`. -/
def strictNext : List Lexeme → Bool
  | .word w :: _ => upper w == "STRICT".toList
  | .sym c :: ts => isSpace c && strictNext ts
  | .lineComment _ :: ts => strictNext ts
  | .blockComment _ :: ts => strictNext ts
  | _ => false

/-- **An `INTO` that is to get `STRICT`**: that of a `SELECT` or an `EXECUTE`, without it. -/
def wanted (before : List Lexeme) (t : Lexeme) (ts : List Lexeme) : Bool :=
  match t with
  | .word w => upper w == "INTO".toList &&
      (statementVerb 0 before).any (["SELECT".toList, "EXECUTE".toList].contains ·) &&
      !strictNext ts
  | _ => false

/-- The tokens that are meant for a block. -/
def withStrict (before : List Lexeme) : List Lexeme → List Lexeme
  | [] => []
  | t :: ts =>
    t :: ((if wanted before t ts = true then [.sym ' ', .word "STRICT".toList] else []) ++
      withStrict (t :: before) ts)

/-- The characters of a block, with each `INTO` that is to get `STRICT`. -/
def places (before : List Lexeme) : List Lexeme → List Place
  | [] => []
  | t :: ts =>
    (if wanted before t ts = true then [.into t.text] else t.text.map .plain) ++
      places (t :: before) ts

/-! ### Texts -/

lemma written_append (k : List Char) (ps qs : List Place) :
    written k (ps ++ qs) = written k ps ++ written k qs :=
  List.flatMap_append

lemma written_into (k w : List Char) : written k [.into w] = w ++ k := by
  rw [written, List.flatMap_singleton, Place.written]

lemma text_places (before ts : List Lexeme) : text (places before ts) = lexemesText ts := by
  induction ts generalizing before with
  | nil => rfl
  | cons t ts ih =>
    rw [places, text, written_append, lexemesText_cons]
    congr 1
    · split_ifs
      · rw [written_into, List.append_nil]
      · exact written_plain [] t.text
    · exact ih (t :: before)

lemma meant_places (before ts : List Lexeme) :
    meant (places before ts) = lexemesText (withStrict before ts) := by
  induction ts generalizing before with
  | nil => rfl
  | cons t ts ih =>
    rw [places, meant, written_append, withStrict, lexemesText_cons, lexemesText_append,
      ← List.append_assoc]
    congr 1
    · split_ifs
      · rw [written_into]
        rfl
      · rw [written_plain, lexemesText_nil, List.append_nil]
    · exact ih (t :: before)

/-- Where the word `STRICT` is read, it is the next word. -/
lemma strictNext_of_word {ts : List Lexeme} {z : List Char} (h : Lexed ts)
    (htext : lexemesText ts = "STRICT".toList ++ ' ' :: z) : strictNext ts = true := by
  cases ts with
  | nil => cases htext
  | cons t ts =>
    obtain ⟨c, s, hcs⟩ := Lexeme.exists_cons h.1
    rw [lexemesText_cons] at htext
    have hc : c = 'S' := by
      rw [hcs] at htext
      exact (List.cons.inj htext).1
    subst hc
    obtain ⟨w, rfl⟩ := Lexeme.exists_word_of_head h.1 hcs (by decide) (by decide)
    have hword : w = "STRICT".toList := by
      rw [← takeWhile_lexemes h.1]
      exact congrArg (List.takeWhile _) htext
    rw [strictNext, hword]
    rfl

/-- Where `STRICT` is read between blanks, it is the next word. -/
lemma strictNext_of_blanks {ts : List Lexeme} (h : Lexed ts)
    (hstrict : " STRICT ".toList <+: lexemesText ts) : strictNext ts = true := by
  obtain ⟨z, hz⟩ := hstrict
  cases ts with
  | nil => cases hz
  | cons t ts =>
    obtain ⟨c, s, hcs⟩ := Lexeme.exists_cons h.1
    rw [lexemesText_cons] at hz
    have hc : c = ' ' := by
      rw [hcs] at hz
      exact (List.cons.inj hz).1.symm
    subst hc
    have hsym := Lexeme.eq_sym_of_head h.1 hcs (by decide) (by decide) (by decide)
    subst hsym
    rw [strictNext, strictNext_of_word h.2 (List.cons.inj hz).2.symm]
    rfl

lemma sound_append {ps qs : List Place} (hps : Sound ps) (hqs : Sound qs)
    (hplain : ∀ p ∈ ps, ∃ c, p = .plain c) : Sound (ps ++ qs) := by
  induction ps with
  | nil => exact hqs
  | cons p ps ih =>
    obtain ⟨c, rfl⟩ := hplain p List.mem_cons_self
    exact ih hps fun q hq => hplain q (List.mem_cons_of_mem _ hq)

/-- **Behind an `INTO` that is to get `STRICT` none is read.** -/
theorem sound_places {ts : List Lexeme} (h : Lexed ts) (before : List Lexeme) :
    Sound (places before ts) := by
  induction ts generalizing before with
  | nil => trivial
  | cons t ts ih =>
    have hrest := ih h.2 (t :: before)
    rw [places]
    split_ifs with hwanted
    · cases t with
      | word w =>
        rw [wanted, Bool.and_eq_true, Bool.and_eq_true, beq_iff_eq, Bool.not_eq_true'] at hwanted
        obtain ⟨⟨hw, -⟩, hnext⟩ := hwanted
        refine ⟨hw, fun hstrict => ?_, hrest⟩
        have htext : text ([].append (places (.word w :: before) ts)) = lexemesText ts :=
          text_places _ ts
        rw [htext] at hstrict
        rw [strictNext_of_blanks h.2 hstrict] at hnext
        cases hnext
      | sym c => cases hwanted
      | string body => cases hwanted
      | alternative mark delim content => cases hwanted
      | identifier body => cases hwanted
      | lineComment body => cases hwanted
      | blockComment body => cases hwanted
    · refine sound_append (sound_plain t.text) hrest fun p hp => ?_
      obtain ⟨c, -, rfl⟩ := List.mem_map.1 hp
      exact ⟨c, rfl⟩

/-! ### Blocks -/

/-- **`STRICT` is added exactly where it should**: behind each `INTO` of a `SELECT` or an `EXECUTE`
without it, with all other text as it is, and once more nothing is added. -/
def Stricted (ts : List Lexeme) : Prop :=
  addSelectIntoStrict (lexemesText ts) = some (lexemesText (withStrict [] ts)) ∧
    addSelectIntoStrict (lexemesText (withStrict [] ts)) = some (lexemesText (withStrict [] ts))

/-- **When a block gets `STRICT` exactly where it should**: if and only if the pass guesses so at
each place, and no character lies across the fourth byte behind a character. -/
theorem stricted_iff {ts : List Lexeme} (h : Lexed ts) :
    Stricted ts ↔ Met [] none (places [] ts) ∧ Whole (lexemesText (withStrict [] ts)) := by
  have hiff := addSelectIntoStrict_iff (sound_places h [])
  rwa [text_places, meant_places] at hiff

/-- `SELECT a INTO v FROM t;`. -/
def selectInto : List Lexeme :=
  [.word "SELECT".toList, .sym ' ', .word "a".toList, .sym ' ', .word "INTO".toList, .sym ' ',
    .word "v".toList, .sym ' ', .word "FROM".toList, .sym ' ', .word "t".toList, .sym ';']

lemma lexed_selectInto : Lexed selectInto := lexed_of_plain (by decide)

/-- The pass guesses right in a `SELECT .. INTO` on one line. -/
theorem selectInto_met :
    Met [] none (places [] selectInto) ∧ Whole (lexemesText (withStrict [] selectInto)) :=
  (stricted_iff lexed_selectInto).1 ⟨by decide, by decide⟩

/-- `FETCH` and, on the next line, `c INTO v;`. -/
def fetchInto : List Lexeme :=
  [.word "FETCH".toList, .sym '\n', .word "c".toList, .sym ' ', .word "INTO".toList, .sym ' ',
    .word "v".toList, .sym ';']

lemma lexed_fetchInto : Lexed fetchInto := lexed_of_plain (by decide)

/-- A `FETCH` that goes over two lines gets `STRICT`. -/
theorem fetchInto_not_stricted : Lexed fetchInto ∧ ¬ Stricted fetchInto := by
  refine ⟨lexed_fetchInto, fun h => absurd h.1 ?_⟩
  decide

end DbSaci.Translate.IntoStrict
