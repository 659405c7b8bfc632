import DbSaci.Library.Ties
import DbSaci.Translate.KeywordFree
import DbSaci.Translate.NullsOrdering

set_option relaxedAutoImplicit false
set_option autoImplicit false

/-!
# `FETCH FIRST n ROWS WITH TIES`

MariaDB has no `WITH TIES`. The pass selects from the query with a rank for each row those whose rank
is small enough. The projection and the sort keys are written twice, inside and outside.

## Main definitions

* `rewriteMariadbFetchWithTies` — the pass.
* `TiesQuery` — a query with `WITH TIES`.
* `nestedText` — the text that is put for it.

## Main results

* `rewrite_text` — the text that is put for a query.
-/

namespace DbSaci.Translate.FetchTies

open Text OrderBy

/-! ### The pass -/

/-- `u64::from_str`: digits, with a sign or without one. -/
def parseU64 (w : List Char) : Option ℕ :=
  let digits := if w.head? = some '+' then w.tail else w
  if digits ≠ [] ∧ (∀ c ∈ digits, c.isDigit = true) ∧ Nat.ofDigitChars 10 digits 0 < 2 ^ 64 then
    some (Nat.ofDigitChars 10 digits 0)
  else none

/-- The first word that is a number. -/
def firstNumberFuel : ℕ → List Char → Option ℕ
  | 0, _ => none
  | fuel + 1, s =>
    match nextWord s with
    | none => none
    | some (w, rest) => (parseU64 w).or (firstNumberFuel fuel rest)

/-- `split_whitespace().find_map(..)`: the first number between white space. -/
def firstNumber (s : List Char) : Option ℕ := firstNumberFuel (s.length + 1) s

/-- The text behind `SELECT` at the start. -/
def behindSelect (s : List Char) : Option (List Char) :=
  if "SELECT ".toList <+: s ∨ "select ".toList <+: s then some (s.drop "SELECT ".toList.length)
  else none

/-- The text of the query that selects by the rank. -/
def nestedText (projection order : List Char) (n : ℕ) (source : List Char) : List Char :=
  "SELECT ".toList ++ (projection ++ (" FROM (SELECT ".toList ++ (projection ++
    (", DENSE_RANK() OVER (ORDER BY ".toList ++ (order ++ (") AS __dbsaci_tie ".toList ++ (source ++
      (") __dbsaci_ties WHERE __dbsaci_tie <= ".toList ++ (Nat.toDigits 10 n ++
        (" ORDER BY ".toList ++ order))))))))))

/-- `rewrite_mariadb_fetch_with_ties`. -/
def rewriteMariadbFetchWithTies (sql : List Char) : List Char :=
  match findTopLevelKw sql "FETCH".toList with
  | none => sql
  | some fetchAt =>
    let fetchUp := (upper sql).drop fetchAt
    if ¬ "WITH TIES".toList <:+: fetchUp then sql
    else
      let n := (firstNumber fetchUp).getD 1
      match findTopLevelKw (sql.take fetchAt) "ORDER BY".toList with
      | none => sql
      | some obAt =>
        let body := trimEnd (sql.take obAt)
        let order := normalizeNullsOrdering
          (trim ((sql.take fetchAt).drop (obAt + "ORDER BY".toList.length)))
        match behindSelect (trimStart body) with
        | none => sql
        | some afterSelect =>
          match findTopLevelKw afterSelect "FROM".toList with
          | none => sql
          | some fromRel =>
            nestedText (trim (afterSelect.take fromRel)) order n (trim (afterSelect.drop fromRel))

/-! ### The queries -/

/-- What is selected: an expression or `*`, with an alias or without one. -/
structure Item where
  expr : List Char
  alias_ : Option (List Char)

/-- The text of it. -/
def Item.text (i : Item) : List Char := i.expr ++ i.alias_.elim [] (" AS ".toList ++ ·)

/-- A query with `WITH TIES`: what is selected, what stands between `FROM` and `ORDER BY`, the terms
of the order and the number of rows. -/
structure TiesQuery where
  item : Item
  items : List Item
  source : List Char
  term : Term
  terms : List Term
  count : ℕ

namespace TiesQuery

variable (q : TiesQuery)

/-- All that is selected. -/
def projection : List Char := commas ((q.item :: q.items).map Item.text)

/-- The terms of the order. -/
def order : List Char := clause (q.term :: q.terms)

/-- The query in front of `ORDER BY`. -/
def front : List Char :=
  "SELECT".toList ++ ' ' :: (q.projection ++ ' ' :: ("FROM".toList ++ ' ' :: q.source))

/-- The clause at the end. -/
def fetch : List Char :=
  "FETCH".toList ++ ' ' :: ("FIRST".toList ++ ' ' :: (Nat.toDigits 10 q.count ++
    ' ' :: ("ROWS".toList ++ ' ' :: ("WITH".toList ++ ' ' :: "TIES".toList))))

/-- The text of the query. -/
def text : List Char := q.front ++ ' ' :: ("ORDER BY".toList ++ ' ' :: (q.order ++ ' ' :: q.fetch))

/-- The keywords are found where they stand. -/
structure Readable : Prop where
  projection : Trimmed q.projection ∧
    ∀ kw ∈ ["FROM".toList, "ORDER".toList, "FETCH".toList], Clear kw q.projection
  source : Trimmed q.source ∧ ∀ kw ∈ ["ORDER".toList, "FETCH".toList], Clear kw q.source
  order : Clear "FETCH".toList q.order

/-- The number of rows that is read: one, where it is too large. -/
def countRead : ℕ := if q.count < 2 ^ 64 then q.count else 1

/-! ### The number of rows -/

lemma parseU64_digits (n : ℕ) :
    parseU64 (Nat.toDigits 10 n) = if n < 2 ^ 64 then some n else none := by
  have hdigits : ∀ c ∈ Nat.toDigits 10 n, c.isDigit = true := fun c hc =>
    Nat.isDigit_of_mem_toDigits (by decide) (by decide) hc
  have hne : Nat.toDigits 10 n ≠ [] := Nat.toDigits_ne_nil
  have hhead : (Nat.toDigits 10 n).head? ≠ some '+' := by
    intro h
    have := hdigits '+' (List.mem_of_head? h)
    cases this
  rw [parseU64, if_neg hhead]
  simp only [Nat.ofDigitChars_ten_toDigits]
  by_cases hlt : n < 2 ^ 64
  · rw [if_pos ⟨hne, hdigits, hlt⟩, if_pos hlt]
  · rw [if_neg fun h => hlt h.2.2, if_neg hlt]

/-- One word in front. -/
lemma firstNumberFuel_word {g w y : List Char} (hg : Gap g) (hw : Word w)
    (hy : ∀ c ∈ y.head?, isSpace c = true) (fuel : ℕ) :
    firstNumberFuel (fuel + 1) (g ++ (w ++ y)) = (parseU64 w).or (firstNumberFuel fuel y) := by
  rw [firstNumberFuel, nextWord_append hg hw.ne_nil hw.solid hy]

/-- What follows is not looked at if the first word is a number. -/
lemma firstNumber_fetch (q : TiesQuery) : (firstNumber q.fetch).getD 1 = q.countRead := by
  have hlen : ∃ fuel, q.fetch.length + 1 = fuel + 7 := by
    refine ⟨q.fetch.length - 6, ?_⟩
    have : 6 ≤ q.fetch.length := by
      rw [fetch, List.length_append, List.length_cons, List.length_append]
      have h1 : "FETCH".toList.length = 5 := by decide
      have h2 : "FIRST".toList.length = 5 := by decide
      omega
    omega
  obtain ⟨fuel, hfuel⟩ := hlen
  have hblank : Gap [' '] := by decide
  have hspace : ∀ (y : List Char), ∀ c ∈ (' ' :: y).head?, isSpace c = true := by
    intro y c hc
    obtain rfl : ' ' = c := Option.some.inj hc
    rfl
  have hdigits : Word (Nat.toDigits 10 q.count) :=
    ⟨Nat.toDigits_ne_nil, fun c hc =>
      isSpace_of_isDigit (Nat.isDigit_of_mem_toDigits (by decide) (by decide) hc)⟩
  have hfetch : parseU64 "FETCH".toList = none := by decide
  have hfirst : parseU64 "FIRST".toList = none := by decide
  have hrows : parseU64 "ROWS".toList = none := by decide
  have hwith : parseU64 "WITH".toList = none := by decide
  have hties : parseU64 "TIES".toList = none := by decide
  have hnil : ∀ fuel, firstNumberFuel fuel [] = none := by
    intro fuel
    cases fuel <;> rfl
  rw [firstNumber, hfuel, fetch]
  have h1 := firstNumberFuel_word (g := []) (by decide) (w := "FETCH".toList) (by decide)
    (hspace ("FIRST".toList ++ ' ' :: (Nat.toDigits 10 q.count ++
      ' ' :: ("ROWS".toList ++ ' ' :: ("WITH".toList ++ ' ' :: "TIES".toList))))) (fuel + 6)
  have h2 := firstNumberFuel_word hblank (w := "FIRST".toList) (by decide)
    (hspace (Nat.toDigits 10 q.count ++
      ' ' :: ("ROWS".toList ++ ' ' :: ("WITH".toList ++ ' ' :: "TIES".toList)))) (fuel + 5)
  have h3 := firstNumberFuel_word hblank hdigits
    (hspace ("ROWS".toList ++ ' ' :: ("WITH".toList ++ ' ' :: "TIES".toList))) (fuel + 4)
  have h4 := firstNumberFuel_word hblank (w := "ROWS".toList) (by decide)
    (hspace ("WITH".toList ++ ' ' :: "TIES".toList)) (fuel + 3)
  have h5 := firstNumberFuel_word hblank (w := "WITH".toList) (by decide)
    (hspace "TIES".toList) (fuel + 2)
  have h6 := firstNumberFuel_word hblank (w := "TIES".toList) (by decide) (y := []) (by simp)
    (fuel + 1)
  rw [List.append_nil] at h6
  rw [List.nil_append] at h1
  rw [h1, hfetch, Option.none_or]
  refine (congrArg (Option.getD · 1) h2).trans ?_
  rw [hfirst, Option.none_or]
  refine (congrArg (Option.getD · 1) h3).trans ?_
  rw [parseU64_digits, countRead]
  by_cases hlt : q.count < 2 ^ 64
  · rw [if_pos hlt, if_pos hlt]
    rfl
  · rw [if_neg hlt, if_neg hlt, Option.none_or]
    refine (congrArg (Option.getD · 1) h4).trans ?_
    rw [hrows, Option.none_or]
    refine (congrArg (Option.getD · 1) h5).trans ?_
    rw [hwith, Option.none_or]
    refine (congrArg (Option.getD · 1) h6).trans ?_
    rw [hties, Option.none_or, hnil]
    rfl

/-! ### The text that is put -/

variable {q}

lemma clear_front (h : q.Readable) {kw : List Char} (hkw : ∀ c ∈ kw, isAsciiSpace c = false)
    (hselect : upper "SELECT".toList ≠ kw) (hfrom : upper "FROM".toList ≠ kw)
    (hmem : kw ∈ ["ORDER".toList, "FETCH".toList]) : Clear kw q.front := by
  have hprojection : Clear kw q.projection := h.projection.2 kw (List.mem_cons_of_mem _ hmem)
  exact (clear_word (by decide) (by decide) hkw hselect).append hkw
    (hprojection.append hkw ((clear_word (by decide) (by decide) hkw hfrom).append hkw
      (h.source.2 kw hmem)))

lemma front_trimmed (h : q.Readable) : Trimmed q.front := by
  obtain ⟨hne, -, hlast⟩ := h.source.1
  have htext : q.front =
      ("SELECT".toList ++ ' ' :: (q.projection ++ ' ' :: ("FROM".toList ++ [' ']))) ++ q.source := by
    simp [front]
  refine ⟨by simp [front], rfl, ?_⟩
  simp only [htext, List.getLast_append_of_right_ne_nil _ _ hne]
  exact hlast

lemma trim_trim (s : List Char) : trim (trim s) = trim s := by
  have hstart : trimStart (trim s) = trim s := by
    cases h : trim s with
    | nil => rfl
    | cons c t => exact trimStart_of_head (head_trim h) t
  show trimEnd (trimStart (trim s)) = trim s
  rw [hstart]
  exact List.rdropWhile_idempotent isSpace (trimStart s)

/-- The list of the first pass does not depend on the white space around it. -/
lemma normalizeNullsOrdering_trim (s : List Char) :
    normalizeNullsOrdering (trim s) = normalizeNullsOrdering s := by
  have hterm : ∀ x, normalizeTerm x = normalizeTerm (trim x) := by
    intro x
    rw [normalizeTerm, normalizeTerm, trim_trim]
  have hmap : ∀ xs : List (List Char), xs.map normalizeTerm = (xs.map trim).map normalizeTerm := by
    intro xs
    rw [List.map_map]
    exact List.map_congr_left fun x _ => hterm x
  rw [normalizeNullsOrdering, normalizeNullsOrdering, hmap, map_trim_split_trim, ← hmap]

lemma upper_fetch (q : TiesQuery) : upper q.fetch = q.fetch := by
  have hdigits : upper (Nat.toDigits 10 q.count) = Nat.toDigits 10 q.count := by
    rw [upper, List.map_congr_left, List.map_id]
    intro c hc
    have hdigit := Nat.isDigit_of_mem_toDigits (b := 10) (by decide) (by decide) hc
    rw [Char.isDigit, Bool.and_eq_true, decide_eq_true_eq, decide_eq_true_eq] at hdigit
    have hhigh : c.toNat ≤ 57 := hdigit.2
    delta Char.toUpper
    rw [dif_neg]
    · rfl
    · rintro ⟨hlo, -⟩
      rw [UInt32.le_iff_toNat_le] at hlo
      change 97 ≤ c.toNat at hlo
      omega
  rw [fetch]
  simp only [upper_append, upper_cons, hdigits]
  rfl

/-- **The text that is put for a query.** -/
theorem rewrite_text (h : q.Readable) : rewriteMariadbFetchWithTies q.text =
    nestedText q.projection (normalizeNullsOrdering q.order) q.countRead
      ("FROM".toList ++ ' ' :: q.source) := by
  have hby : "ORDER BY".toList = "ORDER".toList ++ ' ' :: "BY".toList := by decide
  have hkw : ∀ c ∈ "FETCH".toList, isAsciiSpace c = false := by decide
  -- where the keywords are found
  have hfetch : findTopLevelKw q.text "FETCH".toList =
      some ((q.front ++ ' ' :: ("ORDER BY".toList ++ ' ' :: q.order)).length + 1) := by
    have hclear : Clear "FETCH".toList
        (q.front ++ ' ' :: ("ORDER BY".toList ++ ' ' :: q.order)) := by
      have hwords : Clear "FETCH".toList "ORDER BY".toList := by
        rw [hby]
        exact (clear_word (by decide) (by decide) hkw (by decide)).append hkw
          (clear_word (by decide) (by decide) hkw (by decide))
      exact (clear_front h hkw (by decide) (by decide) (by decide)).append hkw
        (hwords.append hkw h.order)
    have hfind := hclear.find (by decide) (head_plain (by decide)) (by decide) (by decide)
      (y := ' ' :: ("FIRST".toList ++ ' ' :: (Nat.toDigits 10 q.count ++
        ' ' :: ("ROWS".toList ++ ' ' :: ("WITH".toList ++ ' ' :: "TIES".toList))))) rfl
    have htext : q.text = (q.front ++ ' ' :: ("ORDER BY".toList ++ ' ' :: q.order)) ++
        ' ' :: q.fetch := by
      simp [text]
    rw [htext, fetch]
    exact hfind
  have hcut : q.text = (q.front ++ ' ' :: ("ORDER BY".toList ++ ' ' :: (q.order ++ [' ']))) ++
      q.fetch := by
    simp [text]
  have hlen : (q.front ++ ' ' :: ("ORDER BY".toList ++ ' ' :: q.order)).length + 1 =
      (q.front ++ ' ' :: ("ORDER BY".toList ++ ' ' :: (q.order ++ [' ']))).length := by
    simp
    omega
  have htake : q.text.take ((q.front ++ ' ' :: ("ORDER BY".toList ++ ' ' :: q.order)).length + 1) =
      q.front ++ ' ' :: ("ORDER BY".toList ++ ' ' :: (q.order ++ [' '])) := by
    rw [hlen, hcut, List.take_left]
  have hfetchUp : (upper q.text).drop
      ((q.front ++ ' ' :: ("ORDER BY".toList ++ ' ' :: q.order)).length + 1) = q.fetch := by
    rw [← upper_drop, hlen, hcut, List.drop_left, upper_fetch]
  have horder : findTopLevelKw (q.front ++ ' ' :: ("ORDER BY".toList ++
      ' ' :: (q.order ++ [' ']))) "ORDER BY".toList = some (q.front.length + 1) := by
    have hclear : Clear "ORDER".toList q.front :=
      clear_front h (by decide) (by decide) (by decide) (by decide)
    have hfind := hclear.find (by decide) (head_plain (by decide)) (by decide) (by decide)
      (y := ' ' :: ("BY".toList ++ ' ' :: (q.order ++ [' ']))) rfl
    have hdrop : (q.front ++ ' ' :: ("ORDER".toList ++ ' ' :: ("BY".toList ++
        ' ' :: (q.order ++ [' '])))).drop (q.front.length + 1) =
        ("ORDER".toList ++ ' ' :: "BY".toList) ++ ' ' :: (q.order ++ [' ']) := by
      rw [← List.drop_drop, List.drop_left]
      simp
    have hlonger := findKwFrom_longer (t := "BY".toList) hfind (by
      rw [hdrop, startsWith, List.isPrefixOf_iff_prefix, upper_append]
      exact List.prefix_append _ _) (by
      rw [hdrop, List.drop_left]
      rfl)
    have htext : q.front ++ ' ' :: ("ORDER BY".toList ++ ' ' :: (q.order ++ [' '])) =
        q.front ++ ' ' :: ("ORDER".toList ++ ' ' :: ("BY".toList ++
          ' ' :: (q.order ++ [' ']))) := by
      rw [hby]
      simp
    rw [htext, hby]
    exact hlonger
  have hfrom : findTopLevelKw (q.projection ++ ' ' :: ("FROM".toList ++ ' ' :: q.source))
      "FROM".toList = some (q.projection.length + 1) :=
    (h.projection.2 _ List.mem_cons_self).find (by decide) (head_plain (by decide)) (by decide)
      (by decide) rfl
  -- what is cut at them
  have hbody : trimStart (trimEnd (q.text.take (q.front.length + 1))) = q.front := by
    have htrimmed := front_trimmed h
    have hstart := trimStart_of_trimmed htrimmed []
    rw [List.append_nil] at hstart
    have hfront : q.text.take (q.front.length + 1) = q.front ++ [' '] := by
      rw [text, List.take_length_add_append]
      rfl
    rw [hfront, trimEnd_gap (by decide), trimEnd_of_trimmed htrimmed, hstart]
  have hkeys : (q.front ++ ' ' :: ("ORDER BY".toList ++ ' ' :: (q.order ++ [' ']))).drop
      (q.front.length + 1 + "ORDER BY".toList.length) = [' '] ++ (q.order ++ [' ']) := by
    rw [Nat.add_assoc, ← List.drop_drop, List.drop_left, ← List.drop_drop, List.drop_one,
      List.tail_cons, List.drop_left]
    rfl
  have hselect : behindSelect q.front =
      some (q.projection ++ ' ' :: ("FROM".toList ++ ' ' :: q.source)) := by
    have htext : q.front =
        "SELECT ".toList ++ (q.projection ++ ' ' :: ("FROM".toList ++ ' ' :: q.source)) := by
      have hword : "SELECT ".toList = "SELECT".toList ++ [' '] := by decide
      rw [hword, List.append_assoc]
      rfl
    rw [htext, behindSelect, if_pos (Or.inl (List.prefix_append _ _)), List.drop_left]
  have hties : "WITH TIES".toList <:+: q.fetch := by
    have hword : "WITH TIES".toList = "WITH".toList ++ ' ' :: "TIES".toList := by decide
    refine ⟨"FETCH".toList ++ ' ' :: ("FIRST".toList ++ ' ' :: (Nat.toDigits 10 q.count ++
      ' ' :: ("ROWS".toList ++ [' ']))), [], ?_⟩
    rw [hword, fetch]
    simp only [List.append_assoc, List.cons_append, List.nil_append, List.append_nil]
  have hprojection : trim (q.projection ++ [' ']) = q.projection :=
    trim_gap (by decide) h.projection.1
  have hsource : trim ("FROM".toList ++ ' ' :: q.source) = "FROM".toList ++ ' ' :: q.source := by
    obtain ⟨hne, -, hlast⟩ := h.source.1
    have htrimmed : Trimmed ("FROM".toList ++ ' ' :: q.source) := by
      refine ⟨by simp, rfl, ?_⟩
      have htext : "FROM".toList ++ ' ' :: q.source = ("FROM".toList ++ [' ']) ++ q.source := by
        simp
      simp only [htext, List.getLast_append_of_right_ne_nil _ _ hne]
      exact hlast
    exact trim_of_trimmed htrimmed
  have hcutProjection : (q.projection ++ ' ' :: ("FROM".toList ++ ' ' :: q.source)).take
      (q.projection.length + 1) = q.projection ++ [' '] := by
    rw [List.take_length_add_append]
    rfl
  have hcutSource : (q.projection ++ ' ' :: ("FROM".toList ++ ' ' :: q.source)).drop
      (q.projection.length + 1) = "FROM".toList ++ ' ' :: q.source := by
    rw [← List.drop_drop, List.drop_left]
    rfl
  have htrimOrder : trim ([' '] ++ (q.order ++ [' '])) = trim q.order := by
    rw [trim_spaces_append (by decide), trim_append_spaces (by decide)]
  rw [rewriteMariadbFetchWithTies, hfetch]
  simp only [hfetchUp, htake, firstNumber_fetch, horder, hbody, hselect, hkeys, hfrom, htrimOrder,
    hcutProjection, hcutSource, hprojection, hsource, normalizeNullsOrdering_trim]
  exact if_neg (not_not_intro hties)

end TiesQuery

end DbSaci.Translate.FetchTies
