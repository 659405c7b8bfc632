import DbSaci.Translate.FullOuterJoin
import DbSaci.Translate.CommaParts
import DbSaci.Translate.KeywordFree
import DbSaci.Sql.JoinUnionRows

set_option relaxedAutoImplicit false
set_option autoImplicit false

/-!
# The text of the union for a full join

On the text of a query over a full join whose keywords stand where they are found, the pass puts the
text of the union of the left join and of the rows of the right join whose key is `NULL`, if there
is a column of the left table in the join condition.

## Main definitions

* `FullJoin.Readable` — the keywords are found where they stand.
* `FullJoin.antiColumn` — the key.

## Main results

* `FullJoin.round_text` — one round on the text of a query.
* `FullJoin.round_lowered` — there is no second round.
-/

namespace DbSaci

open Text Translate

/-! ### Lists of texts -/

section Commas

/-- A text that can be one of a list: it is closed, has no comma at depth zero and no white space at
its ends. -/
structure Listed (x : List Char) : Prop where
  closed : Closed x
  comma : splitTopLevelCommas x = [x]
  trimmed : Trimmed x

/-- What stands in front of a list stands in front of its first text. -/
lemma append_commas (d x : List Char) (xs : List (List Char)) :
    d ++ commas (x :: xs) = commas ((d ++ x) :: xs) := by
  cases xs with
  | nil => rfl
  | cons y xs => rw [commas, commas, List.append_assoc]

lemma commas_trimmed {xs : List (List Char)} (hne : xs ≠ []) (hx : ∀ x ∈ xs, Trimmed x) :
    Trimmed (commas xs) := by
  induction xs with
  | nil => exact absurd rfl hne
  | cons x xs ih =>
    have hfirst := hx x List.mem_cons_self
    cases xs with
    | nil => exact hfirst
    | cons y xs =>
      obtain ⟨hxne, hhead, -⟩ := hfirst
      obtain ⟨hyne, -, hlast⟩ := ih (by simp) fun z hz => hx z (List.mem_cons_of_mem x hz)
      have heq : commas (x :: y :: xs) = (x ++ [',', ' ']) ++ commas (y :: xs) := by simp [commas]
      refine ⟨by simp [heq], ?_, ?_⟩
      · simp only [commas, List.head_append_of_ne_nil hxne]
        exact hhead
      · simp only [heq, List.getLast_append_of_right_ne_nil _ _ hyne]
        exact hlast

lemma commas_closed {xs : List (List Char)} (hx : ∀ x ∈ xs, Closed x) : Closed (commas xs) := by
  induction xs with
  | nil => rfl
  | cons x xs ih =>
    have hfirst := hx x List.mem_cons_self
    cases xs with
    | nil => exact hfirst
    | cons y xs =>
      have hcomma : Closed ", ".toList := by decide
      exact hfirst.append (hcomma.append (ih fun z hz => hx z (List.mem_cons_of_mem x hz)))

/-- **The parts of a list**: the texts, with what stands in front of them. -/
theorem splitTopLevelCommas_commas {d x : List Char} {xs : List (List Char)}
    (hd : ∀ c ∈ d, c ≠ '\'' ∧ c ≠ '"' ∧ c ≠ '(' ∧ c ≠ ')' ∧ c ≠ ',')
    (hx : ∀ y ∈ x :: xs, Listed y) :
    splitTopLevelCommas (d ++ commas (x :: xs)) = (d ++ x) :: xs.map fun y => ' ' :: y := by
  have hpart : ∀ y ∈ x :: xs, Part y := fun y hy => ⟨(hx y hy).closed, (hx y hy).comma⟩
  rw [splitTopLevelCommas_prepend hd, splitTopLevelCommas_listed hpart]
  rfl

end Commas

namespace FullJoin

/-- The key: the first column behind the alias of the left table in the join condition. -/
def antiColumn (q : FullJoin) : Option (Option (List Char)) :=
  fullOuterAntiColumn q.on (trailingAlias q.left)

/-- Each keyword of the query is found where it stands, and its lists are cut where their texts
end. -/
structure Readable (q : FullJoin) : Prop where
  items : ∀ x ∈ q.items.map SelectedItem.text, Listed x
  select : ∀ kw ∈ ["FROM".toList, "FULL".toList], Clear kw (commas (q.items.map SelectedItem.text))
  left : Trimmed q.left ∧ Clear "FULL".toList q.left
  alias_ : (∀ c ∈ trailingAlias q.left, isWordChar c = true) ∨
    (trailingAlias q.left).head? = some '"'
  right : Trimmed q.right ∧ ∀ kw ∈ ["ON".toList, "FULL".toList], Clear kw q.right
  on : Trimmed q.on ∧ ∀ kw ∈ "FULL".toList :: joinStops, Clear kw q.on
  where_ : ∀ w ∈ q.where_, Trimmed w ∧ ∀ kw ∈ ["ORDER".toList, "FULL".toList], Clear kw w
  group : ∀ g ∈ q.group, Trimmed g ∧ ∀ kw ∈ ["ORDER".toList, "FULL".toList], Clear kw g
  keys : ∀ x ∈ q.order.map SortKey.text, Listed x

variable {q : FullJoin}

/-- What stands between `FULL` and the right table. -/
def outerWords (q : FullJoin) : List Char :=
  if q.outer then " OUTER JOIN".toList else " JOIN".toList

/-- What stands in front of `FULL`. -/
def front (q : FullJoin) : List Char :=
  "SELECT".toList ++ ' ' :: (q.selectText ++ ' ' :: ("FROM".toList ++ ' ' :: q.left))

/-- What stands behind `JOIN`. -/
def behind (q : FullJoin) : List Char :=
  q.right ++ ' ' :: ("ON".toList ++ ' ' :: (q.on ++ q.tailText))

/-- The text, cut at its keywords. -/
lemma text_eq (q : FullJoin) :
    q.text = q.front ++ ' ' :: ("FULL".toList ++ (q.outerWords ++ ' ' :: q.behind)) := by
  have hselect : "SELECT ".toList = "SELECT".toList ++ [' '] := by decide
  have hfrom : " FROM ".toList = ' ' :: ("FROM".toList ++ [' ']) := by decide
  have hon : " ON ".toList = ' ' :: ("ON".toList ++ [' ']) := by decide
  have hjoin : q.joinWords = "FULL".toList ++ (q.outerWords ++ [' ']) := by
    rw [joinWords, outerWords]
    cases q.outer <;> decide
  unfold text front behind
  rw [hselect, hfrom, hon, hjoin]
  generalize "SELECT".toList = select
  generalize "FROM".toList = from_
  generalize "ON".toList = on_
  generalize "FULL".toList = full
  simp only [List.append_assoc, List.cons_append, List.nil_append]

section Front

/-- The words in front of the select list. -/
def distinctWord (q : FullJoin) : List Char := if q.distinct then "DISTINCT ".toList else []

lemma items_ne (q : FullJoin) : q.items.map SelectedItem.text ≠ [] := by
  simpa using q.nonempty

lemma selectText_trimmed (h : q.Readable) : Trimmed q.selectText := by
  obtain ⟨hne, hhead, hlast⟩ := commas_trimmed q.items_ne fun x hx => (h.items x hx).trimmed
  rw [selectText]
  cases q.distinct with
  | false => exact ⟨hne, hhead, hlast⟩
  | true =>
    refine ⟨by simp, rfl, ?_⟩
    simp only [if_true, List.getLast_append_of_right_ne_nil _ _ hne]
    exact hlast

lemma selectText_clear (h : q.Readable) {kw : List Char}
    (hkw : kw ∈ ["FROM".toList, "FULL".toList]) : Clear kw q.selectText := by
  have hspace : ∀ c ∈ kw, isAsciiSpace c = false := by
    revert kw
    decide
  have hword : Clear kw "DISTINCT".toList := by
    revert kw
    decide
  rw [selectText]
  cases q.distinct with
  | false => exact h.select kw hkw
  | true =>
    have hdistinct : "DISTINCT ".toList = "DISTINCT".toList ++ [' '] := by decide
    rw [if_pos rfl, hdistinct, List.append_assoc]
    exact hword.append hspace (h.select kw hkw)

lemma front_clear (h : q.Readable) : Clear "FULL".toList q.front := by
  have hselect : Clear "FULL".toList "SELECT".toList := by decide
  have hfrom : Clear "FULL".toList "FROM".toList := by decide
  have hsel : Clear "FULL".toList q.selectText := selectText_clear h (by simp)
  exact hselect.append (by decide) (hsel.append (by decide) (hfrom.append (by decide) h.left.2))

/-- A text that starts with a trimmed one starts with no white space. -/
lemma front_eq (q : FullJoin) :
    q.front = ("SELECT".toList ++ ' ' :: (q.selectText ++ ' ' :: ("FROM".toList ++ [' ']))) ++
      q.left := by
  unfold front
  generalize "SELECT".toList = select
  generalize "FROM".toList = from_
  simp only [List.append_assoc, List.cons_append, List.nil_append]

lemma front_trimmed (h : q.Readable) : Trimmed q.front := by
  obtain ⟨hne, -, hlast⟩ := h.left.1
  refine ⟨?_, rfl, ?_⟩
  · rw [front_eq]
    exact List.append_ne_nil_of_right_ne_nil _ hne
  · simp only [front_eq, List.getLast_append_of_right_ne_nil _ _ hne]
    exact hlast

end Front

/-! ### One round on the text of a query -/

/-- The words of the join are found. -/
lemma found (h : q.Readable) :
    findFullOuterJoinKw q.text = some (some (q.front ++ [' '], ' ' :: q.behind)) := by
  have hfirst : ∀ c ∈ "FULL".toList.head?, c ≠ '\'' ∧ c ≠ '"' ∧ c ≠ '(' ∧ c ≠ ')' := by
    rw [show "FULL".toList.head? = some 'F' from rfl]
    rintro _ ⟨⟩
    decide
  have houter : atBoundary (q.outerWords ++ ' ' :: q.behind) = true := by
    rw [outerWords]
    cases q.outer <;> rfl
  have hfind : findTopLevelKw q.text "FULL".toList = some (q.front.length + 1) := by
    rw [text_eq]
    exact Clear.find (by decide) hfirst (by decide) (by decide) (front_clear h) houter
  have hcut : q.text = (q.front ++ [' ']) ++ ("FULL".toList ++ (q.outerWords ++ ' ' :: q.behind)) := by
    rw [text_eq, List.append_assoc]
    rfl
  have hlen : q.front.length + 1 = (q.front ++ [' ']).length := by
    rw [List.length_append]
    rfl
  have hdrop : q.text.drop (q.front.length + 1 + 4) = q.outerWords ++ ' ' :: q.behind := by
    rw [hlen, hcut, ← List.drop_drop, List.drop_left]
    rfl
  have htake : q.text.take (q.front.length + 1) = q.front ++ [' '] := by
    rw [hlen, hcut, List.take_left]
  have hjoin : withoutOuter (q.outerWords ++ ' ' :: q.behind) = "JOIN".toList ++ ' ' :: q.behind := by
    rw [outerWords]
    cases q.outer <;> rfl
  have hbehind : behindJoin ("JOIN".toList ++ ' ' :: q.behind) = some (some (' ' :: q.behind)) := by
    have hlong : ¬ byteLen ("JOIN".toList ++ ' ' :: q.behind) < 4 := by
      rw [byteLen_append, show byteLen "JOIN".toList = 4 from rfl]
      omega
    rw [behindJoin, if_neg hlong, show 4 = byteLen "JOIN".toList from rfl, splitAtByte_append]
    rfl
  rw [findFullOuterJoinKw, findFullOuterJoinFuel, hfind]
  simp only [hdrop, htake, hjoin, hbehind, Option.bind_some, List.nil_append]

/-- The select list and the left table. -/
lemma select_found (h : q.Readable) :
    findTopLevelKw (q.front.drop 7) "FROM".toList = some (q.selectText.length + 1) ∧
    trim ((q.front.drop 7).take (q.selectText.length + 1)) = q.selectText ∧
    trim ((q.front.drop 7).drop (q.selectText.length + 1 + 4)) = q.left := by
  have hnil : Gap [] := fun _ h => absurd h List.not_mem_nil
  have hblank : Gap [' '] := by decide
  have hdrop : q.front.drop 7 = q.selectText ++ ' ' :: ("FROM".toList ++ ' ' :: q.left) := rfl
  have hcut : q.selectText ++ ' ' :: ("FROM".toList ++ ' ' :: q.left) =
      (q.selectText ++ [' ']) ++ ("FROM".toList ++ ' ' :: q.left) := by
    rw [List.append_assoc]
    rfl
  have hlen : q.selectText.length + 1 = (q.selectText ++ [' ']).length := by
    rw [List.length_append]
    rfl
  have hfirst : ∀ c ∈ "FROM".toList.head?, c ≠ '\'' ∧ c ≠ '"' ∧ c ≠ '(' ∧ c ≠ ')' := by
    rw [show "FROM".toList.head? = some 'F' from rfl]
    rintro _ ⟨⟩
    decide
  rw [hdrop]
  refine ⟨Clear.find (by decide) hfirst (by decide) (by decide) (selectText_clear h (by simp)) rfl,
    ?_, ?_⟩
  · rw [hlen, hcut, List.take_left]
    exact trim_gaps hnil hblank (selectText_trimmed h)
  · have htrim := trim_gaps (g := [' ']) (by decide) hnil h.left.1
    rw [List.append_nil] at htrim
    rw [hlen, hcut, ← List.drop_drop, List.drop_left]
    exact htrim

/-- The right table. -/
lemma on_found (h : q.Readable) :
    findTopLevelKw q.behind "ON".toList = some (q.right.length + 1) ∧
    trim (q.behind.take (q.right.length + 1)) = q.right ∧
    trimStart (q.behind.drop (q.right.length + 1 + 2)) = q.on ++ q.tailText := by
  have hnil : Gap [] := fun _ h => absurd h List.not_mem_nil
  have hblank : Gap [' '] := by decide
  have hcut : q.behind = (q.right ++ [' ']) ++ ("ON".toList ++ ' ' :: (q.on ++ q.tailText)) := by
    rw [behind, List.append_assoc]
    rfl
  have hlen : q.right.length + 1 = (q.right ++ [' ']).length := by
    rw [List.length_append]
    rfl
  have hfirst : ∀ c ∈ "ON".toList.head?, c ≠ '\'' ∧ c ≠ '"' ∧ c ≠ '(' ∧ c ≠ ')' := by
    rw [show "ON".toList.head? = some 'O' from rfl]
    rintro _ ⟨⟩
    decide
  refine ⟨Clear.find (by decide) hfirst (by decide) (by decide) (h.right.2 _ (by simp)) rfl, ?_, ?_⟩
  · rw [hlen, hcut, List.take_left]
    exact trim_gaps hnil hblank h.right.1
  · rw [hlen, hcut, ← List.drop_drop, List.drop_left]
    have hblank : trimStart ([' '] ++ (q.on ++ q.tailText)) = trimStart (q.on ++ q.tailText) :=
      trimStart_gap (by decide) _
    exact hblank.trans (trimStart_of_trimmed h.on.1 q.tailText)

/-! ### The clauses -/

/-- The search for the first keyword that ends a condition. -/
lemma foldl_min {s : List Char} {kws : List (List Char)} {n b : ℕ}
    (hle : ∀ kw ∈ kws, ∀ at_ ∈ findTopLevelKw s kw, n ≤ at_) (hb : n ≤ b)
    (hmin : b = n ∨ ∃ kw ∈ kws, findTopLevelKw s kw = some n) :
    kws.foldl (fun best kw => (findTopLevelKw s kw).elim best fun at_ => min best at_) b = n := by
  induction kws generalizing b with
  | nil =>
    rcases hmin with h | ⟨kw, hkw, -⟩
    · exact h
    · cases hkw
  | cons kw kws ih =>
    have hfirst := hle kw List.mem_cons_self
    rw [List.foldl_cons]
    refine ih (fun kw' hkw' => hle kw' (List.mem_cons_of_mem kw hkw')) ?_ ?_
    · cases hfind : findTopLevelKw s kw with
      | none => exact hb
      | some at_ => exact le_min hb (hfirst at_ hfind)
    · rcases hmin with rfl | ⟨kw', hkw', hfind⟩
      · left
        cases hfind : findTopLevelKw s kw with
        | none => rfl
        | some at_ => exact min_eq_left (hfirst at_ hfind)
      · rcases List.mem_cons.1 hkw' with rfl | hkw'
        · left
          rw [hfind]
          exact min_eq_right hb
        · exact .inr ⟨kw', hkw', hfind⟩

/-- The condition ends in front of the first clause. -/
lemma splitJoinOnCondition_append {on kw y : List Char} (hon : ∀ kw ∈ joinStops, Clear kw on)
    (hkw : kw ∈ joinStops) : splitJoinOnCondition (on ++ ' ' :: (kw ++ ' ' :: y)) =
      (on ++ [' '], kw ++ ' ' :: y) := by
  have hspace : ∀ kw ∈ joinStops, ∀ c ∈ kw, isAsciiSpace c = false := by decide
  have hup : ∀ kw ∈ joinStops, upper kw = kw ∧ kw ≠ [] ∧ (kw.head?.any fun c => decide
      (c ≠ '\'' ∧ c ≠ '"' ∧ c ≠ '(' ∧ c ≠ ')')) = true := by decide
  obtain ⟨hupper, hne, hhead⟩ := hup kw hkw
  have hfirst : ∀ c ∈ kw.head?, c ≠ '\'' ∧ c ≠ '"' ∧ c ≠ '(' ∧ c ≠ ')' := by
    intro c hc
    rw [show kw.head? = some c from hc] at hhead
    exact of_decide_eq_true hhead
  have hlen : on.length + 1 = (on ++ [' ']).length := by
    rw [List.length_append]
    rfl
  have hcut : on ++ ' ' :: (kw ++ ' ' :: y) = (on ++ [' ']) ++ (kw ++ ' ' :: y) := by
    rw [List.append_assoc]
    rfl
  have hbest : joinStops.foldl (fun best kw' =>
      (findTopLevelKw (on ++ ' ' :: (kw ++ ' ' :: y)) kw').elim best fun at_ => min best at_)
      (on ++ ' ' :: (kw ++ ' ' :: y)).length = on.length + 1 := by
    refine foldl_min (fun kw' hkw' at_ hat => ?_) ?_ (.inr ⟨kw, hkw, ?_⟩)
    · rw [findTopLevelKw, (hon kw' hkw').findKwFrom_pass (hspace kw' hkw')] at hat
      obtain ⟨m, -, rfl⟩ := Option.map_eq_some_iff.1 hat
      exact Nat.le_add_left _ m
    · simp only [List.length_append, List.length_cons]
      omega
    · exact Clear.find (hspace kw hkw) hfirst hupper hne (hon kw hkw) rfl
  simp only [splitJoinOnCondition, hbest, hlen]
  rw [hcut, List.take_left, List.drop_left]

/-- A condition without clauses behind it. -/
lemma splitJoinOnCondition_self {on : List Char} (hon : ∀ kw ∈ joinStops, Clear kw on) :
    splitJoinOnCondition on = (on, []) := by
  have hbest : joinStops.foldl (fun best kw =>
      (findTopLevelKw on kw).elim best fun at_ => min best at_) on.length = on.length := by
    refine foldl_min (fun kw hkw at_ hat => ?_) le_rfl (.inl rfl)
    rw [(hon kw hkw).find_none] at hat
    cases hat
  simp only [splitJoinOnCondition, hbest, List.take_length, List.drop_length]

/-- A text between two trimmed ones does not matter. -/
lemma trimmed_around {x y : List Char} (hx : Trimmed x) (m : List Char) (hy : Trimmed y) :
    Trimmed (x ++ (m ++ y)) := by
  obtain ⟨hxne, hhead, -⟩ := hx
  obtain ⟨hyne, -, hlast⟩ := hy
  refine ⟨by simp [hxne], ?_, ?_⟩
  · rw [List.head_append_of_ne_nil hxne]
    exact hhead
  · rw [List.getLast_append_of_right_ne_nil _ _ (by simp [hyne]),
      List.getLast_append_of_right_ne_nil _ _ hyne]
    exact hlast

lemma trimmed_cons {c : Char} (hc : isSpace c = false) (m : List Char) {y : List Char}
    (hy : Trimmed y) : Trimmed (c :: (m ++ y)) :=
  trimmed_around (x := [c]) ⟨by simp, hc, hc⟩ m hy

lemma trimStart_blank {s : List Char} (h : Trimmed s) (t : List Char) :
    trimStart (' ' :: (s ++ t)) = s ++ t := by
  have hblank : trimStart ([' '] ++ (s ++ t)) = trimStart (s ++ t) := trimStart_gap (by decide) _
  exact hblank.trans (trimStart_of_trimmed h t)

/-- The condition as it is cut out: the grouping goes with it. -/
def conditionText (q : FullJoin) : List Char :=
  q.where_.elim [] fun w => w ++ q.group.elim [] fun g => " GROUP BY ".toList ++ g

/-- The sort keys as they are cut out. -/
def orderText (q : FullJoin) : List Char := commas (q.keptOrder.map SortKey.text)

lemma conditionText_clear (h : q.Readable) {w : List Char} (hw : q.where_ = some w)
    {kw : List Char} (hkw : kw ∈ ["ORDER".toList, "FULL".toList]) :
    Trimmed q.conditionText ∧ Clear kw q.conditionText := by
  have hspace : ∀ c ∈ kw, isAsciiSpace c = false := by
    revert kw
    decide
  have hgroup : Clear kw "GROUP BY".toList := by
    revert kw
    decide
  obtain ⟨htrim, hclear⟩ := h.where_ w hw
  rw [conditionText, hw, Option.elim_some]
  cases hg : q.group with
  | none =>
    rw [Option.elim_none, List.append_nil]
    exact ⟨htrim, hclear kw hkw⟩
  | some g =>
    obtain ⟨hgtrim, hgclear⟩ := h.group g hg
    have hwords : " GROUP BY ".toList ++ g = ' ' :: ("GROUP BY".toList ++ ' ' :: g) := rfl
    refine ⟨trimmed_around htrim _ hgtrim, ?_⟩
    rw [Option.elim_some, hwords]
    exact (hclear kw hkw).append hspace (hgroup.append hspace (hgclear kw hkw))

lemma orderText_trimmed (h : q.Readable) (ho : q.order ≠ []) :
    Trimmed (commas (q.order.map SortKey.text)) :=
  commas_trimmed (by simpa using ho) fun x hx => (h.keys x hx).trimmed

/-- Two words and what stands behind them. -/
lemma stripKw_orderBy {o : List Char} (ho : Trimmed o) :
    stripKw ("ORDER BY ".toList ++ o) ["ORDER".toList, "BY".toList] = some o := by
  have hblank := trimStart_blank ho []
  rw [List.append_nil] at hblank
  have hwords : stripWords ["ORDER".toList, "BY".toList] true
      (trimStart ("ORDER BY ".toList ++ o)) = some (' ' :: o) := rfl
  rw [stripKw, hwords, Option.bind_some, hblank]
  rfl

lemma stripKw_where {w : List Char} (hw : Trimmed w) (t : List Char) :
    stripKw ("WHERE ".toList ++ (w ++ t)) ["WHERE".toList] = some (w ++ t) := by
  have hwords : stripWords ["WHERE".toList] true
      (trimStart ("WHERE ".toList ++ (w ++ t))) = some (' ' :: (w ++ t)) := rfl
  rw [stripKw, hwords, Option.bind_some, trimStart_blank hw]
  rfl

/-- `ORDER BY` is found behind the condition. -/
lemma find_orderBy {w o : List Char} (hw : Clear "ORDER".toList w) :
    findTopLevelKw (w ++ (" ORDER BY ".toList ++ o)) "ORDER BY".toList = some (w.length + 1) := by
  have hfirst : ∀ c ∈ "ORDER".toList.head?, c ≠ '\'' ∧ c ≠ '"' ∧ c ≠ '(' ∧ c ≠ ')' := by
    rw [show "ORDER".toList.head? = some 'O' from rfl]
    rintro _ ⟨⟩
    decide
  have htext : w ++ (" ORDER BY ".toList ++ o) = w ++ ' ' :: ("ORDER".toList ++ (" BY ".toList ++ o)) :=
    rfl
  have hfind : findTopLevelKw (w ++ ' ' :: ("ORDER".toList ++ (" BY ".toList ++ o))) "ORDER".toList =
      some (w.length + 1) := Clear.find (by decide) hfirst (by decide) (by decide) hw rfl
  have hdrop : (w ++ ' ' :: ("ORDER".toList ++ (" BY ".toList ++ o))).drop (w.length + 1) =
      "ORDER".toList ++ (" BY ".toList ++ o) := by
    rw [← List.drop_drop, List.drop_left]
    rfl
  rw [htext, show "ORDER BY".toList = "ORDER".toList ++ ' ' :: "BY".toList from rfl]
  refine findKwFrom_longer hfind ?_ ?_
  · rw [hdrop]
    rfl
  · rw [hdrop]
    rfl

/-- **The condition and the sort keys are cut out.** -/
theorem splitWhereOrder_tail (h : q.Readable) :
    splitWhereOrder (trim (q.tailText.drop 1)) = (q.conditionText, q.orderText) := by
  cases hw : q.where_ with
  | some w =>
    obtain ⟨htrim, hclear⟩ := conditionText_clear h hw
      (show "ORDER".toList ∈ ["ORDER".toList, "FULL".toList] by simp)
    have hkept : q.keptOrder = q.order := by
      rw [keptOrder, hw, if_neg]
      rintro ⟨h, -⟩
      cases h
    obtain ⟨orderBy, horder⟩ : ∃ t : List Char,
        t = if q.order = [] then [] else " ORDER BY ".toList ++ commas (q.order.map SortKey.text) :=
      ⟨_, rfl⟩
    have htail : q.tailText.drop 1 = "WHERE ".toList ++ (q.conditionText ++ orderBy) := by
      rw [tailText, conditionText, hw, horder]
      simp only [Option.elim_some, List.append_assoc]
      rfl
    have htrimmed : Trimmed (q.conditionText ++ orderBy) := by
      rw [horder]
      split_ifs with ho
      · rw [List.append_nil]
        exact htrim
      · exact trimmed_around htrim _ (orderText_trimmed h ho)
    have hall : Trimmed ("WHERE ".toList ++ (q.conditionText ++ orderBy)) :=
      trimmed_cons (c := 'W') rfl "HERE ".toList htrimmed
    rw [htail, trim_of_trimmed hall, splitWhereOrder, trim_of_trimmed hall]
    simp only [stripKw_where htrim]
    rw [orderText, hkept, horder]
    split_ifs with ho
    · have hnone : findTopLevelKw q.conditionText "ORDER BY".toList = none :=
        findKwFrom_longer_none hclear.find_none
      rw [List.append_nil, hnone, ho]
      rfl
    · have hcut : q.conditionText ++ (" ORDER BY ".toList ++ commas (q.order.map SortKey.text)) =
          (q.conditionText ++ [' ']) ++ ("ORDER BY ".toList ++ commas (q.order.map SortKey.text)) := by
        rw [List.append_assoc]
        rfl
      have hlen : q.conditionText.length + 1 = (q.conditionText ++ [' ']).length := by
        rw [List.length_append]
        rfl
      have hnil : Gap [] := fun _ h => absurd h List.not_mem_nil
      have hblank : Gap [' '] := by decide
      have htake : trim ((q.conditionText ++ [' ']) ) = q.conditionText :=
        trim_gaps hnil hblank htrim
      have horderTrim : trim (' ' :: commas (q.order.map SortKey.text)) =
          commas (q.order.map SortKey.text) := by
        have htrim := trim_gaps (g := [' ']) (by decide) hnil (orderText_trimmed h ho)
        rw [List.append_nil] at htrim
        exact htrim
      rw [find_orderBy hclear]
      simp only [hlen]
      rw [hcut, List.take_left, ← List.drop_drop, List.drop_left, htake]
      exact congrArg _ horderTrim
  | none =>
    have hcond : q.conditionText = [] := by
      rw [conditionText, hw]
      rfl
    rw [hcond, orderText, keptOrder, hw, tailText, hw, Option.elim_none, List.nil_append]
    cases hg : q.group with
    | some g =>
      -- neither word is found in front of a grouping
      obtain ⟨htrim, -⟩ := h.group g hg
      obtain ⟨t, ht⟩ : ∃ t : List Char,
          t = if q.order = [] then [] else " ORDER BY ".toList ++ commas (q.order.map SortKey.text) :=
        ⟨_, rfl⟩
      have hbehind : Trimmed (g ++ t) := by
        rw [ht]
        split_ifs with ho
        · rw [List.append_nil]
          exact htrim
        · exact trimmed_around htrim _ (orderText_trimmed h ho)
      have hall : Trimmed ("GROUP BY ".toList ++ (g ++ t)) :=
        trimmed_cons (c := 'G') rfl "ROUP BY ".toList hbehind
      have htail : ((" GROUP BY ".toList ++ g) ++ t).drop 1 = "GROUP BY ".toList ++ (g ++ t) := by
        rw [List.append_assoc]
        rfl
      have hwhere : stripKw ("GROUP BY ".toList ++ (g ++ t)) ["WHERE".toList] = none := rfl
      have horder : stripKw ("GROUP BY ".toList ++ (g ++ t)) ["ORDER".toList, "BY".toList] = none :=
        rfl
      have hdropped : (none : Option (List Char)) = none ∧ some g ≠ none := ⟨rfl, by simp⟩
      rw [Option.elim_some, ← ht, htail, trim_of_trimmed hall, splitWhereOrder,
        trim_of_trimmed hall, if_pos hdropped]
      simp only [hwhere, horder]
      rfl
    | none =>
      have hkept : ¬ ((none : Option (List Char)) = none ∧ (none : Option (List Char)) ≠ none) :=
        fun h => h.2 rfl
      rw [Option.elim_none, List.nil_append, if_neg hkept]
      split_ifs with ho
      · rw [ho]
        rfl
      · have htrim := orderText_trimmed h ho
        have hall : Trimmed ("ORDER BY ".toList ++ commas (q.order.map SortKey.text)) :=
          trimmed_cons (c := 'O') rfl "RDER BY ".toList htrim
        have htail : (" ORDER BY ".toList ++ commas (q.order.map SortKey.text)).drop 1 =
            "ORDER BY ".toList ++ commas (q.order.map SortKey.text) := rfl
        have hwhere : stripKw ("ORDER BY ".toList ++ commas (q.order.map SortKey.text))
            ["WHERE".toList] = none := rfl
        rw [htail, trim_of_trimmed hall, splitWhereOrder, trim_of_trimmed hall]
        simp only [hwhere, stripKw_orderBy htrim]

end FullJoin

end DbSaci
