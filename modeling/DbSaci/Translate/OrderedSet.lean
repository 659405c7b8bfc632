import DbSaci.Library.Barrier
import DbSaci.Translate.LagDefault

set_option relaxedAutoImplicit false
set_option autoImplicit false

/-!
# Ordered-set aggregates

MariaDB has `MEDIAN` and the percentiles as window functions only. The pass gives the first call of a
statement a window over all rows, and lets the statement give one row if the projection starts with
that call.

## Main definitions

* `rewriteOrderedSetAggregate` — the pass.
* `SetQuery` — a query with such calls.
* `SetQuery.Limited` — the statement gives one row.

## Main results

* `rewriteOrderedSetAggregate_text` — the text that is put.
-/

namespace DbSaci.Translate.OrderedSet

open Text Lag

/-! ### The pass -/

/-- The functions for which the pass runs. -/
inductive SetFunction where
  | median
  | percentileCont
  | percentileDisc

/-- The name of the function. -/
def SetFunction.name : SetFunction → List Char
  | .median => "MEDIAN".toList
  | .percentileCont => "PERCENTILE_CONT".toList
  | .percentileDisc => "PERCENTILE_DISC".toList

/-- The place behind `WITHIN GROUP (..)`, if it stands at a place. -/
def scanWithin (sql : List Char) (scan : ℕ) : ℕ :=
  match behindWord "WITHIN GROUP".toList "within group".toList (trimStart (sql.drop scan)) with
  | none => scan
  | some r =>
    let r := trimStart r
    if r.head? = some '(' then
      match matchingParen r with
      | some c => scan + ((sql.drop scan).length - r.length) + c + 1
      | none => scan
    else scan

/-- The projection starts with a call of the function. -/
def SingleProjection (name ou : List Char) : Prop :=
  ∃ i ∈ find "SELECT ".toList ou, name ++ ['('] <+: trimStart (ou.drop (i + "SELECT ".toList.length))

instance (name ou : List Char) : Decidable (SingleProjection name ou) := by
  unfold SingleProjection
  infer_instance

/-- The statement is to give one row. -/
def OneRow (name ou : List Char) : Prop :=
  SingleProjection name ou ∧ ¬ "GROUP BY".toList <:+: ou ∧ ¬ " LIMIT ".toList <:+: ou

instance (name ou : List Char) : Decidable (OneRow name ou) := by
  unfold OneRow
  infer_instance

/-- `rewrite_ordered_set_aggregate`. -/
def rewriteOrderedSetAggregate (f : SetFunction) (sql : List Char) : List Char :=
  match findCall f.name sql with
  | none => sql
  | some (start, closeRel) =>
    let scan := scanWithin sql (start + f.name.length + closeRel + 1)
    if startsWith "OVER".toList (trimStart (sql.drop scan)) = true then sql
    else
      let out := sql.take scan ++ (" OVER ()".toList ++ sql.drop scan)
      if OneRow f.name (upper out) then out ++ " LIMIT 1".toList else out

/-! ### Queries -/

/-- `WITHIN GROUP (ORDER BY ..)`. -/
structure Within where
  gap : List Char
  within : List Char
  blanks : List Char
  group : List Char
  gap' : List Char
  order : List Char
  isGap : Gap gap
  isWithin : upper within = "WITHIN".toList
  isBlanks : Gap blanks
  hasBlank : blanks ≠ []
  isGroup : upper group = "GROUP".toList
  isGap' : Gap gap'
  isOrder : Closed order

/-- The two words of it. -/
def Within.words (w : Within) : List Char := w.within ++ (w.blanks ++ w.group)

/-- The text of it. -/
def Within.text (w : Within) : List Char :=
  w.gap ++ (w.words ++ (w.gap' ++ '(' :: (w.order ++ [')'])))

/-- The words are written in one case, with one blank. -/
def Within.Plain (w : Within) : Prop :=
  w.words = "WITHIN GROUP".toList ∨ w.words = "within group".toList

instance (w : Within) : Decidable w.Plain := by
  unfold Within.Plain
  infer_instance

/-- A call of the function. -/
structure SetCall (f : SetFunction) where
  spelled : List Char
  args : List Char
  within : Option Within
  isSpelled : upper spelled = f.name
  isArgs : Closed args

namespace SetCall

variable {f : SetFunction} (c : SetCall f)

/-- What stands behind the arguments. -/
def withinText : List Char := c.within.elim [] Within.text

/-- The text of the call. -/
def text : List Char := c.spelled ++ '(' :: (c.args ++ ')' :: c.withinText)

/-- The pass reads all of the call. -/
def Plain : Prop := ∀ w ∈ c.within, w.Plain

instance : Decidable c.Plain := by
  unfold Plain
  infer_instance

end SetCall

/-- The grouping of a query. -/
structure GroupBy where
  group : List Char
  blanks : List Char
  by_ : List Char
  keys : List Char
  isGroup : upper group = "GROUP".toList
  isBlanks : Gap blanks
  hasBlank : blanks ≠ []
  isBy : upper by_ = "BY".toList

/-- The text of it. -/
def GroupBy.text (g : GroupBy) : List Char :=
  ' ' :: (g.group ++ (g.blanks ++ (g.by_ ++ ' ' :: g.keys)))

/-- What stands behind the first call of a query: the rest of the projection with its calls, what
stands between the projection and the grouping, and the grouping. -/
def restText {f : SetFunction} (behind : List Char) (more : List (SetCall f × List Char))
    (source : List Char) (groupBy : Option GroupBy) : List Char :=
  behind ++ (joined SetCall.text more ++ (source ++ groupBy.elim [] GroupBy.text))

/-- A query with calls of the function: what stands in the projection in front of the first call and
behind each of them, what stands between the projection and the grouping, and the grouping. -/
structure SetQuery (f : SetFunction) where
  select : List Char
  lead : List Char
  call : SetCall f
  behind : List Char
  more : List (SetCall f × List Char)
  source : List Char
  groupBy : Option GroupBy
  isSelect : upper select = "SELECT".toList
  isLead : Without (f.name ++ ['(']) (select ++ lead)
  isCall : call.within = none →
    ¬ startsWith "WITHIN".toList (trimStart (restText behind more source groupBy)) = true

namespace SetQuery

variable {f : SetFunction} (q : SetQuery f)

/-- What stands behind the first call. -/
def rest : List Char := restText q.behind q.more q.source q.groupBy

/-- The text of the query. -/
def text : List Char := (q.select ++ q.lead) ++ (q.call.text ++ q.rest)

/-- The statement is to give one row. -/
def Limited : Prop := OneRow f.name (upper q.text)

instance : Decidable q.Limited := by
  unfold Limited
  infer_instance

/-- The first call seems to have a window. -/
def SeemsWindowed : Prop := q.call.Plain ∧ startsWith "OVER".toList (trimStart q.rest) = true

instance : Decidable q.SeemsWindowed := by
  unfold SeemsWindowed
  infer_instance

end SetQuery

/-- What stands in the place of a call: the call, the call with a window, or the call with a window
in front of `WITHIN GROUP`. -/
inductive Target (f : SetFunction) where
  | call (c : SetCall f)
  | windowed (c : SetCall f)
  | misplaced (c : SetCall f)

/-- The text of it. -/
def Target.text {f : SetFunction} : Target f → List Char
  | .call c => c.text
  | .windowed c => c.text ++ " OVER ()".toList
  | .misplaced c => c.spelled ++ '(' :: (c.args ++ ')' :: (" OVER ()".toList ++ c.withinText))

/-- What is put for the first call. -/
def SetQuery.lowerCall {f : SetFunction} (q : SetQuery f) : Target f :=
  if q.SeemsWindowed then .call q.call
  else if q.call.Plain then .windowed q.call
  else .misplaced q.call

/-- The statement gives one row. -/
def SetQuery.CutToOne {f : SetFunction} (q : SetQuery f) : Prop := ¬ q.SeemsWindowed ∧ q.Limited

instance {f : SetFunction} (q : SetQuery f) : Decidable q.CutToOne := by
  unfold SetQuery.CutToOne
  infer_instance

/-- The text that is put. -/
def SetQuery.lowered {f : SetFunction} (q : SetQuery f) : List Char :=
  (q.select ++ q.lead) ++ (q.lowerCall.text ++ (q.rest ++
    if q.CutToOne then " LIMIT 1".toList else []))

/-! ### Where the statement is cut to one row -/

lemma one_row_insert {name : List Char} (hname : ')' ∉ name) (a b : List Char) :
    OneRow name (a ++ ')' :: (" OVER ()".toList ++ b)) ↔ OneRow name (a ++ ')' :: b) := by
  have htext : " OVER ()".toList ++ b = " OVER (".toList ++ ')' :: b := rfl
  have hcall : ')' ∉ name ++ ['('] := by
    rw [List.mem_append, not_or]
    exact ⟨hname, by decide⟩
  have hinfix : ∀ p : List Char, ')' ∉ p → p ≠ [] → ¬ p <:+: " OVER (".toList →
      (p <:+: a ++ ')' :: (" OVER ()".toList ++ b) ↔ p <:+: a ++ ')' :: b) := by
    intro p hp hne hover
    rw [htext, infix_barrier hp hne, infix_barrier hp hne, infix_barrier hp hne, or_iff_right hover]
  have hproj : SingleProjection name (a ++ ')' :: (" OVER ()".toList ++ b)) ↔
      SingleProjection name (a ++ ')' :: b) := by
    have hp : ')' ∉ "SELECT ".toList := by decide
    have hne : "SELECT ".toList ≠ [] := by decide
    have hover : find "SELECT ".toList " OVER (".toList = none := by decide
    rw [SingleProjection, SingleProjection, htext, find_barrier hp hne, find_barrier hp hne,
      find_barrier hp hne, hover, Option.none_or]
    cases hfind : find "SELECT ".toList a with
    | some i =>
      -- the projection starts in front of the barrier
      have hle : i + "SELECT ".toList.length ≤ a.length := by
        have h := (find_eq_some_iff a [] i).1 hfind
        exact h.2
      have hdrop : ∀ y, (a ++ ')' :: y).drop (i + "SELECT ".toList.length) =
          a.drop (i + "SELECT ".toList.length) ++ ')' :: y := fun y =>
        List.drop_append_of_le_length hle
      have hspace : isSpace ')' = false := rfl
      simp only [Option.some_or, Option.mem_some_iff, exists_eq_left', hdrop,
        trimStart_barrier hspace, prefix_barrier hcall]
    | none =>
      cases find "SELECT ".toList b with
      | none => simp
      | some j =>
        have hleft : (a ++ ')' :: (" OVER (".toList ++ ')' :: b)).drop
            (j + (" OVER (".toList.length + 1) + (a.length + 1) + "SELECT ".toList.length) =
              b.drop (j + "SELECT ".toList.length) := by
          have hsplit : a ++ ')' :: (" OVER (".toList ++ ')' :: b) =
              (a ++ ')' :: (" OVER (".toList ++ [')'])) ++ b := by simp
          have hlen : j + (" OVER (".toList.length + 1) + (a.length + 1) + "SELECT ".toList.length =
              (a ++ ')' :: (" OVER (".toList ++ [')'])).length + (j + "SELECT ".toList.length) := by
            simp only [List.length_append, List.length_cons, List.length_nil]
            omega
          rw [hsplit, hlen, List.drop_length_add_append]
        have hright : (a ++ ')' :: b).drop (j + (a.length + 1) + "SELECT ".toList.length) =
            b.drop (j + "SELECT ".toList.length) := by
          have hsplit : a ++ ')' :: b = (a ++ [')']) ++ b := by simp
          have hlen : j + (a.length + 1) + "SELECT ".toList.length =
              (a ++ [')']).length + (j + "SELECT ".toList.length) := by
            simp only [List.length_append, List.length_singleton]
            omega
          rw [hsplit, hlen, List.drop_length_add_append]
        simp only [Option.none_or, Option.map_some, Option.mem_some_iff, exists_eq_left', hleft,
          hright]
  rw [OneRow, OneRow, hproj, hinfix _ (by decide) (by decide) (by decide),
    hinfix _ (by decide) (by decide) (by decide)]

/-! ### The text that is put -/

namespace SetFunction

variable (f : SetFunction)

lemma open_not_mem_name : '(' ∉ f.name := by
  cases f <;> decide

lemma close_not_mem_name : ')' ∉ f.name := by
  cases f <;> decide

lemma upper_name : upper f.name = f.name := by
  cases f <;> decide

end SetFunction

/-- A word with a blank behind it and another word, in front of a text: the two words stand there. -/
lemma eq_words {v w : List Char} (hw : w ≠ []) (hspace : ∀ c ∈ w, isSpace c = false)
    {x blanks y s : List Char} (hx : x.length = v.length) (hy : y.length = w.length)
    (hyspace : ∀ c ∈ y, isSpace c = false) (hblanks : Gap blanks)
    (h : v ++ ' ' :: w <+: (x ++ (blanks ++ y)) ++ s) : x ++ (blanks ++ y) = v ++ ' ' :: w := by
  obtain ⟨t, ht⟩ := h
  simp only [List.append_assoc, List.cons_append] at ht
  obtain ⟨rfl, hrest⟩ := List.append_inj ht hx.symm
  cases blanks with
  | nil =>
    -- the second word would start with the blank
    obtain ⟨d, y, rfl⟩ : ∃ d y', y = d :: y' := by
      refine List.exists_cons_of_ne_nil ?_
      rintro rfl
      exact hw (List.length_eq_zero_iff.1 hy.symm)
    obtain ⟨rfl, -⟩ := List.cons.inj hrest
    have hbad := hyspace ' ' List.mem_cons_self
    cases hbad
  | cons b blanks =>
    obtain ⟨rfl, htail⟩ := List.cons.inj hrest
    cases blanks with
    | nil =>
      have htail : w ++ t = y ++ s := htail
      obtain ⟨rfl, -⟩ := List.append_inj htail hy.symm
      rfl
    | cons b' blanks =>
      obtain ⟨d, w, rfl⟩ := List.exists_cons_of_ne_nil hw
      obtain ⟨rfl, -⟩ := List.cons.inj htail
      have hgap := isSpace_of_isWhitespace (hblanks d (by simp))
      rw [hspace d List.mem_cons_self] at hgap
      cases hgap

/-- The words are read in the two ways only. -/
lemma behindWord_words (w : Within) (s : List Char) :
    behindWord "WITHIN GROUP".toList "within group".toList (w.words ++ s) =
      if w.Plain then some s else none := by
  by_cases hplain : w.Plain
  · rw [if_pos hplain]
    rcases hplain with h | h <;> rw [h]
    · exact behindWord_capital _ s
    · exact behindWord_small (by decide) s
  · have hwithin : w.within.length = 6 := by
      rw [← length_upper, w.isWithin]
      rfl
    have hgroup : w.group.length = 5 := by
      rw [← length_upper, w.isGroup]
      rfl
    have hspace := not_isSpace_of_upper (by decide) w.isGroup
    rw [if_neg hplain, behindWord, if_neg]
    rintro (h | h)
    · exact hplain (Or.inl (eq_words (v := "WITHIN".toList) (w := "GROUP".toList)
        (by decide) (by decide) hwithin hgroup hspace w.isBlanks h))
    · exact hplain (Or.inr (eq_words (v := "within".toList) (w := "group".toList)
        (by decide) (by decide) hwithin hgroup hspace w.isBlanks h))

lemma SetCall.text_closed {f : SetFunction} (c : SetCall f) : ∃ a, c.text = a ++ [')'] := by
  cases hwithin : c.within with
  | none => exact ⟨c.spelled ++ '(' :: c.args, by simp [SetCall.text, SetCall.withinText, hwithin]⟩
  | some w =>
    refine ⟨c.spelled ++ '(' :: (c.args ++ ')' :: (w.gap ++ (w.words ++ (w.gap' ++
      '(' :: w.order)))), ?_⟩
    simp [SetCall.text, SetCall.withinText, hwithin, Within.text]

lemma trimStart_within (w : Within) (s : List Char) :
    trimStart (w.text ++ s) = w.words ++ (w.gap' ++ '(' :: (w.order ++ ')' :: s)) := by
  have hwithin : Trimmed w.within := trimmed_of_upper (by decide) (by decide) w.isWithin
  simp only [Within.text, Within.words, List.append_assoc, List.cons_append, List.nil_append]
  rw [trimStart_gap w.isGap, trimStart_of_trimmed hwithin]

/-- What the pass scans behind the arguments. -/
lemma scanWithin_call {f : SetFunction} (q : SetQuery f) (front : List Char) :
    scanWithin (front ++ (q.call.withinText ++ q.rest)) front.length =
      if q.call.Plain then (front ++ q.call.withinText).length else front.length := by
  have hdrop : (front ++ (q.call.withinText ++ q.rest)).drop front.length =
      q.call.withinText ++ q.rest := List.drop_left
  rw [scanWithin, hdrop]
  cases hwithin : q.call.within with
  | none =>
    have hplain : q.call.Plain := by
      intro w hw
      rw [hwithin] at hw
      cases hw
    have htext : q.call.withinText = [] := by
      rw [SetCall.withinText, hwithin, Option.elim_none]
    have hnone : behindWord "WITHIN GROUP".toList "within group".toList (trimStart q.rest) =
        none := by
      have hstart : ∀ v, upper v = "WITHIN GROUP".toList → ¬ v <+: trimStart q.rest := by
        rintro v hv ⟨t, ht⟩
        apply q.isCall hwithin
        have hrest : trimStart (restText q.behind q.more q.source q.groupBy) = v ++ t := ht.symm
        rw [startsWith, hrest, upper_append, hv]
        rfl
      rw [behindWord, if_neg]
      rintro (h | h)
      · exact hstart _ (by decide) h
      · exact hstart _ (by decide) h
    rw [htext, List.nil_append, hnone, if_pos hplain, List.append_nil]
  | some w =>
    have hplain : q.call.Plain ↔ w.Plain := by
      rw [SetCall.Plain, hwithin]
      simp
    have htext : q.call.withinText = w.text := by
      rw [SetCall.withinText, hwithin, Option.elim_some]
    have hopen : trimStart (w.gap' ++ '(' :: (w.order ++ ')' :: q.rest)) =
        '(' :: (w.order ++ ')' :: q.rest) := by
      rw [trimStart_gap w.isGap', trimStart_of_head rfl]
    rw [htext, trimStart_within, behindWord_words]
    by_cases hw : w.Plain
    · have hlen : front.length + ((w.text ++ q.rest).length -
          ('(' :: (w.order ++ ')' :: q.rest)).length) + (w.order.length + 1) + 1 =
            (front ++ w.text).length := by
        simp only [Within.text, List.length_append, List.length_cons, List.length_nil]
        omega
      rw [if_pos hw, if_pos (hplain.2 hw)]
      simp only [hopen, List.head?_cons, if_true, matchingParen_closed w.isOrder]
      exact hlen
    · rw [if_neg hw, if_neg fun h => hw (hplain.1 h)]

/-- **The text that is put** for a query. -/
theorem rewriteOrderedSetAggregate_text {f : SetFunction} (q : SetQuery f) :
    rewriteOrderedSetAggregate f q.text = q.lowered := by
  let front := (q.select ++ q.lead) ++ (q.call.spelled ++ '(' :: (q.call.args ++ [')']))
  have htext : q.text = front ++ (q.call.withinText ++ q.rest) := by
    simp only [SetQuery.text, SetCall.text, front, List.append_assoc, List.cons_append,
      List.nil_append]
  have hname : f.name.length = q.call.spelled.length := by
    rw [← q.call.isSpelled, length_upper]
  have hscan : (q.select ++ q.lead).length + f.name.length + (q.call.args.length + 1) + 1 =
      front.length := by
    simp only [front, hname, List.length_append, List.length_cons, List.length_nil]
    omega
  have hcall : findCall f.name q.text = some ((q.select ++ q.lead).length,
      q.call.args.length + 1) := by
    have h := findCall_append f.open_not_mem_name q.call.isSpelled q.isLead q.call.isArgs
      (q.call.withinText ++ q.rest)
    have hsame : q.text = (q.select ++ q.lead) ++ (q.call.spelled ++
        '(' :: (q.call.args ++ ')' :: (q.call.withinText ++ q.rest))) := by
      simp only [SetQuery.text, SetCall.text, List.append_assoc, List.cons_append]
    rw [hsame]
    exact h
  have houtput : ∀ x b, (∃ a, x = a ++ [')']) → q.text = x ++ b →
      (if OneRow f.name (upper (x ++ (" OVER ()".toList ++ b))) then
        x ++ (" OVER ()".toList ++ b) ++ " LIMIT 1".toList else x ++ (" OVER ()".toList ++ b)) =
        x ++ (" OVER ()".toList ++ (b ++ if q.Limited then " LIMIT 1".toList else [])) := by
    rintro _ b ⟨a, rfl⟩ h
    have hlimited : OneRow f.name (upper (a ++ [')'] ++ (" OVER ()".toList ++ b))) ↔
        q.Limited := by
      have hover : upper (a ++ [')'] ++ (" OVER ()".toList ++ b)) =
          upper a ++ ')' :: (" OVER ()".toList ++ upper b) := by
        simp only [upper_append, List.append_assoc]
        rfl
      have hplain : upper q.text = upper a ++ ')' :: upper b := by
        rw [h, upper_append, upper_append, List.append_assoc]
        rfl
      rw [hover, one_row_insert f.close_not_mem_name, SetQuery.Limited, hplain]
    by_cases hlim : q.Limited
    · rw [if_pos (hlimited.2 hlim), if_pos hlim]
      simp only [List.append_assoc]
    · rw [if_neg fun h => hlim (hlimited.1 h), if_neg hlim, List.append_nil]
  rw [rewriteOrderedSetAggregate, hcall]
  simp only [hscan]
  rw [htext, scanWithin_call, ← htext, SetQuery.lowered, SetQuery.lowerCall]
  have htake : ∀ a b : List Char, (a ++ b).take a.length = a := fun a b => List.take_left
  have hdrop : ∀ a b : List Char, (a ++ b).drop a.length = b := fun a b => List.drop_left
  by_cases hplain : q.call.Plain
  · have hfront : front ++ q.call.withinText = (q.select ++ q.lead) ++ q.call.text := by
      simp only [SetCall.text, front, List.append_assoc, List.cons_append, List.nil_append]
    have hsplit : q.text = ((q.select ++ q.lead) ++ q.call.text) ++ q.rest := by
      simp only [SetQuery.text, List.append_assoc]
    have hseems : q.SeemsWindowed ↔ startsWith "OVER".toList (trimStart q.rest) = true :=
      and_iff_right hplain
    obtain ⟨a, ha⟩ := q.call.text_closed
    have hclosed : ∃ a', (q.select ++ q.lead) ++ q.call.text = a' ++ [')'] :=
      ⟨(q.select ++ q.lead) ++ a, by rw [ha, List.append_assoc _ a]⟩
    rw [if_pos hplain, hfront, hsplit]
    simp only [htake, hdrop, ← hseems, houtput _ _ hclosed hsplit]
    by_cases hwin : q.SeemsWindowed
    · have hcut : ¬ q.CutToOne := fun h => h.1 hwin
      rw [if_pos hwin, if_pos hwin, if_neg hcut, List.append_nil, Target.text, List.append_assoc]
    · have hcut : q.CutToOne ↔ q.Limited := and_iff_right hwin
      rw [if_neg hwin, if_neg hwin, if_pos hplain, Target.text]
      simp only [hcut, List.append_assoc]
  · have hwin : ¬ q.SeemsWindowed := fun h => hplain h.1
    have hcut : q.CutToOne ↔ q.Limited := and_iff_right hwin
    have hclosed : ∃ a, front = a ++ [')'] :=
      ⟨(q.select ++ q.lead) ++ (q.call.spelled ++ '(' :: q.call.args), by simp [front]⟩
    have hstart : startsWith "OVER".toList (trimStart (q.call.withinText ++ q.rest)) = false := by
      cases hwithin : q.call.within with
      | none =>
        refine absurd ?_ hplain
        intro w hw
        rw [hwithin] at hw
        cases hw
      | some w =>
        rw [SetCall.withinText, hwithin, Option.elim_some, trimStart_within, startsWith,
          Within.words, upper_append, upper_append, w.isWithin]
        rfl
    rw [if_neg hplain, htext]
    simp only [htake, hdrop, hstart, Bool.false_eq_true, if_false, houtput _ _ hclosed htext]
    rw [if_neg hwin, if_neg hplain, Target.text]
    simp only [hcut, front, List.append_assoc, List.cons_append, List.nil_append]

end DbSaci.Translate.OrderedSet
