import DbSaci.Translate.ClauseItems
import DbSaci.Translate.FirstCall

set_option relaxedAutoImplicit false
set_option autoImplicit false

/-!
# What the pass does at a clause

The pass cuts as much as the tests tell it. That is the clause if the pass reads it; a value with
white space is cut too early, and what stands behind a value without white space goes with it.

## Main definitions

* `Outcome` — what can happen at a clause.

## Main results

* `Clause.outcome` — what happens.
-/

namespace DbSaci.Translate.Physical

open Text

/-! ### Clauses -/

/-- What the pass does at a clause: it leaves out the clause if that is read; else it leaves out
nothing, or it stops in the clause in front of a character that it keeps, or behind the clause. -/
def Outcome (text rest : List Char) (read : Prop) (o : Option ℕ) : Prop :=
  (read ∧ o = some text.length) ∨ (¬ read ∧ (o = none ∨ ∃ n, o = some n ∧
    ((∃ x e y, text = x ++ e :: y ∧ n = x.length ∧ x ≠ [] ∧
      isWordByte e = false ∧ e ≠ '\'' ∧ e ≠ '"') ∨ (text.length < n ∧ rest ≠ []))))

/-- Outside parentheses the tests for clauses decide, inside none is made. -/
lemma outcome_of_clause (alphanumeric : Char → Bool) (depth : ℤ) (last : Option Char)
    {text rest : List Char} {read : Prop} (hstate : stateConsumed (text ++ rest) = none)
    (h : Outcome text rest read (clauseConsumed (text ++ rest))) :
    Outcome text rest (depth = 0 ∧ read) (consumed alphanumeric depth last (text ++ rest)) := by
  rw [consumed, hstate, ite_self, Option.or_none]
  by_cases hd : depth = 0
  · rw [if_pos hd]
    rcases h with ⟨hread, h⟩ | ⟨hread, h⟩
    · exact Or.inl ⟨⟨hd, hread⟩, h⟩
    · exact Or.inr ⟨fun hr => hread hr.2, h⟩
  · rw [if_neg hd]
    exact Or.inr ⟨fun hr => hd hr.1, Or.inl rfl⟩

lemma not_isSpace_of_isStop {c : Char} (h : isStop c = false) : isSpace c = false := by
  simp only [isStop, Bool.or_eq_false_iff] at h
  exact h.1.1

lemma of_isStop {c : Char} (h : isStop c = true) :
    isWordByte c = false ∧ c ≠ '\'' ∧ c ≠ '"' := by
  simp only [isStop, Bool.or_eq_true, decide_eq_true_eq] at h
  rcases h with (h | rfl) | rfl
  · refine ⟨not_isWordByte_of_isSpace h, ?_, ?_⟩ <;>
      · rintro rfl
        cases h
  · decide
  · decide

/-- How far a value goes. -/
lemma outcome_value {front : List Char} (hfront : front ≠ []) (value rest : List Char) :
    Outcome (front ++ value) rest
      ((∀ c ∈ value, isStop c = false) ∧ ∀ c ∈ rest.head?, isStop c = true)
      (some (front.length + ((value ++ rest).takeWhile fun c => !isStop c).length)) := by
  by_cases hvalue : ∀ c ∈ value, isStop c = false
  · have hpos : ∀ c ∈ value, (!isStop c) = true := fun c hc => by rw [hvalue c hc]; rfl
    rw [List.takeWhile_append_of_pos hpos, List.length_append, ← Nat.add_assoc,
      ← List.length_append]
    cases rest with
    | nil => exact Or.inl ⟨⟨hvalue, by simp⟩, by simp⟩
    | cons e rest =>
      cases hstop : isStop e with
      | true =>
        rw [List.takeWhile_cons_of_neg (by rw [hstop]; decide)]
        exact Or.inl ⟨⟨hvalue, by simpa using hstop⟩, rfl⟩
      | false =>
        rw [List.takeWhile_cons_of_pos (by rw [hstop]; decide), List.length_cons]
        refine Or.inr ⟨fun h => ?_, Or.inr ⟨_, rfl, Or.inr ⟨by omega, List.cons_ne_nil _ _⟩⟩⟩
        have hbad := h.2 e rfl
        rw [hstop] at hbad
        cases hbad
  · -- the value is cut at the first character that ends one
    refine Or.inr ⟨fun h => hvalue h.1, Or.inr ⟨_, rfl, Or.inl ?_⟩⟩
    obtain ⟨x, e, y, rfl, hx, he⟩ : ∃ x e y, value = x ++ e :: y ∧
        (∀ c ∈ x, (!isStop c) = true) ∧ isStop e = true := by
      have hdrop : value.dropWhile (fun c => !isStop c) ≠ [] := by
        intro hnil
        apply hvalue
        intro c hc
        have hall := List.dropWhile_eq_nil_iff.1 hnil c hc
        simpa using hall
      obtain ⟨e, y, hey⟩ := List.exists_cons_of_ne_nil hdrop
      refine ⟨value.takeWhile fun c => !isStop c, e, y, ?_, fun c hc =>
        List.mem_takeWhile_imp (p := fun c => !isStop c) hc, ?_⟩
      · rw [← hey, List.takeWhile_append_dropWhile]
      · have hnot := List.head?_dropWhile_not (fun c => !isStop c) value
        rw [hey] at hnot
        simpa using hnot
    have htake : ((x ++ e :: y) ++ rest).takeWhile (fun c => !isStop c) = x := by
      rw [List.append_assoc, List.takeWhile_append_of_pos hx, List.cons_append,
        List.takeWhile_cons_of_neg (by rw [he]; decide), List.append_nil]
    rw [htake]
    refine ⟨front ++ x, e, y, by rw [List.append_assoc], by rw [List.length_append], ?_, of_isStop he⟩
    simp [hfront]

lemma skipClauseValue_append {keyword gap value : List Char} (hgap : Spaces gap)
    (hvalue : ∀ c ∈ value.head?, isSpace c = false) :
    skipClauseValue (keyword ++ (gap ++ value)) keyword.length =
      (keyword ++ gap).length + (value.takeWhile fun c => !isStop c).length := by
  have htrim : trimStart (gap ++ value) = value := by
    rw [trimStart_spaces hgap]
    cases value with
    | nil => rfl
    | cons c value => exact trimStart_of_head (hvalue c rfl) value
  rw [skipClauseValue, List.drop_left]
  simp only [htrim, List.length_append, Nat.add_sub_cancel]
  rfl

lemma head_open {gap : List Char} (hgap : Spaces gap) (t : List Char) :
    ∀ c ∈ (gap ++ '(' :: t).head?, isWordByte c = false := by
  cases gap with
  | nil =>
    intro c hc
    obtain rfl := Option.some.inj hc
    rfl
  | cons d gap => exact hgap.head (List.cons_ne_nil d gap) _

lemma trimStart_open {gap : List Char} (hgap : Spaces gap) (t : List Char) :
    trimStart (gap ++ '(' :: t) = '(' :: t := by
  rw [trimStart_spaces hgap, trimStart_of_head rfl]

lemma storageConsumed_text {spelled gap body : List Char} (hword : upper spelled = "STORAGE".toList)
    (hgap : Spaces gap) (hbody : Closed body) (rest : List Char) :
    storageConsumed (spelled ++ (gap ++ '(' :: (body ++ ')' :: rest))) =
      some (spelled ++ (gap ++ '(' :: (body ++ [')']))).length := by
  have hlen : "STORAGE".toList.length = spelled.length := by
    rw [← hword, length_upper]
  rw [storageConsumed, if_pos (startsKeyword_self hword (head_open hgap _)), hlen, List.drop_left,
    trimStart_open hgap]
  simp only [List.head?_cons, if_true, matchingParen_closed hbody, Option.map_some,
    Option.some.injEq, List.length_append, List.length_cons, List.length_nil]
  omega

/-- A text that is spelled in capital letters starts with no white space if they do not. -/
lemma head_of_upper {a : Char} {K s : List Char} (h : upper s = a :: K) (ha : isSpace a = false)
    (t : List Char) : ∀ c ∈ (s ++ t).head?, isSpace c = false := by
  cases s with
  | nil => cases h
  | cons d s =>
    intro c hc
    obtain rfl := Option.some.inj hc
    obtain ⟨hd, -⟩ := List.cons.inj h
    rw [← Bool.not_eq_true]
    intro hspace
    rw [toUpper_of_isSpace hspace] at hd
    rw [hd, ha] at hspace
    cases hspace

lemma trimStart_of_not_space {s : List Char} (h : ∀ c ∈ s.head?, isSpace c = false) :
    trimStart s = s := by
  cases s with
  | nil => rfl
  | cons c s => exact trimStart_of_head (h c rfl) s

lemma lobConsumed_text {spelled gap cols gap' store gap'' attrs : List Char}
    (hword : upper spelled = "LOB".toList) (hgap : Spaces gap) (hcols : Closed cols)
    (hgap' : Spaces gap') (hstore : upper store = "STORE AS".toList) (hgap'' : Spaces gap'')
    (hattrs : Closed attrs) (rest : List Char) :
    lobConsumed (spelled ++ (gap ++ '(' :: (cols ++ ')' :: (gap' ++ (store ++ (gap'' ++
      '(' :: (attrs ++ ')' :: rest))))))) =
        some (Clause.lob spelled gap cols gap' store gap'' attrs).text.length := by
  have hlen : "LOB".toList.length = spelled.length := by
    rw [← hword, length_upper]
  have hlen' : "STORE AS".toList.length = store.length := by
    rw [← hstore, length_upper]
  have hstart : startsWith "STORE AS".toList
      (store ++ (gap'' ++ '(' :: (attrs ++ ')' :: rest))) = true := by
    rw [startsWith, List.isPrefixOf_iff_prefix, upper_append, hstore]
    exact List.prefix_append _ _
  have hspace : ∀ c ∈ (store ++ (gap'' ++ '(' :: (attrs ++ ')' :: rest))).head?,
      isSpace c = false := head_of_upper hstore rfl _
  have htrim : trimStart (gap' ++ (store ++ (gap'' ++ '(' :: (attrs ++ ')' :: rest)))) =
      store ++ (gap'' ++ '(' :: (attrs ++ ')' :: rest)) := by
    rw [trimStart_spaces hgap', trimStart_of_not_space hspace]
  have hdrop : ('(' :: (cols ++ ')' :: (gap' ++ (store ++ (gap'' ++
      '(' :: (attrs ++ ')' :: rest)))))).drop (cols.length + 1 + 1) =
        gap' ++ (store ++ (gap'' ++ '(' :: (attrs ++ ')' :: rest))) := drop_parens cols _
  rw [lobConsumed, if_pos (startsKeyword_self hword (head_open hgap _)), hlen, List.drop_left,
    trimStart_open hgap]
  simp only [List.head?_cons, if_true, matchingParen_closed hcols, Option.bind_some, hdrop, htrim,
    hstart, hlen', List.drop_left, trimStart_open hgap'', matchingParen_closed hattrs,
    Option.map_some, Option.some.injEq, Clause.text, List.length_append, List.length_cons,
    List.length_nil]
  omega

lemma eq_blank_of_toUpper {c : Char} (h : c.toUpper = ' ') : c = ' ' := by
  rcases toUpper_cases c with heq | ⟨-, halpha⟩
  · rw [← heq, h]
  · rw [h] at halpha
    cases halpha

/-- What stands behind `ENABLE` in `ENABLE ROW MOVEMENT`. -/
lemma startsKeyword_rowMovement {spelled t : List Char} (hword : upper spelled = "ENABLE".toList)
    (h : startsKeyword "ENABLE ROW MOVEMENT".toList (spelled ++ t) = true) :
    startsKeyword "ROW MOVEMENT".toList (trimStart t) = true := by
  rw [startsKeyword, Bool.and_eq_true, startsWith, List.isPrefixOf_iff_prefix, upper_append,
    hword] at h
  obtain ⟨hstart, hend⟩ := h
  have hlen : spelled.length = 6 := by
    rw [← length_upper, hword]
    rfl
  have hrest : ' ' :: "ROW MOVEMENT".toList <+: upper t :=
    (List.prefix_append_right_inj "ENABLE".toList).1 hstart
  cases t with
  | nil => simp at hrest
  | cons c s =>
    rw [upper_cons, List.cons_prefix_cons] at hrest
    obtain ⟨hc, hs⟩ := hrest
    obtain rfl : c = ' ' := eq_blank_of_toUpper hc.symm
    have hspace : ∀ d ∈ s.head?, isSpace d = false := by
      have hrow : upper (s.take 12) = 'R' :: "OW MOVEMENT".toList := by
        rw [upper, List.map_take]
        exact (List.prefix_iff_eq_take.1 hs).symm
      have hhead := head_of_upper hrow rfl (s.drop 12)
      rw [List.take_append_drop] at hhead
      exact hhead
    have htrim : trimStart (' ' :: s) = s := by
      have hskip : trimStart (' ' :: s) = trimStart s := List.dropWhile_cons_of_pos rfl
      rw [hskip, trimStart_of_not_space hspace]
    have hdrop : (spelled ++ ' ' :: s).drop "ENABLE ROW MOVEMENT".toList.length =
        s.drop "ROW MOVEMENT".toList.length := by
      have hsum : "ENABLE ROW MOVEMENT".toList.length = spelled.length + (12 + 1) := by
        rw [hlen]
        rfl
      rw [hsum, List.drop_length_add_append, List.drop_succ_cons]
      rfl
    rw [hdrop] at hend
    rw [htrim, startsKeyword, startsWith, List.isPrefixOf_iff_prefix.2 hs, hend]
    rfl

/-- `ENABLE ROW MOVEMENT` is no constraint state. -/
lemma stateConsumed_rowMovement {spelled t : List Char}
    (hword : upper spelled = "ENABLE ROW MOVEMENT".toList)
    (ht : ∀ c ∈ t.head?, isWordByte c = false) : stateConsumed (spelled ++ t) = none := by
  have hfirst : ∀ k, startsKeyword k (spelled ++ t) = true →
      firstWord k = firstWord "ENABLE ROW MOVEMENT".toList :=
    fun k hk => firstWord_of_spelled hword ht hk
  have hword' : upper (spelled.take 6) = "ENABLE".toList := by
    rw [upper, List.map_take, ← upper, hword]
    rfl
  have htext : spelled ++ t = spelled.take 6 ++ (spelled.drop 6 ++ t) := by
    rw [← List.append_assoc, List.take_append_drop]
  have hall : startsKeyword "ENABLE ROW MOVEMENT".toList
      (spelled.take 6 ++ (spelled.drop 6 ++ t)) = true := by
    rw [← htext]
    exact startsKeyword_self hword ht
  have htable := startsKeyword_rowMovement hword' hall
  have hdrop : (spelled ++ t).drop "ENABLE".toList.length = spelled.drop 6 ++ t := by
    have hlen : spelled.length = 19 := by
      rw [← length_upper, hword]
      rfl
    exact List.drop_append_of_le_length (by rw [hlen]; decide)
  have henable : oneStateConsumed "ENABLE".toList (spelled ++ t) = none := by
    rw [oneStateConsumed, hdrop, if_neg]
    rintro ⟨-, hnot⟩
    apply hnot
    rw [List.any_eq_true]
    exact ⟨_, by simp [tableLevel], htable⟩
  have hdisable : oneStateConsumed "DISABLE".toList (spelled ++ t) = none := by
    rw [oneStateConsumed, startsKeyword_false hfirst (by decide), if_neg]
    rintro ⟨h, -⟩
    cases h
  rw [stateConsumed, henable, hdisable]
  rfl

/-- What stands behind a constraint state. -/
lemma state_behind {spelled rest : List Char} {follow : Option (List Char × List Char)}
    (h : (Clause.state spelled follow).Lexed rest) :
    ∃ t, (Clause.state spelled follow).text ++ rest = spelled ++ t ∧
      (∀ c ∈ t.head?, isWordByte c = false) ∧
      (∀ k ∈ tableLevel, startsKeyword k (trimStart t) = false) ∧
      ((followKeywords.find? fun k => startsKeyword k (trimStart t)) =
        follow.map fun f => upper f.2) ∧
      (∀ f ∈ follow, trimStart t = f.2 ++ rest) := by
  match follow, h with
  | none, h =>
    obtain ⟨-, hends, hnot⟩ := h
    refine ⟨rest, by simp [Clause.text], hends.head, fun k hk => hnot k (by simp [hk]), ?_, by simp⟩
    rw [Option.map_none, List.find?_eq_none]
    intro k hk
    rw [hnot k (by simp [hk])]
    decide
  | some (gap, f), h =>
    obtain ⟨-, hgap, hgapne, hf, hends⟩ := h
    have hfirst : ∀ k, startsKeyword k (f ++ rest) = true → firstWord k = firstWord (upper f) :=
      fun k hk => firstWord_of_spelled rfl hends.head hk
    have htable : ∀ K ∈ followKeywords, ∀ k ∈ tableLevel, firstWord k ≠ firstWord K := by decide
    have huniq : ∀ K ∈ followKeywords, ∀ k ∈ followKeywords,
        firstWord k = firstWord K → k = K := by decide
    have htrim : trimStart (gap ++ (f ++ rest)) = f ++ rest := by
      have hletters : ∀ K ∈ followKeywords, K ≠ [] ∧ ∀ c ∈ K, isSpace c = false := by decide
      have hf' := trimmed_of_upper (hletters _ hf).1 (hletters _ hf).2 rfl
      rw [trimStart_spaces hgap, trimStart_of_trimmed hf']
    refine ⟨gap ++ (f ++ rest), by simp [Clause.text], hgap.head hgapne _, ?_, ?_, ?_⟩
    · intro k hk
      rw [htrim]
      exact startsKeyword_false hfirst (htable _ hf k hk)
    · rw [htrim]
      exact find_keyword_some hfirst hf (huniq _ hf) (startsKeyword_self rfl hends.head)
    · intro p hp
      obtain rfl := Option.some.inj hp
      exact htrim

lemma state_spelled {spelled rest : List Char} {follow : Option (List Char × List Char)}
    (h : (Clause.state spelled follow).Lexed rest) :
    upper spelled = "ENABLE".toList ∨ upper spelled = "DISABLE".toList := by
  match follow, h with
  | none, h => simpa using h.1
  | some (_, _), h => simpa using h.1

lemma clauseConsumed_state {spelled rest : List Char} {follow : Option (List Char × List Char)}
    (h : (Clause.state spelled follow).Lexed rest) :
    clauseConsumed ((Clause.state spelled follow).text ++ rest) = none := by
  obtain ⟨t, htext, hhead, htable, -, -⟩ := state_behind h
  have hword := state_spelled h
  have hfirst : ∀ k, startsKeyword k (spelled ++ t) = true → firstWord k = firstWord (upper spelled) :=
    fun k hk => firstWord_of_spelled rfl hhead hk
  rw [htext]
  rcases hword with hword | hword
  · rw [hword] at hfirst
    have hrow : startsKeyword "ENABLE ROW MOVEMENT".toList (spelled ++ t) = false := by
      rw [← Bool.not_eq_true]
      intro hrow
      have htrue := startsKeyword_rowMovement hword hrow
      rw [htable _ (by simp [tableLevel])] at htrue
      cases htrue
    rw [clauseConsumed, find_keyword_none hfirst (by decide), find_keyword_none hfirst (by decide),
      hrow, startsKeyword_false hfirst (by decide), storageConsumed_none hfirst (by decide),
      lobConsumed_none hfirst (by decide)]
    rfl
  · rw [hword] at hfirst
    exact clauseConsumed_none hfirst (by decide)

lemma stateConsumed_state {spelled rest : List Char} {follow : Option (List Char × List Char)}
    (h : (Clause.state spelled follow).Lexed rest) :
    stateConsumed ((Clause.state spelled follow).text ++ rest) =
      some (Clause.state spelled follow).text.length := by
  obtain ⟨t, htext, hhead, htable, hfind, htrim⟩ := state_behind h
  have hword := state_spelled h
  have hfirst : ∀ k, startsKeyword k (spelled ++ t) = true → firstWord k = firstWord (upper spelled) :=
    fun k hk => firstWord_of_spelled rfl hhead hk
  have hnot : ¬ (tableLevel.any fun k => startsKeyword k (trimStart t)) = true := by
    rw [List.any_eq_true]
    rintro ⟨k, hk, htrue⟩
    rw [htable k hk] at htrue
    cases htrue
  have hone : oneStateConsumed (upper spelled) (spelled ++ t) =
      some (Clause.state spelled follow).text.length := by
    rw [oneStateConsumed, length_upper, List.drop_left,
      if_pos ⟨startsKeyword_self rfl hhead, hnot⟩, hfind]
    cases follow with
    | none => simp [Clause.text]
    | some f =>
      have hlen : (spelled ++ t).length = (Clause.state spelled (some f)).text.length + rest.length := by
        rw [← htext, List.length_append]
      have hle : f.2.length ≤ (Clause.state spelled (some f)).text.length := by
        simp only [Clause.text, Option.elim_some, List.length_append]
        omega
      simp only [Option.map_some, htrim f rfl, length_upper, hlen, List.length_append,
        Option.some.injEq]
      omega
  rw [htext, stateConsumed]
  rcases hword with hword | hword
  · rw [hword] at hone
    rw [hone]
    rfl
  · have henable : oneStateConsumed "ENABLE".toList (spelled ++ t) = none := by
      rw [hword] at hfirst
      rw [oneStateConsumed, startsKeyword_false hfirst (by decide), if_neg]
      rintro ⟨h, -⟩
      cases h
    rw [hword] at hone
    rw [henable, hone]
    rfl

/-- `PARALLEL` without a value. -/
lemma outcome_parallel (spelled rest : List Char) :
    Outcome spelled rest (∀ c ∈ rest.head?, c = ',' ∨ c = ')')
      (some (skipClauseValue (spelled ++ rest) spelled.length)) := by
  cases rest with
  | nil =>
    have hlen : skipClauseValue (spelled ++ []) spelled.length = spelled.length := by
      rw [skipClauseValue, List.drop_left]
      rfl
    rw [hlen]
    exact Or.inl ⟨by simp, rfl⟩
  | cons e rest =>
    cases hspace : isSpace e with
    | true =>
      -- the white space goes with the clause
      refine Or.inr ⟨fun h => ?_, Or.inr ⟨_, rfl, Or.inr ⟨?_, List.cons_ne_nil _ _⟩⟩⟩
      · rcases h e rfl with rfl | rfl <;> cases hspace
      · have htrim : trimStart (e :: rest) = trimStart rest := List.dropWhile_cons_of_pos hspace
        have hle : (trimStart rest).length ≤ rest.length := (List.dropWhile_suffix _).length_le
        rw [skipClauseValue, List.drop_left]
        simp only [htrim, List.length_cons]
        omega
    | false =>
      have hgap : Spaces [] := by simp [Spaces]
      have hlen := @skipClauseValue_append spelled [] (e :: rest) hgap (by simpa using hspace)
      rw [List.nil_append, List.append_nil] at hlen
      rw [hlen]
      cases hstop : isStop e with
      | true =>
        rw [List.takeWhile_cons_of_neg (by rw [hstop]; decide)]
        refine Or.inl ⟨?_, rfl⟩
        intro c hc
        obtain rfl := Option.some.inj hc
        simpa [isStop, hspace] using hstop
      | false =>
        rw [List.takeWhile_cons_of_pos (by rw [hstop]; decide), List.length_cons]
        refine Or.inr ⟨fun h => ?_, Or.inr ⟨_, rfl, Or.inr ⟨by omega, List.cons_ne_nil _ _⟩⟩⟩
        rcases h e rfl with rfl | rfl <;> cases hstop

variable (alphanumeric : Char → Bool)

/-- **What the pass does at a clause.** -/
theorem Clause.outcome (depth : ℤ) (last : Option Char) {c : Clause} {rest : List Char}
    (h : c.Lexed rest) :
    Outcome c.text rest (c.Read alphanumeric depth last rest)
      (consumed alphanumeric depth last (c.text ++ rest)) := by
  cases c with
  | flag spelled =>
    obtain ⟨hword, hends⟩ := h
    have hclause : clauseConsumed (spelled ++ rest) = some spelled.length := by
      rw [← length_upper spelled]
      rcases List.mem_cons.1 hword with hword | hword
      · exact clauseConsumed_rowMovement rfl hends.head hword
      · exact clauseConsumed_flag rfl hends.head hword
    have hstate : stateConsumed (spelled ++ rest) = none := by
      rcases List.mem_cons.1 hword with hword | hword
      · exact stateConsumed_rowMovement hword hends.head
      · have hkeys : ∀ K ∈ flagKeywords, firstWord K ∉ ["ENABLE".toList, "DISABLE".toList] := by
          decide
        exact stateConsumed_spelled rfl hends.head (hkeys _ hword)
    have hread : Outcome spelled rest True (clauseConsumed (spelled ++ rest)) :=
      Or.inl ⟨trivial, hclause⟩
    have hout := outcome_of_clause alphanumeric depth last hstate hread
    rw [and_true] at hout
    exact hout
  | valued spelled gap value =>
    obtain ⟨hword, hgap, hgapne, hvaluene, hvalue, hends⟩ := h
    have hhead := hgap.head hgapne (value ++ rest)
    have htext : (Clause.valued spelled gap value).text ++ rest =
        spelled ++ (gap ++ (value ++ rest)) := by
      simp only [Clause.text, List.append_assoc]
    have hstate : stateConsumed (spelled ++ (gap ++ (value ++ rest))) = none := by
      have hkeys : ∀ K ∈ "SEGMENT CREATION".toList :: valuedKeywords,
          firstWord K ∉ ["ENABLE".toList, "DISABLE".toList] := by decide
      exact stateConsumed_spelled rfl hhead (hkeys _ hword)
    have hclause : clauseConsumed (spelled ++ (gap ++ (value ++ rest))) =
        some (skipClauseValue (spelled ++ (gap ++ (value ++ rest))) spelled.length) := by
      rw [← length_upper spelled]
      rcases List.mem_cons.1 hword with hword | hword
      · exact clauseConsumed_segment rfl hhead hword
      · exact clauseConsumed_valued rfl hhead hword
    have hhead' : ∀ c ∈ (value ++ rest).head?, isSpace c = false := by
      rw [List.head?_append_of_ne_nil _ hvaluene]
      exact hvalue
    rw [skipClauseValue_append hgap hhead'] at hclause
    have hfront : spelled ++ gap ≠ [] := by simp [hgapne]
    have hout := outcome_value hfront value rest
    rw [← hclause, List.append_assoc, ← htext] at hout
    rw [← htext] at hstate
    exact outcome_of_clause alphanumeric depth last hstate hout
  | parallel spelled =>
    obtain ⟨hword, hends⟩ := h
    have hstate : stateConsumed (spelled ++ rest) = none :=
      stateConsumed_spelled hword hends.head (by decide)
    have hclause : clauseConsumed (spelled ++ rest) =
        some (skipClauseValue (spelled ++ rest) spelled.length) := by
      rw [← length_upper spelled, hword]
      exact clauseConsumed_valued hword hends.head (by decide)
    have hout : Outcome spelled rest (∀ c ∈ rest.head?, c = ',' ∨ c = ')')
        (clauseConsumed (spelled ++ rest)) := by
      rw [hclause]
      exact outcome_parallel spelled rest
    exact outcome_of_clause alphanumeric depth last hstate hout
  | storage spelled gap body =>
    obtain ⟨hword, hgap, hbody⟩ := h
    have htext : (Clause.storage spelled gap body).text ++ rest =
        spelled ++ (gap ++ '(' :: (body ++ ')' :: rest)) := by
      simp only [Clause.text, List.append_assoc, List.cons_append, List.nil_append]
    have hhead := head_open hgap (body ++ ')' :: rest)
    have hstate : stateConsumed ((Clause.storage spelled gap body).text ++ rest) = none := by
      rw [htext]
      exact stateConsumed_spelled hword hhead (by decide)
    have hread : Outcome (Clause.storage spelled gap body).text rest True
        (clauseConsumed ((Clause.storage spelled gap body).text ++ rest)) := by
      rw [htext, clauseConsumed_storage hword hhead rfl, storageConsumed_text hword hgap hbody]
      exact Or.inl ⟨trivial, rfl⟩
    have hout := outcome_of_clause alphanumeric depth last hstate hread
    rw [and_true] at hout
    exact hout
  | lob spelled gap cols gap' store gap'' attrs =>
    obtain ⟨hword, hgap, hcols, hgap', hstore, hgap'', hattrs⟩ := h
    have htext : (Clause.lob spelled gap cols gap' store gap'' attrs).text ++ rest =
        spelled ++ (gap ++ '(' :: (cols ++ ')' :: (gap' ++ (store ++ (gap'' ++
          '(' :: (attrs ++ ')' :: rest)))))) := by
      simp only [Clause.text, List.append_assoc, List.cons_append, List.nil_append]
    have hhead := head_open hgap
      (cols ++ ')' :: (gap' ++ (store ++ (gap'' ++ '(' :: (attrs ++ ')' :: rest)))))
    have hstate : stateConsumed
        ((Clause.lob spelled gap cols gap' store gap'' attrs).text ++ rest) = none := by
      rw [htext]
      exact stateConsumed_spelled hword hhead (by decide)
    have hread : Outcome (Clause.lob spelled gap cols gap' store gap'' attrs).text rest True
        (clauseConsumed ((Clause.lob spelled gap cols gap' store gap'' attrs).text ++ rest)) := by
      rw [htext, clauseConsumed_lob hword hhead rfl,
        lobConsumed_text hword hgap hcols hgap' hstore hgap'' hattrs]
      exact Or.inl ⟨trivial, rfl⟩
    have hout := outcome_of_clause alphanumeric depth last hstate hread
    rw [and_true] at hout
    exact hout
  | state spelled follow =>
    have hstate := stateConsumed_state h
    have hclause := clauseConsumed_state h
    rw [consumed, hclause, ite_self, Option.none_or, hstate]
    by_cases hbound : atBoundary alphanumeric last = true
    · rw [if_pos hbound]
      exact Or.inl ⟨hbound, rfl⟩
    · rw [if_neg hbound]
      exact Or.inr ⟨hbound, Or.inl rfl⟩

end DbSaci.Translate.Physical
