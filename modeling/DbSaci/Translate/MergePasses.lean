import DbSaci.Translate.KeywordFree
import DbSaci.Translate.MergePredicate
import DbSaci.Translate.MergeAliases

set_option relaxedAutoImplicit false
set_option autoImplicit false

/-!
# What the two passes make of a `MERGE`

The first pass cuts the text of a statement at `UPDATE`, `DELETE` and the `WHEN` that follows; the
second one at `INTO` and the first ` SET `.

## Main definitions

* `Merge.Readable` — the keywords are found where they stand.
* `Merge.afterFirst` — the text with the `DELETE` in front.

## Main results

* `Merge.firstPass_none`, `Merge.firstPass_some` — the text after the first pass.
* `Merge.secondPass` — the text after the second pass.
-/

namespace DbSaci.Merge

open Text Translate

variable (m : Merge)

/-- Each keyword is found where it stands: none of them occurs before it at depth zero, ` SET `
not even in a quoted part or in parentheses, and the left-hand sides do not occur inside other
words of the condition. -/
structure Readable : Prop where
  update : Lead "UPDATE".toList (m.head ++ "WHEN MATCHED THEN ".toList)
  set_ : Without " SET ".toList m.head
  plain : m.delete = none →
    findTopLevelKw (' ' :: assignmentsText m.assigns m.rest) "DELETE".toList = none
  delete : ∀ p ∈ m.delete, Lead "DELETE".toList (' ' :: assignmentsText m.assigns [' ']) ∧
    Lead "WHEN".toList (' ' :: (p.text ++ [' ']))
  words : ∀ p ∈ m.delete, p.SetFree ∧ (∀ a ∈ m.assigns, a.rhs.SetFree) ∧ Cleans m.assigns p

lemma validTargets : ∀ a ∈ m.assigns, ValidTarget a := fun a ha =>
  ⟨(m.targets a ha).1, fun q hq => ((m.targets a ha).2 q hq).1⟩

lemma assigned : m.Assigned m.assigns := ⟨m.targets, m.columns⟩

lemma qualifiedBy : QualifiedBy m.alias_ m.assigns := fun a ha => (m.targets a ha).2

lemma assignmentsText_append (as : List Assignment) (x : List Char) :
    assignmentsText as x = assignmentsText as [] ++ x := by
  induction as with
  | nil => rfl
  | cons a as ih =>
    cases as with
    | nil => simp [assignmentsText]
    | cons b as => simp only [assignmentsText, ih, List.append_assoc]

lemma assignmentsText_trimmed {as : List Assignment} (hne : as ≠ [])
    (ht : ∀ a ∈ as, ValidTarget a) (hr : ∀ a ∈ as, Expression a.rhs) :
    Trimmed (assignmentsText as []) := by
  have htext : ∀ a : Assignment, ValidTarget a → Expression a.rhs → Trimmed a.text := by
    intro a ha hra
    have heq : a.text = (a.lhs ++ [' ', '=', ' ']) ++ a.rhs.text := by simp [Assignment.text]
    obtain ⟨hlne, hlhead, -⟩ := lhs_trimmed ha
    obtain ⟨hrne, -, hrlast⟩ := hra.trimmed
    refine ⟨by simp [heq], ?_, ?_⟩
    · simp only [heq, List.append_assoc, List.head_append_of_ne_nil hlne]
      exact hlhead
    · simp only [heq, List.getLast_append_of_right_ne_nil _ _ hrne]
      exact hrlast
  induction as with
  | nil => exact absurd rfl hne
  | cons a as ih =>
    have ha := htext a (ht a List.mem_cons_self) (hr a List.mem_cons_self)
    cases as with
    | nil =>
      rw [assignmentsText, List.append_nil]
      exact ha
    | cons b as =>
      obtain ⟨hane, hahead, -⟩ := ha
      obtain ⟨hbne, -, hblast⟩ := ih (by simp) (fun c hc => ht c (List.mem_cons_of_mem _ hc))
        (fun c hc => hr c (List.mem_cons_of_mem _ hc))
      refine ⟨by simp [assignmentsText], ?_, ?_⟩
      · simp only [assignmentsText, List.head_append_of_ne_nil hane]
        exact hahead
      · have heq : assignmentsText (a :: b :: as) [] =
            (a.text ++ [',', ' ']) ++ assignmentsText (b :: as) [] := by simp [assignmentsText]
        simp only [heq, List.getLast_append_of_right_ne_nil _ _ hbne]
        exact hblast

/-! ### The first pass -/

/-- The text starts as every statement does. -/
lemma startsWith_merge (s : List Char) :
    trimStart ("MERGE INTO ".toList ++ s) = "MERGE INTO ".toList ++ s ∧
      startsWith "MERGE ".toList ("MERGE INTO ".toList ++ s) = true :=
  ⟨trimStart_of_head rfl _, rfl⟩

lemma head_eq : ∃ s, m.head = "MERGE INTO ".toList ++ s := ⟨_, rfl⟩

section Passes

variable {m}

/-- The update is found. -/
lemma find_update (h : m.Readable) (y : List Char) (hy : atBoundary y = true) :
    findTopLevelKw (m.head ++ ("WHEN MATCHED THEN ".toList ++ ("UPDATE".toList ++ y)))
      "UPDATE".toList = some (m.head ++ "WHEN MATCHED THEN ".toList).length := by
  have hfirst : ∀ c ∈ "UPDATE".toList.head?, c ≠ '\'' ∧ c ≠ '"' ∧ c ≠ '(' ∧ c ≠ ')' := by
    rw [show "UPDATE".toList.head? = some 'U' from rfl]
    rintro _ ⟨⟩
    decide
  rw [← List.append_assoc]
  exact findTopLevelKw_append (by decide) hfirst (by decide) (by decide) h.update (by simp) hy

/-- The update and the `SET` behind it are found. -/
lemma set_found (h : m.Readable) {y : List Char} (hy : y ≠ []) (hblank : y.head? = some ' ')
    {sql : List Char} (hsql : sql = m.head ++ ("WHEN MATCHED THEN ".toList ++ ("UPDATE".toList ++
      (" SET".toList ++ y)))) {n : ℕ} (hn : n = (m.head ++ "WHEN MATCHED THEN ".toList).length) :
    startsWith "MERGE ".toList (trimStart sql) = true ∧
    findTopLevelKw sql "UPDATE".toList = some n ∧
    startsWithWord "SET".toList (trimStart (sql.drop (n + 6))) = true ∧
    n + 6 + ((sql.drop (n + 6)).length - (trimStart (sql.drop (n + 6))).length) + 3 = n + 6 + 4 ∧
    sql.drop (n + 6 + 4) = y := by
  obtain ⟨s, hs⟩ := m.head_eq
  have hdrop : sql.drop (n + 6) = " SET".toList ++ y := by
    rw [hsql, hn, ← List.append_assoc, ← List.drop_drop, List.drop_left]
    rfl
  have htrim : trimStart (sql.drop (n + 6)) = "SET".toList ++ y := by
    rw [hdrop]
    exact trimStart_gap (g := [' ']) (by decide) ("SET".toList ++ y)
  refine ⟨?_, ?_, ?_, ?_, ?_⟩
  · rw [hsql, hs, List.append_assoc, (startsWith_merge _).1]
    exact (startsWith_merge _).2
  · rw [hsql, hn]
    exact find_update h _ rfl
  · obtain ⟨c, y, rfl⟩ := List.exists_cons_of_ne_nil hy
    obtain rfl : c = ' ' := Option.some.inj hblank
    rw [htrim]
    rfl
  · rw [htrim, hdrop]
    simp only [List.length_append]
    have : " SET".toList.length = 4 := rfl
    have : "SET".toList.length = 3 := rfl
    omega
  · rw [← List.drop_drop, hdrop]
    rfl

/-- **Without a `DELETE` the first pass leaves the text alone.** -/
theorem firstPass_none (h : m.Readable) (hd : m.delete = none) :
    rewriteMergeMatchedDelete m.text = m.text := by
  obtain ⟨sql, hsql⟩ : ∃ sql, sql = m.text := ⟨_, rfl⟩
  obtain ⟨n, hn⟩ : ∃ n, n = (m.head ++ "WHEN MATCHED THEN ".toList).length := ⟨_, rfl⟩
  have htext : sql = m.head ++ ("WHEN MATCHED THEN ".toList ++ ("UPDATE".toList ++
      (" SET".toList ++ (' ' :: assignmentsText m.assigns m.rest)))) := by
    rw [hsql, Merge.text, deleteText, hd]
    simp
  obtain ⟨hmerge, hupdate, hset, hstart, hbehind⟩ := set_found h (by simp) rfl htext hn
  rw [← hsql, rewriteMergeMatchedDelete, if_neg (by rw [hmerge]; decide), hupdate]
  simp only [hset, hstart, hbehind, h.plain hd, reduceCtorEq, if_false]

/-- The condition of the `DELETE` ends where the insert starts, or at the end of the text. -/
lemma predicate_end {p : Phrase} (hp : Lead "WHEN".toList (' ' :: (p.text ++ [' ']))) :
    ∃ n, (findTopLevelKw (' ' :: (p.text ++ m.rest)) "WHEN".toList).getD
        (' ' :: (p.text ++ m.rest)).length = n ∧
      (∃ g, Gap g ∧ (' ' :: (p.text ++ m.rest)).take n = [' '] ++ (p.text ++ g)) ∧
      trimStart ((' ' :: (p.text ++ m.rest)).drop n) = m.tail := by
  have hnone : Gap [] := fun _ h => absurd h List.not_mem_nil
  unfold rest
  by_cases ht : m.tail = []
  · have hfree : findTopLevelKw (' ' :: p.text) "WHEN".toList = none :=
      findKwFrom_none_of_append (x := ' ' :: p.text) hp.free
    rw [if_pos ht, List.append_nil, hfree]
    refine ⟨_, rfl, ⟨[], hnone, ?_⟩, ?_⟩
    · rw [Option.getD_none, List.take_length, List.append_nil]
      rfl
    · rw [Option.getD_none, List.drop_length, ht]
      rfl
  · obtain ⟨i, hi⟩ : ∃ i, m.tail = "WHEN".toList ++ (' ' :: i) := by
      unfold tail insertText at ht ⊢
      split_ifs at ht ⊢ with hfirst
      · exact absurd rfl ht
      · cases hins : m.insert with
        | none =>
          rw [hins] at ht
          exact absurd rfl ht
        | some i => exact ⟨"NOT MATCHED THEN INSERT ".toList ++ i, rfl⟩
    have htext : ' ' :: (p.text ++ ' ' :: m.tail) =
        (' ' :: (p.text ++ [' '])) ++ ("WHEN".toList ++ (' ' :: i)) := by
      rw [hi]
      simp
    have hfirst : ∀ c ∈ "WHEN".toList.head?, c ≠ '\'' ∧ c ≠ '"' ∧ c ≠ '(' ∧ c ≠ ')' := by
      rw [show "WHEN".toList.head? = some 'W' from rfl]
      rintro _ ⟨⟩
      decide
    have hfind := findTopLevelKw_append (by decide) hfirst (by decide) (by decide) hp (by simp)
      (y := ' ' :: i) rfl
    rw [if_neg ht, htext, hfind]
    refine ⟨_, rfl, ⟨[' '], by decide, ?_⟩, ?_⟩
    · rw [Option.getD_some, List.take_left]
      rfl
    · rw [Option.getD_some, List.drop_left, hi]
      rfl

/-- The text after the first pass. -/
def afterFirst (m : Merge) (p : Phrase) : List Char :=
  m.head ++ ("WHEN MATCHED".toList ++ (" AND (".toList ++ ((rewritten m.assigns p).text ++
    (") THEN DELETE ".toList ++ ("WHEN MATCHED".toList ++ (" THEN UPDATE SET ".toList ++
      (assignmentsText m.assigns [] ++ (' ' :: m.tail))))))))

/-- **With a `DELETE` the first pass moves it in front of the update.** -/
theorem firstPass_some (h : m.Readable) {p : Phrase} (hd : m.delete = some p) :
    rewriteMergeMatchedDelete m.text = m.afterFirst p := by
  obtain ⟨sql, hsql⟩ : ∃ sql, sql = m.text := ⟨_, rfl⟩
  obtain ⟨n, hn⟩ : ∃ n, n = (m.head ++ "WHEN MATCHED THEN ".toList).length := ⟨_, rfl⟩
  obtain ⟨hlead, hwhen⟩ := h.delete p hd
  have hp := m.expressions.2 p hd
  obtain ⟨nextWhen, hnext, ⟨g, hg, htake⟩, htail⟩ := predicate_end (m := m) hwhen
  -- the text, cut at `DELETE`
  obtain ⟨y, hy⟩ : ∃ y, y = (' ' :: assignmentsText m.assigns [' ']) ++ ("DELETE".toList ++
      (" WHERE".toList ++ (' ' :: (p.text ++ m.rest)))) := ⟨_, rfl⟩
  have htext : sql = m.head ++ ("WHEN MATCHED THEN ".toList ++ ("UPDATE".toList ++
      (" SET".toList ++ y))) := by
    rw [hsql, Merge.text, deleteText, hd, hy, assignmentsText_append _ (_ ++ _),
      assignmentsText_append _ [' ']]
    simp
  obtain ⟨hmerge, hupdate, hset, hstart, hbehind⟩ :=
    set_found h (by simp [hy]) (by rw [hy]; rfl) htext hn
  have hfirst : ∀ c ∈ "DELETE".toList.head?, c ≠ '\'' ∧ c ≠ '"' ∧ c ≠ '(' ∧ c ≠ ')' := by
    rw [show "DELETE".toList.head? = some 'D' from rfl]
    rintro _ ⟨⟩
    decide
  have hdelete : findTopLevelKw y "DELETE".toList =
      some (' ' :: assignmentsText m.assigns [' ']).length := by
    rw [hy]
    exact findTopLevelKw_append (by decide) hfirst (by decide) (by decide) hlead (by simp) rfl
  obtain ⟨d, hdlen⟩ : ∃ d, d = (' ' :: assignmentsText m.assigns [' ']).length := ⟨_, rfl⟩
  have hafter : sql.drop (n + 6 + 4 + d + 6) = " WHERE".toList ++ (' ' :: (p.text ++ m.rest)) := by
    rw [← List.drop_drop, ← List.drop_drop, hbehind, hdlen, hy, List.drop_left]
    rfl
  have htrim : trimStart (sql.drop (n + 6 + 4 + d + 6)) =
      "WHERE".toList ++ (' ' :: (p.text ++ m.rest)) := by
    rw [hafter]
    exact trimStart_gap (g := [' ']) (by decide) ("WHERE".toList ++ _)
  have hwhere : startsWithWord "WHERE".toList (trimStart (sql.drop (n + 6 + 4 + d + 6))) = true := by
    rw [htrim]
    rfl
  have hpred : sql.drop (n + 6 + 4 + d + 6 + ((sql.drop (n + 6 + 4 + d + 6)).length -
      (trimStart (sql.drop (n + 6 + 4 + d + 6))).length) + 5) = ' ' :: (p.text ++ m.rest) := by
    have hlen : (sql.drop (n + 6 + 4 + d + 6)).length -
        (trimStart (sql.drop (n + 6 + 4 + d + 6))).length = 1 := by
      rw [htrim, hafter]
      simp only [List.length_append]
      have : " WHERE".toList.length = 6 := rfl
      have : "WHERE".toList.length = 5 := rfl
      omega
    rw [hlen, Nat.add_assoc, ← List.drop_drop, hafter]
    rfl
  have hassigns : trim ((sql.take (n + 6 + 4 + d)).drop (n + 6 + 4)) =
      assignmentsText m.assigns [] := by
    have hdt : (sql.take (n + 6 + 4 + d)).drop (n + 6 + 4) =
        [' '] ++ (assignmentsText m.assigns [] ++ [' ']) := by
      rw [List.drop_take, hbehind, Nat.add_sub_cancel_left, hdlen, hy, List.take_left,
        assignmentsText_append _ [' ']]
      rfl
    rw [hdt]
    exact trim_gaps (by decide) (by decide)
      (assignmentsText_trimmed m.nonempty m.validTargets m.expressions.1)
  have hpredicate : trim ((' ' :: (p.text ++ m.rest)).take nextWhen) = p.text := by
    rw [htake]
    exact trim_gaps (by decide) hg hp.trimmed
  have hhead : sql.take n = m.head ++ "WHEN MATCHED THEN ".toList := by
    rw [htext, hn, ← List.append_assoc, List.take_left]
  have hthen : rfind "THEN".toList (upper (sql.take n)) = some (m.head.length + 13) := by
    rw [hhead, upper_append, rfind_append (n := 13) (by decide), length_upper]
  have hthenEnd : (sql.take n).drop (m.head.length + 13 + 4) = [' '] := by
    rw [hhead, Nat.add_assoc, ← List.drop_drop, List.drop_left]
    rfl
  have hmatched : (sql.take n).take (m.head.length + 13) = m.head ++ "WHEN MATCHED ".toList := by
    have hsplit : m.head ++ "WHEN MATCHED THEN ".toList =
        (m.head ++ "WHEN MATCHED ".toList) ++ "THEN ".toList := by
      rw [List.append_assoc]
      rfl
    have hlen : m.head.length + 13 = (m.head ++ "WHEN MATCHED ".toList).length := by
      rw [List.length_append]
      rfl
    rw [hhead, hsplit, hlen, List.take_left]
  have hwhenAt : rfind "WHEN".toList (upper ((sql.take n).take (m.head.length + 13))) =
      some m.head.length := by
    rw [hmatched, upper_append, rfind_append (n := 0) (by decide), length_upper]
    rfl
  have hmatchedHead : trimEnd (((sql.take n).take (m.head.length + 13)).drop m.head.length) =
      "WHEN MATCHED".toList := by
    rw [hmatched, List.drop_left]
    rfl
  have hbefore : (sql.take n).take m.head.length = m.head := by
    rw [hhead, List.take_left]
  rw [← hsql, rewriteMergeMatchedDelete, if_neg (by rw [hmerge]; decide), hupdate]
  simp only [hset, hstart, hbehind, hdelete, ← hdlen, hwhere, hpred, hnext, hassigns, hpredicate,
    htail, hthen, hthenEnd, hwhenAt, hmatchedHead, hbefore, reduceCtorEq, if_false]
  have hblank : ¬ trim [' '] ≠ [] := by decide
  rw [if_neg hblank, substituteAssignments_text m.nonempty m.validTargets m.expressions.1 hp.lexed
    (h.words p hd).2.2, afterFirst]

/-! ### The second pass -/

/-- The first `INTO` is that of the head, and the alias stands behind it. -/
lemma alias_found (x : List Char) :
    find " INTO ".toList (upper (m.head ++ x)) = some 5 ∧
    ∃ afterInto, splitAtByte (byteLen ((m.head ++ x).take 5) + 6) (m.head ++ x) =
        some ("MERGE INTO ".toList, afterInto) ∧
      mergeAlias afterInto = some m.alias_ := by
  obtain ⟨s, hs⟩ : ∃ s, s = m.source ++ (' ' :: (m.sourceAlias ++ (" ON (".toList ++
      (m.cond ++ (") ".toList ++ if m.insert.isSome && m.insertFirst then m.insertText ++ [' ']
        else []))))) ++ x := ⟨_, rfl⟩
  obtain ⟨afterInto, hafter⟩ : ∃ afterInto, afterInto =
      m.table ++ (' ' :: (m.alias_ ++ (" USING ".toList ++ s))) := ⟨_, rfl⟩
  have htext : m.head ++ x = "MERGE INTO ".toList ++ afterInto := by
    unfold Merge.head
    rw [hafter, hs]
    generalize (if m.insert.isSome && m.insertFirst then m.insertText ++ [' '] else []) = first
    generalize "MERGE INTO ".toList = merge
    generalize " USING ".toList = using_
    generalize " ON (".toList = on_
    generalize ") ".toList = close
    simp only [List.append_assoc, List.cons_append]
  have hquiet : Quiet " INTO ".toList "MERGE".toList (" INTO ".toList ++ afterInto) := by
    rw [show " INTO ".toList = ' ' :: "INTO ".toList from rfl]
    exact Quiet.of_ne (by decide) _
  have hinto : "MERGE INTO ".toList = "MERGE".toList ++ " INTO ".toList := rfl
  have hcut : m.head ++ x = "MERGE".toList ++ (" INTO ".toList ++ afterInto) := by
    rw [htext, hinto, List.append_assoc]
  refine ⟨?_, afterInto, ?_, ?_⟩
  · rw [hcut, hquiet.find_word (by decide) (by decide)]
    rfl
  · have hbytes : byteLen ((m.head ++ x).take 5) + 6 = byteLen "MERGE INTO ".toList := by
      rw [hcut, show 5 = "MERGE".toList.length from rfl, List.take_left]
      rfl
    rw [hbytes, htext, splitAtByte_append]
  · obtain ⟨⟨htne, htable⟩, ⟨hane, halias⟩, -⟩ := m.names
    have hnone : Gap [] := fun _ h => absurd h List.not_mem_nil
    have hword : nextWord afterInto =
        some (m.table, [' '] ++ (m.alias_ ++ (" USING ".toList ++ s))) := by
      rw [hafter]
      exact nextWord_append hnone htne htable (by rintro _ ⟨⟩; rfl)
    have hnext : nextWord ([' '] ++ (m.alias_ ++ (" USING ".toList ++ s))) =
        some (m.alias_, " USING ".toList ++ s) :=
      nextWord_append (by decide) hane (fun c hc => (halias c hc).2.2) (by rintro _ ⟨⟩; rfl)
    rw [mergeAlias, hword]
    simp only [Option.bind_eq_bind, Option.bind_some, hnext, if_neg m.keywords.1]
    rfl

/-- **The second pass removes the alias from what stands behind the first ` SET `.** -/
theorem secondPass {x tail : List Char} (hset : Quiet " SET ".toList (m.head ++ x)
      (" SET ".toList ++ tail)) :
    rewriteMergeSetAliases (m.head ++ (x ++ (" SET ".toList ++ tail))) =
      some (m.head ++ (x ++ (" SET ".toList ++ removeAll (m.alias_ ++ ['.']) 0 tail))) := by
  obtain ⟨s, hs⟩ := m.head_eq
  obtain ⟨sql, hsql⟩ : ∃ sql, sql = m.head ++ (x ++ (" SET ".toList ++ tail)) := ⟨_, rfl⟩
  obtain ⟨hinto, afterInto, hcut, halias⟩ := alias_found (m := m) (x ++ (" SET ".toList ++ tail))
  have htrim : trimStart sql = sql := by
    rw [hsql, hs, List.append_assoc]
    exact (startsWith_merge _).1
  have hmerge : startsWith "MERGE ".toList sql = true := by
    rw [hsql, hs, List.append_assoc]
    exact (startsWith_merge _).2
  have hfind : find " SET ".toList (upper sql) = some (m.head ++ x).length := by
    rw [hsql, ← List.append_assoc]
    exact hset.find_word (by decide) (by decide)
  have hsplit : splitAtByte (byteLen (sql.take (m.head ++ x).length) + 5) sql =
      some ((m.head ++ x) ++ " SET ".toList, tail) := by
    have hbytes : byteLen (sql.take (m.head ++ x).length) + 5 =
        byteLen ((m.head ++ x) ++ " SET ".toList) := by
      rw [hsql, ← List.append_assoc, List.take_left, byteLen_append (m.head ++ x)]
      rfl
    have htext : sql = ((m.head ++ x) ++ " SET ".toList) ++ tail := by
      rw [hsql]
      simp only [List.append_assoc]
    rw [hbytes, htext, splitAtByte_append]
  rw [← hsql] at hinto hcut ⊢
  rw [rewriteMergeSetAliases, htrim, if_neg (by rw [hmerge]; decide), hinto]
  simp only [hcut, Option.bind_eq_bind, Option.bind_some, halias, if_neg m.keywords.2, hfind,
    hsplit]
  simp only [List.append_assoc]
  rfl

/-- The text of the head has no ` SET ` before a `WHEN`. -/
lemma quiet_head (h : m.Readable) {y : List Char} (hy : y.head? = some 'W') :
    Quiet " SET ".toList m.head y := by
  rw [show " SET ".toList = ' ' :: "SET ".toList from rfl]
  refine Quiet.of_without h.set_ fun c hc => ?_
  rw [hy] at hc
  obtain rfl := Option.some.inj hc
  decide

/-- `UPDATE` stands in front of the ` SET `. -/
lemma quiet_update {x : List Char} (hx : Without " SET ".toList x) (y : List Char) :
    Quiet " SET ".toList (x ++ "UPDATE".toList) y := by
  rw [show " SET ".toList = ' ' :: "SET ".toList from rfl]
  refine Quiet.append (Quiet.of_without hx ?_) (Quiet.of_ne (by decide) y)
  rintro _ ⟨⟩
  decide

end Passes

end DbSaci.Merge
