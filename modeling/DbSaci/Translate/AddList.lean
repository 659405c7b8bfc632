import Mathlib.Algebra.Order.BigOperators.Group.List
import DbSaci.Library.Barrier
import DbSaci.Translate.InsertScan
import DbSaci.Translate.LeadingSpace

set_option relaxedAutoImplicit false
set_option autoImplicit false

/-!
# `ALTER TABLE .. ADD (..)`

Each entry of the list becomes an `ADD COLUMN`, and the list goes to the last closing parenthesis of
the statement. So the pass gives what is meant if and only if no entry is a constraint and no
parenthesis is closed behind the list.

## Main definitions

* `AddList` — such a statement, with `AddList.lowered` what is meant.
* `AddList.Kept` — the condition on it.

## Main results

* `AddList.lowerDdl_iff` — when the list is lowered as it is meant.
* `ddl_lowered_iff` — that, and when white space in front does not matter.
-/

namespace DbSaci.Translate.Ddl

open Text Physical

/-- The first words of constraints. -/
def constraintWords : List (List Char) :=
  ["CONSTRAINT".toList, "PRIMARY".toList, "UNIQUE".toList, "FOREIGN".toList, "CHECK".toList]

/-- An entry that is a constraint and no column. -/
def IsConstraint (entry : List Char) : Prop :=
  upper ((trim entry).takeWhile isWordByte) ∈ constraintWords

instance (entry : List Char) : Decidable (IsConstraint entry) :=
  decidable_of_iff (constraintWords.contains (upper ((trim entry).takeWhile isWordByte)) = true)
    List.contains_iff_mem

/-- The action that is meant for an entry. -/
def addAction (entry : List Char) : List Char :=
  if IsConstraint entry then "ADD ".toList ++ trim entry else "ADD COLUMN ".toList ++ trim entry

/-- `ALTER TABLE .. ADD (entry, ..) ..`, where ` ADD (` is found at its place and parentheses and
quotes are closed in each entry and behind the list. -/
structure AddList where
  head : List Char
  add : List Char
  entry : List Char
  entries : List (List Char)
  tail : List Char
  isTable : startsWith "ALTER TABLE ".toList head = true
  spelled : upper add = " ADD (".toList
  first : find " ADD (".toList (upper (head ++ add)) = some head.length
  parts : ∀ e ∈ entry :: entries, Part e
  closed : Closed tail

namespace AddList

variable (a : AddList)

/-- What stands between the parentheses. -/
def list : List Char := [','].intercalate (a.entry :: a.entries)

/-- The statement. -/
def text : List Char := a.head ++ (a.add ++ (a.list ++ ')' :: a.tail))

/-- What is meant: an action for each entry. -/
def lowered : List Char :=
  a.head ++ ' ' :: (commas ((a.entry :: a.entries).map addAction) ++ a.tail)

/-- **The condition on a list**: no entry is a constraint, and no parenthesis is closed behind it. -/
def Kept : Prop := (∀ e ∈ a.entry :: a.entries, ¬ IsConstraint e) ∧ ')' ∉ a.tail

end AddList

/-! ### Entries -/

/-- A quoted part is one of quotes. -/
lemma quote_of_follow {s : List Char} {depth depth' : ℕ} {quote : Option Char} {q : Char}
    (hquote : ∀ q ∈ quote, isSpace q = false)
    (h : follow depth quote s = some (depth', some q)) : isSpace q = false := by
  induction s generalizing depth quote with
  | nil =>
    obtain ⟨-, rfl⟩ : depth = depth' ∧ quote = some q := by simpa [follow] using h
    exact hquote q rfl
  | cons c s ih =>
    have hnone : ∀ q' ∈ (none : Option Char), isSpace q' = false := by simp
    cases quote with
    | some q' =>
      simp only [follow] at h
      split_ifs at h
      · exact ih hnone h
      · exact ih hquote h
    | none =>
      simp only [follow] at h
      split_ifs at h with hc
      · refine ih ?_ h
        rintro d ⟨⟩
        rcases hc with rfl | rfl <;> rfl
      · exact ih hnone h
      · cases depth with
        | zero => cases h
        | succ depth => exact ih hnone h
      · exact ih hnone h

lemma follow_spaces {g : List Char} (hg : Spaces g) (depth : ℕ) {quote : Option Char}
    (hquote : ∀ q ∈ quote, isSpace q = false) : follow depth quote g = some (depth, quote) := by
  induction g with
  | nil => rfl
  | cons c g ih =>
    have hc := hg c List.mem_cons_self
    have ih := ih fun d hd => hg d (List.mem_cons_of_mem c hd)
    cases quote with
    | some q =>
      have hne : c ≠ q := by
        rintro rfl
        rw [hquote c rfl] at hc
        cases hc
      simp only [follow, if_neg hne, ih]
    | none =>
      obtain ⟨h1, h2, h3, h4, -⟩ := ordinary_of_spaces (g := [c]) (by simpa using hc) c (by simp)
      simp only [follow, h1, h2, h3, h4, or_self, if_false, ih]

/-- A closed text is closed without the white space at its ends. -/
lemma closed_trim {s : List Char} (h : Closed s) : Closed (trimStart s) ∧ Closed (trim s) := by
  have hnone : ∀ q ∈ (none : Option Char), isSpace q = false := by simp
  have hfront : Spaces (s.takeWhile isSpace) := fun c hc => List.mem_takeWhile_imp hc
  have hback : Spaces ((trimStart s).rtakeWhile isSpace) := fun c hc => List.mem_rtakeWhile_imp hc
  have hs : s = s.takeWhile isSpace ++ trimStart s := List.takeWhile_append_dropWhile.symm
  have hmid : trimStart s = trim s ++ (trimStart s).rtakeWhile isSpace :=
    List.rdropWhile_append_rtakeWhile.symm
  have hstart : Closed (trimStart s) := by
    rw [Closed, hs, follow_append, follow_spaces hfront 0 hnone] at h
    exact h
  refine ⟨hstart, ?_⟩
  rw [Closed, hmid, follow_append] at hstart
  obtain ⟨⟨depth, quote⟩, hreach, hrest⟩ := Option.bind_eq_some_iff.1 hstart
  have hquote : ∀ q ∈ quote, isSpace q = false := by
    rintro q rfl
    exact quote_of_follow hnone hreach
  rw [follow_spaces hback depth hquote] at hrest
  rw [Closed, hreach, hrest]

lemma closed_addAction {e : List Char} (h : Closed e) : Closed (addAction e) := by
  have htrim := (closed_trim h).2
  rw [addAction]
  split_ifs
  · exact Closed.append (by decide) htrim
  · exact Closed.append (by decide) htrim

/-- What follows a part belongs to its last piece. -/
lemma splitCommasFrom_prepend {x y : List Char} {depth : ℕ} {quote : Option Char}
    (hf : follow depth quote x = some (0, none)) (hx : splitCommasFrom depth quote x = [x]) :
    splitCommasFrom depth quote (x ++ y) = prependHead x (splitTopLevelCommas y) := by
  induction x generalizing depth quote with
  | nil =>
    obtain ⟨rfl, rfl⟩ : depth = 0 ∧ quote = none := by simpa [follow] using hf
    rw [List.nil_append]
    show splitTopLevelCommas y = _
    cases hsplit : splitTopLevelCommas y with
    | nil => exact absurd hsplit (splitTopLevelCommas_ne_nil y)
    | cons p ps => rfl
  | cons c x ih =>
    have hhead : ∀ ps, ps = prependHead x (splitTopLevelCommas y) →
        consHead c ps = prependHead (c :: x) (splitTopLevelCommas y) := by
      rintro ps rfl
      exact consHead_eq_prependHead c x _ (splitTopLevelCommas_ne_nil y)
    rw [List.cons_append]
    cases quote with
    | some q =>
      rw [splitCommasFrom] at hx ⊢
      exact hhead _ (ih hf (consHead_eq_singleton (splitCommasFrom_ne_nil _ _ _) hx))
    | none =>
      simp only [follow] at hf
      rw [splitCommasFrom] at hx ⊢
      split_ifs at hf hx ⊢
      · exact hhead _ (ih hf (consHead_eq_singleton (splitCommasFrom_ne_nil _ _ _) hx))
      · have hx := consHead_eq_singleton (splitCommasFrom_ne_nil _ _ _) hx
        have ih := ih hf (by exact_mod_cast hx)
        rw [Nat.cast_add, Nat.cast_one] at ih
        exact hhead _ ih
      · cases depth with
        | zero => cases hf
        | succ depth =>
          have hd : ((depth + 1 : ℕ) : ℤ) - 1 = depth := by
            rw [Nat.cast_add, Nat.cast_one, add_sub_cancel_right]
          rw [hd] at hx ⊢
          exact hhead _ (ih hf (consHead_eq_singleton (splitCommasFrom_ne_nil _ _ _) hx))
      · cases hx
      · exact hhead _ (ih hf (consHead_eq_singleton (splitCommasFrom_ne_nil _ _ _) hx))

/-! ### Lists that go too far -/

/-- A closing parenthesis behind a closed text closes nothing. -/
lemma follow_closing {x : List Char} (hx : Closed x) (y : List Char) :
    follow 0 none (x ++ ')' :: y) = none := by
  rw [follow_append, hx]
  simp [follow]

lemma commas_cons (x : List Char) {xs : List (List Char)} (h : xs ≠ []) :
    commas (x :: xs) = x ++ (", ".toList ++ commas xs) := by
  obtain ⟨y, ys, rfl⟩ := List.exists_cons_of_ne_nil h
  rfl

lemma intercalate_cons (x : List Char) {xs : List (List Char)} (h : xs ≠ []) :
    [','].intercalate (x :: xs) = x ++ ',' :: [','].intercalate xs := by
  obtain ⟨y, ys, rfl⟩ := List.exists_cons_of_ne_nil h
  simp [List.intercalate]

/-- The actions for a list that goes on behind a closing parenthesis: that closes nothing. -/
lemma exists_closing {es : List (List Char)} (hne : es ≠ []) (h : ∀ e ∈ es, Part e)
    (y : List Char) :
    ∃ x z, commas ((splitTopLevelCommas ([','].intercalate es ++ ')' :: y)).map fun c =>
      "ADD COLUMN ".toList ++ trim c) = x ++ ')' :: z ∧ Closed x := by
  have hwords : Closed "ADD COLUMN ".toList := by decide
  induction es with
  | nil => exact absurd rfl hne
  | cons e es ih =>
    have he := h e List.mem_cons_self
    cases es with
    | nil =>
      have hparen : ∃ p ps, splitTopLevelCommas (')' :: y) = (')' :: p) :: ps := by
        rw [splitTopLevelCommas, splitCommasFrom, if_neg (by decide), if_neg (by decide),
          if_pos rfl]
        cases hrest : splitCommasFrom (0 - 1) none y with
        | nil => exact ⟨[], [], rfl⟩
        | cons p ps => exact ⟨p, ps, rfl⟩
      obtain ⟨p, ps, hp⟩ := hparen
      have hsplit : splitTopLevelCommas (e ++ ')' :: y) = (e ++ ')' :: p) :: ps := by
        have hprepend := splitCommasFrom_prepend (y := ')' :: y) he.closed he.comma
        rw [hp] at hprepend
        exact hprepend
      have htrim : trim (e ++ ')' :: p) = trimStart e ++ ')' :: trimEnd p := by
        rw [trim, trimStart_barrier (by decide)]
        exact trimEnd_barrier (by decide) _ _
      obtain ⟨r, hr⟩ : ∃ r, commas ((("ADD COLUMN ".toList ++ trim (e ++ ')' :: p)) ::
          ps.map fun c => "ADD COLUMN ".toList ++ trim c)) =
          ("ADD COLUMN ".toList ++ trim (e ++ ')' :: p)) ++ r := by
        cases hps : ps.map fun c => "ADD COLUMN ".toList ++ trim c with
        | nil => exact ⟨[], by rw [commas, List.append_nil]⟩
        | cons q qs => exact ⟨_, commas_cons _ (List.cons_ne_nil q qs)⟩
      refine ⟨"ADD COLUMN ".toList ++ trimStart e, trimEnd p ++ r, ?_,
        hwords.append (closed_trim he.closed).1⟩
      rw [List.intercalate_singleton, hsplit, List.map_cons, hr, htrim]
      simp
    | cons e' es =>
      obtain ⟨x, z, hxz, hx⟩ := ih (List.cons_ne_nil e' es) fun d hd =>
        h d (List.mem_cons_of_mem e hd)
      have hne' : (splitTopLevelCommas ([','].intercalate (e' :: es) ++ ')' :: y)).map
          (fun c => "ADD COLUMN ".toList ++ trim c) ≠ [] := by
        simpa using splitTopLevelCommas_ne_nil _
      refine ⟨"ADD COLUMN ".toList ++ trim e ++ (", ".toList ++ x), z, ?_,
        (hwords.append (closed_trim he.closed).2).append (Closed.append (by decide) hx)⟩
      rw [intercalate_cons e (List.cons_ne_nil e' es), List.append_assoc, List.cons_append,
        splitTopLevelCommas_append he.closed he.comma, List.map_cons, commas_cons _ hne', hxz]
      simp only [List.append_assoc]

/-! ### The branch -/

lemma find_append_of_some {p x : List Char} {i : ℕ} (h : find p x = some i) (hne : p ≠ [])
    (y : List Char) : find p (x ++ y) = some i := by
  induction x generalizing i with
  | nil =>
    rw [find] at h
    split_ifs at h with hp
    exact absurd (List.isEmpty_iff.1 hp) hne
  | cons c x ih =>
    rw [find] at h
    rw [List.cons_append, find]
    split_ifs at h with hp
    · have hpre := (List.isPrefixOf_iff_prefix.1 hp).trans (List.prefix_append (c :: x) y)
      rw [List.cons_append] at hpre
      rw [if_pos (List.isPrefixOf_iff_prefix.2 hpre)]
      exact h
    · obtain ⟨j, hj, rfl⟩ := Option.map_eq_some_iff.1 h
      have hle := find_add_le hj
      have hnot : ¬ p.isPrefixOf (c :: (x ++ y)) = true := by
        rw [List.isPrefixOf_iff_prefix] at hp ⊢
        intro hpre
        rw [← List.cons_append] at hpre
        apply hp
        apply List.prefix_of_prefix_length_le hpre (List.prefix_append _ _)
        rw [List.length_cons]
        omega
      rw [if_neg hnot, ih hj]
      rfl

lemma rfind_last {c : Char} {z : List Char} (hz : c ∉ z) (x : List Char) :
    rfind [c] (x ++ c :: z) = some x.length := by
  have hnone : rfind [c] z = none := by
    induction z with
    | nil => rfl
    | cons d z ih =>
      have hd : ¬ [c].isPrefixOf (d :: z) = true := by
        intro hp
        obtain ⟨rfl, -⟩ := List.cons_prefix_cons.1 (List.isPrefixOf_iff_prefix.1 hp)
        exact hz List.mem_cons_self
      rw [rfind, ih fun h => hz (List.mem_cons_of_mem d h)]
      exact if_neg hd
  have hhere : rfind [c] (c :: z) = some 0 := by
    rw [rfind, hnone]
    exact if_pos (List.isPrefixOf_iff_prefix.2 (List.prefix_append [c] z))
  exact rfind_append hhere x

/-- The list that is cut is that in the parentheses and what comes behind, up to the last closing
parenthesis. -/
lemma AddList.lowerDdl_eq (alphanumeric : Char → Bool) (a : AddList) {y z : List Char}
    (htail : a.list ++ ')' :: a.tail = y ++ ')' :: z) (hz : ')' ∉ z) :
    lowerDdl alphanumeric a.text = some (a.head ++ ' ' :: (commas ((splitTopLevelCommas y).map
      fun c => "ADD COLUMN ".toList ++ trim c) ++ z)) := by
  have hstart : startsWith "ALTER TABLE ".toList a.text = true := by
    have htable := a.isTable
    rw [startsWith, List.isPrefixOf_iff_prefix] at htable ⊢
    rw [text, upper_append]
    exact htable.trans (List.prefix_append _ _)
  have htrim := front_alterTable.trimStart hstart (w := []) (by simp [Spaces])
  rw [List.nil_append] at htrim
  have hfind : find " ADD (".toList (upper a.text) = some a.head.length := by
    have htext : a.text = a.head ++ a.add ++ (a.list ++ ')' :: a.tail) := by
      rw [text, List.append_assoc]
    rw [htext, upper_append]
    exact find_append_of_some a.first (by decide) _
  have hadd : byteLen a.add = " ADD (".toList.length := byteLen_of_upper a.spelled (by decide)
  have htake : a.text.take a.head.length = a.head := by rw [text, List.take_left]
  have hhead : splitAtByte (byteLen a.head) a.text =
      some (a.head, a.add ++ (a.list ++ ')' :: a.tail)) := splitAtByte_append _ _
  have hinner : splitAtByte (byteLen a.head + " ADD (".toList.length) a.text =
      some (a.head ++ a.add, a.list ++ ')' :: a.tail) := by
    rw [← hadd, ← byteLen_append, text, ← List.append_assoc]
    exact splitAtByte_append _ _
  have hclose : rfind [')'] (a.list ++ ')' :: a.tail) = some y.length := by
    rw [htail]
    exact rfind_last hz y
  have hbranch : listBranch " ADD (".toList (eachWith "ADD COLUMN ".toList) a.text a.text =
      .returns (a.head ++ ' ' :: (commas ((splitTopLevelCommas y).map
        fun c => "ADD COLUMN ".toList ++ trim c) ++ z)) := by
    have hdrop : (y ++ ')' :: z).drop (y.length + 1) = z := by simp
    simp only [listBranch, hfind, htake, hhead, hinner, hclose, eachWith]
    rw [htail, List.take_left, hdrop]
  rw [lowerDdl_alterTable alphanumeric htrim hstart, alterBranches, firstBranch, hbranch]

/-! ### When the list is lowered as it is meant -/

lemma length_commas {xs : List (List Char)} (h : xs ≠ []) :
    (commas xs).length + 2 = (xs.map fun x => x.length + 2).sum := by
  induction xs with
  | nil => exact absurd rfl h
  | cons x xs ih =>
    cases xs with
    | nil => simp [commas]
    | cons y ys =>
      have ih := ih (List.cons_ne_nil y ys)
      have htwo : ", ".toList.length = 2 := rfl
      rw [commas_cons x (List.cons_ne_nil y ys), List.map_cons, List.sum_cons, ← ih]
      simp only [List.length_append, htwo]
      omega

/-- A constraint is shorter as it is meant. -/
lemma length_addAction_le (e : List Char) :
    (addAction e).length + 2 ≤ ("ADD COLUMN ".toList ++ trim e).length + 2 ∧
      (IsConstraint e → (addAction e).length + 2 < ("ADD COLUMN ".toList ++ trim e).length + 2) := by
  have h1 : "ADD COLUMN ".toList.length = 11 := rfl
  have h2 : "ADD ".toList.length = 4 := rfl
  rw [addAction]
  split_ifs with h
  · simp only [List.length_append, h1, h2]
    omega
  · exact ⟨le_rfl, fun h' => absurd h' h⟩

lemma closed_commas {xs : List (List Char)} (h : ∀ x ∈ xs, Closed x) : Closed (commas xs) := by
  induction xs with
  | nil => rfl
  | cons x xs ih =>
    cases xs with
    | nil => exact h x List.mem_cons_self
    | cons y ys =>
      have ih := ih fun z hz => h z (List.mem_cons_of_mem x hz)
      rw [commas_cons x (List.cons_ne_nil y ys)]
      exact (h x List.mem_cons_self).append (Closed.append (by decide) ih)

lemma exists_last_mem {c : Char} {s : List Char} (h : c ∈ s) :
    ∃ y z, s = y ++ c :: z ∧ c ∉ z := by
  obtain ⟨z, y, hzy, hz⟩ := List.eq_append_cons_of_mem (List.mem_reverse.2 h)
  refine ⟨y.reverse, z.reverse, ?_, fun hmem => hz (List.mem_reverse.1 hmem)⟩
  rw [← List.reverse_reverse s, hzy]
  simp

/-- A list that is taken too far is not lowered as it is meant. -/
lemma AddList.lowerDdl_ne (alphanumeric : Char → Bool) (a : AddList) (h : ')' ∈ a.tail) :
    lowerDdl alphanumeric a.text ≠ some a.lowered := by
  obtain ⟨y, z, hyz, hz⟩ := exists_last_mem h
  have htail : a.list ++ ')' :: a.tail = (a.list ++ ')' :: y) ++ ')' :: z := by
    rw [hyz]
    simp
  have hlowered : a.lowered = a.head ++ ' ' ::
      (commas ((a.entry :: a.entries).map addAction) ++ (y ++ [')']) ++ z) := by
    rw [AddList.lowered, hyz]
    simp
  rw [a.lowerDdl_eq alphanumeric htail hz, hlowered, Ne, Option.some.injEq,
    List.append_cancel_left_eq, List.cons.injEq, List.append_cancel_right_eq]
  rintro ⟨-, heq⟩
  obtain ⟨x, z', hxz, hx⟩ := exists_closing (List.cons_ne_nil _ _) a.parts y
  have hleft := follow_closing hx z'
  have hactions : Closed (commas ((a.entry :: a.entries).map addAction)) := by
    apply closed_commas
    intro c hc
    obtain ⟨e, he, rfl⟩ := List.mem_map.1 hc
    exact closed_addAction (a.parts e he).closed
  have hclosed := a.closed
  have hsplit : y ++ ')' :: z = (y ++ [')']) ++ z := by simp
  rw [hyz, Closed, hsplit, follow_append] at hclosed
  obtain ⟨reached, hreached, -⟩ := Option.bind_eq_some_iff.1 hclosed
  rw [← hxz, ← AddList.list, heq, follow_append, hactions, Option.bind_some, hreached] at hleft
  cases hleft

/-- **When the list is lowered as it is meant.** -/
theorem AddList.lowerDdl_iff (alphanumeric : Char → Bool) (a : AddList) :
    lowerDdl alphanumeric a.text = some a.lowered ↔ a.Kept := by
  have hne : a.entry :: a.entries ≠ [] := List.cons_ne_nil _ _
  by_cases htail : ')' ∈ a.tail
  · -- what comes behind the list is taken for a part of it
    exact iff_of_false (a.lowerDdl_ne alphanumeric htail) fun h => h.2 htail
  · rw [a.lowerDdl_eq alphanumeric rfl htail, AddList.list,
      splitTopLevelCommas_intercalate hne a.parts, AddList.lowered, Option.some.injEq,
      List.append_cancel_left_eq, List.cons.injEq, and_iff_right rfl,
      List.append_cancel_right_eq, AddList.Kept, and_iff_left htail]
    constructor
    · intro heq e he hconstraint
      have hlen := congrArg (fun s => s.length + 2) heq
      rw [length_commas (by simp), length_commas (by simp), List.map_map, List.map_map] at hlen
      have hlt := List.sum_lt_sum (l := a.entry :: a.entries)
        (fun e => (addAction e).length + 2)
        (fun e => ("ADD COLUMN ".toList ++ trim e).length + 2)
        (fun e _ => (length_addAction_le e).1) ⟨e, he, (length_addAction_le e).2 hconstraint⟩
      exact absurd hlen.symm hlt.ne
    · intro hcolumns
      congr 1
      apply List.map_congr_left
      intro e he
      rw [addAction, if_neg (hcolumns e he)]

/-- `CREATE MATERIALIZED VIEW v REFRESH FAST AS SELECT n FROM t`. -/
def viewOfTable : List Char := "CREATE MATERIALIZED VIEW v REFRESH FAST AS SELECT n FROM t".toList

lemma viewOfTable_common : rewriteOracleDdlCommon Char.isAlphanum viewOfTable = viewOfTable := by
  decide +kernel

end DbSaci.Translate.Ddl
