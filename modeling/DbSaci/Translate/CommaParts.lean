import DbSaci.Library.LastWord
import DbSaci.Translate.TopLevel

set_option relaxedAutoImplicit false
set_option autoImplicit false

/-!
# Parts between commas

The texts between the commas at depth zero, put together and cut again.

## Main definitions

* `Part` — a text that is one of a list.
* `Ordinary` — characters that neither open, close nor separate.

## Main results

* `Part.append` — two parts in a row are one.
* `splitTopLevelCommas_intercalate`, `splitTopLevelCommas_listed` — the parts of a list.
* `map_trim_split_trim` — white space around a list.
-/

namespace DbSaci.Translate

open Text

lemma splitTopLevelCommas_ne_nil (s : List Char) : splitTopLevelCommas s ≠ [] :=
  splitCommasFrom_ne_nil 0 none s

/-- A text that is one of a list: it is closed and has no comma at depth zero. -/
structure Part (x : List Char) : Prop where
  closed : Closed x
  comma : splitTopLevelCommas x = [x]

instance (x : List Char) : Decidable (Part x) :=
  decidable_of_iff (Closed x ∧ splitTopLevelCommas x = [x])
    ⟨fun h => ⟨h.1, h.2⟩, fun h => ⟨h.closed, h.comma⟩⟩

/-- Characters that neither open, close nor separate. -/
def Ordinary (x : List Char) : Prop :=
  ∀ c ∈ x, c ≠ '\'' ∧ c ≠ '"' ∧ c ≠ '(' ∧ c ≠ ')' ∧ c ≠ ','

instance (x : List Char) : Decidable (Ordinary x) := by
  unfold Ordinary
  infer_instance

lemma Ordinary.append {x y : List Char} (hx : Ordinary x) (hy : Ordinary y) :
    Ordinary (x ++ y) := by
  intro c hc
  rcases List.mem_append.1 hc with hc | hc
  · exact hx c hc
  · exact hy c hc

lemma Ordinary.part {x : List Char} (h : Ordinary x) : Part x where
  closed := closed_of_ordinary fun c hc => ⟨(h c hc).1, (h c hc).2.1, (h c hc).2.2.1,
    (h c hc).2.2.2.1⟩
  comma := by
    have hnil : splitTopLevelCommas [] = [[]] := rfl
    have hsplit := splitTopLevelCommas_ordinary h hnil
    rwa [List.append_nil] at hsplit

/-- Capitals of letters are letters. -/
lemma ordinary_of_upper {x : List Char} (h : Ordinary (upper x)) : Ordinary x := by
  intro c hc
  have hup := h _ (List.mem_map_of_mem hc)
  rcases toUpper_cases c with heq | ⟨halpha, -⟩
  · rwa [heq] at hup
  · refine ⟨?_, ?_, ?_, ?_, ?_⟩ <;>
      · rintro rfl
        cases halpha

lemma ordinary_of_gap {g : List Char} (hg : Gap g) : Ordinary g := by
  intro c hc
  rcases isWhitespace_cases (hg c hc) with rfl | rfl | rfl | rfl <;> decide

lemma splitCommasFrom_append_part {x y : List Char} {depth : ℕ} {quote : Option Char}
    (hf : follow depth quote x = some (0, none)) (hx : splitCommasFrom depth quote x = [x])
    (hy : splitTopLevelCommas y = [y]) :
    splitCommasFrom depth quote (x ++ y) = [x ++ y] := by
  induction x generalizing depth quote with
  | nil =>
    obtain ⟨rfl, rfl⟩ : depth = 0 ∧ quote = none := by simpa [follow] using hf
    exact hy
  | cons c x ih =>
    rw [List.cons_append]
    cases quote with
    | some q =>
      rw [splitCommasFrom] at hx ⊢
      rw [ih hf (consHead_eq_singleton (splitCommasFrom_ne_nil _ _ _) hx)]
      rfl
    | none =>
      simp only [follow] at hf
      rw [splitCommasFrom] at hx ⊢
      split_ifs at hf hx ⊢
      · rw [ih hf (consHead_eq_singleton (splitCommasFrom_ne_nil _ _ _) hx)]
        rfl
      · have hx := consHead_eq_singleton (splitCommasFrom_ne_nil _ _ _) hx
        have ih := ih hf (by exact_mod_cast hx)
        rw [Nat.cast_add, Nat.cast_one] at ih
        rw [ih]
        rfl
      · cases depth with
        | zero => cases hf
        | succ depth =>
          have hd : ((depth + 1 : ℕ) : ℤ) - 1 = depth := by
            rw [Nat.cast_add, Nat.cast_one, add_sub_cancel_right]
          rw [hd] at hx ⊢
          rw [ih hf (consHead_eq_singleton (splitCommasFrom_ne_nil _ _ _) hx)]
          rfl
      · cases hx
      · rw [ih hf (consHead_eq_singleton (splitCommasFrom_ne_nil _ _ _) hx)]
        rfl

/-- **Two parts in a row are one.** -/
theorem Part.append {x y : List Char} (hx : Part x) (hy : Part y) : Part (x ++ y) where
  closed := hx.closed.append hy.closed
  comma := splitCommasFrom_append_part hx.closed hx.comma hy.comma

/-! ### Lists -/

/-- **The parts of a list** with commas in between. -/
theorem splitTopLevelCommas_intercalate {xs : List (List Char)} (hne : xs ≠ [])
    (h : ∀ x ∈ xs, Part x) : splitTopLevelCommas ([','].intercalate xs) = xs := by
  induction xs with
  | nil => exact absurd rfl hne
  | cons x xs ih =>
    have hx := h x List.mem_cons_self
    cases xs with
    | nil =>
      rw [List.intercalate_singleton]
      exact hx.comma
    | cons y xs =>
      have ih := ih (List.cons_ne_nil y xs) fun z hz => h z (List.mem_cons_of_mem x hz)
      have htext : [','].intercalate (x :: y :: xs) = x ++ ',' :: [','].intercalate (y :: xs) := by
        simp [List.intercalate]
      rw [htext, splitTopLevelCommas_append hx.closed hx.comma, ih]

/-- Texts with commas and blanks between them. -/
lemma commas_eq_intercalate (x : List Char) (xs : List (List Char)) :
    commas (x :: xs) = [','].intercalate (x :: xs.map (' ' :: ·)) := by
  induction xs generalizing x with
  | nil => simp [commas]
  | cons y xs ih =>
    rw [commas, ih, List.map_cons]
    cases xs <;> simp [List.intercalate]

lemma commas_append {xs ys : List (List Char)} (hx : xs ≠ []) (hy : ys ≠ []) :
    commas (xs ++ ys) = commas xs ++ (", ".toList ++ commas ys) := by
  induction xs with
  | nil => exact absurd rfl hx
  | cons x xs ih =>
    cases xs with
    | nil =>
      obtain ⟨y, ys, rfl⟩ := List.exists_cons_of_ne_nil hy
      rfl
    | cons x' xs =>
      have ih := ih (by simp)
      rw [List.cons_append, List.cons_append, commas, ← List.cons_append, ih, commas]
      simp only [List.append_assoc]

/-- **The parts of a list** with commas and blanks in between. -/
theorem splitTopLevelCommas_listed {x : List Char} {xs : List (List Char)}
    (h : ∀ y ∈ x :: xs, Part y) :
    splitTopLevelCommas (commas (x :: xs)) = x :: xs.map (' ' :: ·) := by
  have hblank : Part [' '] := Ordinary.part (by decide)
  rw [commas_eq_intercalate, splitTopLevelCommas_intercalate (List.cons_ne_nil _ _)]
  intro y hy
  rcases List.mem_cons.1 hy with rfl | hy
  · exact h y List.mem_cons_self
  · obtain ⟨z, hz, rfl⟩ := List.mem_map.1 hy
    exact hblank.append (h z (List.mem_cons_of_mem x hz))

/-! ### White space around a list -/

/-- Put a text behind the last part. -/
def appendLast (o : List Char) : List (List Char) → List (List Char)
  | [] => [o]
  | [p] => [p ++ o]
  | p :: q :: ps => p :: appendLast o (q :: ps)

/-- Put a text in front of the first part. -/
def prependHead (o : List Char) : List (List Char) → List (List Char)
  | [] => [o]
  | p :: ps => (o ++ p) :: ps

lemma appendLast_consHead (o : List Char) (c : Char) (ps : List (List Char)) (h : ps ≠ []) :
    appendLast o (consHead c ps) = consHead c (appendLast o ps) := by
  match ps with
  | [] => exact absurd rfl h
  | [p] => rfl
  | p :: q :: ps => rfl

lemma appendLast_cons (o p : List Char) {ps : List (List Char)} (h : ps ≠ []) :
    appendLast o (p :: ps) = p :: appendLast o ps := by
  match ps with
  | [] => exact absurd rfl h
  | q :: ps => rfl

lemma splitCommasFrom_ordinary {o : List Char} (ho : Ordinary o) (depth : ℤ)
    (quote : Option Char) (hq : ∀ q ∈ quote, q = '\'' ∨ q = '"') :
    splitCommasFrom depth quote o = [o] := by
  induction o with
  | nil => rw [splitCommasFrom]
  | cons c o ih =>
    have ih := ih fun d hd => ho d (List.mem_cons_of_mem c hd)
    obtain ⟨h1, h2, h3, h4, h5⟩ := ho c List.mem_cons_self
    cases quote with
    | none =>
      rw [splitCommasFrom, if_neg (not_or.2 ⟨h1, h2⟩), if_neg h3, if_neg h4,
        if_neg fun h => h5 h.1, ih]
      rfl
    | some q =>
      have hne : c ≠ q := by
        rintro rfl
        rcases hq c rfl with h | h
        · exact h1 h
        · exact h2 h
      rw [splitCommasFrom, if_neg hne, ih]
      rfl

/-- An ordinary text at the end is at the end of the last part. -/
lemma splitCommasFrom_append_ordinary {o : List Char} (ho : Ordinary o) (x : List Char) (depth : ℤ)
    (quote : Option Char) (hq : ∀ q ∈ quote, q = '\'' ∨ q = '"') :
    splitCommasFrom depth quote (x ++ o) = appendLast o (splitCommasFrom depth quote x) := by
  induction x generalizing depth quote with
  | nil =>
    have hnil : splitCommasFrom depth quote [] = [[]] := by rw [splitCommasFrom]
    rw [List.nil_append, splitCommasFrom_ordinary ho depth quote hq, hnil]
    rfl
  | cons c x ih =>
    rw [List.cons_append]
    have hcons := fun d q => appendLast_consHead o c _ (splitCommasFrom_ne_nil d q x)
    cases quote with
    | some q =>
      rw [splitCommasFrom, splitCommasFrom, ih, hcons]
      intro p hp
      split_ifs at hp
      · cases hp
      · exact hq p hp
    | none =>
      rw [splitCommasFrom, splitCommasFrom]
      split_ifs with h1 h2 h3 h4
      · rw [ih, hcons]
        intro q hq
        rw [← Option.some.inj hq]
        exact h1
      · rw [ih _ _ (by simp), hcons]
      · rw [ih _ _ (by simp), hcons]
      · rw [ih _ _ (by simp), appendLast_cons _ _ (splitCommasFrom_ne_nil _ _ _)]
      · rw [ih _ _ (by simp), hcons]

lemma consHead_eq_prependHead (c : Char) (o : List Char) (ps : List (List Char)) (h : ps ≠ []) :
    consHead c (prependHead o ps) = prependHead (c :: o) ps := by
  match ps with
  | [] => exact absurd rfl h
  | p :: ps => rfl

/-- An ordinary text in front is in front of the first part. -/
lemma splitTopLevelCommas_prepend {o : List Char} (ho : Ordinary o) (x : List Char) :
    splitTopLevelCommas (o ++ x) = prependHead o (splitTopLevelCommas x) := by
  induction o with
  | nil =>
    obtain ⟨p, ps, hps⟩ := List.exists_cons_of_ne_nil (splitTopLevelCommas_ne_nil x)
    rw [List.nil_append, hps]
    rfl
  | cons c o ih =>
    have ih := ih fun d hd => ho d (List.mem_cons_of_mem c hd)
    obtain ⟨h1, h2, h3, h4, h5⟩ := ho c List.mem_cons_self
    rw [← consHead_eq_prependHead c o _ (splitTopLevelCommas_ne_nil x), ← ih, List.cons_append, splitTopLevelCommas, splitCommasFrom, if_neg (not_or.2 ⟨h1, h2⟩),
      if_neg h3, if_neg h4, if_neg fun h => h5 h.1]
    rfl

lemma ordinary_of_spaces {g : List Char} (hg : ∀ c ∈ g, isSpace c = true) : Ordinary g := by
  intro c hc
  have hspace := hg c hc
  refine ⟨?_, ?_, ?_, ?_, ?_⟩ <;>
    · rintro rfl
      cases hspace

lemma trimStart_spaces {g : List Char} (hg : ∀ c ∈ g, isSpace c = true) (s : List Char) :
    trimStart (g ++ s) = trimStart s := List.dropWhile_append_of_pos hg

lemma trimEnd_spaces {g : List Char} (hg : ∀ c ∈ g, isSpace c = true) (s : List Char) :
    trimEnd (s ++ g) = trimEnd s := by
  rw [trimEnd, trimEnd, List.rdropWhile, List.rdropWhile, List.reverse_append,
    List.dropWhile_append_of_pos]
  intro c hc
  exact hg c (List.mem_reverse.1 hc)

lemma trimStart_append_spaces {g : List Char} (hg : ∀ c ∈ g, isSpace c = true) (s : List Char) :
    trimEnd (trimStart (s ++ g)) = trimEnd (trimStart s) := by
  induction s with
  | nil =>
    have hnil : trimStart g = [] := by
      have := trimStart_spaces hg []
      rwa [List.append_nil] at this
    rw [List.nil_append, hnil]
    rfl
  | cons c s ih =>
    by_cases hc : isSpace c = true
    · have hdrop : ∀ t, trimStart (c :: t) = trimStart t := fun t =>
        List.dropWhile_cons_of_pos hc
      rw [List.cons_append, hdrop, hdrop, ih]
    · rw [Bool.not_eq_true] at hc
      rw [List.cons_append, trimStart_of_head hc, trimStart_of_head hc, ← List.cons_append]
      exact trimEnd_spaces hg (c :: s)

lemma trim_append_spaces {g : List Char} (hg : ∀ c ∈ g, isSpace c = true) (s : List Char) :
    trim (s ++ g) = trim s := trimStart_append_spaces hg s

lemma trim_spaces_append {g : List Char} (hg : ∀ c ∈ g, isSpace c = true) (s : List Char) :
    trim (g ++ s) = trim s := by
  rw [trim, trim, trimStart_spaces hg]

lemma map_trim_prependHead {g : List Char} (hg : ∀ c ∈ g, isSpace c = true)
    (ps : List (List Char)) (h : ps ≠ []) : (prependHead g ps).map trim = ps.map trim := by
  match ps with
  | [] => exact absurd rfl h
  | p :: ps => simp only [prependHead, List.map_cons, trim_spaces_append hg]

lemma map_trim_appendLast {g : List Char} (hg : ∀ c ∈ g, isSpace c = true)
    (ps : List (List Char)) (h : ps ≠ []) : (appendLast g ps).map trim = ps.map trim := by
  induction ps with
  | nil => exact absurd rfl h
  | cons p ps ih =>
    cases ps with
    | nil => simp only [appendLast, List.map_cons, List.map_nil, trim_append_spaces hg]
    | cons q ps =>
      rw [appendLast_cons _ _ (List.cons_ne_nil q ps), List.map_cons, ih (List.cons_ne_nil q ps)]
      rfl

/-- **White space around a list** is trimmed with that around its parts. -/
theorem map_trim_split_trim (s : List Char) :
    (splitTopLevelCommas (trim s)).map trim = (splitTopLevelCommas s).map trim := by
  have hfront : ∀ c ∈ s.takeWhile isSpace, isSpace c = true := fun c hc =>
    List.mem_takeWhile_imp hc
  have hback : ∀ c ∈ (trimStart s).rtakeWhile isSpace, isSpace c = true := fun c hc =>
    List.mem_rtakeWhile_imp hc
  have hs : s = s.takeWhile isSpace ++ trimStart s := List.takeWhile_append_dropWhile.symm
  have hmid : trimStart s = trim s ++ (trimStart s).rtakeWhile isSpace :=
    List.rdropWhile_append_rtakeWhile.symm
  have hright := splitCommasFrom_append_ordinary (ordinary_of_spaces hback) (trim s) 0 none
    (by simp)
  rw [← hmid] at hright
  have hleft := splitTopLevelCommas_prepend (ordinary_of_spaces hfront) (trimStart s)
  rw [← hs] at hleft
  rw [hleft, map_trim_prependHead hfront _ (splitTopLevelCommas_ne_nil (trimStart s)),
    splitTopLevelCommas, splitTopLevelCommas, hright,
    map_trim_appendLast hback _ (splitCommasFrom_ne_nil 0 none (trim s))]

end DbSaci.Translate
