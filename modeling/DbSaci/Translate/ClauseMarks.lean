import DbSaci.Translate.ClauseOutcomes

set_option relaxedAutoImplicit false
set_option autoImplicit false

/-!
# What is left out of a statement

The pass leaves out the storage clauses of a statement and nothing else if and only if no keyword is
found in the other words and the clauses are such as it reads.

## Main results

* `mark_items_iff` — when the clauses of a statement are left out, and nothing else.
* `stripped_iff` — that, for a whole statement.
* `query_cache_not_stripped` — a table the name of which ends in a keyword.
-/

namespace DbSaci.Translate.Physical

open Text

variable (alphanumeric : Char → Bool)

/-! ### The run -/

section Run

variable {alphanumeric} {depth : ℤ} {last : Option Char}

/-- A character at which nothing is left out is kept. -/
lemma mark_keep {c : Char} {s : List Char} (hc : ¬ (c = '\'' ∨ c = '"'))
    (h : consumed alphanumeric depth last (c :: s) = none) :
    (clauseMarker alphanumeric).mark (depth, last) (c :: s) =
      (c, true) :: (clauseMarker alphanumeric).mark (depthAfter depth c, some c) s := by
  have hstep : clauseMarker alphanumeric (depth, last) c s =
      (0, true, depthAfter depth c, some c) := by
    rw [clauseMarker, if_neg hc, h]
  rw [Marker.mark_cons, hstep]
  rfl

/-- As much is left out as is consumed. -/
lemma mark_drop {c : Char} {s : List Char} {n : ℕ} (hc : ¬ (c = '\'' ∨ c = '"'))
    (h : consumed alphanumeric depth last (c :: s) = some (n + 1)) :
    (clauseMarker alphanumeric).mark (depth, last) (c :: s) =
      ((c :: s.take n).map fun d => (d, false)) ++
        (clauseMarker alphanumeric).mark (depth, last) (s.drop n) := by
  have hstep : clauseMarker alphanumeric (depth, last) c s = (n, false, depth, last) := by
    rw [clauseMarker, if_neg hc, h]
    rfl
  rw [Marker.mark_cons, hstep]

/-- A quoted part is kept. -/
lemma mark_quoted {q : Char} {body rest : List Char} (hq : q = '\'' ∨ q = '"')
    (hbody : Doubled q body) (hrest : ∀ c ∈ rest.head?, c ≠ q) :
    (clauseMarker alphanumeric).mark (depth, last) (q :: (body ++ q :: rest)) =
      ((q :: (body ++ [q])).map fun c => (c, true)) ++
        (clauseMarker alphanumeric).mark (depth, some q) rest := by
  have htext : body ++ q :: rest = (body ++ [q]) ++ rest := by simp
  have hskip : skipQuoted q (body ++ q :: rest) = (body ++ [q]).length := by
    rw [skipQuoted_doubled hbody hrest, List.length_append, List.length_singleton]
  have hstep : clauseMarker alphanumeric (depth, last) q ((body ++ [q]) ++ rest) =
      ((body ++ [q]).length, true, depth, some q) := by
    rw [clauseMarker, if_pos hq, ← htext, hskip, htext, List.take_left]
    simp
  rw [htext]
  exact Marker.mark_append _ hstep

lemma lastAfter_cons (last : Option Char) (c : Char) (x : List Char) :
    lastAfter last (c :: x) = lastAfter (some c) x := by
  cases x with
  | nil => rfl
  | cons d x =>
    have hsome : ∃ e, (d :: x).getLast? = some e :=
      ⟨_, List.getLast?_eq_some_getLast (List.cons_ne_nil d x)⟩
    obtain ⟨e, he⟩ := hsome
    rw [lastAfter, lastAfter, List.getLast?_cons_cons, he]
    rfl

lemma quiet_cons_iff {c : Char} {w rest : List Char} :
    Quiet alphanumeric depth last (c :: w) rest ↔
      consumed alphanumeric depth last (c :: (w ++ rest)) = none ∧
        Quiet alphanumeric depth (some c) w rest := by
  constructor
  · intro h
    refine ⟨h [] (c :: w) rfl (List.cons_ne_nil c w), fun x y hw hy => ?_⟩
    have hnone := h (c :: x) y (by rw [hw, List.cons_append]) hy
    rwa [lastAfter_cons] at hnone
  · rintro ⟨hnone, hquiet⟩ x y hw hy
    cases x with
    | nil =>
      rw [List.nil_append] at hw
      rw [← hw]
      exact hnone
    | cons d x =>
      obtain ⟨rfl, htail⟩ := List.cons.inj hw
      rw [lastAfter_cons]
      exact hquiet x y htail hy

lemma of_isNameChar {c : Char} (h : isNameChar c = true) (depth : ℤ) :
    ¬ (c = '\'' ∨ c = '"') ∧ depthAfter depth c = depth := by
  have hne : ∀ d, isNameChar d = false → c ≠ d := by
    rintro d hd rfl
    rw [h] at hd
    cases hd
  refine ⟨?_, ?_⟩
  · rintro (hc | hc)
    · exact hne '\'' (by decide) hc
    · exact hne '"' (by decide) hc
  · rw [depthAfter, if_neg (hne '(' (by decide)), if_neg (hne ')' (by decide))]

end Run

section Pieces

variable (depth : ℤ) (last : Option Char)

/-- A word is kept if and only if no keyword is found in it. -/
lemma mark_word_iff {w : List Char} (hw : ∀ c ∈ w, isNameChar c = true) (rest : List Char)
    (marks : List (Char × Bool)) :
    (clauseMarker alphanumeric).mark (depth, last) (w ++ rest) =
        w.map (fun c => (c, true)) ++ marks ↔
      Quiet alphanumeric depth last w rest ∧
        (clauseMarker alphanumeric).mark (depth, lastAfter last w) rest = marks := by
  induction w generalizing last with
  | nil =>
    have hquiet : Quiet alphanumeric depth last [] rest := by
      intro x y hxy hy
      exact absurd (List.append_eq_nil_iff.1 hxy.symm).2 hy
    exact (and_iff_right hquiet).symm
  | cons c w ih =>
    obtain ⟨hc, hdepth⟩ := of_isNameChar (hw c List.mem_cons_self) depth
    have ih := ih (some c) fun d hd => hw d (List.mem_cons_of_mem c hd)
    rw [quiet_cons_iff, lastAfter_cons, and_assoc, ← ih, List.cons_append, List.map_cons,
      List.cons_append]
    cases hcut : consumed alphanumeric depth last (c :: (w ++ rest)) with
    | none =>
      rw [mark_keep hc hcut, hdepth, List.cons.injEq]
      simp
    | some n =>
      refine iff_of_false ?_ (by simp)
      rw [Marker.mark_cons, clauseMarker, if_neg hc, hcut]
      simp

/-- The first letter of a clause. -/
lemma Clause.exists_cons {c : Clause} {rest : List Char} (h : c.Lexed rest) :
    ∃ d s, c.text = d :: s ∧ isWordByte d = true := by
  have hspelled : ∀ {L : List (List Char)}, (∀ K ∈ L, K.head?.any isWordByte = true) →
      ∀ {x : List Char}, upper x ∈ L → ∀ y, ∃ d s, x ++ y = d :: s ∧ isWordByte d = true := by
    intro L hL x hx y
    obtain ⟨d, hd, hword⟩ := (Option.any_eq_true isWordByte _).1 (hL _ hx)
    cases x with
    | nil => cases hd
    | cons e x =>
      obtain rfl := Option.some.inj hd
      rw [isWordByte_toUpper] at hword
      exact ⟨e, x ++ y, rfl, hword⟩
  cases c with
  | flag spelled =>
    have hone := hspelled (by decide) h.1 []
    rwa [List.append_nil] at hone
  | valued spelled gap value => exact hspelled (by decide) h.1 _
  | parallel spelled =>
    have hone := hspelled (L := ["PARALLEL".toList]) (by decide) (List.mem_singleton.2 h.1) []
    rwa [List.append_nil] at hone
  | storage spelled gap body =>
    exact hspelled (L := ["STORAGE".toList]) (by decide) (List.mem_singleton.2 h.1) _
  | lob spelled gap cols gap' store gap'' attrs =>
    exact hspelled (L := ["LOB".toList]) (by decide) (List.mem_singleton.2 h.1) _
  | state spelled follow =>
    have hword : upper spelled ∈ ["ENABLE".toList, "DISABLE".toList] := by
      simpa using state_spelled h
    exact hspelled (by decide) hword _

lemma not_quote_of_isWordByte {c : Char} (h : isWordByte c = true) : ¬ (c = '\'' ∨ c = '"') := by
  rintro (rfl | rfl) <;> cases h

/-- A token is not empty. -/
lemma Tok.exists_cons {t : Tok} {rest : List Char} (h : t.Lexed rest) : ∃ d s, t.text = d :: s := by
  cases t with
  | word w => exact List.exists_cons_of_ne_nil h.1
  | sym c => exact ⟨c, [], rfl⟩
  | quoted q body => exact ⟨q, _, rfl⟩
  | unclosed q body => exact ⟨q, _, rfl⟩

lemma eq_nil_of_itemsText {items : List Item} (h : Lexed items) (hnil : itemsText items = []) :
    items = [] := by
  cases items with
  | nil => rfl
  | cons i rest =>
    have htext : i.text = [] := (List.append_eq_nil_iff.1 hnil).1
    cases i with
    | tok t =>
      obtain ⟨d, s, hcons⟩ := Tok.exists_cons h.1
      rw [Item.text, hcons] at htext
      cases htext
    | clause c =>
      obtain ⟨d, s, hcons, -⟩ := Clause.exists_cons h.1
      rw [Item.text, hcons] at htext
      cases htext

/-- A clause is left out if and only if the pass reads it. -/
lemma mark_clause_iff {c : Clause} {rest : List Item} (h : c.Lexed (itemsText rest))
    (hrest : ∀ i ∈ rest.head?, ∃ t, i = .tok t) (hlexed : Lexed rest) :
    (clauseMarker alphanumeric).mark (depth, last) (c.text ++ itemsText rest) =
        c.text.map (fun c => (c, false)) ++ expected rest ↔
      c.Read alphanumeric depth last (itemsText rest) ∧
        (clauseMarker alphanumeric).mark (depth, last) (itemsText rest) = expected rest := by
  obtain ⟨d, s, htext, hword⟩ := Clause.exists_cons h
  have hd := not_quote_of_isWordByte hword
  have hout := Clause.outcome alphanumeric depth last h
  have htake : ∀ n, consumed alphanumeric depth last (c.text ++ itemsText rest) = some (n + 1) →
      (clauseMarker alphanumeric).mark (depth, last) (c.text ++ itemsText rest) =
        ((c.text ++ itemsText rest).take (n + 1)).map (fun e => (e, false)) ++
          (clauseMarker alphanumeric).mark (depth, last)
            ((c.text ++ itemsText rest).drop (n + 1)) := by
    intro n hn
    rw [htext, List.cons_append] at hn ⊢
    exact mark_drop hd hn
  rcases hout with ⟨hread, hcut⟩ | ⟨hread, hcut⟩
  · have hlen : c.text.length = s.length + 1 := by rw [htext, List.length_cons]
    rw [hlen] at hcut
    rw [htake _ hcut, ← hlen, List.take_left, List.drop_left, List.append_cancel_left_eq,
      and_iff_right hread]
  · refine iff_of_false ?_ fun h => hread h.1
    rcases hcut with hcut | ⟨n, hcut, ⟨x, e, y, hsplit, rfl, hx, he, hquote⟩ | ⟨hn, hne⟩⟩
    · -- the clause is kept
      rw [htext, List.cons_append] at hcut
      rw [htext, List.cons_append, mark_keep hd hcut]
      simp
    · -- the rest of the clause is kept
      obtain ⟨m, hm⟩ : ∃ m, x.length = m + 1 := Nat.exists_eq_succ_of_ne_zero (by simpa using hx)
      rw [hm] at hcut
      have hkeep : consumed alphanumeric depth last (e :: (y ++ itemsText rest)) = none :=
        consumed_none_of_head alphanumeric depth last (by simpa using he)
      rw [htake _ hcut, ← hm, hsplit, List.append_assoc, List.take_left, List.drop_left,
        List.cons_append, mark_keep (not_or.2 hquote) hkeep]
      simp
    · -- what stands behind the clause is left out
      obtain ⟨e, y, marks, htok, hexpected⟩ : ∃ e y marks, itemsText rest = e :: y ∧
          expected rest = (e, true) :: marks := by
        cases rest with
        | nil => exact absurd rfl hne
        | cons i rest =>
          obtain ⟨t, rfl⟩ := hrest i rfl
          obtain ⟨e, y, ht⟩ := Tok.exists_cons hlexed.1
          refine ⟨e, y ++ itemsText rest, y.map (fun c => (c, true)) ++ expected rest, ?_, ?_⟩
          · show t.text ++ itemsText rest = _
            rw [ht, List.cons_append]
          · show t.text.map (fun c => (c, true)) ++ expected rest = _
            rw [ht, List.map_cons, List.cons_append]
      obtain ⟨m, rfl⟩ : ∃ m, n = m + 1 := Nat.exists_eq_succ_of_ne_zero (by omega)
      obtain ⟨k, hk⟩ : ∃ k, m + 1 = c.text.length + (k + 1) :=
        ⟨m - c.text.length, by omega⟩
      rw [htake _ hcut, hk, List.take_length_add_append, htok, hexpected, List.take_succ_cons,
        List.map_append, List.append_assoc, List.append_cancel_left_eq]
      simp

end Pieces

/-- **The clauses of a statement are left out, and nothing else**, if and only if the statement is
spared. -/
theorem mark_items_iff (depth : ℤ) (last : Option Char) {items : List Item} (h : Lexed items) :
    (clauseMarker alphanumeric).mark (depth, last) (itemsText items) = expected items ↔
      Spared alphanumeric depth last items := by
  induction items generalizing depth last with
  | nil => exact iff_of_true rfl trivial
  | cons i rest ih =>
    cases i with
    | clause c =>
      obtain ⟨hc, hrest, hlexed⟩ := h
      have hiff := mark_clause_iff alphanumeric depth last hc hrest hlexed
      rw [ih depth last hlexed] at hiff
      exact hiff
    | tok t =>
      obtain ⟨ht, hlexed⟩ := h
      cases t with
      | word w =>
        have hiff := mark_word_iff alphanumeric depth last ht.2.1 (itemsText rest) (expected rest)
        rw [ih depth _ hlexed] at hiff
        exact hiff
      | sym c =>
        obtain ⟨hc, hquote⟩ := ht
        have hbyte : isWordByte c = false := by
          simp only [isNameChar, Bool.or_eq_false_iff] at hc
          exact hc.1.1.1
        have hkeep : consumed alphanumeric depth last (c :: itemsText rest) = none :=
          consumed_none_of_head alphanumeric depth last (by simpa using hbyte)
        have hmark := mark_keep (not_or.2 hquote) hkeep
        have hiff := ih (depthAfter depth c) (some c) hlexed
        show (clauseMarker alphanumeric).mark (depth, last) (c :: itemsText rest) =
          (c, true) :: expected rest ↔ Spared alphanumeric (depthAfter depth c) (some c) rest
        rw [hmark, ← hiff, List.cons.injEq, and_iff_right rfl]
      | quoted q body =>
        obtain ⟨hq, hbody, hends⟩ := ht
        have htext : itemsText (.tok (.quoted q body) :: rest) =
            q :: (body ++ q :: itemsText rest) := by
          simp [itemsText, Item.text, Tok.text]
        rw [htext, mark_quoted hq hbody hends]
        show _ = ((q :: (body ++ [q])).map fun c => (c, true)) ++ expected rest ↔
          Spared alphanumeric depth (some q) rest
        rw [List.append_cancel_left_eq, ih depth (some q) hlexed]
      | unclosed q body =>
        obtain ⟨hq, hskip, hrest⟩ := ht
        obtain rfl : rest = [] := eq_nil_of_itemsText hlexed hrest
        have hstep : clauseMarker alphanumeric (depth, last) q (body ++ []) =
            (body.length, true, depth, body.getLast?.or (some q)) := by
          rw [List.append_nil, clauseMarker, if_pos hq, hskip, List.take_length]
        have hmark := Marker.mark_append _ hstep
        rw [List.append_nil] at hmark
        refine iff_of_true ?_ trivial
        show (clauseMarker alphanumeric).mark (depth, last) (q :: body ++ []) = _
        rw [List.append_nil, hmark]
        rfl

/-- What is kept if the clauses are left out, and nothing else. -/
lemma kept_expected (items : List Item) : kept (expected items) =
    items.flatMap fun i => match i with
      | .tok t => t.text
      | .clause _ => [] := by
  induction items with
  | nil => rfl
  | cons i rest ih =>
    cases i with
    | tok t => rw [expected, kept_append, kept_map_true, ih, List.flatMap_cons]
    | clause c => rw [expected, kept_append, kept_map_false, ih, List.flatMap_cons]

/-- **The pass leaves out the clauses of a statement, and nothing else**, if and only if the
statement is spared. -/
theorem stripped_iff {sql : List Char} {items : List Item} (hddl : IsDdl sql)
    (htext : replaceDdlPrefix sql "CREATE BITMAP INDEX".toList "CREATE INDEX".toList =
      itemsText items) (hlexed : Lexed items) :
    stripOraclePhysicalClauses alphanumeric sql = kept (marked alphanumeric sql) ∧
      (marked alphanumeric sql = expected items ↔ Spared alphanumeric 0 none items) := by
  refine ⟨if_pos hddl, ?_⟩
  rw [marked, htext]
  exact mark_items_iff alphanumeric 0 none hlexed

/-! ### Two tables -/

/-- Words with blanks between them. -/
def words : List (List Char) → List Item
  | [] => []
  | [w] => [.tok (.word w)]
  | w :: ws => .tok (.word w) :: .tok (.sym ' ') :: words ws

/-- `CREATE TABLE t TABLESPACE users`. -/
def tableInUsers : List Item :=
  words ["CREATE".toList, "TABLE".toList, "t".toList] ++
    [.tok (.sym ' '), .clause (.valued "TABLESPACE".toList [' '] "users".toList)]

/-- `CREATE TABLE query_cache (id NUMBER)`. -/
def queryCache : List Item :=
  words ["CREATE".toList, "TABLE".toList, "query_cache".toList] ++
    .tok (.sym ' ') :: .tok (.sym '(') :: (words ["id".toList, "NUMBER".toList] ++
      [.tok (.sym ')')])

lemma nameEnds_cons (c : Char) (s : List Char) : NameEnds (c :: s) ↔ isNameChar c = false :=
  ⟨fun h => h c rfl, fun h d hd => by rwa [← Option.some.inj hd]⟩

lemma nameEnds_nil : NameEnds [] ↔ True := iff_true_intro fun _ hc => by cases hc

lemma lexed_tableInUsers : Lexed tableInUsers := by
  simp only [tableInUsers, words, List.cons_append, List.nil_append, Lexed, Tok.Lexed,
    Clause.Lexed, Spaces, itemsText, List.flatMap_cons, List.flatMap_nil, Item.text, Tok.text,
    Clause.text, nameEnds_cons, nameEnds_nil]
  have hvalue : ∀ c ∈ "users".toList.head?, isSpace c = false := fun c hc =>
    (by decide : ∀ c ∈ "users".toList, isSpace c = false) c (List.mem_of_mem_head? hc)
  refine ⟨by decide, by decide, by decide, by decide, by decide, by decide, ?_⟩
  refine ⟨⟨by decide, by decide, by decide, by decide, hvalue, trivial⟩, ?_, trivial⟩
  rintro i ⟨⟩

lemma lexed_queryCache : Lexed queryCache := by
  simp only [queryCache, words, List.cons_append, List.nil_append, Lexed, Tok.Lexed, itemsText,
    List.flatMap_cons, List.flatMap_nil, Item.text, Tok.text, nameEnds_cons]
  decide

/-- A table in a tablespace is spared. -/
theorem tableInUsers_spared : Spared Char.isAlphanum 0 none tableInUsers :=
  (stripped_iff Char.isAlphanum (by decide +kernel : IsDdl (itemsText tableInUsers))
    (by decide +kernel) lexed_tableInUsers).2.1 (by decide +kernel)

/-- A table the name of which ends in a keyword loses the end of its name. -/
theorem query_cache_not_stripped :
    IsDdl (itemsText queryCache) ∧ Lexed queryCache ∧
      marked Char.isAlphanum (itemsText queryCache) ≠ expected queryCache ∧
      stripOraclePhysicalClauses Char.isAlphanum (itemsText queryCache) =
        "CREATE TABLE query_ (id NUMBER)".toList :=
  ⟨by decide +kernel, lexed_queryCache, by decide +kernel, by decide +kernel⟩

end DbSaci.Translate.Physical
