import Mathlib.Logic.Relation
import DbSaci.Library.Traced

set_option relaxedAutoImplicit false
set_option autoImplicit false

/-!
# References to DUAL

`rewrite_mariadb_dual` removes `dual` from lists of tables and writes a query in the place of a
`dual` with an alias. The first by its letters, the second where `from dual` is found first.

## Main definitions

* `rewriteMariadbDual` — the pass, with `cutDual` and `replaceAliased` for its two halves.
* `Part` — what a text consists of, as far as `dual` goes.
* `Faithful` — what is meant.
* `OnlyDual` — the condition on a text.

## Main results

* `Drops.balance` — a list of tables keeps a table.
* `cutDual_iff` — when only references are removed.
* `replaceAliased_iff` — when each alias gets its query.
* `mariadbDual_faithful_iff` — when only references to `dual` are removed or replaced.
-/

namespace DbSaci.Translate.MariadbDual

open Text

/-! ### The pass -/

/-- The text in ASCII lower case. -/
def lower (s : List Char) : List Char := s.map Char.toLower

/-- The two removals. -/
def cutDual (sql : List Char) : List Char :=
  replaceCi "dual, ".toList [] (replaceCi ", dual".toList [] sql)

/-- A character of an alias. -/
def isAliasChar (c : Char) : Bool := c.isAlphanum || c == '_'

/-- The words behind `dual` that are no alias. -/
def clauseWords : List (List Char) :=
  ["WHERE".toList, "GROUP".toList, "ORDER".toList, "HAVING".toList, "UNION".toList,
    "CONNECT".toList, "START".toList, "FOR".toList, "LIMIT".toList, "MINUS".toList,
    "INTERSECT".toList, []]

/-- The word behind some white space. -/
def aliasWord (s : List Char) : List Char := (trimStart s).takeWhile isAliasChar

/-- The query in the place of `dual`. -/
def dualQuery : List Char := "(SELECT 'X' AS dummy) ".toList

/-- The replacement of the first `from dual` with an alias. What is behind the alias is cut by bytes
of the alias, and a cut within a character gives no result. -/
def replaceAliased (out : List Char) : Option (List Char) :=
  match find "from dual ".toList (lower out) with
  | none => some out
  | some at_ =>
    let behind := out.drop (at_ + "from dual ".length)
    if clauseWords.contains (upper (aliasWord behind)) then some out
    else
      (splitAtByte (aliasWord behind).length behind).map fun (_, tail) =>
        out.take at_ ++ "FROM ".toList ++ dualQuery ++ aliasWord behind ++ tail

/-- `rewrite_mariadb_dual`. -/
def rewriteMariadbDual (sql : List Char) : Option (List Char) := replaceAliased (cutDual sql)

/-! ### What is meant -/

/-- What a text consists of: a comma between two tables of a list, white space behind it, a
reference to `dual`, one with an alias and the white space in front of that, or any other
character. -/
inductive Part where
  | other (c : Char)
  | comma
  | blank (c : Char)
  | dual (w : List Char)
  | aliased (w g : List Char)
  deriving DecidableEq

namespace Part

/-- How a part is written. -/
def text : Part → List Char
  | other c => [c]
  | comma => [',']
  | blank c => [c]
  | dual w => w
  | aliased w g => w ++ g

/-- The letters of a part, each with the part that it is of. -/
def marked (p : Part) : List (Char × Part) := p.text.map (·, p)

/-- The part is no comma, no white space behind one and no reference without an alias. -/
def isKept : Part → Bool
  | other _ => true
  | aliased _ _ => true
  | _ => false

/-- The part is a reference with an alias. -/
def isAliased : Part → Bool
  | aliased _ _ => true
  | _ => false

/-- The part is a reference without an alias. -/
def isDual : Part → Bool
  | dual _ => true
  | _ => false

end Part

/-- The text of some parts. -/
def text (ps : List Part) : List Char := ps.flatMap Part.text

/-- The letters of some parts, each with the part that it is of. -/
def marked (ps : List Part) : List (Char × Part) := ps.flatMap Part.marked

/-- A reference is spelled `dual`, and an alias stands behind white space. -/
def Sound : List Part → Prop
  | [] => True
  | .other _ :: ps => Sound ps
  | .comma :: ps => Sound ps
  | .blank c :: ps => isSpace c = true ∧ Sound ps
  | .dual w :: ps => upper w = "DUAL".toList ∧ Sound ps
  | .aliased w g :: ps =>
    upper w = "DUAL".toList ∧ g ≠ [] ∧ (∀ c ∈ g, isSpace c = true) ∧
      (∃ c qs, ps = .other c :: qs ∧ isSpace c = false) ∧ Sound ps

/-- A reference without an alias is removed, with a comma beside it and white space behind that. -/
inductive Drop : List Part → List Part → Prop
  | behind (us : List Part) (g w : List Char) (vs : List Part) :
    Drop (us ++ .comma :: (g.map .blank ++ .dual w :: vs)) (us ++ vs)
  | front (us : List Part) (w g : List Char) (vs : List Part) :
    Drop (us ++ .dual w :: .comma :: (g.map .blank ++ vs)) (us ++ vs)

/-- Some references without an alias are removed. -/
abbrev Drops : List Part → List Part → Prop := Relation.ReflTransGen Drop

/-- A text whose last word is `FROM`, with this in capitals. -/
def fromCapital (before : List Char) : List Char :=
  if "from ".toList.isSuffixOf (lower before) then
    before.take (before.length - "from ".length) ++ "FROM ".toList
  else before

/-- What is meant behind a text: the query in the place of each reference with an alias. -/
def meantFrom : List Char → List Part → List Char
  | before, [] => before
  | before, .aliased _ _ :: ps => meantFrom (fromCapital before ++ dualQuery) ps
  | before, p :: ps => meantFrom (before ++ p.text) ps

/-- The text that is meant for some parts. -/
def meant (ps : List Part) : List Char := meantFrom [] ps

/-- The two removals, on letters with their marks. -/
def cutMarked (s : List (Char × Part)) : List (Char × Part) :=
  cutCi Prod.fst "dual, ".toList (cutCi Prod.fst ", dual".toList s)

/-- **Only references to `dual` are touched**: the letters that are removed are those of references
without an alias, each with a comma of its list, and in the text that is left each reference with an
alias is replaced. -/
def Faithful (ps : List Part) : Prop :=
  ∃ qs, Drops ps qs ∧ cutMarked (marked ps) = marked qs ∧
    rewriteMariadbDual (text ps) = some (meant qs)

/-! ### The condition -/

/-- The parts without the references behind a comma and one blank. -/
def dropBehind : List Part → List Part
  | .comma :: .blank ' ' :: .dual _ :: ps => dropBehind ps
  | p :: ps => p :: dropBehind ps
  | [] => []

/-- The parts without the references in front of a comma and one blank. -/
def dropFront : List Part → List Part
  | .dual _ :: .comma :: .blank ' ' :: ps => dropFront ps
  | p :: ps => p :: dropFront ps
  | [] => []

/-- The first `from dual` of a text has a word behind it that is no clause. -/
def Guessed (s : List Char) : Prop :=
  ∃ n, find "from dual ".toList (lower s) = some n ∧
    clauseWords.contains (upper (aliasWord (s.drop (n + "from dual ".length)))) = false

/-- **Aliases are seen as they are**: without one, no word behind the first `from dual` is taken for
one; else there is just one, with one blank in front of it, its reference is the first
`from dual`, and it is a word that names no clause. -/
def AliasSeen (ps : List Part) : Prop :=
  ((∀ p ∈ ps, p.isAliased = false) ∧ ¬ Guessed (text ps)) ∨
    ∃ us w vs n, ps = us ++ .aliased w [' '] :: vs ∧ (∀ p ∈ us, p.isAliased = false) ∧
      (∀ p ∈ vs, p.isAliased = false) ∧ find "from dual ".toList (lower (text ps)) = some n ∧
      n + "from ".length = (text us).length ∧
      clauseWords.contains (upper (aliasWord (text vs))) = false

/-- **The letters of `dual` are only those of references**: each place with `, dual` is one, then each
place with `dual, `, and then aliases are seen as they are. -/
structure OnlyDual (ps : List Part) : Prop where
  behind : Clear Prod.fst (fun x => x.2.isKept) ", DUAL".toList (marked ps)
  front : Clear Prod.fst (fun x => x.2.isKept) "DUAL, ".toList (marked (dropBehind ps))
  aliases : AliasSeen (dropFront (dropBehind ps))

/-! ### Parts and their letters -/

/-- Letters that have to stay. -/
abbrev kept (x : Char × Part) : Bool := x.2.isKept

@[simp]
lemma text_cons (p : Part) (ps : List Part) : text (p :: ps) = p.text ++ text ps :=
  List.flatMap_cons

@[simp]
lemma text_append (ps qs : List Part) : text (ps ++ qs) = text ps ++ text qs :=
  List.flatMap_append

@[simp]
lemma marked_nil : marked [] = [] := rfl

@[simp]
lemma marked_cons (p : Part) (ps : List Part) : marked (p :: ps) = p.marked ++ marked ps :=
  List.flatMap_cons

@[simp]
lemma marked_append (ps qs : List Part) : marked (ps ++ qs) = marked ps ++ marked qs :=
  List.flatMap_append

@[simp]
lemma Part.map_marked (p : Part) : p.marked.map Prod.fst = p.text := by
  rw [Part.marked, List.map_map]
  exact List.map_id _

lemma map_marked (ps : List Part) : (marked ps).map Prod.fst = text ps := by
  induction ps with
  | nil => rfl
  | cons p ps ih => simp [ih]

lemma filter_marked (p : Part) : p.marked.filter kept = if p.isKept then p.marked else [] := by
  rw [Part.marked]
  split_ifs with h
  · rw [List.filter_eq_self]
    simp [h]
  · rw [List.filter_eq_nil_iff]
    simp [h]

lemma filter_blanks (g : List Char) : (marked (g.map .blank)).filter kept = [] := by
  induction g with
  | nil => rfl
  | cons c g ih =>
    rw [List.map_cons, marked_cons, List.filter_append, ih, filter_marked]
    rfl

/-- All other letters are left. -/
lemma Drop.filter {ps qs : List Part} (h : Drop ps qs) :
    (marked qs).filter kept = (marked ps).filter kept := by
  cases h with
  | behind us g w vs =>
    simp [filter_blanks, filter_marked, Part.isKept]
  | front us w g vs =>
    simp [filter_blanks, filter_marked, Part.isKept]

lemma Drops.filter {ps qs : List Part} (h : Drops ps qs) :
    (marked qs).filter kept = (marked ps).filter kept := by
  induction h with
  | refl => rfl
  | tail _ hdrop ih => exact hdrop.filter.trans ih

lemma Drop.mem {ps qs : List Part} (h : Drop ps qs) {p : Part} (hp : p ∈ qs) : p ∈ ps := by
  cases h <;> simp at hp ⊢ <;> tauto

lemma Drops.mem {ps qs : List Part} (h : Drops ps qs) {p : Part} (hp : p ∈ qs) : p ∈ ps := by
  induction h with
  | refl => exact hp
  | tail _ hdrop ih => exact ih (hdrop.mem hp)

lemma Drop.cons (p : Part) {ps qs : List Part} (h : Drop ps qs) : Drop (p :: ps) (p :: qs) := by
  cases h with
  | behind us g w vs => exact Drop.behind (p :: us) g w vs
  | front us w g vs => exact Drop.front (p :: us) w g vs

lemma Drops.cons (p : Part) {ps qs : List Part} (h : Drops ps qs) : Drops (p :: ps) (p :: qs) :=
  Relation.ReflTransGen.lift (p :: ·) (fun _ _ => Drop.cons p) _ _ h

/-- White space holds neither a reference nor a comma. -/
lemma count_blanks (g : List Char) :
    (g.map Part.blank).countP Part.isDual = 0 ∧ (g.map Part.blank).count .comma = 0 := by
  induction g with
  | nil => exact ⟨rfl, rfl⟩
  | cons c g ih => exact ih

lemma Drop.balance {ps qs : List Part} (h : Drop ps qs) :
    qs.countP Part.isDual + ps.count .comma = ps.countP Part.isDual + qs.count .comma := by
  cases h with
  | behind us g w vs =>
    obtain ⟨hdual, hcomma⟩ := count_blanks g
    simp only [List.countP_append, List.count_append, List.countP_cons, List.count_cons, hdual,
      hcomma, Part.isDual, beq_iff_eq, reduceCtorEq, if_true, if_false]
    omega
  | front us w g vs =>
    obtain ⟨hdual, hcomma⟩ := count_blanks g
    simp only [List.countP_append, List.count_append, List.countP_cons, List.count_cons, hdual,
      hcomma, Part.isDual, beq_iff_eq, reduceCtorEq, if_true, if_false]
    omega

/-- **A list of tables keeps a table**: with each reference that is removed goes a comma. -/
theorem Drops.balance {ps qs : List Part} (h : Drops ps qs) :
    qs.countP Part.isDual + ps.count .comma = ps.countP Part.isDual + qs.count .comma := by
  induction h with
  | refl => rfl
  | tail _ hdrop ih =>
    have hstep := hdrop.balance
    omega

/-! ### The removals -/

/-- A text that starts with a letter of a pattern. -/
lemma exists_of_startsWith {d : Char} {q : List Char} {s : List (Char × Part)}
    (h : startsWith (d :: q) (s.map Prod.fst) = true) :
    ∃ c m t, s = (c, m) :: t ∧ c.toUpper = d ∧ startsWith q (t.map Prod.fst) = true := by
  rw [startsWith, List.isPrefixOf_iff_prefix] at h
  cases s with
  | nil => exact absurd (List.prefix_nil.1 h) (List.cons_ne_nil d q)
  | cons x t =>
    obtain ⟨hd, hq⟩ := List.cons_prefix_cons.1 h
    exact ⟨x.1, x.2, t, rfl, hd.symm, List.isPrefixOf_iff_prefix.2 hq⟩

lemma upper_dual {w : List Char} (h : upper w = "DUAL".toList) :
    ∃ d u a l, w = [d, u, a, l] ∧ d.toUpper = 'D' ∧ u.toUpper = 'U' ∧ a.toUpper = 'A' ∧
      l.toUpper = 'L' := by
  obtain ⟨d, w, rfl, hd, h⟩ := List.map_eq_cons_iff.1 h
  obtain ⟨u, w, rfl, hu, h⟩ := List.map_eq_cons_iff.1 h
  obtain ⟨a, w, rfl, ha, h⟩ := List.map_eq_cons_iff.1 h
  obtain ⟨l, w, rfl, hl, h⟩ := List.map_eq_cons_iff.1 h
  obtain rfl := List.map_eq_nil_iff.1 h
  exact ⟨d, u, a, l, rfl, hd, hu, ha, hl⟩

/-- Which part a text starts with, by its first letter, if that need not stay. -/
lemma head_cases {ps : List Part} (h : Sound ps) {c : Char} {m : Part} {s : List (Char × Part)}
    (hps : marked ps = (c, m) :: s) (hm : m.isKept = false) :
    (∃ qs, ps = .comma :: qs ∧ c.toUpper = ',' ∧ s = marked qs) ∨
      (∃ qs, ps = .blank c :: qs ∧ isSpace c = true ∧ s = marked qs) ∨
      ∃ w qs, ps = .dual w :: qs ∧ c.toUpper = 'D' := by
  cases ps with
  | nil => cases hps
  | cons p ps =>
    rw [marked_cons] at hps
    cases p with
    | other d =>
      obtain ⟨hx, -⟩ := List.cons.inj hps
      rw [← (Prod.mk.inj hx).2] at hm
      cases hm
    | comma =>
      obtain ⟨hx, hs⟩ := List.cons.inj hps
      exact Or.inl ⟨ps, rfl, congrArg Char.toUpper (Prod.mk.inj hx).1.symm, hs.symm⟩
    | blank d =>
      obtain ⟨hx, hs⟩ := List.cons.inj hps
      obtain rfl := (Prod.mk.inj hx).1
      exact Or.inr (Or.inl ⟨ps, rfl, h.1, hs.symm⟩)
    | dual w =>
      obtain ⟨d, u, a, l, rfl, hd, -⟩ := upper_dual h.1
      obtain ⟨hx, -⟩ := List.cons.inj hps
      obtain rfl := (Prod.mk.inj hx).1
      exact Or.inr (Or.inr ⟨_, ps, rfl, hd⟩)
    | aliased w g =>
      obtain ⟨d, u, a, l, rfl, -⟩ := upper_dual h.1
      obtain ⟨hx, -⟩ := List.cons.inj hps
      rw [← (Prod.mk.inj hx).2] at hm
      cases hm

section Heads

variable {ps : List Part} (h : Sound ps) {c : Char} {m : Part} {s : List (Char × Part)}
  (hps : marked ps = (c, m) :: s) (hm : m.isKept = false)

include h hps hm

lemma exists_comma (hc : c.toUpper = ',') : ∃ qs, ps = .comma :: qs ∧ s = marked qs := by
  rcases head_cases h hps hm with ⟨qs, hqs, -, hs⟩ | ⟨qs, -, hspace, -⟩ | ⟨w, qs, -, hd⟩
  · exact ⟨qs, hqs, hs⟩
  · rw [toUpper_of_isSpace hspace] at hc
    subst hc
    cases hspace
  · rw [hc] at hd
    cases hd

lemma exists_blank (hc : c.toUpper = ' ') : ∃ qs, ps = .blank ' ' :: qs ∧ s = marked qs := by
  rcases head_cases h hps hm with ⟨qs, -, hcomma, -⟩ | ⟨qs, hqs, hspace, hs⟩ | ⟨w, qs, -, hd⟩
  · rw [hc] at hcomma
    cases hcomma
  · rw [toUpper_of_isSpace hspace] at hc
    subst hc
    exact ⟨qs, hqs, hs⟩
  · rw [hc] at hd
    cases hd

lemma exists_dual (hc : c.toUpper = 'D') : ∃ w qs, ps = .dual w :: qs := by
  rcases head_cases h hps hm with ⟨qs, -, hcomma, -⟩ | ⟨qs, -, hspace, -⟩ | ⟨w, qs, hqs, -⟩
  · rw [hc] at hcomma
    cases hcomma
  · rw [toUpper_of_isSpace hspace] at hc
    subst hc
    cases hspace
  · exact ⟨w, qs, hqs⟩

end Heads

lemma Sound.tail {p : Part} {ps : List Part} (h : Sound (p :: ps)) : Sound ps := by
  cases p with
  | other c => exact h
  | comma => exact h
  | blank c => exact h.2
  | dual w => exact h.2
  | aliased w g => exact h.2.2.2.2

/-- Letters of a part that stays. -/
lemma kept_of_mem {p : Part} (hp : p.isKept = true) : ∀ x ∈ p.marked, kept x = true := by
  intro x hx
  obtain ⟨c, -, rfl⟩ := List.mem_map.1 hx
  exact hp

/-- **Behind a comma only references are removed** if no other letters are. -/
lemma cut_behind {ps : List Part} (h : Sound ps)
    (hclear : Clear Prod.fst kept ", DUAL".toList (marked ps)) :
    cutLoop Prod.fst ", DUAL".toList 0 (marked ps) = marked (dropBehind ps) := by
  have hne : ", DUAL".toList ≠ [] := by simp
  fun_induction dropBehind ps with
  | case1 w ps ih =>
    have hw : upper w = "DUAL".toList := h.2.1
    have hsplit : marked (.comma :: .blank ' ' :: .dual w :: ps) =
        marked [.comma, .blank ' ', .dual w] ++ marked ps := by simp
    have hhit : upper ((marked [.comma, .blank ' ', .dual w]).map Prod.fst) = ", DUAL".toList := by
      rw [map_marked]
      simp [Part.text, hw, text]
    rw [hsplit] at hclear ⊢
    rw [cutLoop_hit hne hhit, ih h.2.2 hclear.mono]
  | case2 p ps hother ih =>
    have hps := h.tail
    rw [marked_cons] at hclear
    have ih := ih hps hclear.mono
    rw [marked_cons, marked_cons, ← ih]
    cases p with
    | other c => exact cutLoop_kept hclear hne (kept_of_mem rfl)
    | aliased w g => exact cutLoop_kept hclear hne (kept_of_mem rfl)
    | blank c =>
      refine cutLoop_quiet fun x hx => ?_
      obtain rfl := List.mem_singleton.1 hx
      have hspace : isSpace c = true := h.1
      show c.toUpper ≠ ','
      rw [toUpper_of_isSpace hspace]
      rintro rfl
      cases hspace
    | dual w =>
      obtain ⟨d, u, a, l, rfl, hd, hu, ha, hl⟩ := upper_dual h.1
      refine cutLoop_quiet fun x hx => ?_
      simp only [Part.marked, Part.text, List.map_cons, List.map_nil, List.mem_cons,
        List.not_mem_nil, or_false] at hx
      show x.1.toUpper ≠ ','
      rcases hx with rfl | rfl | rfl | rfl <;> simp [hd, hu, ha, hl]
    | comma =>
      have hnot : ¬ startsWith ", DUAL".toList (((',', .comma) :: marked ps).map Prod.fst) = true := by
        intro hit
        have hfew := hclear [] _ rfl hit
        obtain ⟨c, m, r, hr, -, hit⟩ := exists_of_startsWith hit
        obtain ⟨-, rfl⟩ := List.cons.inj hr
        obtain ⟨c, m, s, hs, hc, hit⟩ := exists_of_startsWith hit
        obtain ⟨c', m', s', rfl, hc', -⟩ := exists_of_startsWith hit
        rw [hs] at hfew
        have hm : m.isKept = false := hfew (c, m) (by simp)
        have hm' : m'.isKept = false := hfew (c', m') (by simp)
        obtain ⟨qs, rfl, hs'⟩ := exists_blank hps hs hm hc
        obtain ⟨w, rs, rfl⟩ := exists_dual hps.2 hs'.symm hm' hc'
        exact hother w rs rfl rfl
      show cutLoop Prod.fst ", DUAL".toList 0 ((',', .comma) :: marked ps) = _
      rw [cutLoop, if_neg hnot]
      rfl
  | case3 => rfl

/-- **In front of a comma only references are removed** if no other letters are. -/
lemma cut_front {ps : List Part} (h : Sound ps)
    (hclear : Clear Prod.fst kept "DUAL, ".toList (marked ps)) :
    cutLoop Prod.fst "DUAL, ".toList 0 (marked ps) = marked (dropFront ps) := by
  have hne : "DUAL, ".toList ≠ [] := by simp
  fun_induction dropFront ps with
  | case1 w ps ih =>
    have hw : upper w = "DUAL".toList := h.1
    have hsplit : marked (.dual w :: .comma :: .blank ' ' :: ps) =
        marked [.dual w, .comma, .blank ' '] ++ marked ps := by simp
    have hhit : upper ((marked [.dual w, .comma, .blank ' ']).map Prod.fst) = "DUAL, ".toList := by
      rw [map_marked]
      simp [Part.text, hw, text]
    rw [hsplit] at hclear ⊢
    rw [cutLoop_hit hne hhit, ih h.2.2 hclear.mono]
  | case2 p ps hother ih =>
    have hps := h.tail
    rw [marked_cons] at hclear
    have ih := ih hps hclear.mono
    rw [marked_cons, marked_cons, ← ih]
    cases p with
    | other c => exact cutLoop_kept hclear hne (kept_of_mem rfl)
    | aliased w g => exact cutLoop_kept hclear hne (kept_of_mem rfl)
    | comma =>
      refine cutLoop_quiet fun x hx => ?_
      obtain rfl := List.mem_singleton.1 hx
      decide
    | blank c =>
      refine cutLoop_quiet fun x hx => ?_
      obtain rfl := List.mem_singleton.1 hx
      have hspace : isSpace c = true := h.1
      show c.toUpper ≠ 'D'
      rw [toUpper_of_isSpace hspace]
      rintro rfl
      cases hspace
    | dual w =>
      obtain ⟨d, u, a, l, rfl, hd, hu, ha, hl⟩ := upper_dual h.1
      have hquiet : ∀ x ∈ ([u, a, l].map fun c => (c, Part.dual [d, u, a, l])),
          (Prod.fst x).toUpper ≠ 'D' := by
        intro x hx
        simp only [List.map_cons, List.map_nil, List.mem_cons, List.not_mem_nil, or_false] at hx
        rcases hx with rfl | rfl | rfl <;> simp [hu, ha, hl]
      have hsplit : (Part.dual [d, u, a, l]).marked ++ marked ps =
          (d, .dual [d, u, a, l]) ::
            (([u, a, l].map fun c => (c, Part.dual [d, u, a, l])) ++ marked ps) := rfl
      rw [hsplit] at hclear ⊢
      have hnot : ¬ startsWith "DUAL, ".toList (((d, .dual [d, u, a, l]) ::
          (([u, a, l].map fun c => (c, Part.dual [d, u, a, l])) ++ marked ps)).map Prod.fst) =
            true := by
        intro hit
        have hfew := hclear [] _ rfl hit
        obtain ⟨c, m, r, hr, -, hit⟩ := exists_of_startsWith hit
        obtain ⟨-, rfl⟩ := List.cons.inj hr
        -- the letters of the reference, then those behind it
        obtain ⟨c, m, r, hr, -, hit⟩ := exists_of_startsWith hit
        obtain ⟨-, rfl⟩ := List.cons.inj hr
        obtain ⟨c, m, r, hr, -, hit⟩ := exists_of_startsWith hit
        obtain ⟨-, rfl⟩ := List.cons.inj hr
        obtain ⟨c, m, r, hr, -, hit⟩ := exists_of_startsWith hit
        obtain ⟨-, rfl⟩ := List.cons.inj hr
        obtain ⟨c, m, s, hs, hc, hit⟩ := exists_of_startsWith hit
        obtain ⟨c', m', s', rfl, hc', -⟩ := exists_of_startsWith hit
        have hs : marked ps = (c, m) :: (c', m') :: s' := hs
        rw [hs] at hfew
        have hm : m.isKept = false := hfew (c, m) (by simp)
        have hm' : m'.isKept = false := hfew (c', m') (by simp)
        obtain ⟨qs, rfl, hs'⟩ := exists_comma hps hs hm hc
        obtain ⟨rs, rfl, -⟩ := exists_blank hps.tail hs'.symm hm' hc'
        exact hother _ rs rfl rfl
      rw [cutLoop, if_neg hnot]
      exact congrArg _ (cutLoop_quiet hquiet)
  | case3 => rfl

lemma sound_dropBehind {ps : List Part} (h : Sound ps) : Sound (dropBehind ps) := by
  fun_induction dropBehind ps with
  | case1 w ps ih => exact ih h.2.2
  | case2 p ps hother ih =>
    cases p with
    | other c => exact ih h
    | comma => exact ih h
    | blank c => exact ⟨h.1, ih h.2⟩
    | dual w => exact ⟨h.1, ih h.2⟩
    | aliased w g =>
      obtain ⟨hw, hne, hg, ⟨c, qs, rfl, hc⟩, hps⟩ := h
      exact ⟨hw, hne, hg, ⟨c, dropBehind qs, rfl, hc⟩, ih hps⟩
  | case3 => trivial

lemma sound_dropFront {ps : List Part} (h : Sound ps) : Sound (dropFront ps) := by
  fun_induction dropFront ps with
  | case1 w ps ih => exact ih h.2.2
  | case2 p ps hother ih =>
    cases p with
    | other c => exact ih h
    | comma => exact ih h
    | blank c => exact ⟨h.1, ih h.2⟩
    | dual w => exact ⟨h.1, ih h.2⟩
    | aliased w g =>
      obtain ⟨hw, hne, hg, ⟨c, qs, rfl, hc⟩, hps⟩ := h
      exact ⟨hw, hne, hg, ⟨c, dropFront qs, rfl, hc⟩, ih hps⟩
  | case3 => trivial

lemma drops_dropBehind (ps : List Part) : Drops ps (dropBehind ps) := by
  fun_induction dropBehind ps with
  | case1 w ps ih => exact Relation.ReflTransGen.head (Drop.behind [] [' '] w ps) ih
  | case2 p ps hother ih => exact Drops.cons p ih
  | case3 => exact Relation.ReflTransGen.refl

lemma drops_dropFront (ps : List Part) : Drops ps (dropFront ps) := by
  fun_induction dropFront ps with
  | case1 w ps ih => exact Relation.ReflTransGen.head (Drop.front [] w [' '] ps) ih
  | case2 p ps hother ih => exact Drops.cons p ih
  | case3 => exact Relation.ReflTransGen.refl

/-- The parts are told by their letters. -/
lemma marked_inj {ps qs : List Part} (hps : ∀ p ∈ ps, p.text ≠ []) (hqs : ∀ p ∈ qs, p.text ≠ [])
    (h : marked ps = marked qs) : ps = qs := by
  induction ps generalizing qs with
  | nil =>
    cases qs with
    | nil => rfl
    | cons q qs =>
      obtain ⟨hq, -⟩ := List.append_eq_nil_iff.1 (h.symm.trans marked_nil)
      exact absurd (List.map_eq_nil_iff.1 hq) (hqs q List.mem_cons_self)
  | cons p ps ih =>
    obtain ⟨c, x, hp⟩ := List.exists_cons_of_ne_nil (hps p List.mem_cons_self)
    cases qs with
    | nil =>
      obtain ⟨hp, -⟩ := List.append_eq_nil_iff.1 (h.trans marked_nil)
      exact absurd (List.map_eq_nil_iff.1 hp) (hps p List.mem_cons_self)
    | cons q qs =>
      obtain ⟨d, y, hq⟩ := List.exists_cons_of_ne_nil (hqs q List.mem_cons_self)
      obtain rfl : p = q := by
        simp only [marked_cons, Part.marked, hp, hq, List.map_cons, List.cons_append] at h
        exact (Prod.mk.inj (List.cons.inj h).1).2
      rw [marked_cons, marked_cons] at h
      exact congrArg (p :: ·) (ih (fun r hr => hps r (List.mem_cons_of_mem p hr))
        (fun r hr => hqs r (List.mem_cons_of_mem p hr)) (List.append_cancel_left h))

lemma text_ne_nil {ps : List Part} (h : Sound ps) : ∀ p ∈ ps, p.text ≠ [] := by
  induction ps with
  | nil => simp
  | cons p ps ih =>
    refine List.forall_mem_cons.2 ⟨?_, ih h.tail⟩
    cases p with
    | other c => simp [Part.text]
    | comma => simp [Part.text]
    | blank c => simp [Part.text]
    | dual w =>
      obtain ⟨d, u, a, l, rfl, -⟩ := upper_dual h.1
      simp [Part.text]
    | aliased w g =>
      obtain ⟨d, u, a, l, rfl, -⟩ := upper_dual h.1
      simp [Part.text]

/-- **When only references are removed**, and which. -/
theorem cutDual_iff {ps : List Part} (h : Sound ps) (qs : List Part) :
    Drops ps qs ∧ cutMarked (marked ps) = marked qs ↔
      Clear Prod.fst kept ", DUAL".toList (marked ps) ∧
        Clear Prod.fst kept "DUAL, ".toList (marked (dropBehind ps)) ∧
        qs = dropFront (dropBehind ps) := by
  have hbehind : ',' ∉ " DUAL".toList := by simp
  have hfront : 'D' ∉ "UAL, ".toList := by simp
  have hup : upper ", dual".toList = ", DUAL".toList := rfl
  have hup' : upper "dual, ".toList = "DUAL, ".toList := rfl
  have hsound := sound_dropBehind h
  rw [cutMarked, cutCi, cutCi, hup, hup']
  constructor
  · rintro ⟨hdrops, hcut⟩
    have hlen : ∀ (p : List Char) (s : List (Char × Part)),
        ((cutLoop Prod.fst p 0 s).filter kept).length ≤ (s.filter kept).length :=
      fun p s => length_filter_cutLoop_le kept p 0 s
    have hle := hlen ", DUAL".toList (marked ps)
    have hle' := hlen "DUAL, ".toList (cutLoop Prod.fst ", DUAL".toList 0 (marked ps))
    rw [hcut, hdrops.filter] at hle'
    have hclear : Clear Prod.fst kept ", DUAL".toList (marked ps) :=
      (filter_cutLoop_iff hbehind).1 (Nat.le_antisymm hle hle')
    rw [cut_behind h hclear] at hcut
    have hclear' : Clear Prod.fst kept "DUAL, ".toList (marked (dropBehind ps)) := by
      refine (filter_cutLoop_iff hfront).1 ?_
      show ((cutLoop Prod.fst "DUAL, ".toList 0 _).filter kept).length = _
      rw [hcut, hdrops.filter, (drops_dropBehind ps).filter]
    refine ⟨hclear, hclear', ?_⟩
    rw [cut_front hsound hclear'] at hcut
    exact (marked_inj (text_ne_nil (sound_dropFront hsound))
      (fun p hp => text_ne_nil h p (hdrops.mem hp)) hcut).symm
  · rintro ⟨hclear, hclear', rfl⟩
    refine ⟨(drops_dropBehind ps).trans (drops_dropFront _), ?_⟩
    rw [cut_behind h hclear, cut_front hsound hclear']

/-! ### The replacement -/

lemma lower_append (x y : List Char) : lower (x ++ y) = lower x ++ lower y := List.map_append

lemma length_lower (s : List Char) : (lower s).length = s.length := List.length_map _

lemma lower_drop (n : ℕ) (s : List Char) : lower (s.drop n) = (lower s).drop n := List.map_drop

/-- What is found is in the text. -/
lemma exists_of_find {p s : List Char} {n : ℕ} (h : find p s = some n) :
    ∃ x y, s = x ++ (p ++ y) ∧ x.length = n := by
  induction s generalizing n with
  | nil =>
    rw [find] at h
    split_ifs at h with hp
    obtain rfl := List.isEmpty_iff.1 hp
    exact ⟨[], [], rfl, Option.some.inj h⟩
  | cons c s ih =>
    rw [find] at h
    split_ifs at h with hp
    · obtain ⟨y, hy⟩ := List.isPrefixOf_iff_prefix.1 hp
      exact ⟨[], y, hy.symm, Option.some.inj h⟩
    · obtain ⟨m, hm, rfl⟩ := Option.map_eq_some_iff.1 h
      obtain ⟨x, y, rfl, rfl⟩ := ih hm
      exact ⟨c :: x, y, rfl, rfl⟩

/-- The `from dual` that is found. -/
lemma exists_of_find_from {s : List Char} {n : ℕ}
    (h : find "from dual ".toList (lower s) = some n) :
    ∃ x f d y, s = x ++ f ++ d ++ y ∧ x.length = n ∧ lower f = "from ".toList ∧
      lower d = "dual ".toList := by
  obtain ⟨x, y, hxy, hn⟩ := exists_of_find h
  have hsplit : "from dual ".toList = "from ".toList ++ "dual ".toList := by decide
  rw [hsplit] at hxy
  obtain ⟨x, s, rfl, rfl, hs⟩ := List.map_eq_append_iff.1 hxy
  obtain ⟨z, y, rfl, hz, -⟩ := List.map_eq_append_iff.1 hs
  obtain ⟨f, d, rfl, hf, hd⟩ := List.map_eq_append_iff.1 hz
  refine ⟨x, f, d, y, by simp, ?_, hf, hd⟩
  rw [← hn, List.length_map]

/-- The keyword is written in capitals. -/
lemma fromCapital_append {x f : List Char} (hf : lower f = "from ".toList) :
    fromCapital (x ++ f) = x ++ "FROM ".toList := by
  have hlen : f.length = "from ".length := by
    rw [← length_lower, hf]
    rfl
  have hsuffix : "from ".toList.isSuffixOf (lower (x ++ f)) = true := by
    rw [List.isSuffixOf_iff_suffix, lower_append, hf]
    exact List.suffix_append _ _
  rw [fromCapital, if_pos hsuffix, List.length_append, hlen, Nat.add_sub_cancel, List.take_left]

lemma lower_fromCapital (x : List Char) : lower (fromCapital x) = lower x := by
  by_cases h : "from ".toList.isSuffixOf (lower x) = true
  · obtain ⟨y, hy⟩ := List.isSuffixOf_iff_suffix.1 h
    obtain ⟨x, f, rfl, -, hf⟩ := List.map_eq_append_iff.1 hy.symm
    have hup : lower "FROM ".toList = "from ".toList := by decide
    rw [fromCapital_append hf, lower_append, lower_append, hup]
    exact congrArg (lower x ++ ·) hf.symm
  · rw [fromCapital, if_neg h]

/-- Letters without a parenthesis, by their lower case. -/
lemma count_of_lower {s p : List Char} (h : lower s = p) (hp : '(' ∉ p) : s.count '(' = 0 := by
  rw [List.count_eq_zero]
  intro hs
  exact hp (h ▸ List.mem_map.2 ⟨'(', hs, rfl⟩)

lemma count_fromCapital (x : List Char) : (fromCapital x).count '(' = x.count '(' := by
  by_cases h : "from ".toList.isSuffixOf (lower x) = true
  · obtain ⟨y, hy⟩ := List.isSuffixOf_iff_suffix.1 h
    obtain ⟨x, f, rfl, -, hf⟩ := List.map_eq_append_iff.1 hy.symm
    rw [fromCapital_append hf, List.count_append, List.count_append, count_of_lower hf (by simp)]
    rfl
  · rw [fromCapital, if_neg h]

lemma meantFrom_append (b : List Char) (ps qs : List Part) :
    meantFrom b (ps ++ qs) = meantFrom (meantFrom b ps) qs := by
  induction ps generalizing b with
  | nil => rfl
  | cons p ps ih => cases p <;> exact ih _

lemma meantFrom_cons {p : Part} (h : p.isAliased = false) (b : List Char) (ps : List Part) :
    meantFrom b (p :: ps) = meantFrom (b ++ p.text) ps := by
  cases p with
  | aliased w g => cases h
  | _ => rfl

/-- Nothing is replaced where nothing has an alias. -/
lemma meantFrom_plain {ps : List Part} (h : ∀ p ∈ ps, p.isAliased = false) (b : List Char) :
    meantFrom b ps = b ++ text ps := by
  induction ps generalizing b with
  | nil => exact (List.append_nil b).symm
  | cons p ps ih =>
    rw [meantFrom_cons (h p List.mem_cons_self), ih fun q hq => h q (List.mem_cons_of_mem p hq),
      text_cons, List.append_assoc]

/-- A reference with an alias holds no parenthesis. -/
lemma count_aliased {w g : List Char} (hw : upper w = "DUAL".toList)
    (hg : ∀ c ∈ g, isSpace c = true) : (w ++ g).count '(' = 0 := by
  rw [List.count_eq_zero]
  intro hmem
  rcases List.mem_append.1 hmem with hmem | hmem
  · have hup : '(' ∈ upper w := List.mem_map.2 ⟨'(', hmem, rfl⟩
    rw [hw] at hup
    simp at hup
  · cases hg _ hmem

/-- Each query brings a parenthesis. -/
lemma count_meantFrom {ps : List Part} (h : Sound ps) (b : List Char) :
    (meantFrom b ps).count '(' = b.count '(' + (text ps).count '(' + ps.countP Part.isAliased := by
  induction ps generalizing b with
  | nil => rfl
  | cons p ps ih =>
    have hps := ih h.tail
    have hquery : dualQuery.count '(' = 1 := by decide
    rw [text_cons, List.count_append]
    cases hp : p.isAliased with
    | false =>
      rw [meantFrom_cons hp, hps, List.count_append, List.countP_cons_of_neg (by simp [hp])]
      omega
    | true =>
      cases p with
      | aliased w g =>
        rw [meantFrom, hps, List.count_append, count_fromCapital, hquery, Part.text,
          count_aliased h.1 h.2.2.1, List.countP_cons_of_pos rfl]
        omega
      | _ => cases hp

/-- Two texts differ first in one place only. -/
lemma first_difference {A B B' C D D' : List Char} {x y x' y' : Char} (h : A ++ x :: B = C ++ x' :: D)
    (h' : A ++ y :: B' = C ++ y' :: D') (hxy : x ≠ y) (hxy' : x' ≠ y') : A = C := by
  induction A generalizing C with
  | nil =>
    cases C with
    | nil => rfl
    | cons e C =>
      have hx := (List.cons.inj h).1
      have hy := (List.cons.inj h').1
      exact absurd (hx.trans hy.symm) hxy
  | cons a A ih =>
    cases C with
    | nil =>
      have hx := (List.cons.inj h).1
      have hy := (List.cons.inj h').1
      exact absurd (hx.symm.trans hy) hxy'
    | cons e C =>
      obtain ⟨rfl, hA⟩ := List.cons.inj h
      exact congrArg (a :: ·) (ih hA (List.cons.inj h').2)

/-- A letter that is white space in lower case is written so. -/
lemma toLower_of_isSpace {c : Char} (h : isSpace c = true) : c.toLower = c := by
  delta Char.toLower
  rw [dif_neg]
  rintro ⟨hlo, hhi⟩
  rw [ge_iff_le, UInt32.le_iff_toNat_le] at hlo
  rw [UInt32.le_iff_toNat_le] at hhi
  change 65 ≤ c.toNat at hlo
  change c.toNat ≤ 90 at hhi
  simp only [isSpace, Bool.or_eq_true, Bool.and_eq_true, decide_eq_true_eq, beq_iff_eq] at h
  omega

/-- A letter of an alias has one byte. -/
lemma utf8Size_of_isAliasChar {c : Char} (h : isAliasChar c = true) : c.utf8Size = 1 := by
  have hle : c.toNat ≤ 127 := by
    delta isAliasChar Char.isAlphanum Char.isAlpha Char.isUpper Char.isLower Char.isDigit at h
    simp only [Bool.or_eq_true, decide_eq_true_eq, beq_iff_eq, UInt32.le_iff_toNat_le, ge_iff_le,
      Bool.and_eq_true] at h
    change ((65 ≤ c.toNat ∧ c.toNat ≤ 90 ∨ 97 ≤ c.toNat ∧ c.toNat ≤ 122) ∨
      48 ≤ c.toNat ∧ c.toNat ≤ 57) ∨ c = '_' at h
    rcases h with ((h | h) | h) | rfl
    · omega
    · omega
    · omega
    · decide
  have hval : c.val ≤ 0x7f := UInt32.le_iff_toNat_le.2 hle
  simp [Char.utf8Size, hval]

/-- The word behind some white space, and what comes behind it. -/
lemma exists_aliasWord (s : List Char) :
    ∃ g r, s = g ++ aliasWord s ++ r ∧ (∀ c ∈ g, isSpace c = true) ∧
      trimStart s = aliasWord s ++ r := by
  refine ⟨s.takeWhile isSpace, (trimStart s).dropWhile isAliasChar, ?_, ?_, ?_⟩
  · rw [List.append_assoc, aliasWord, List.takeWhile_append_dropWhile, trimStart,
      List.takeWhile_append_dropWhile]
  · intro c hc
    exact List.mem_takeWhile_imp hc
  · rw [aliasWord, List.takeWhile_append_dropWhile]

lemma byteLen_aliasWord (s : List Char) : byteLen (aliasWord s) = (aliasWord s).length := by
  have hone : ∀ c ∈ aliasWord s, c.utf8Size = 1 := fun c hc =>
    utf8Size_of_isAliasChar (List.mem_takeWhile_imp hc)
  rw [byteLen, List.map_congr_left hone]
  simp

lemma eq_nil_of_byteLen {s : List Char} (h : byteLen s = 0) : s = [] := by
  cases s with
  | nil => rfl
  | cons c s =>
    have hpos := c.utf8Size_pos
    simp [byteLen] at h
    omega

/-- What is cut off behind the reference lies within the white space and the alias. -/
lemma count_cut {s a r : List Char} (hs : s = a ++ r) (ha : byteLen a = (aliasWord s).length) :
    a.count '(' = 0 := by
  obtain ⟨g, r', hword, hg, -⟩ := exists_aliasWord s
  have hle : byteLen a ≤ byteLen (g ++ aliasWord s) := by
    rw [ha, byteLen_append, byteLen_aliasWord]
    omega
  have hpre : a <+: g ++ aliasWord s := by
    have hlong : g ++ aliasWord s <+: s := ⟨r', hword.symm⟩
    rcases List.prefix_or_prefix_of_prefix ⟨r, hs.symm⟩ hlong with h | ⟨t, ht⟩
    · exact h
    · have hlen := congrArg byteLen ht
      rw [byteLen_append] at hlen
      obtain rfl := eq_nil_of_byteLen (s := t) (by omega)
      rw [← ht, List.append_nil]
  rw [List.count_eq_zero]
  intro hmem
  rcases List.mem_append.1 (hpre.subset hmem) with h | h
  · cases hg _ h
  · have hchar : isAliasChar '(' = true := List.mem_takeWhile_imp h
    cases hchar

lemma replaceAliased_of_not_guessed {s : List Char} (h : ¬ Guessed s) :
    replaceAliased s = some s := by
  rw [replaceAliased]
  cases hfind : find "from dual ".toList (lower s) with
  | none => rfl
  | some n =>
    have hword : clauseWords.contains (upper (aliasWord (s.drop (n + "from dual ".length)))) =
        true := by
      by_contra hword
      exact h ⟨n, hfind, Bool.not_eq_true _ ▸ hword⟩
    exact if_pos hword

lemma replaceAliased_of_find {x f d y : List Char} (hd : lower d = "dual ".toList)
    (hf : lower f = "from ".toList)
    (hfind : find "from dual ".toList (lower (x ++ f ++ d ++ y)) = some x.length)
    (hword : clauseWords.contains (upper (aliasWord y)) = false) :
    replaceAliased (x ++ f ++ d ++ y) = (splitAtByte (aliasWord y).length y).map fun (_, tail) =>
      x ++ "FROM ".toList ++ dualQuery ++ aliasWord y ++ tail := by
  have hlen : x.length + "from dual ".length = (x ++ f ++ d).length := by
    have hlf := length_lower f
    have hld := length_lower d
    rw [hf] at hlf
    rw [hd] at hld
    rw [List.length_append, List.length_append, ← hlf, ← hld]
    rfl
  have htake : (x ++ f ++ d ++ y).take x.length = x := by
    rw [List.append_assoc, List.append_assoc, List.take_left]
  rw [replaceAliased, hfind]
  simp only [hlen, List.drop_left, htake]
  rw [if_neg (by rw [hword]; exact Bool.false_ne_true)]

lemma Sound.suffix {us vs : List Part} (h : Sound (us ++ vs)) : Sound vs := by
  induction us with
  | nil => exact h
  | cons p us ih => exact ih h.tail

/-- The parts around the only reference with an alias. -/
lemma exists_aliased {ps : List Part} (h : ps.countP Part.isAliased = 1) :
    ∃ us w g vs, ps = us ++ .aliased w g :: vs ∧ (∀ p ∈ us, p.isAliased = false) ∧
      ∀ p ∈ vs, p.isAliased = false := by
  obtain ⟨p, hp, htrue⟩ := List.countP_pos_iff.1 (Nat.lt_of_lt_of_eq Nat.one_pos h.symm)
  obtain ⟨us, vs, rfl⟩ := List.append_of_mem hp
  rw [List.countP_append, List.countP_cons_of_pos htrue] at h
  have hnone : ∀ {qs : List Part}, qs.countP Part.isAliased = 0 →
      ∀ q ∈ qs, q.isAliased = false := by
    intro qs hqs q hq
    exact Bool.eq_false_iff.2 (List.countP_eq_zero.1 hqs q hq)
  cases p with
  | aliased w g => exact ⟨us, w, g, vs, rfl, hnone (by omega), hnone (by omega)⟩
  | _ => cases htrue

/-- The text that is meant where one reference has an alias. -/
lemma meant_aliased {us vs : List Part} (hus : ∀ p ∈ us, p.isAliased = false)
    (hvs : ∀ p ∈ vs, p.isAliased = false) (w g : List Char) :
    meant (us ++ .aliased w g :: vs) = fromCapital (text us) ++ dualQuery ++ text vs := by
  rw [meant, meantFrom_append, meantFrom_plain hus, List.nil_append, meantFrom, meantFrom_plain hvs]

/-- White space is no part of an alias. -/
lemma trimStart_alias {g : List Char} (hg : ∀ c ∈ g, isSpace c = true) {vs : List Part}
    (hvs : ∃ c qs, vs = .other c :: qs ∧ isSpace c = false) :
    trimStart (g ++ text vs) = text vs := by
  obtain ⟨c, qs, rfl, hc⟩ := hvs
  rw [trimStart, List.dropWhile_append_of_pos hg]
  exact trimStart_of_head hc _

/-- Where a `from dual` is replaced as it is meant, it is the one with the alias, and one blank
stands in front of that. -/
lemma eq_of_replaced {us vs : List Part} {w g x f d y a tail : List Char}
    (h : Sound (us ++ .aliased w g :: vs)) (hus : ∀ p ∈ us, p.isAliased = false)
    (hvs : ∀ p ∈ vs, p.isAliased = false)
    (htext : text (us ++ .aliased w g :: vs) = x ++ f ++ d ++ y)
    (hf : lower f = "from ".toList) (hd : lower d = "dual ".toList)
    (hy : y = a ++ tail) (ha : byteLen a = (aliasWord y).length)
    (hout : x ++ "FROM ".toList ++ dualQuery ++ aliasWord y ++ tail =
      meant (us ++ .aliased w g :: vs)) :
    x ++ f = text us ∧ g = [' '] ∧ y = text vs := by
  obtain ⟨hw, hne, hg, halias, -⟩ := h.suffix
  obtain ⟨d', u', a', l', rfl, hdual, -⟩ := upper_dual hw
  obtain ⟨g₀, g, rfl⟩ := List.exists_cons_of_ne_nil hne
  rw [meant_aliased hus hvs] at hout
  have htext' : text us ++ ([d', u', a', l'] ++ g₀ :: g ++ text vs) = x ++ f ++ (d ++ y) := by
    rw [text_append, text_cons] at htext
    rw [← List.append_assoc (x ++ f)]
    exact htext
  -- the texts differ first where the query is written
  have hplace : lower (x ++ f) = lower (text us) := by
    have hlow := congrArg lower htext'
    have hlow' := congrArg lower hout
    have hup : lower "FROM ".toList = "from ".toList := by decide
    have hletter : d'.toLower = 'd' := by
      rcases eq_or_of_toUpper hdual with rfl | rfl <;> decide
    simp only [lower_append, lower_fromCapital, hup, hf, hd] at hlow hlow'
    rw [lower_append, hf]
    have hwas : lower x ++ "from ".toList ++ 'd' :: ("ual ".toList ++ lower y) =
        lower (text us) ++ 'd' :: (lower [u', a', l'] ++ lower (g₀ :: g) ++ lower (text vs)) := by
      have hcons : lower [d', u', a', l'] = 'd' :: lower [u', a', l'] :=
        congrArg (· :: lower [u', a', l']) hletter
      rw [hcons] at hlow
      exact hlow.symm.trans (by simp)
    have hnow : lower x ++ "from ".toList ++
        '(' :: (lower "SELECT 'X' AS dummy) ".toList ++ lower (aliasWord y) ++ lower tail) =
        lower (text us) ++ '(' :: (lower "SELECT 'X' AS dummy) ".toList ++ lower (text vs)) := by
      have hquery : lower dualQuery = '(' :: lower "SELECT 'X' AS dummy) ".toList := by decide
      rw [hquery] at hlow'
      simpa using hlow'
    exact first_difference hwas hnow (by decide) (by decide)
  have hlen : (text us).length = (x ++ f).length := by
    rw [← length_lower, ← hplace, length_lower]
  obtain ⟨hus', hbehind⟩ := List.append_inj htext' hlen
  refine ⟨hus'.symm, ?_⟩
  have hdlen : ([d', u', a', l'] ++ [g₀]).length = d.length := by
    rw [← length_lower d, hd]
    rfl
  have hbehind' : [d', u', a', l'] ++ [g₀] ++ (g ++ text vs) = d ++ y := by
    rw [← hbehind]
    simp
  obtain ⟨rfl, rfl⟩ := List.append_inj hbehind' hdlen
  have hspaces : ∀ c ∈ g, isSpace c = true := fun c hc => hg c (List.mem_cons_of_mem g₀ hc)
  have hg₀ : g₀ = ' ' := by
    have hlast := congrArg List.getLast? hd
    rw [lower_append] at hlast
    have hlow : g₀.toLower = ' ' := by simpa [lower] using hlast
    rwa [toLower_of_isSpace (hg g₀ List.mem_cons_self)] at hlow
  -- the alias is written once
  rw [hus', fromCapital_append hf, List.append_assoc (x ++ "FROM ".toList ++ dualQuery)] at hout
  have hword := List.append_cancel_left hout
  rw [← hword, ← List.append_assoc] at hy
  have hcut := List.append_cancel_right hy
  have hbytes := congrArg byteLen hcut
  rw [byteLen_append, ha, byteLen_aliasWord] at hbytes
  obtain rfl := eq_nil_of_byteLen (s := g) (by omega)
  rw [hg₀]
  exact ⟨rfl, rfl⟩

/-- **When each reference with an alias gets its query.** -/
theorem replaceAliased_iff {ps : List Part} (h : Sound ps) :
    replaceAliased (text ps) = some (meant ps) ↔ AliasSeen ps := by
  constructor
  · intro hmeant
    by_cases hguess : Guessed (text ps)
    · right
      obtain ⟨n, hfind, hword⟩ := hguess
      obtain ⟨x, f, d, y, htext, rfl, hf, hd⟩ := exists_of_find_from hfind
      rw [htext] at hmeant hfind hword
      have hlen : x.length + "from dual ".length = (x ++ f ++ d).length := by
        have hlf := length_lower f
        have hld := length_lower d
        rw [hf] at hlf
        rw [hd] at hld
        rw [List.length_append, List.length_append, ← hlf, ← hld]
        rfl
      rw [hlen, List.drop_left] at hword
      rw [replaceAliased_of_find hd hf hfind hword] at hmeant
      obtain ⟨⟨a, tail⟩, hsplit, hout⟩ := Option.map_eq_some_iff.1 hmeant
      obtain ⟨hy, ha⟩ := splitAtByte_eq_some hsplit
      have hname : (aliasWord y).count '(' = 0 := by
        rw [List.count_eq_zero]
        intro hmem
        have hchar : isAliasChar '(' = true := List.mem_takeWhile_imp hmem
        cases hchar
      have hone : ps.countP Part.isAliased = 1 := by
        have hcount := congrArg (List.count '(') hout
        have hquery : dualQuery.count '(' = 1 := by decide
        have hfrom : "FROM ".toList.count '(' = 0 := by decide
        have hya := congrArg (List.count '(') hy
        simp only [meant, count_meantFrom h, htext, List.count_append, List.count_nil, hquery, hfrom,
          hname, count_of_lower hf (by simp), count_of_lower hd (by simp)] at hcount
        rw [List.count_append, count_cut hy ha] at hya
        omega
      obtain ⟨us, w, g, vs, rfl, hus, hvs⟩ := exists_aliased hone
      obtain ⟨hplace, rfl, rfl⟩ := eq_of_replaced h hus hvs htext hf hd hy ha hout
      refine ⟨us, w, vs, x.length, rfl, hus, hvs, htext ▸ hfind, ?_, hword⟩
      rw [← hplace, List.length_append, ← length_lower f, hf]
      rfl
    · left
      rw [replaceAliased_of_not_guessed hguess] at hmeant
      have hcount := congrArg (List.count '(') (Option.some.inj hmeant)
      rw [meant, count_meantFrom h, List.count_nil] at hcount
      have hzero : ps.countP Part.isAliased = 0 := by omega
      refine ⟨fun p hp => Bool.eq_false_iff.2 (List.countP_eq_zero.1 hzero p hp), hguess⟩
  · rintro (⟨hnone, hguess⟩ | ⟨us, w, vs, n, rfl, hus, hvs, hfind, hn, hword⟩)
    · rw [replaceAliased_of_not_guessed hguess, meant, meantFrom_plain hnone, List.nil_append]
    · obtain ⟨x, f, d, y, htext, rfl, hf, hd⟩ := exists_of_find_from hfind
      have hlf := length_lower f
      have hld := length_lower d
      obtain ⟨hw, -, hg, halias, -⟩ := h.suffix
      have hwlen := length_upper w
      rw [hf] at hlf
      rw [hd] at hld
      rw [hw] at hwlen
      have htext' : text us ++ (w ++ [' '] ++ text vs) = x ++ f ++ (d ++ y) := by
        rw [text_append, text_cons] at htext
        rw [← List.append_assoc (x ++ f)]
        exact htext
      have hlen : (text us).length = (x ++ f).length := by
        rw [← hn, List.length_append, ← hlf]
        rfl
      obtain ⟨hus', hbehind⟩ := List.append_inj htext' hlen
      have hdlen : (w ++ [' ']).length = d.length := by
        rw [List.length_append, ← hwlen, ← hld]
        rfl
      obtain ⟨rfl, rfl⟩ := List.append_inj hbehind hdlen
      obtain ⟨g, r, -, -, htrim⟩ := exists_aliasWord (text vs)
      have hvs' : text vs = aliasWord (text vs) ++ r := by
        rw [← htrim]
        exact (trimStart_alias (g := []) (by simp) halias).symm
      have hsplit : splitAtByte (aliasWord (text vs)).length (text vs) =
          some (aliasWord (text vs), r) := by
        have happ := splitAtByte_append (aliasWord (text vs)) r
        rwa [byteLen_aliasWord, ← hvs'] at happ
      rw [htext] at hfind ⊢
      rw [replaceAliased_of_find hd hf hfind hword, hsplit, meant_aliased hus hvs, hus',
        fromCapital_append hf, Option.map_some]
      show some (x ++ "FROM ".toList ++ dualQuery ++ aliasWord (text vs) ++ r) = _
      rw [List.append_assoc (x ++ "FROM ".toList ++ dualQuery), ← hvs']

/-! ### The pass on a text -/

/-- On the letters alone the marks make no difference. -/
lemma map_cutMarked (ps : List Part) : (cutMarked (marked ps)).map Prod.fst = cutDual (text ps) := by
  rw [cutMarked, map_cutCi, map_cutCi, map_marked, cutDual]

/-- **When only references to `dual` are removed or replaced.** -/
theorem mariadbDual_faithful_iff (ps : List Part) (h : Sound ps) : Faithful ps ↔ OnlyDual ps := by
  have hdropped : Sound (dropFront (dropBehind ps)) := sound_dropFront (sound_dropBehind h)
  have hrewrite : ∀ qs, cutMarked (marked ps) = marked qs →
      rewriteMariadbDual (text ps) = replaceAliased (text qs) := by
    intro qs hqs
    rw [rewriteMariadbDual, ← map_cutMarked, hqs, map_marked]
  constructor
  · rintro ⟨qs, hdrops, hcut, hmeant⟩
    rw [hrewrite qs hcut] at hmeant
    obtain ⟨hbehind, hfront, rfl⟩ := (cutDual_iff h qs).1 ⟨hdrops, hcut⟩
    exact ⟨hbehind, hfront, (replaceAliased_iff hdropped).1 hmeant⟩
  · rintro ⟨hbehind, hfront, haliases⟩
    obtain ⟨hdrops, hcut⟩ := (cutDual_iff h _).2 ⟨hbehind, hfront, rfl⟩
    refine ⟨_, hdrops, hcut, ?_⟩
    rw [hrewrite _ hcut]
    exact (replaceAliased_iff hdropped).2 haliases

/-! ### Texts -/

lemma sound_other_append (s : List Char) {ps : List Part} (h : Sound ps) :
    Sound (s.map .other ++ ps) := by
  induction s with
  | nil => exact h
  | cons c s ih => exact ih

/-- No letter that stays is taken if as many are left. -/
lemma clear_of_length {d : Char} {q : List Char} (hd : d ∉ q) {s : List (Char × Part)}
    (h : ((cutLoop Prod.fst (d :: q) 0 s).filter kept).length = (s.filter kept).length) :
    Clear Prod.fst kept (d :: q) s :=
  (filter_cutLoop_iff hd).1 h

/-- `SELECT d.dummy FROM dual d, dual`. -/
def aliasedDual : List Part :=
  "SELECT d.dummy FROM ".toList.map .other ++
    [.aliased "dual".toList [' '], .other 'd', .comma, .blank ' ', .dual "dual".toList]

lemma sound_aliasedDual : Sound aliasedDual :=
  sound_other_append _ ⟨rfl, by simp, by decide, ⟨'d', _, rfl, rfl⟩, rfl, rfl, trivial⟩

/-- An alias, and a reference without one. -/
theorem aliasedDual_faithful : Faithful aliasedDual := by
  refine (mariadbDual_faithful_iff aliasedDual sound_aliasedDual).2 ⟨?_, ?_, Or.inr ?_⟩
  · exact clear_of_length (d := ',') (q := " DUAL".toList) (by decide) (by decide)
  · exact clear_of_length (d := 'D') (q := "UAL, ".toList) (by decide) (by decide)
  · exact ⟨"SELECT d.dummy FROM ".toList.map .other, "dual".toList, [.other 'd'], 15, by decide,
      by decide, by decide, by decide, by decide, by decide⟩

/-- `SELECT id, dual_flag FROM t`, without a reference to `dual`. -/
def flagColumn : List Part := "SELECT id, dual_flag FROM t".toList.map .other

/-- A column whose name starts with the letters of `dual` loses them, and the comma in front. -/
theorem flagColumn_not_faithful :
    rewriteMariadbDual (text flagColumn) = some "SELECT id_flag FROM t".toList ∧
      ¬ Faithful flagColumn := by
  refine ⟨by decide, ?_⟩
  rintro ⟨qs, hdrops, hcut, -⟩
  have hlen := congrArg List.length hdrops.filter
  rw [← hcut] at hlen
  exact absurd hlen (by decide)

end DbSaci.Translate.MariadbDual
