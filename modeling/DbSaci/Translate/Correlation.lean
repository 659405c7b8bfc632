import DbSaci.Library.Fronts
import DbSaci.Sql.Lexemes

set_option relaxedAutoImplicit false
set_option autoImplicit false

/-!
# Correlation names in trigger bodies

`rewrite_plsql` takes the colon off the names of the two rows in the body of a trigger by up to four
replacements: of the names that `REFERENCING` gives, and of `:NEW` and `:OLD`.

## Main definitions

* `unColon` — the replacements.
* `Part` — a character of a body, or a reference to a row.
* `Only`, `Own` — the conditions on a body.

## Main results

* `replaceCi_parts` — what one replacement makes of a body.
* `unColon_iff` — when references lose their colon, and nothing else does.
-/

namespace DbSaci.Translate.Trigger

open Text

/-! ### The replacements -/

/-- A row of a trigger. -/
inductive Row where
  | new
  | old
  deriving DecidableEq

/-- How PL/pgSQL names a row. -/
def Row.name : Row → List Char
  | new => "NEW".toList
  | old => "OLD".toList

/-- The names of the rows that are replaced, in capitals and one after the other. -/
def passes (refNew refOld : Option (List Char)) : List (List Char × Row) :=
  (refNew.map fun w => (upper w, Row.new)).toList ++
    ((refOld.map fun w => (upper w, Row.old)).toList ++
      [("NEW".toList, .new), ("OLD".toList, .old)])

/-- The replacements, one after the other. -/
def runPasses (ps : List (List Char × Row)) (body : List Char) : List Char :=
  ps.foldl (fun body p => replaceCi (':' :: p.1) p.2.name body) body

/-- The replacements of the body of a trigger. -/
def unColon (refNew refOld : Option (List Char)) (body : List Char) : List Char :=
  runPasses (passes refNew refOld) body

/-! ### What is meant -/

/-- A character of a body, or a reference to a row by a name behind a colon. -/
inductive Part where
  | other (c : Char)
  | ref (row : Row) (w : List Char)
  deriving DecidableEq

/-- How a part is written. -/
def Part.text : Part → List Char
  | other c => [c]
  | ref _ w => ':' :: w

/-- What is meant for a part: the name of the row. -/
def Part.meant : Part → List Char
  | other c => [c]
  | ref row _ => row.name

/-- The text of a body. -/
def text (ps : List Part) : List Char := ps.flatMap Part.text

/-- The text that is meant for a body. -/
def meant (ps : List Part) : List Char := ps.flatMap Part.meant

/-- The name of a row: the one that `REFERENCING` gives, or else its own. -/
def nameOf (refNew refOld : Option (List Char)) : Row → List Char
  | .new => refNew.getD "NEW".toList
  | .old => refOld.getD "OLD".toList

section Sound

variable (names : List (List Char × Row))

/-- Behind a reference comes the end, or a character that is none of a name. -/
def Ends : List Part → Prop
  | [] => True
  | .other c :: _ => Physical.isNameChar c = false ∧ c ≠ ':' ∧ ∀ p ∈ names, c.toUpper ∉ p.1
  | .ref _ _ :: _ => False

/-- A reference has the name of its row. -/
def Sound : List Part → Prop
  | [] => True
  | .other _ :: ps => Sound ps
  | .ref row w :: ps => (upper w, row) ∈ names ∧ Ends names ps ∧ Sound ps

end Sound

/-! ### The condition -/

/-- No other colon stands in front of a name. -/
def NoHit (a : List Char) (ps : List Part) : Prop :=
  ∀ us vs, ps = us ++ .other ':' :: vs → ¬ startsWith a (text vs) = true

/-- The parts with the name of a row in the place of the references that start with a name. -/
def resolve (a r : List Char) (ps : List Part) : List Part :=
  ps.flatMap fun p =>
    match p with
    | .other c => [.other c]
    | .ref row w =>
      if startsWith a w = true then (r ++ w.drop a.length).map .other else [.ref row w]

/-- **Only references are hit** by replacements: no other colon stands in front of a name, as the
replacements before leave the text. -/
def Only : List (List Char × Row) → List Part → Prop
  | [], _ => True
  | (a, row) :: names, ps => NoHit a ps ∧ Only names (resolve a row.name ps)

/-- **A reference is hit by its own name**: no name before it is the start of it. -/
def Own (names : List (List Char × Row)) : Part → Prop
  | .other _ => True
  | .ref row w => names.find? (fun p => startsWith p.1 w) = some (upper w, row)

/-! ### One replacement -/

@[simp]
lemma text_nil : text [] = [] := rfl

@[simp]
lemma text_cons (p : Part) (ps : List Part) : text (p :: ps) = p.text ++ text ps :=
  List.flatMap_cons

@[simp]
lemma text_append (ps qs : List Part) : text (ps ++ qs) = text ps ++ text qs :=
  List.flatMap_append

lemma text_other (s : List Char) : text (s.map .other) = s := by
  induction s with
  | nil => rfl
  | cons c s ih => exact congrArg (c :: ·) ih

/-- What a replacement makes of a body: so many letters are of a name that is replaced. -/
def passParts (a r : List Char) : ℕ → List Part → List Part
  | _, [] => []
  | skip + 1, .other _ :: ps => passParts a r skip ps
  | 0, .other c :: ps =>
    if c = ':' ∧ startsWith a (text ps) = true then r.map .other ++ passParts a r a.length ps
    else .other c :: passParts a r 0 ps
  | _, .ref row w :: ps =>
    if startsWith a w = true then (r ++ w.drop a.length).map .other ++ passParts a r 0 ps
    else .ref row w :: passParts a r 0 ps

/-- So many letters are of no reference. -/
def Free : ℕ → List Part → Prop
  | 0, _ => True
  | _ + 1, [] => True
  | n + 1, .other _ :: ps => Free n ps
  | _ + 1, .ref _ _ :: _ => False

lemma free_zero (ps : List Part) : Free 0 ps := by
  cases ps <;> exact trivial

section Pass

variable {names : List (List Char × Row)} {a r : List Char} {ps : List Part}

lemma startsWith_cons (d : Char) (q : List Char) (c : Char) (s : List Char) :
    startsWith (d :: q) (c :: s) = true ↔ d = c.toUpper ∧ startsWith q s = true := by
  rw [startsWith, startsWith, List.isPrefixOf_iff_prefix, List.isPrefixOf_iff_prefix, upper_cons,
    List.cons_prefix_cons]

/-- No letter of a name is of a reference. -/
lemma free_of_startsWith (ha : ':' ∉ a) (h : startsWith a (text ps) = true) :
    Free a.length ps := by
  induction a generalizing ps with
  | nil => trivial
  | cons d a ih =>
    cases ps with
    | nil => trivial
    | cons p ps =>
      cases p with
      | other c =>
        exact ih (fun hmem => ha (List.mem_cons_of_mem d hmem))
          ((startsWith_cons d a c (text ps)).1 h).2
      | ref row w =>
        have hcolon : d = ':' := ((startsWith_cons d a ':' (w ++ text ps)).1 h).1
        exact ha (hcolon ▸ List.mem_cons_self)

/-- A name that starts behind a colon of a reference ends in the name of the reference. -/
lemma startsWith_ref {row : Row} (hmem : (a, row) ∈ names) (hps : Ends names ps)
    (w : List Char) : startsWith a (w ++ text ps) = startsWith a w := by
  have hend : ∀ b, (∃ x, a = x ++ b) → b ≠ [] → startsWith b (text ps) = false := by
    rintro b ⟨x, rfl⟩ hb
    obtain ⟨d, b, rfl⟩ := List.exists_cons_of_ne_nil hb
    rw [← Bool.not_eq_true]
    intro hstart
    cases ps with
    | nil => cases hstart
    | cons p ps =>
      cases p with
      | ref row w => exact hps
      | other c =>
        have hd := ((startsWith_cons d b c (text ps)).1 hstart).1
        exact hps.2.2 _ hmem (hd ▸ by simp)
  clear hmem
  induction w generalizing a with
  | nil =>
    rw [List.nil_append]
    by_cases hnil : a = []
    · subst hnil
      rfl
    · rw [hend a ⟨[], rfl⟩ hnil]
      cases a with
      | nil => exact absurd rfl hnil
      | cons d a => rfl
  | cons c w ih =>
    cases a with
    | nil => rfl
    | cons d a =>
      rw [Bool.eq_iff_iff, List.cons_append, startsWith_cons, startsWith_cons,
        ih fun b hb => hend b ?_]
      obtain ⟨x, hx⟩ := hb
      exact ⟨d :: x, congrArg (d :: ·) hx⟩

lemma toUpper_eq_colon {c : Char} : c.toUpper = ':' ↔ c = ':' := by
  constructor
  · intro h
    rcases toUpper_cases c with hup | ⟨-, halpha⟩
    · rw [← hup, h]
    · rw [h] at halpha
      cases halpha
  · rintro rfl
    rfl

lemma replaceLoop_skip (hit : List Char → Bool) (len : ℕ) (r : List Char) (n : ℕ)
    (s : List Char) : replaceLoop hit len r n s = replaceLoop hit len r 0 (s.drop n) := by
  induction s generalizing n with
  | nil =>
    rw [List.drop_nil]
    cases n <;> rfl
  | cons c s ih =>
    cases n with
    | zero => rfl
    | succ n => exact ih n

/-- A name that is replaced does not start within a name. -/
lemma replaceLoop_name {w : List Char} (hw : ':' ∉ w) (a r : List Char) (len : ℕ)
    (s : List Char) :
    replaceLoop (startsWith (':' :: a)) len r 0 (w ++ s) =
      w ++ replaceLoop (startsWith (':' :: a)) len r 0 s := by
  induction w with
  | nil => rfl
  | cons c w ih =>
    have hnot : ¬ startsWith (':' :: a) (c :: (w ++ s)) = true := by
      rw [startsWith_cons]
      intro hhit
      exact hw (toUpper_eq_colon.1 hhit.1.symm ▸ List.mem_cons_self)
    rw [List.cons_append, replaceLoop, if_neg hnot, ih fun h => hw (List.mem_cons_of_mem c h),
      List.cons_append]

/-- The name of a reference holds no colon. -/
lemma colon_not_mem (hnames : ∀ p ∈ names, ':' ∉ p.1) {row : Row} {w : List Char}
    (h : (upper w, row) ∈ names) : ':' ∉ w := by
  intro hw
  refine hnames _ h (List.mem_map.2 ⟨':', hw, rfl⟩)

/-- **What one replacement makes of a body.** -/
theorem replaceLoop_parts (hnames : ∀ p ∈ names, ':' ∉ p.1) {row : Row} (ha : (a, row) ∈ names)
    (hps : Sound names ps) {skip : ℕ} (hfree : Free skip ps) :
    replaceLoop (startsWith (':' :: a)) (a.length + 1) r skip (text ps) =
      text (passParts a r skip ps) := by
  induction ps generalizing skip with
  | nil => cases skip <;> rfl
  | cons p ps ih =>
    cases p with
    | other c =>
      cases skip with
      | succ skip => exact ih hps hfree
      | zero =>
        have hiff : startsWith (':' :: a) (c :: text ps) = true ↔
            c = ':' ∧ startsWith a (text ps) = true := by
          rw [startsWith_cons, eq_comm, toUpper_eq_colon]
        show replaceLoop _ _ r 0 (c :: text ps) = _
        rw [replaceLoop, passParts]
        by_cases hit : c = ':' ∧ startsWith a (text ps) = true
        · rw [if_pos (hiff.2 hit), if_pos hit, text_append, text_other, Nat.add_sub_cancel,
            ih hps (free_of_startsWith (hnames _ ha) hit.2)]
        · rw [if_neg fun h => hit (hiff.1 h), if_neg hit, text_cons, ih hps (free_zero ps)]
          rfl
    | ref row' w =>
      cases skip with
      | succ skip => exact hfree.elim
      | zero =>
        obtain ⟨hw, hends, hps⟩ := hps
        have hcolon := colon_not_mem hnames hw
        have hup : ':' = ':'.toUpper := rfl
        have hiff : startsWith (':' :: a) (':' :: (w ++ text ps)) = true ↔
            startsWith a w = true := by
          rw [startsWith_cons, startsWith_ref ha hends, and_iff_right hup]
        have ih := ih hps (free_zero ps)
        show replaceLoop _ _ r 0 (':' :: (w ++ text ps)) = _
        rw [replaceLoop, passParts]
        by_cases hit : startsWith a w = true
        · have hle : a.length ≤ w.length := by
            have hlen := (List.isPrefixOf_iff_prefix.1 hit).length_le
            rwa [length_upper] at hlen
          have hdrop : ':' ∉ w.drop a.length := fun h => hcolon (List.mem_of_mem_drop h)
          rw [if_pos (hiff.2 hit), if_pos hit, text_append, text_other, Nat.add_sub_cancel,
            replaceLoop_skip, List.drop_append_of_le_length hle, replaceLoop_name hdrop, ih,
            List.append_assoc]
        · rw [if_neg fun h => hit (hiff.1 h), if_neg hit, text_cons, replaceLoop_name hcolon, ih]
          rfl

theorem replaceCi_parts (hnames : ∀ p ∈ names, ':' ∉ p.1) {row : Row} (ha : (a, row) ∈ names)
    (hup : upper a = a) (hps : Sound names ps) :
    replaceCi (':' :: a) r (text ps) = text (passParts a r 0 ps) := by
  have hcolon : upper (':' :: a) = ':' :: a := congrArg (':' :: ·) hup
  rw [replaceCi, hcolon, List.length_cons]
  exact replaceLoop_parts hnames ha hps (free_zero ps)

/-! ### What a replacement leaves -/

lemma sound_other_append (s : List Char) : Sound names (s.map .other ++ ps) ↔ Sound names ps := by
  induction s with
  | nil => exact Iff.rfl
  | cons c s ih => exact ih

/-- A body stays one. -/
lemma sound_passParts (hps : Sound names ps) (skip : ℕ) (hfree : Free skip ps) (ha : ':' ∉ a) :
    Sound names (passParts a r skip ps) := by
  induction ps generalizing skip with
  | nil => cases skip <;> exact trivial
  | cons p ps ih =>
    cases p with
    | other c =>
      cases skip with
      | succ skip => exact ih hps skip hfree
      | zero =>
        rw [passParts]
        split_ifs with hit
        · exact (sound_other_append r).2 (ih hps a.length (free_of_startsWith ha hit.2))
        · exact ih hps 0 (free_zero ps)
    | ref row w =>
      cases skip with
      | succ skip => exact hfree.elim
      | zero =>
        obtain ⟨hw, hends, hps⟩ := hps
        have ih := ih hps 0 (free_zero ps)
        rw [passParts]
        split_ifs with hit
        · exact (sound_other_append _).2 ih
        · refine ⟨hw, ?_, ih⟩
          cases ps with
          | nil => exact trivial
          | cons q qs =>
            cases q with
            | ref row' w' => exact hends.elim
            | other c =>
              have hcolon : ¬ (c = ':' ∧ startsWith a (text qs) = true) := fun h => hends.2.1 h.1
              rw [passParts, if_neg hcolon]
              exact hends

/-- A reference that is left was there, and does not start with the name. -/
lemma ref_of_mem_passParts {row : Row} {w : List Char} {skip : ℕ}
    (h : .ref row w ∈ passParts a r skip ps) :
    .ref row w ∈ ps ∧ ¬ startsWith a w = true := by
  induction ps generalizing skip with
  | nil =>
    cases skip <;> cases h
  | cons p ps ih =>
    have hother : ∀ s : List Char, Part.ref row w ∉ s.map Part.other := by
      intro s hs
      obtain ⟨c, -, hc⟩ := List.mem_map.1 hs
      cases hc
    have htail : ∀ {skip}, .ref row w ∈ passParts a r skip ps →
        .ref row w ∈ p :: ps ∧ ¬ startsWith a w = true := fun h =>
      ⟨List.mem_cons_of_mem p (ih h).1, (ih h).2⟩
    cases p with
    | other c =>
      cases skip with
      | succ skip => exact htail h
      | zero =>
        rw [passParts] at h
        split_ifs at h with hit
        · exact htail ((List.mem_append.1 h).resolve_left (hother r))
        · exact htail ((List.mem_cons.1 h).resolve_left (by simp))
    | ref row' w' =>
      rw [passParts] at h
      split_ifs at h with hit
      · exact htail ((List.mem_append.1 h).resolve_left (hother _))
      · rcases List.mem_cons.1 h with heq | h
        · obtain ⟨rfl, rfl⟩ := Part.ref.inj heq
          exact ⟨List.mem_cons_self, hit⟩
        · exact htail h

lemma count_other {s : List Char} (hs : ':' ∉ s) : (s.map Part.other).count (.other ':') = 0 := by
  rw [List.count_eq_zero]
  intro hmem
  obtain ⟨c, hc, heq⟩ := List.mem_map.1 hmem
  obtain rfl := Part.other.inj heq
  exact hs hc

/-- No colon comes in. -/
lemma count_passParts_le (hnames : ∀ p ∈ names, ':' ∉ p.1) (hr : ':' ∉ r) (hps : Sound names ps)
    (skip : ℕ) : (passParts a r skip ps).count (.other ':') ≤ ps.count (.other ':') := by
  induction ps generalizing skip with
  | nil => cases skip <;> exact Nat.le_refl _
  | cons p ps ih =>
    have hcons : ps.count (.other ':') ≤ (p :: ps).count (.other ':') := List.count_le_count_cons
    cases p with
    | other c =>
      cases skip with
      | succ skip => exact Nat.le_trans (ih hps skip) hcons
      | zero =>
        rw [passParts]
        split_ifs with hit
        · rw [List.count_append, count_other hr, Nat.zero_add]
          exact Nat.le_trans (ih hps _) hcons
        · rw [List.count_cons, List.count_cons]
          exact Nat.add_le_add_right (ih hps 0) _
    | ref row w =>
      obtain ⟨hw, -, hps⟩ := hps
      have hdrop : ':' ∉ r ++ w.drop a.length := by
        intro hmem
        rcases List.mem_append.1 hmem with hmem | hmem
        · exact hr hmem
        · exact colon_not_mem hnames hw (List.mem_of_mem_drop hmem)
      rw [passParts]
      split_ifs with hit
      · rw [List.count_append, count_other hdrop, Nat.zero_add]
        exact Nat.le_trans (ih hps 0) hcons
      · rw [List.count_cons, List.count_cons]
        exact Nat.add_le_add_right (ih hps 0) _

/-- **A replacement that takes no other colon** is one of references only. -/
lemma noHit_of_count (hnames : ∀ p ∈ names, ':' ∉ p.1) (hr : ':' ∉ r) (hps : Sound names ps)
    (h : (passParts a r 0 ps).count (.other ':') = ps.count (.other ':')) : NoHit a ps := by
  induction ps with
  | nil =>
    intro us vs huv
    cases us <;> cases huv
  | cons p ps ih =>
    have hstep : ∀ {q : Part}, q = p → NoHit a ps →
        ¬ (q = .other ':' ∧ startsWith a (text ps) = true) → NoHit a (p :: ps) := by
      rintro q rfl hps hq us vs huv
      cases us with
      | nil =>
        obtain ⟨rfl, rfl⟩ := List.cons.inj huv
        exact fun hit => hq ⟨rfl, hit⟩
      | cons u us => exact hps us vs (List.cons.inj huv).2
    cases p with
    | other c =>
      rw [passParts] at h
      split_ifs at h with hit
      · have hle : (passParts a r a.length ps).count (.other ':') ≤ ps.count (.other ':') :=
          count_passParts_le hnames hr (show Sound names ps from hps) a.length
        rw [List.count_append, count_other hr, hit.1, List.count_cons_self] at h
        omega
      · rw [List.count_cons, List.count_cons, Nat.add_right_cancel_iff] at h
        refine hstep rfl (ih hps h) fun hq => hit ⟨Part.other.inj hq.1, hq.2⟩
    | ref row w =>
      obtain ⟨hw, -, hps⟩ := hps
      have hdrop : ':' ∉ r ++ w.drop a.length := by
        intro hmem
        rcases List.mem_append.1 hmem with hmem | hmem
        · exact hr hmem
        · exact colon_not_mem hnames hw (List.mem_of_mem_drop hmem)
      have hcount : (passParts a r 0 ps).count (.other ':') = ps.count (.other ':') := by
        rw [passParts] at h
        split_ifs at h with hit
        · rw [List.count_append, count_other hdrop, List.count_cons_of_ne (by simp)] at h
          omega
        · rw [List.count_cons_of_ne (by simp), List.count_cons_of_ne (by simp)] at h
          exact h
      exact hstep rfl (ih hps hcount) fun hq => by cases hq.1

lemma NoHit.tail {p : Part} (h : NoHit a (p :: ps)) : NoHit a ps := fun us vs huv =>
  h (p :: us) vs (congrArg (p :: ·) huv)

/-- A replacement of references only. -/
lemma passParts_of_noHit (h : NoHit a ps) : passParts a r 0 ps = resolve a r ps := by
  induction ps with
  | nil => rfl
  | cons p ps ih =>
    have hcons : resolve a r (p :: ps) = resolve a r [p] ++ resolve a r ps := by
      simp [resolve]
    rw [hcons, ← ih h.tail]
    cases p with
    | other c =>
      rw [passParts, if_neg]
      · rfl
      · rintro ⟨rfl, hit⟩
        exact h [] ps rfl hit
    | ref row w =>
      have hone : resolve a r [.ref row w] =
          if startsWith a w = true then (r ++ w.drop a.length).map .other else [.ref row w] := by
        simp [resolve]
      rw [passParts, hone]
      split_ifs <;> rfl

end Pass

/-! ### All replacements -/

/-- What the replacements make of a body. -/
def partsOf (ps : List Part) (qs : List (List Char × Row)) : List Part :=
  qs.foldl (fun ps p => passParts p.1 p.2.name 0 ps) ps

/-- What they make of it if only references are hit. -/
def resolveAll (ps : List Part) (qs : List (List Char × Row)) : List Part :=
  qs.foldl (fun ps p => resolve p.1 p.2.name ps) ps

/-- What becomes of a reference. -/
def resolved (qs : List (List Char × Row)) (w : List Char) : List Char :=
  match qs.find? fun p => startsWith p.1 w with
  | some (a, row) => row.name ++ w.drop a.length
  | none => ':' :: w

/-- What becomes of a part. -/
def Part.resolved (qs : List (List Char × Row)) : Part → List Char
  | other c => [c]
  | ref _ w => Trigger.resolved qs w

lemma colon_not_mem_name (row : Row) : ':' ∉ row.name := by
  cases row <;> decide

section Passes

variable {names qs : List (List Char × Row)} {ps : List Part}
  (hnames : ∀ p ∈ names, ':' ∉ p.1 ∧ upper p.1 = p.1)

include hnames

lemma sound_pass (hps : Sound names ps) {p : List Char × Row} (hp : p ∈ names) :
    Sound names (passParts p.1 p.2.name 0 ps) :=
  sound_passParts hps 0 (free_zero ps) (hnames p hp).1

/-- **What the replacements make of a body.** -/
theorem runPasses_text (hqs : ∀ p ∈ qs, p ∈ names) (hps : Sound names ps) :
    runPasses qs (text ps) = text (partsOf ps qs) := by
  induction qs generalizing ps with
  | nil => rfl
  | cons p qs ih =>
    have hp := hqs p List.mem_cons_self
    have hstep : replaceCi (':' :: p.1) p.2.name (text ps) = text (passParts p.1 p.2.name 0 ps) :=
      replaceCi_parts (fun p hp => (hnames p hp).1) hp (hnames p hp).2 hps
    have ih := ih (fun q hq => hqs q (List.mem_cons_of_mem p hq)) (sound_pass hnames hps hp)
    rw [runPasses, List.foldl_cons, hstep]
    exact ih

lemma count_partsOf_le (hqs : ∀ p ∈ qs, p ∈ names) (hps : Sound names ps) :
    (partsOf ps qs).count (.other ':') ≤ ps.count (.other ':') := by
  induction qs generalizing ps with
  | nil => exact Nat.le_refl _
  | cons p qs ih =>
    have hp := hqs p List.mem_cons_self
    have hle := count_passParts_le (a := p.1) (fun p hp => (hnames p hp).1)
      (colon_not_mem_name p.2) hps 0
    exact Nat.le_trans
      (ih (fun q hq => hqs q (List.mem_cons_of_mem p hq)) (sound_pass hnames hps hp)) hle

/-- If no other colon is lost, only references are hit. -/
lemma only_of_count (hqs : ∀ p ∈ qs, p ∈ names) (hps : Sound names ps)
    (h : (partsOf ps qs).count (.other ':') = ps.count (.other ':')) : Only qs ps := by
  induction qs generalizing ps with
  | nil => trivial
  | cons p qs ih =>
    have hp := hqs p List.mem_cons_self
    have hqs' : ∀ q ∈ qs, q ∈ names := fun q hq => hqs q (List.mem_cons_of_mem p hq)
    have hsound := sound_pass hnames hps hp
    have hle := count_passParts_le (a := p.1) (fun p hp => (hnames p hp).1)
      (colon_not_mem_name p.2) hps 0
    have hle' := count_partsOf_le hnames hqs' hsound
    have hrun : (partsOf (passParts p.1 p.2.name 0 ps) qs).count (.other ':') =
        ps.count (.other ':') := h
    have hno := noHit_of_count (a := p.1) (fun p hp => (hnames p hp).1) (colon_not_mem_name p.2)
      hps (by omega)
    have ih := ih hqs' hsound (by omega)
    rw [passParts_of_noHit hno] at ih
    exact ⟨hno, ih⟩

omit hnames

lemma partsOf_of_only (h : Only qs ps) : partsOf ps qs = resolveAll ps qs := by
  induction qs generalizing ps with
  | nil => rfl
  | cons p qs ih =>
    rw [partsOf, resolveAll, List.foldl_cons, List.foldl_cons, passParts_of_noHit h.1]
    exact ih h.2

/-- A reference that is left does not start with any of the names. -/
lemma ref_of_mem_partsOf {row : Row} {w : List Char} (h : .ref row w ∈ partsOf ps qs) :
    .ref row w ∈ ps ∧ ∀ p ∈ qs, ¬ startsWith p.1 w = true := by
  induction qs generalizing ps with
  | nil => exact ⟨h, by simp⟩
  | cons p qs ih =>
    have ih := @ih (passParts p.1 p.2.name 0 ps) h
    obtain ⟨hmem, hqs⟩ := ih
    obtain ⟨hps, hp⟩ := ref_of_mem_passParts hmem
    refine ⟨hps, ?_⟩
    intro q hq
    rcases List.mem_cons.1 hq with rfl | hq
    · exact hp
    · exact hqs q hq

lemma Sound.mem (h : Sound names ps) {row : Row} {w : List Char} (hmem : .ref row w ∈ ps) :
    (upper w, row) ∈ names := by
  induction ps with
  | nil => cases hmem
  | cons p ps ih =>
    cases p with
    | other c => exact ih h ((List.mem_cons.1 hmem).resolve_left (by simp))
    | ref row' w' =>
      rcases List.mem_cons.1 hmem with heq | hmem
      · obtain ⟨rfl, rfl⟩ := Part.ref.inj heq
        exact h.1
      · exact ih h.2.2 hmem

lemma startsWith_upper (w : List Char) : startsWith (upper w) w = true :=
  List.isPrefixOf_iff_prefix.2 (List.prefix_refl _)

/-- No reference is left. -/
lemma partsOf_eq_other (h : Sound names ps) :
    ∃ s : List Char, partsOf ps names = s.map .other := by
  have hno : ∀ p ∈ partsOf ps names, ∃ c, p = Part.other c := by
    intro p hp
    cases p with
    | other c => exact ⟨c, rfl⟩
    | ref row w =>
      obtain ⟨hmem, hnone⟩ := ref_of_mem_partsOf hp
      exact absurd (startsWith_upper w) (hnone _ (h.mem hmem))
  generalize partsOf ps names = ts at hno
  induction ts with
  | nil => exact ⟨[], rfl⟩
  | cons p ts ih =>
    obtain ⟨c, rfl⟩ := hno p List.mem_cons_self
    obtain ⟨s, rfl⟩ := ih fun q hq => hno q (List.mem_cons_of_mem _ hq)
    exact ⟨c :: s, rfl⟩

lemma count_text_other (s : List Char) :
    (text (s.map .other)).count ':' = (s.map Part.other).count (.other ':') := by
  rw [text_other]
  induction s with
  | nil => rfl
  | cons c s ih =>
    rw [List.map_cons, List.count_cons, List.count_cons, ih]
    simp

lemma count_meant (ps : List Part) : (meant ps).count ':' = ps.count (.other ':') := by
  induction ps with
  | nil => rfl
  | cons p ps ih =>
    have hcons : meant (p :: ps) = p.meant ++ meant ps := List.flatMap_cons
    rw [hcons, List.count_append, ih, List.count_cons]
    cases p with
    | other c => simp [Part.meant, List.count_cons, Nat.add_comm]
    | ref row w =>
      rw [Part.meant, List.count_eq_zero.2 (colon_not_mem_name row)]
      simp

lemma resolved_cons (p : List Char × Row) (qs : List (List Char × Row)) (w : List Char) :
    resolved (p :: qs) w =
      if startsWith p.1 w = true then p.2.name ++ w.drop p.1.length else resolved qs w := by
  rw [resolved, List.find?_cons]
  cases startsWith p.1 w <;> rfl

/-- What becomes of the parts. -/
lemma text_resolveAll (ps : List Part) (qs : List (List Char × Row)) :
    text (resolveAll ps qs) = ps.flatMap (Part.resolved qs) := by
  induction qs generalizing ps with
  | nil =>
    refine List.flatMap_congr fun p _ => ?_
    cases p <;> rfl
  | cons p qs ih =>
    have hrun : resolveAll ps (p :: qs) = resolveAll (resolve p.1 p.2.name ps) qs := rfl
    rw [hrun, ih, resolve, List.flatMap_assoc]
    refine List.flatMap_congr fun q _ => ?_
    have hother : ∀ s : List Char, (s.map Part.other).flatMap (Part.resolved qs) = s := by
      intro s
      induction s with
      | nil => rfl
      | cons c s ih => exact congrArg (c :: ·) ih
    cases q with
    | other c => rfl
    | ref row w =>
      show _ = resolved (p :: qs) w
      rw [resolved_cons]
      by_cases hit : startsWith p.1 w = true
      · simp only [if_pos hit]
        exact hother _
      · simp only [if_neg hit]
        exact List.append_nil _

/-- **A reference gets the name of its row** if and only if its own name comes first. -/
lemma resolved_iff {row : Row} {w : List Char} (h : (upper w, row) ∈ names) :
    resolved names w = row.name ↔ Own names (.ref row w) := by
  have hlen : ∀ row : Row, row.name.length = 3 := fun row => by cases row <;> rfl
  cases hfind : names.find? fun p => startsWith p.1 w with
  | none => exact absurd (startsWith_upper w) (List.find?_eq_none.1 hfind _ h)
  | some p =>
    obtain ⟨a, row'⟩ := p
    have hstart : startsWith a w = true :=
      List.find?_some (p := fun p : List Char × Row => startsWith p.1 w) hfind
    have hpre : a <+: upper w := List.isPrefixOf_iff_prefix.1 hstart
    rw [Own, resolved, hfind, Option.some.injEq, Prod.mk.injEq]
    show row'.name ++ w.drop a.length = row.name ↔ _
    constructor
    · intro heq
      have hle := congrArg List.length heq
      rw [List.length_append, List.length_drop, hlen, hlen] at hle
      have ha : a = upper w := hpre.eq_of_length (by
        have hle' := hpre.length_le
        rw [length_upper] at hle' ⊢
        omega)
      rw [ha, length_upper, List.drop_length, List.append_nil] at heq
      refine ⟨ha, ?_⟩
      cases row' <;> cases row <;> first | rfl | cases heq
    · rintro ⟨rfl, rfl⟩
      rw [length_upper, List.drop_length, List.append_nil]

lemma length_meant_le (h : Sound names ps) :
    ∀ p ∈ ps, p.meant.length ≤ (p.resolved names).length := by
  intro p hp
  cases p with
  | other c => exact Nat.le_refl _
  | ref row w =>
    show row.name.length ≤ (resolved names w).length
    have hlen : ∀ row : Row, row.name.length = 3 := fun row => by cases row <;> rfl
    cases hfind : names.find? fun p => startsWith p.1 w with
    | none => exact absurd (startsWith_upper w) (List.find?_eq_none.1 hfind _ (h.mem hp))
    | some p =>
      rw [resolved, hfind]
      show _ ≤ (p.2.name ++ w.drop p.1.length).length
      rw [List.length_append, hlen, hlen]
      omega

lemma length_flatMap_le {f g : Part → List Char} (hle : ∀ p ∈ ps, (g p).length ≤ (f p).length) :
    (ps.flatMap g).length ≤ (ps.flatMap f).length := by
  induction ps with
  | nil => exact Nat.le_refl _
  | cons p ps ih =>
    have hp := hle p List.mem_cons_self
    have ih := ih fun q hq => hle q (List.mem_cons_of_mem p hq)
    rw [List.flatMap_cons, List.flatMap_cons, List.length_append, List.length_append]
    omega

/-- Two texts of the same parts, the one nowhere shorter than the other. -/
lemma eq_of_flatMap_eq {f g : Part → List Char} (hle : ∀ p ∈ ps, (g p).length ≤ (f p).length)
    (h : ps.flatMap f = ps.flatMap g) : ∀ p ∈ ps, f p = g p := by
  induction ps with
  | nil => simp
  | cons p ps ih =>
    have hrest := length_flatMap_le fun q hq => hle q (List.mem_cons_of_mem p hq)
    have hp := hle p List.mem_cons_self
    rw [List.flatMap_cons, List.flatMap_cons] at h
    have hlen := congrArg List.length h
    rw [List.length_append, List.length_append] at hlen
    obtain ⟨heq, htail⟩ := List.append_inj h (by omega)
    intro q hq
    rcases List.mem_cons.1 hq with rfl | hq
    · exact heq
    · exact ih (fun q hq => hle q (List.mem_cons_of_mem p hq)) htail q hq

/-- **When references lose their colon, and nothing else does.** -/
theorem runPasses_iff (hnames : ∀ p ∈ names, ':' ∉ p.1 ∧ upper p.1 = p.1) (h : Sound names ps) :
    runPasses names (text ps) = meant ps ↔ Only names ps ∧ ∀ p ∈ ps, Own names p := by
  have hrun := runPasses_text hnames (fun _ hp => hp) h
  have hown : ∀ p ∈ ps, (p.resolved names = p.meant ↔ Own names p) := by
    intro p hp
    cases p with
    | other c => exact iff_of_true rfl trivial
    | ref row w => exact resolved_iff (h.mem hp)
  rw [hrun]
  constructor
  · intro heq
    have honly : Only names ps := by
      obtain ⟨s, hs⟩ := partsOf_eq_other h
      refine only_of_count hnames (fun _ hp => hp) h ?_
      rw [hs, ← count_text_other, ← hs, heq, count_meant]
    rw [partsOf_of_only honly, text_resolveAll] at heq
    exact ⟨honly, fun p hp => (hown p hp).1 (eq_of_flatMap_eq (length_meant_le h) heq p hp)⟩
  · rintro ⟨honly, hall⟩
    rw [partsOf_of_only honly, text_resolveAll]
    exact List.flatMap_congr fun p hp => (hown p hp).2 (hall p hp)

end Passes

lemma toUpper_toUpper (c : Char) : c.toUpper.toUpper = c.toUpper := by
  by_cases h : 'a'.val ≤ c.val ∧ c.val ≤ 'z'.val
  · have hval : c.toUpper.val = c.val + ('A'.val - 'a'.val) := by
      delta Char.toUpper
      rw [dif_pos h]
    obtain ⟨hlo, hhi⟩ := h
    rw [UInt32.le_iff_toNat_le] at hlo hhi
    change 97 ≤ c.val.toNat at hlo
    change c.val.toNat ≤ 122 at hhi
    have hdiff : ('A'.val - 'a'.val).toNat = 4294967264 := rfl
    have hnat : c.toUpper.val.toNat = c.val.toNat - 32 := by
      rw [hval, UInt32.toNat_add, hdiff]
      omega
    generalize c.toUpper = d at hnat
    delta Char.toUpper
    rw [dif_neg]
    rintro ⟨hlo', -⟩
    rw [UInt32.le_iff_toNat_le] at hlo'
    change 97 ≤ d.val.toNat at hlo'
    omega
  · have hc : c.toUpper = c := by
      delta Char.toUpper
      rw [dif_neg h]
    rw [hc, hc]

/-- Names without a colon. -/
def Plain (ref : Option (List Char)) : Prop := ∀ w ∈ ref, ':' ∉ w

lemma passes_upper {refNew refOld : Option (List Char)} (hnew : Plain refNew)
    (hold : Plain refOld) : ∀ p ∈ passes refNew refOld, ':' ∉ p.1 ∧ upper p.1 = p.1 := by
  have hupper : ∀ w : List Char, ':' ∉ w → ':' ∉ upper w ∧ upper (upper w) = upper w := by
    intro w hw
    refine ⟨fun hmem => hw ?_, ?_⟩
    · obtain ⟨c, hc, heq⟩ := List.mem_map.1 hmem
      exact toUpper_eq_colon.1 heq ▸ hc
    · rw [upper, upper, List.map_map]
      exact List.map_congr_left fun c _ => toUpper_toUpper c
  intro p hp
  simp only [passes, List.mem_append, Option.mem_toList, Option.map_eq_some_iff, List.mem_cons,
    List.not_mem_nil, or_false] at hp
  rcases hp with ⟨w, hw, rfl⟩ | ⟨w, hw, rfl⟩ | rfl | rfl
  · exact hupper w (hnew w hw)
  · exact hupper w (hold w hw)
  · decide
  · decide

/-- **When references to rows lose their colon, and nothing else does.** -/
theorem unColon_iff {refNew refOld : Option (List Char)} (hnew : Plain refNew)
    (hold : Plain refOld) {ps : List Part} (h : Sound (passes refNew refOld) ps) :
    unColon refNew refOld (text ps) = meant ps ↔
      Only (passes refNew refOld) ps ∧ ∀ p ∈ ps, Own (passes refNew refOld) p :=
  runPasses_iff (passes_upper hnew hold) h

end DbSaci.Translate.Trigger
