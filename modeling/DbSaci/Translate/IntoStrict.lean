import DbSaci.Library.Fronts

set_option relaxedAutoImplicit false
set_option autoImplicit false

/-!
# Single rows into variables

`add_select_into_strict` writes `STRICT` behind an `INTO`. Whether it does is decided by the text in
front, as far as it is written, and by the next word.

## Main definitions

* `addSelectIntoStrict` — the pass.
* `Place` — a character of a block, or an `INTO` that is to get `STRICT`.
* `Met`, `Whole` — the conditions on a block.

## Main results

* `loop_written_iff` — when `STRICT` is written where it should, and nowhere else.
* `Met.again` — what is written gets no `STRICT` any more.
* `addSelectIntoStrict_iff` — when the pass writes what is meant, once and twice.
-/

namespace DbSaci.Translate.IntoStrict

open Text

/-! ### The pass -/

/-- ASCII white space. -/
def isBlankByte (c : Char) : Bool :=
  c = ' ' || c = '\t' || c = '\n' || c = '\x0C' || c = '\r'

/-- An `INTO` can stand behind such a character. -/
def opensWord (last : Option Char) : Bool := last.all fun c => isBlankByte c || c = '('

/-- If a text starts with `INTO`. The cut behind four bytes fails within a character. -/
def isInto (last : Option Char) (rest : List Char) : Option Bool :=
  if byteLen rest < 4 then some false
  else
    (splitAtByte 4 rest).map fun (word, behind) =>
      upper word == "INTO".toList && opensWord last && behind.head?.all isSpace

/-- The text behind the last semicolon or line end. -/
def currentStmt (before : List Char) : List Char :=
  trimStart (before.rtakeWhile fun c => c ≠ ';' && c ≠ '\n')

/-- The statement takes no `STRICT`. -/
def noStrictStmt (out : List Char) : Bool :=
  "INSERT".toList.isSuffixOf (upper (trimEnd out)) ||
    "FETCH".toList.isPrefixOf (currentStmt (upper (trimEnd out)))

/-- The next word starts with `STRICT`. -/
def alreadyStrict (rest : List Char) : Bool := startsWith "STRICT".toList (trimStart rest)

/-- The loop: `skip` characters are read already, `out` is written so far, and `last` is the
character in front. -/
def strictLoop : ℕ → List Char → Option Char → List Char → Option (List Char)
  | _, _, _, [] => some []
  | skip + 1, out, _, c :: s => strictLoop skip out (some c) s
  | 0, out, last, c :: s =>
    (isInto last (c :: s)).bind fun into =>
      if into && !noStrictStmt out && !alreadyStrict (s.drop 3) then
        (strictLoop 3 (out ++ "INTO STRICT".toList) (some c) s).map ("INTO STRICT".toList ++ ·)
      else (strictLoop 0 (out ++ [c]) (some c) s).map (c :: ·)

/-- `add_select_into_strict`. A cut within a character gives no result. -/
def addSelectIntoStrict (block : List Char) : Option (List Char) := strictLoop 0 [] none block

/-! ### What is meant -/

/-- A character of a block, or an `INTO` that is to get `STRICT`. -/
inductive Place where
  | plain (c : Char)
  | into (w : List Char)

/-- A place, with some text behind an `INTO`. -/
def Place.written (k : List Char) : Place → List Char
  | plain c => [c]
  | into w => w ++ k

/-- A block, with some text behind each `INTO` that is to get `STRICT`. -/
def written (k : List Char) (ps : List Place) : List Char := ps.flatMap (Place.written k)

/-- The text of a block. -/
abbrev text (ps : List Place) : List Char := written [] ps

/-- The text that is meant for a block. -/
abbrev meant (ps : List Place) : List Char := written " STRICT".toList ps

/-- An `INTO` that is to get `STRICT` is one, and `STRICT` does not stand behind it. -/
def Sound : List Place → Prop
  | [] => True
  | .plain _ :: ps => Sound ps
  | .into w :: ps => upper w = "INTO".toList ∧ ¬ " STRICT ".toList <+: text ps ∧ Sound ps

/-- The pass writes `STRICT` here, if the cut is possible. -/
def Guessed (out : List Char) (last : Option Char) (rest : List Char) : Prop :=
  isInto last rest = some true ∧ noStrictStmt out = false ∧ alreadyStrict (rest.drop 4) = false

/-- **`STRICT` is written where it should**, and there `INTO` is written in capitals. -/
def Met : List Char → Option Char → List Place → Prop
  | _, _, [] => True
  | out, last, .plain c :: ps => ¬ Guessed out last (c :: text ps) ∧ Met (out ++ [c]) (some c) ps
  | out, last, .into w :: ps => Guessed out last (w ++ text ps) ∧ w = "INTO".toList ∧
      Met (out ++ (w ++ " STRICT".toList)) w.getLast? ps

/-- No character lies across so many bytes. -/
def Cuttable (n : ℕ) (s : List Char) : Prop := byteLen s < n ∨ (splitAtByte n s).isSome = true

/-- No character lies across the fourth byte behind a character. -/
def Whole (s : List Char) : Prop := ∀ v, v <:+ s → Cuttable 4 v

/-- No cut of the loop ends within a character. -/
def Cut : Option Char → List Place → Prop
  | _, [] => True
  | last, .plain c :: ps => isInto last (c :: text ps) ≠ none ∧ Cut (some c) ps
  | _, .into w :: ps => Cut w.getLast? ps

/-! ### Texts without `INTO` -/

/-- No `I` is the last letter, or in front of an `N`. -/
def NoInto : List Char → Prop
  | [] => True
  | c :: x => (c = 'I' → (x.head?.any fun d => d != 'N') = true) ∧ NoInto x

/-- No `INTO` starts in a text, in any letter case, by its first letters. -/
def Foreign (x : List Char) : Prop := NoInto (upper x)

lemma foreign_strict : Foreign " STRICT".toList := by
  refine ⟨?_, ?_, ?_, ?_, ?_, ?_, ?_, trivial⟩ <;> decide

/-- Behind an `I` comes another letter than `N`. -/
lemma Foreign.next {c : Char} {x : List Char} (h : Foreign (c :: x)) (hc : c.toUpper = 'I') :
    ∃ d x', x = d :: x' ∧ d.toUpper ≠ 'N' := by
  have hany := h.1 hc
  cases x with
  | nil => cases hany
  | cons d x =>
    have hne : (d.toUpper != 'N') = true := hany
    exact ⟨d, x, rfl, bne_iff_ne.1 hne⟩

lemma Foreign.append {x y : List Char} (hx : Foreign x) (hy : Foreign y) : Foreign (x ++ y) := by
  induction x with
  | nil => exact hy
  | cons c x ih =>
    refine ⟨fun hc => ?_, ih hx.2⟩
    have hany := hx.1 hc
    cases x with
    | nil => cases hany
    | cons d x => exact hany

/-- White space is no part of an `INTO`. -/
lemma foreign_spaces {g : List Char} (hg : ∀ c ∈ g, isSpace c = true) : Foreign g := by
  induction g with
  | nil => trivial
  | cons c g ih =>
    refine ⟨fun hc => ?_, ih fun d hd => hg d (List.mem_cons_of_mem c hd)⟩
    have hspace := hg c List.mem_cons_self
    rw [toUpper_of_isSpace hspace] at hc
    rw [hc] at hspace
    exact absurd hspace (by decide)

/-- The letters behind the first of an `INTO`. -/
lemma into_cases {w : List Char} (h : upper w = "INTO".toList) :
    ∃ i n t o, w = [i, n, t, o] ∧ i.toUpper = 'I' ∧ n.toUpper = 'N' ∧ t.toUpper = 'T' ∧
      o.toUpper = 'O' := by
  obtain ⟨i, w, rfl, hi, h⟩ := List.map_eq_cons_iff.1 h
  obtain ⟨n, w, rfl, hn, h⟩ := List.map_eq_cons_iff.1 h
  obtain ⟨t, w, rfl, ht, h⟩ := List.map_eq_cons_iff.1 h
  obtain ⟨o, w, rfl, ho, h⟩ := List.map_eq_cons_iff.1 h
  obtain rfl := List.map_eq_nil_iff.1 h
  exact ⟨i, n, t, o, rfl, hi, hn, ht, ho⟩

lemma foreign_tail {n t o : Char} (hn : n.toUpper = 'N') (ht : t.toUpper = 'T')
    (ho : o.toUpper = 'O') : Foreign [n, t, o] := by
  refine ⟨fun h => ?_, fun h => ?_, fun h => ?_, trivial⟩
  · rw [hn] at h
    exact absurd h (by decide)
  · rw [ht] at h
    exact absurd h (by decide)
  · rw [ho] at h
    exact absurd h (by decide)

/-- What is read as an `INTO`. -/
lemma exists_of_isInto {last : Option Char} {rest : List Char} (h : isInto last rest = some true) :
    ∃ i n t o s, rest = i :: n :: t :: o :: s ∧ i.toUpper = 'I' ∧ n.toUpper = 'N' ∧
      t.toUpper = 'T' ∧ o.toUpper = 'O' ∧ opensWord last = true ∧ s.head?.all isSpace = true := by
  rw [isInto] at h
  split_ifs at h with hlen
  · cases h
  obtain ⟨⟨word, s⟩, hsplit, hand⟩ := Option.map_eq_some_iff.1 h
  rw [Bool.and_eq_true, Bool.and_eq_true, beq_iff_eq] at hand
  obtain ⟨⟨hword, hopens⟩, hblank⟩ := hand
  obtain ⟨i, n, t, o, rfl, hi, hn, ht, ho⟩ := into_cases hword
  exact ⟨i, n, t, o, s, (splitAtByte_eq_some hsplit).1, hi, hn, ht, ho, hopens, hblank⟩

/-- An `INTO` is read by the characters at its ends. -/
lemma isInto_append {w : List Char} (h : upper w = "INTO".toList) (last : Option Char)
    (s : List Char) :
    isInto last (w ++ s) = some (opensWord last && s.head?.all isSpace) := by
  have hlen : byteLen w = 4 := byteLen_of_upper h (by decide)
  have hle : ¬ byteLen (w ++ s) < 4 := by
    rw [byteLen_append]
    omega
  have hword : (upper w == "INTO".toList) = true := beq_iff_eq.2 h
  rw [isInto, if_neg hle, ← hlen, splitAtByte_append, Option.map_some]
  show some (upper w == "INTO".toList && _ && _) = _
  rw [hword, Bool.true_and]

/-- No `INTO` starts with a letter of such a text. -/
lemma isInto_ne_of_foreign {c : Char} {x : List Char} (h : Foreign (c :: x)) (last : Option Char)
    (y : List Char) : isInto last (c :: (x ++ y)) ≠ some true := by
  intro hinto
  obtain ⟨i, n, t, o, s, hs, hi, hn, -⟩ := exists_of_isInto hinto
  obtain ⟨rfl, htail⟩ := List.cons.inj hs
  obtain ⟨d, x, rfl, hd⟩ := h.next hi
  obtain ⟨rfl, -⟩ := List.cons.inj htail
  exact hd hn

/-! ### Where a written text comes from -/

/-- Such a text in what the loop writes is one that it read. -/
lemma loop_eq_append {x : List Char} (hx : Foreign x) {out s z : List Char} {last : Option Char}
    (h : strictLoop 0 out last s = some (x ++ z)) :
    ∃ s' last', s = x ++ s' ∧ strictLoop 0 (out ++ x) last' s' = some z := by
  induction x generalizing out s last with
  | nil => exact ⟨s, last, rfl, by rw [List.append_nil, h, List.nil_append]⟩
  | cons c x ih =>
    cases s with
    | nil => cases h
    | cons d s =>
      rw [strictLoop, List.cons_append] at h
      obtain ⟨into, -, h⟩ := Option.bind_eq_some_iff.1 h
      split_ifs at h with hinto
      · -- `INTO` is written, and no such text starts with these letters
        obtain ⟨r, -, hr⟩ := Option.map_eq_some_iff.1 h
        have hwritten : "INTO STRICT".toList ++ r = 'I' :: 'N' :: ("TO STRICT".toList ++ r) := rfl
        rw [hwritten] at hr
        obtain ⟨rfl, hr'⟩ := List.cons.inj hr
        obtain ⟨e, x, rfl, he⟩ := hx.next (by decide)
        obtain ⟨rfl, -⟩ := List.cons.inj hr'
        exact absurd rfl he
      · obtain ⟨r, hloop, hr⟩ := Option.map_eq_some_iff.1 h
        obtain ⟨rfl, rfl⟩ := List.cons.inj hr
        obtain ⟨s', last', rfl, hrest⟩ := ih hx.2 hloop
        refine ⟨s', last', rfl, ?_⟩
        rwa [List.append_assoc, List.singleton_append] at hrest

lemma written_cons (k : List Char) (p : Place) (ps : List Place) :
    written k (p :: ps) = p.written k ++ written k ps :=
  List.flatMap_cons

lemma written_plain_append (k x : List Char) (ps : List Place) :
    written k (x.map .plain ++ ps) = x ++ written k ps := by
  induction x with
  | nil => rfl
  | cons c x ih => exact congrArg (c :: ·) ih

lemma written_plain (k x : List Char) : written k (x.map .plain) = x := by
  have hnil : written k [] = [] := rfl
  have h := written_plain_append k x []
  rwa [List.append_nil, hnil, List.append_nil] at h

lemma text_plain_append (x : List Char) (ps : List Place) :
    text (x.map .plain ++ ps) = x ++ text ps :=
  written_plain_append [] x ps

lemma meant_plain_append (x : List Char) (ps : List Place) :
    meant (x.map .plain ++ ps) = x ++ meant ps :=
  written_plain_append " STRICT".toList x ps

lemma text_plain (x : List Char) : text (x.map .plain) = x := written_plain [] x

lemma meant_plain (x : List Char) : meant (x.map .plain) = x := written_plain " STRICT".toList x

/-- Such a text in a block is made of single characters. -/
lemma written_eq_append {x : List Char} (hx : Foreign x) {k z : List Char} {ps : List Place}
    (hps : Sound ps) (h : written k ps = x ++ z) :
    ∃ ps', ps = x.map .plain ++ ps' ∧ written k ps' = z ∧ Sound ps' := by
  induction x generalizing ps with
  | nil => exact ⟨ps, rfl, h, hps⟩
  | cons c x ih =>
    cases ps with
    | nil => cases h
    | cons p ps =>
      rw [written_cons, List.cons_append] at h
      cases p with
      | plain d =>
        obtain ⟨rfl, htail⟩ := List.cons.inj h
        have hsound : Sound ps := hps
        obtain ⟨ps', hps', hrest⟩ := ih hx.2 hsound htail
        exact ⟨ps', congrArg (Place.plain d :: ·) hps', hrest⟩
      | into w =>
        obtain ⟨i, n, t, o, rfl, hi, hn, -⟩ := into_cases hps.1
        obtain ⟨rfl, htail⟩ := List.cons.inj h
        obtain ⟨e, x, rfl, he⟩ := hx.next hi
        obtain ⟨rfl, -⟩ := List.cons.inj htail
        exact absurd hn he

/-! ### One run -/

section Step

variable {out s : List Char} {last : Option Char} {c : Char}

lemma loop_guessed (h : Guessed out last (c :: s)) :
    strictLoop 0 out last (c :: s) =
      (strictLoop 3 (out ++ "INTO STRICT".toList) (some c) s).map ("INTO STRICT".toList ++ ·) := by
  obtain ⟨hinto, hstmt, hstrict⟩ := h
  rw [List.drop_succ_cons] at hstrict
  rw [strictLoop, hinto, Option.bind_some, hstmt, hstrict]
  rfl

lemma loop_copied (hcut : isInto last (c :: s) ≠ none) (h : ¬ Guessed out last (c :: s)) :
    strictLoop 0 out last (c :: s) = (strictLoop 0 (out ++ [c]) (some c) s).map (c :: ·) := by
  obtain ⟨into, hinto⟩ := Option.ne_none_iff_exists'.1 hcut
  rw [strictLoop, hinto, Option.bind_some, if_neg]
  intro hand
  rw [Bool.and_eq_true, Bool.and_eq_true, Bool.not_eq_true', Bool.not_eq_true'] at hand
  obtain ⟨⟨rfl, hstmt⟩, hstrict⟩ := hand
  exact h ⟨hinto, hstmt, hstrict⟩

lemma loop_cut (hcut : isInto last (c :: s) = none) : strictLoop 0 out last (c :: s) = none := by
  rw [strictLoop, hcut, Option.bind_none]

end Step

/-- The next word starts with `STRICT`. -/
lemma alreadyStrict_strict (s : List Char) : alreadyStrict (" STRICT".toList ++ s) = true := by
  have htrim : trimStart (" STRICT".toList ++ s) = "STRICT".toList ++ s := rfl
  rw [alreadyStrict, htrim, startsWith, upper_append]
  exact List.isPrefixOf_iff_prefix.2 (List.prefix_append _ _)

/-- Behind an `INTO` that is left as it should not, the text of the block says that it should. -/
lemma strict_of_loop {ps : List Place} (h : Sound ps) {out : List Char} {last : Option Char}
    (hloop : strictLoop 0 out last (text ps) = some (" STRICT".toList ++ meant ps)) :
    " STRICT ".toList <+: text ps := by
  obtain ⟨s, last', htext, hrest⟩ := loop_eq_append foreign_strict hloop
  obtain ⟨ps', rfl, -, -⟩ := written_eq_append foreign_strict h htext
  rw [text_plain_append] at htext
  obtain rfl := List.append_cancel_left htext
  have hblank : Foreign [' '] := ⟨by decide, trivial⟩
  rw [meant_plain_append] at hrest
  obtain ⟨s, -, hs, -⟩ := loop_eq_append (x := [' ']) hblank hrest
  rw [text_plain_append, hs]
  exact List.prefix_append " STRICT ".toList s

/-- **`STRICT` is written where it should, and nowhere else**, if and only if the pass guesses so at
each place, and cuts no character. -/
theorem loop_written_iff {ps : List Place} (h : Sound ps) (out : List Char) (last : Option Char) :
    strictLoop 0 out last (text ps) = some (meant ps) ↔ Met out last ps ∧ Cut last ps := by
  induction ps generalizing out last with
  | nil => exact iff_of_true rfl ⟨trivial, trivial⟩
  | cons p ps ih =>
    cases p with
    | plain c =>
      have hps : Sound ps := h
      have ih := ih hps
      show strictLoop 0 out last (c :: text ps) = some (c :: meant ps) ↔
        (¬ Guessed out last (c :: text ps) ∧ Met (out ++ [c]) (some c) ps) ∧
          isInto last (c :: text ps) ≠ none ∧ Cut (some c) ps
      by_cases hcut : isInto last (c :: text ps) = none
      · rw [loop_cut hcut]
        exact iff_of_false (by simp) fun hand => hand.2.1 hcut
      by_cases hguess : Guessed out last (c :: text ps)
      · refine iff_of_false (fun hloop => ?_) fun hand => hand.1.1 hguess
        rw [loop_guessed hguess] at hloop
        obtain ⟨z, -, hz⟩ := Option.map_eq_some_iff.1 hloop
        obtain ⟨i, n, t, o, s, hs, -, hn, ht, ho, -⟩ := exists_of_isInto hguess.1
        obtain ⟨rfl, htail⟩ := List.cons.inj hs
        obtain ⟨ps', rfl, hs', hsound⟩ :=
          written_eq_append (x := [n, t, o]) (foreign_tail hn ht ho) hps htail
        rw [meant_plain_append] at hz
        -- what is written behind the place starts with `STRICT`, and so does what is read
        have hstrict : written " STRICT".toList ps' = " STRICT".toList ++ z := by
          have hdrop := congrArg (List.drop 4) hz
          exact hdrop.symm
        obtain ⟨ps'', rfl, -, -⟩ := written_eq_append foreign_strict hsound hstrict
        have hread := hguess.2.2
        rw [hs, ← hs', written_plain_append] at hread
        have halready : alreadyStrict ((c :: n :: t :: o :: (" STRICT".toList ++
            written [] ps'')).drop 4) = true := alreadyStrict_strict (written [] ps'')
        rw [halready] at hread
        cases hread
      · rw [loop_copied hcut hguess]
        have hmap : (strictLoop 0 (out ++ [c]) (some c) (text ps)).map (c :: ·) =
            some (c :: meant ps) ↔ strictLoop 0 (out ++ [c]) (some c) (text ps) =
              some (meant ps) := by simp
        rw [hmap, ih, and_iff_right hguess, and_iff_right hcut]
    | into w =>
      obtain ⟨hw, hnext, hps⟩ := h
      have ih := ih hps
      obtain ⟨i, n, t, o, rfl, hi, hn, ht, ho⟩ := into_cases hw
      show strictLoop 0 out last (i :: n :: t :: o :: text ps) =
          some ([i, n, t, o] ++ " STRICT".toList ++ meant ps) ↔
        (Guessed out last (i :: n :: t :: o :: text ps) ∧ [i, n, t, o] = "INTO".toList ∧
          Met (out ++ ([i, n, t, o] ++ " STRICT".toList)) (some o) ps) ∧ Cut (some o) ps
      by_cases hguess : Guessed out last (i :: n :: t :: o :: text ps)
      · rw [loop_guessed hguess, and_iff_right hguess, and_assoc]
        show (strictLoop 0 (out ++ "INTO STRICT".toList) (some o) (text ps)).map _ = _ ↔ _
        by_cases hcap : [i, n, t, o] = "INTO".toList
        · rw [hcap, and_iff_right rfl, ← ih]
          have happ : "INTO".toList ++ " STRICT".toList = "INTO STRICT".toList := rfl
          rw [happ]
          simp
        · refine iff_of_false (fun hloop => hcap ?_) fun hand => hcap hand.1
          obtain ⟨z, -, hz⟩ := Option.map_eq_some_iff.1 hloop
          exact (congrArg (List.take 4) hz).symm
      · refine iff_of_false (fun hloop => hnext ?_) fun hand => hguess hand.1.1
        have hcut : isInto last (i :: n :: t :: o :: text ps) ≠ none := by
          have hinto := isInto_append hw last (text ps)
          rw [List.cons_append, List.cons_append, List.cons_append, List.cons_append,
            List.nil_append] at hinto
          rw [hinto]
          exact Option.some_ne_none _
        rw [loop_copied hcut hguess] at hloop
        obtain ⟨z, hz, heq⟩ := Option.map_eq_some_iff.1 hloop
        obtain ⟨-, rfl⟩ := List.cons.inj heq
        obtain ⟨s, last', hs, hrest⟩ :=
          loop_eq_append (x := [n, t, o]) (foreign_tail hn ht ho) hz
        have hcopied : [n, t, o] ++ text ps = [n, t, o] ++ s := hs
        have hs' : s = text ps := (List.append_cancel_left hcopied).symm
        rw [hs'] at hrest
        exact strict_of_loop hps hrest

/-! ### The run on what is written -/

/-- Where the pass writes no `STRICT` in a block, it does not in what is meant. -/
lemma guessed_of_meant {ps : List Place} (h : Sound ps) {out : List Char} {last last' : Option Char}
    {c : Char} (hlast : opensWord last' = opensWord last)
    (hguess : Guessed out last' (c :: meant ps)) : Guessed out last (c :: text ps) := by
  obtain ⟨hinto, hstmt, hstrict⟩ := hguess
  obtain ⟨i, n, t, o, s, hs, hi, hn, ht, ho, hopens, hblank⟩ := exists_of_isInto hinto
  obtain ⟨rfl, htail⟩ := List.cons.inj hs
  obtain ⟨ps, rfl, rfl, hsound⟩ :=
    written_eq_append (x := [n, t, o]) (foreign_tail hn ht ho) h htail
  have hw : upper [c, n, t, o] = "INTO".toList := by
    rw [upper_cons, upper_cons, upper_cons, upper_cons, upper_nil, hi, hn, ht, ho]
    rfl
  rw [text_plain_append]
  refine ⟨(isInto_append hw last _).trans (congrArg some ?_), hstmt, ?_⟩
  · rw [← hlast, hopens, Bool.true_and]
    cases ps with
    | nil => rfl
    | cons p ps =>
      cases p with
      | plain e => exact hblank
      | into w =>
        obtain ⟨i, n, t, o, rfl, hi', -⟩ := into_cases hsound.1
        have hspace : isSpace i = true := hblank
        have hup := toUpper_of_isSpace hspace
        rw [← hup, hi'] at hspace
        exact absurd hspace (by decide)
  · have hread : alreadyStrict (written " STRICT".toList ps) = false := by
      rw [meant_plain_append] at hstrict
      exact hstrict
    show alreadyStrict (written [] ps) = false
    by_contra hcon
    rw [Bool.not_eq_false] at hcon
    obtain ⟨x, r, hxr, hx⟩ := exists_front hcon
    have htext : written [] ps = (written [] ps).takeWhile isSpace ++ x ++ r := by
      rw [List.append_assoc, ← hxr, trimStart, List.takeWhile_append_dropWhile]
    have hspaces : ∀ d ∈ (written [] ps).takeWhile isSpace, isSpace d = true := fun d hd =>
      List.mem_takeWhile_imp hd
    have hforeign : Foreign ((written [] ps).takeWhile isSpace ++ x) := by
      refine (foreign_spaces hspaces).append ?_
      rw [Foreign, hx]
      exact foreign_strict.2
    obtain ⟨ps', hps', -, -⟩ := written_eq_append hforeign hsound htext
    rw [hps', written_plain_append, alreadyStrict, trimStart, List.append_assoc,
      List.dropWhile_append_of_pos hspaces] at hread
    have hhead : ∀ y, (x ++ y).dropWhile isSpace = x ++ y := by
      intro y
      obtain ⟨d, x, rfl, hd, -⟩ := List.map_eq_cons_iff.1 hx
      have hspace : isSpace d = false := by
        by_contra hspace
        rw [Bool.not_eq_false] at hspace
        rw [← toUpper_of_isSpace hspace, hd] at hspace
        exact absurd hspace (by decide)
      rw [List.cons_append, List.dropWhile_cons_of_neg (by rw [hspace]; exact Bool.false_ne_true)]
    rw [hhead, startsWith_front hx] at hread
    cases hread

/-- The character in front of a text behind another one. -/
lemma getLast_or_cons (c : Char) (x : List Char) (last : Option Char) :
    (c :: x).getLast?.or last = x.getLast?.or (some c) := by
  rw [List.getLast?_cons]
  cases x.getLast? <;> rfl

/-- In letters without an `INTO` no `STRICT` is written. -/
lemma met_foreign {x : List Char} (hx : Foreign x) (out z : List Char) (last : Option Char) :
    Met out last ((x ++ z).map .plain) ↔
      Met (out ++ x) (x.getLast?.or last) (z.map .plain) := by
  induction x generalizing out last with
  | nil =>
    rw [List.nil_append, List.append_nil]
    exact Iff.rfl
  | cons c x ih =>
    have hguess : ¬ Guessed out last (c :: text ((x ++ z).map .plain)) := by
      rw [text_plain]
      exact fun hguess => isInto_ne_of_foreign hx last z hguess.1
    rw [getLast_or_cons, List.append_cons, ← ih hx.2]
    exact and_iff_right hguess

/-- **What is written gets no `STRICT` any more.** -/
theorem Met.again {ps : List Place} (h : Sound ps) {out : List Char} {last last' : Option Char}
    (hlast : opensWord last' = opensWord last) (hmet : Met out last ps) :
    Met out last' ((meant ps).map .plain) := by
  induction ps generalizing out last last' with
  | nil => trivial
  | cons p ps ih =>
    cases p with
    | plain c =>
      obtain ⟨hguess, hrest⟩ := hmet
      refine ⟨fun hguess' => hguess ?_, ih h rfl hrest⟩
      have hmeant : text ((meant ps).map .plain) = meant ps := text_plain _
      have hps : Sound ps := h
      exact guessed_of_meant hps hlast (hmeant ▸ hguess')
    | into w =>
      obtain ⟨hw, -, hps⟩ := h
      obtain ⟨-, -, hrest⟩ := hmet
      obtain ⟨i, n, t, o, rfl, hi, hn, ht, ho⟩ := into_cases hw
      have hmeant : meant (.into [i, n, t, o] :: ps) =
          i :: ([n, t, o] ++ " STRICT".toList ++ meant ps) := rfl
      have hopens : opensWord (some o) = false := by
        have hor := eq_or_of_toUpper ho
        rcases hor with rfl | rfl <;> decide
      rw [hmeant]
      refine ⟨fun hguess => ?_, ?_⟩
      · rw [text_plain] at hguess
        have hread := hguess.2.2
        have hdrop : (i :: ([n, t, o] ++ " STRICT".toList ++ meant ps)).drop 4 =
            " STRICT".toList ++ meant ps := rfl
        rw [hdrop, alreadyStrict_strict] at hread
        cases hread
      · refine (met_foreign ((foreign_tail hn ht ho).append foreign_strict) _ _ _).2 ?_
        rw [List.append_assoc]
        exact ih hps hopens.symm hrest

/-! ### Cuts -/

lemma isInto_ne_none_iff (last : Option Char) (s : List Char) :
    isInto last s ≠ none ↔ Cuttable 4 s := by
  rw [isInto, Cuttable]
  split_ifs with hlen
  · exact iff_of_true (Option.some_ne_none _) (Or.inl hlen)
  · rw [Ne, Option.map_eq_none_iff, or_iff_right hlen, ← Ne, Option.ne_none_iff_isSome]

lemma cuttable_cons (n : ℕ) (c : Char) (s : List Char) :
    Cuttable (n + 1) (c :: s) ↔ c.utf8Size ≤ n + 1 ∧ Cuttable (n + 1 - c.utf8Size) s := by
  have hlen : byteLen (c :: s) = c.utf8Size + byteLen s := by simp [byteLen]
  rw [Cuttable, Cuttable, splitAtByte, hlen]
  by_cases hle : c.utf8Size ≤ n + 1
  · rw [if_pos hle, and_iff_right hle, Option.isSome_map]
    refine or_congr_left ?_
    omega
  · rw [if_neg hle]
    refine iff_of_false ?_ fun hand => hle hand.1
    simp
    omega

/-- A cut within four bytes is the same in the block and in what is meant. -/
lemma cuttable_text {ps : List Place} (h : Sound ps) {n : ℕ} (hn : n ≤ 3)
    (hcut : Cuttable n (meant ps)) : Cuttable n (text ps) := by
  induction ps generalizing n with
  | nil => exact hcut
  | cons p ps ih =>
    cases n with
    | zero =>
      right
      rw [splitAtByte]
      rfl
    | succ n =>
      cases p with
      | plain c =>
        have hpos := c.utf8Size_pos
        obtain ⟨hle, hrest⟩ := (cuttable_cons n c (meant ps)).1 hcut
        exact (cuttable_cons n c (text ps)).2 ⟨hle, ih h (by omega) hrest⟩
      | into w =>
        have hlen : byteLen (w.take (n + 1)) = n + 1 := by
          have hup : upper (w.take (n + 1)) = "INTO".toList.take (n + 1) := by
            rw [upper, List.map_take, ← upper, h.1]
          rw [byteLen_of_upper hup fun c hc => ?_, List.length_take]
          · exact Nat.min_eq_left (by omega : n + 1 ≤ 4)
          · exact (by decide : ∀ c ∈ "INTO".toList, c.utf8Size = 1) c (List.mem_of_mem_take hc)
        have htext : text (.into w :: ps) = w.take (n + 1) ++ (w.drop (n + 1) ++ text ps) := by
          rw [← List.append_assoc, List.take_append_drop, text, written_cons, Place.written,
            List.append_nil]
        right
        rw [htext]
        nth_rewrite 1 [← hlen]
        rw [splitAtByte_append]
        rfl

/-- No cut ends within a character of the block if none does in what is meant. -/
lemma cut_of_whole {ps : List Place} (h : Sound ps) (hwhole : Whole (meant ps))
    (last : Option Char) : Cut last ps := by
  induction ps generalizing last with
  | nil => trivial
  | cons p ps ih =>
    have hrest : Whole (meant ps) := fun v hv =>
      hwhole v (hv.trans (List.suffix_append (p.written " STRICT".toList) (meant ps)))
    cases p with
    | plain c =>
      refine ⟨(isInto_ne_none_iff _ _).2 ?_, ih h hrest _⟩
      have hpos := c.utf8Size_pos
      have hps : Sound ps := h
      have hfewer : 3 + 1 - c.utf8Size ≤ 3 := by omega
      obtain ⟨hle, htail⟩ := (cuttable_cons 3 c (meant ps)).1 (hwhole _ List.suffix_rfl)
      exact (cuttable_cons 3 c (text ps)).2 ⟨hle, cuttable_text hps hfewer htail⟩
    | into w => exact ih h.2.2 hrest _

lemma sound_plain (s : List Char) : Sound (s.map .plain) := by
  induction s with
  | nil => trivial
  | cons c s ih => exact ih

lemma whole_of_cut {s : List Char} {last : Option Char} (h : Cut last (s.map .plain)) :
    Whole s := by
  induction s generalizing last with
  | nil =>
    intro v hv
    rw [List.suffix_nil.1 hv]
    exact Or.inl (by decide)
  | cons c s ih =>
    obtain ⟨hcut, hrest⟩ := h
    intro v hv
    rcases List.suffix_cons_iff.1 hv with rfl | hv
    · rw [text_plain] at hcut
      exact (isInto_ne_none_iff _ _).1 hcut
    · exact ih hrest v hv

/-- **When the pass writes what is meant**, and the same again. -/
theorem addSelectIntoStrict_iff {ps : List Place} (h : Sound ps) :
    (addSelectIntoStrict (text ps) = some (meant ps) ∧
      addSelectIntoStrict (meant ps) = some (meant ps)) ↔
        Met [] none ps ∧ Whole (meant ps) := by
  have honce := loop_written_iff h [] none
  have htwice := loop_written_iff (sound_plain (meant ps)) [] none
  rw [text_plain, meant_plain] at htwice
  rw [addSelectIntoStrict, addSelectIntoStrict, honce]
  constructor
  · rintro ⟨⟨hmet, -⟩, hagain⟩
    exact ⟨hmet, whole_of_cut (htwice.1 hagain).2⟩
  · rintro ⟨hmet, hwhole⟩
    refine ⟨⟨hmet, cut_of_whole h hwhole none⟩, htwice.2 ⟨hmet.again h rfl, ?_⟩⟩
    refine cut_of_whole (sound_plain _) ?_ none
    rwa [meant_plain]

end DbSaci.Translate.IntoStrict
