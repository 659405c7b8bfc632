import DbSaci.Library.Decimal
import DbSaci.Translate.RewriteExpr
import Mathlib.Data.Rat.Defs
import Mathlib.Tactic.FieldSimp

set_option relaxedAutoImplicit false
set_option autoImplicit false

/-!
# What `DECODE` compares

Oracle compares the selector with the search values in the type of the first of them. The `CASE`
that `rewrite_decode` builds compares the texts that PostgreSQL has for them. A number has as many
texts as there are scales to write it with.

## Main definitions

* `Number`, `Scalar` — values, and `Number.text` the text of a number.
* `searches`, `results`, `defaultOf` — what the arguments of `DECODE` are.
* `oracleChoice` — the search value that Oracle takes.
* `caseChoice` — the arm that PostgreSQL takes.
* `Agrees` — the texts say the same as Oracle's comparisons, as far as Oracle compares.

## Main results

* `Number.text_injective` — a text is that of one number with one scale.
* `decode_iff` — the arms are those of Oracle, and the choice is the same exactly where they agree.
* `scaled_not_decoded` — the numbers `1` and `1.0`.
-/

namespace DbSaci.Translate.Decode

open DbSaci.Sql.Syntax DbSaci.Translate.Syntax Decimal

/-! ### Values -/

/-- A number with so many digits behind the point. -/
structure Number where
  mantissa : ℤ
  scale : ℕ
  deriving DecidableEq, Repr

namespace Number

/-- The number without its scale. -/
def value (n : Number) : ℚ := n.mantissa / 10 ^ n.scale

/-- The digits in front of the point and behind it. -/
def digits (n : Number) : List Char :=
  Nat.toDigits 10 (n.mantissa.natAbs / 10 ^ n.scale) ++
    if n.scale = 0 then [] else '.' :: padded n.scale (n.mantissa.natAbs % 10 ^ n.scale)

/-- The text PostgreSQL has for a number. -/
def text (n : Number) : List Char := if n.mantissa < 0 then '-' :: n.digits else n.digits

lemma takeWhile_digits (n : Number) : n.digits.takeWhile Char.isDigit =
    Nat.toDigits 10 (n.mantissa.natAbs / 10 ^ n.scale) := by
  have hall : ∀ c ∈ Nat.toDigits 10 (n.mantissa.natAbs / 10 ^ n.scale), c.isDigit = true :=
    fun c hc => Nat.isDigit_of_mem_toDigits (by decide) (by decide) hc
  rw [digits, List.takeWhile_append_of_pos hall]
  split_ifs
  · rw [List.takeWhile_nil, List.append_nil]
  · rw [List.takeWhile_cons_of_neg (by decide), List.append_nil]

lemma dropWhile_digits (n : Number) : n.digits.dropWhile Char.isDigit =
    if n.scale = 0 then [] else '.' :: padded n.scale (n.mantissa.natAbs % 10 ^ n.scale) := by
  have hall : ∀ c ∈ Nat.toDigits 10 (n.mantissa.natAbs / 10 ^ n.scale), c.isDigit = true :=
    fun c hc => Nat.isDigit_of_mem_toDigits (by decide) (by decide) hc
  rw [digits, List.dropWhile_append_of_pos hall]
  split_ifs
  · rfl
  · rw [List.dropWhile_cons_of_neg (by decide)]

/-- The fraction has as many digits as the scale says. -/
lemma length_dropWhile_digits (n : Number) :
    (n.digits.dropWhile Char.isDigit).length = if n.scale = 0 then 0 else n.scale + 1 := by
  rw [dropWhile_digits]
  split_ifs with h
  · rfl
  · rw [List.length_cons, length_padded (Nat.pos_of_ne_zero h)
      (Nat.mod_lt _ (Nat.pow_pos (by decide)))]

lemma digits_injective {a b : Number} (h : a.digits = b.digits) :
    a.mantissa.natAbs = b.mantissa.natAbs ∧ a.scale = b.scale := by
  have hscale : a.scale = b.scale := by
    have hlen := length_dropWhile_digits a
    rw [h, length_dropWhile_digits b] at hlen
    split_ifs at hlen <;> omega
  have hint : a.mantissa.natAbs / 10 ^ a.scale = b.mantissa.natAbs / 10 ^ b.scale := by
    have hdigits := congrArg (Nat.ofDigitChars 10 · 0) (takeWhile_digits a)
    rw [h, takeWhile_digits b, Nat.ofDigitChars_ten_toDigits,
      Nat.ofDigitChars_ten_toDigits] at hdigits
    exact hdigits.symm
  have hfrac : a.mantissa.natAbs % 10 ^ a.scale = b.mantissa.natAbs % 10 ^ b.scale := by
    have hrest := dropWhile_digits a
    rw [h, dropWhile_digits b, ← hscale] at hrest
    by_cases hzero : a.scale = 0
    · rw [← hscale, hzero, pow_zero, Nat.mod_one, Nat.mod_one]
    · rw [if_neg hzero, if_neg hzero] at hrest
      have hdigits := congrArg (Nat.ofDigitChars 10 · 0) (List.cons.inj hrest).2
      simp only [ofDigitChars_padded] at hdigits
      rw [← hscale]
      exact hdigits.symm
  refine ⟨?_, hscale⟩
  rw [← Nat.div_add_mod a.mantissa.natAbs (10 ^ a.scale), hint, hfrac, hscale, Nat.div_add_mod]

/-- The digits of a number have no sign. -/
lemma head_digits (n : Number) (s : List Char) : n.digits ≠ '-' :: s := by
  intro h
  have htake := takeWhile_digits n
  rw [h, List.takeWhile_cons_of_neg (by decide)] at htake
  exact Nat.toDigits_ne_nil htake.symm

/-- **A text is that of one number with one scale.** -/
theorem text_injective {a b : Number} (h : a.text = b.text) : a = b := by
  obtain ⟨m, k⟩ := a
  obtain ⟨m', k'⟩ := b
  rw [text, text] at h
  split_ifs at h with ha hb hb
  · obtain ⟨hmantissa, hscale⟩ := digits_injective (List.cons.inj h).2
    simp only at hmantissa hscale ha hb
    rw [hscale, show m = m' by omega]
  · exact absurd h.symm (head_digits _ _)
  · exact absurd h (head_digits _ _)
  · obtain ⟨hmantissa, hscale⟩ := digits_injective h
    simp only at hmantissa hscale ha hb
    rw [hscale, show m = m' by omega]

lemma text_inj {a b : Number} : a.text = b.text ↔ a = b := ⟨text_injective, congrArg text⟩

/-- With one scale, numbers are equal where they are the same. -/
lemma eq_iff {a b : Number} : a = b ↔ a.value = b.value ∧ a.scale = b.scale := by
  constructor
  · rintro rfl
    exact ⟨rfl, rfl⟩
  · rintro ⟨hvalue, hscale⟩
    obtain ⟨m, k⟩ := a
    obtain ⟨m', k'⟩ := b
    obtain rfl : k = k' := hscale
    have hpow : (10 : ℚ) ^ k ≠ 0 := pow_ne_zero k (by norm_num)
    rw [value, value, div_left_inj' hpow, Int.cast_inj] at hvalue
    exact congrArg (Number.mk · k) hvalue

end Number

/-- A text that is not empty. Oracle has no other. -/
abbrev Solid := {s : List Char // s ≠ []}

/-- A value that `DECODE` compares. -/
inductive Scalar
  | null
  | number (n : Number)
  | text (s : Solid)

/-! ### Comparisons -/

/-- The types a search value can have. `NULL` counts as a text. -/
inductive Kind
  | number | text
  deriving DecidableEq, Repr

/-- The type of a value. -/
def Scalar.kind : Scalar → Kind
  | number _ => .number
  | _ => .text

/-- Oracle's conversions: the text of a number, and the number that a text is, if it is one. -/
structure Oracle where
  toChar : ℚ → List Char
  toNumber : List Char → Option ℚ

variable (o : Oracle)

/-- A value as a number, unless it is `NULL`. A text may be none. -/
def Oracle.inNumber : Scalar → Option (Option ℚ)
  | .null => some none
  | .number n => some (some n.value)
  | .text s => (o.toNumber s).map some

/-- A value as a text, unless it is `NULL`. -/
def Oracle.inText : Scalar → Option (List Char)
  | .null => none
  | .number n => some (o.toChar n.value)
  | .text s => some s

/-- Whether Oracle takes a search value to be the selector, in the type of the first search value.
There is no answer where a text is no number. -/
def oracleEqual (kind : Kind) (v s : Scalar) : Option Bool :=
  match kind with
  | .number => do
    let a ← o.inNumber v
    let b ← o.inNumber s
    return decide (a = b)
  | .text => some (decide (o.inText v = o.inText s))

/-- The text PostgreSQL casts a value to. -/
def Scalar.castText : Scalar → Option (List Char)
  | null => none
  | number n => some n.text
  | text s => some s

/-! ### The first match -/

/-- Which element passes a test first, if there is one. The elements behind it are not tested, and
there is no answer where a test has none. -/
def firstMatch {α : Type} (test : α → Option Bool) : List α → Option (Option ℕ)
  | [] => some none
  | x :: xs => (test x).bind fun b =>
    if b then some (some 0) else (firstMatch test xs).map (Option.map (· + 1))

/-- Two tests say the same of each element, as far as the first one goes on. -/
def SameTests {α : Type} (f g : α → Option Bool) : List α → Prop
  | [] => True
  | x :: xs => f x = g x ∧ (f x = some false → SameTests f g xs)

lemma map_succ_ne_zero (c : Option ℕ) : c.map (· + 1) ≠ some 0 := by
  cases c with
  | none => exact nofun
  | some n => exact fun h => Nat.succ_ne_zero n (Option.some.inj h)

lemma map_succ_injective : Function.Injective (Option.map (· + 1) : Option ℕ → Option ℕ) :=
  Option.map_injective fun _ _ h => Nat.succ.inj h

/-- **The first match is the same exactly where the tests are.** -/
theorem firstMatch_eq_iff {α : Type} {f g : α → Option Bool} {xs : List α} {c : Option ℕ}
    (h : firstMatch f xs = some c) : firstMatch g xs = some c ↔ SameTests f g xs := by
  induction xs generalizing c with
  | nil => exact iff_of_true h trivial
  | cons x xs ih =>
    rw [firstMatch] at h
    rw [firstMatch, SameTests]
    cases hf : f x with
    | none =>
      rw [hf] at h
      cases h
    | some b =>
      rw [hf, Option.bind_some] at h
      cases b with
      | true =>
        rw [if_pos rfl] at h
        obtain rfl := Option.some.inj h
        cases hg : g x with
        | none => exact iff_of_false nofun fun hsame => nomatch hsame.1
        | some b' =>
          cases b' with
          | true => exact iff_of_true rfl ⟨rfl, nofun⟩
          | false =>
            refine iff_of_false (fun hc => ?_) fun hsame => nomatch hsame.1
            obtain ⟨c', -, hc'⟩ := Option.map_eq_some_iff.1 hc
            exact map_succ_ne_zero c' hc'
      | false =>
        rw [if_neg Bool.false_ne_true] at h
        obtain ⟨c', hrest, rfl⟩ := Option.map_eq_some_iff.1 h
        cases hg : g x with
        | none => exact iff_of_false nofun fun hsame => nomatch hsame.1
        | some b' =>
          cases b' with
          | true =>
            refine iff_of_false (fun hc => ?_) fun hsame => nomatch hsame.1
            exact map_succ_ne_zero c' (Option.some.inj hc).symm
          | false =>
            have hback : (firstMatch g xs).map (Option.map (· + 1)) = some (c'.map (· + 1)) ↔
                firstMatch g xs = some c' := by
              rw [← Option.map_some]
              exact (Option.map_injective map_succ_injective).eq_iff
            rw [Option.bind_some, if_neg Bool.false_ne_true, hback, ih hrest]
            exact ⟨fun hsame => ⟨rfl, fun _ => hsame⟩, fun hsame => hsame.2 rfl⟩

/-! ### The arguments of `DECODE` -/

section Arguments

variable {κ : Type}

/-- How many search values there are. -/
def pairCount (args : List (Expr κ)) : ℕ := (args.length - 1) / 2

/-- The search values: every second argument from the second on. -/
def searches (args : List (Expr κ)) : List (Expr κ) :=
  (List.range (pairCount args)).filterMap fun i => args[2 * i + 1]?

/-- The results: what stands behind the search values. -/
def results (args : List (Expr κ)) : List (Expr κ) :=
  (List.range (pairCount args)).filterMap fun i => args[2 * i + 2]?

/-- The default: the last argument where their number is even. -/
def defaultOf (args : List (Expr κ)) : Option (Expr κ) :=
  if args.length % 2 = 0 then args.getLast? else none

/-- The search value Oracle takes, by its place. -/
def oracleChoice (val : Expr κ → Scalar) (args : List (Expr κ)) : Option (Option ℕ) :=
  match args with
  | [] => none
  | input :: _ =>
    let values := (searches args).map val
    firstMatch (oracleEqual o (values.headD .null).kind (val input)) values

/-- Whether the condition of an arm holds in PostgreSQL, if it compares two texts. -/
def condition (val : Expr κ → Scalar) : Expr κ → Option Bool
  | .other .isNotDistinctFrom [.cast a .text, .cast b .text] [] =>
    some (decide ((val a).castText = (val b).castText))
  | _ => none

/-- The arm PostgreSQL takes, by its place. -/
def caseChoice (val : Expr κ → Scalar) (whens : List (Expr κ × Expr κ)) : Option (Option ℕ) :=
  firstMatch (fun w => condition val w.1) whens

/-- **The texts of two values say what Oracle says of them**: numbers that are the same have the
same scale, and a text is the one that PostgreSQL has for a number exactly where Oracle takes it
for that number. -/
def SameAsText (kind : Kind) : Scalar → Scalar → Prop
  | .null, _ => True
  | _, .null => True
  | .number a, .number b => match kind with
    | .number => a.value = b.value → a.scale = b.scale
    | .text => o.toChar a.value = o.toChar b.value ↔ a.value = b.value ∧ a.scale = b.scale
  | .number a, .text s => match kind with
    | .number => o.toNumber s = some a.value ↔ s.1 = a.text
    | .text => s.1 = o.toChar a.value ↔ s.1 = a.text
  | .text s, .number a => match kind with
    | .number => o.toNumber s = some a.value ↔ s.1 = a.text
    | .text => s.1 = o.toChar a.value ↔ s.1 = a.text
  | .text s, .text t => match kind with
    | .number => o.toNumber s = o.toNumber t → s = t
    | .text => True

/-- The texts say what Oracle says, as far as Oracle compares. -/
def Agrees (kind : Kind) (v : Scalar) : List Scalar → Prop
  | [] => True
  | s :: ss => SameAsText o kind v s ∧ (oracleEqual o kind v s = some false → Agrees kind v ss)

/-- The texts say what Oracle says of the arguments of `DECODE`. -/
def ArgumentsAgree (val : Expr κ → Scalar) (args : List (Expr κ)) : Prop :=
  match args with
  | [] => True
  | input :: _ =>
    let values := (searches args).map val
    Agrees o (values.headD .null).kind (val input) values

/-! ### Pairs -/

lemma filterMap_range_succ {f : ℕ → Option (Expr κ)} {e : Expr κ} (h : f 0 = some e) (n : ℕ) :
    (List.range (n + 1)).filterMap f = e :: (List.range n).filterMap fun i => f (i + 1) := by
  rw [List.range_succ_eq_map, List.filterMap_cons_some h, List.filterMap_map]
  rfl

/-- **The arguments behind the selector, pair by pair.** -/
theorem decodePairs_spec (rest : List (Expr κ)) :
    (decodePairs rest).1.map Prod.fst =
      (List.range (rest.length / 2)).filterMap (fun i => rest[2 * i]?) ∧
    (decodePairs rest).1.map Prod.snd =
      (List.range (rest.length / 2)).filterMap (fun i => rest[2 * i + 1]?) ∧
    (decodePairs rest).2 = if rest.length % 2 = 1 then rest.getLast? else none := by
  induction rest using decodePairs.induct with
  | case1 cond result rest pairs default hrest ih =>
    have hlen : (cond :: result :: rest).length / 2 = rest.length / 2 + 1 := by
      rw [List.length_cons, List.length_cons]
      omega
    have hpairs : decodePairs (cond :: result :: rest) =
        ((cond, result) :: (decodePairs rest).1, (decodePairs rest).2) := rfl
    obtain ⟨hfst, hsnd, hdefault⟩ := ih
    rw [hpairs, hlen, List.map_cons, List.map_cons, hfst, hsnd, hdefault]
    refine ⟨?_, ?_, ?_⟩
    · rw [filterMap_range_succ rfl]
      rfl
    · rw [filterMap_range_succ rfl]
      rfl
    · have hparity : (cond :: result :: rest).length % 2 = rest.length % 2 := by
        rw [List.length_cons, List.length_cons]
        omega
      rw [hparity]
      split_ifs with hodd
      · obtain ⟨e, es, rfl⟩ := List.exists_cons_of_ne_nil
          (show rest ≠ [] by rintro rfl; cases hodd)
        rw [List.getLast?_cons_cons, List.getLast?_cons_cons]
      · rfl
  | case2 default => simp [decodePairs]
  | case3 => simp [decodePairs]

lemma decodePairs_args (input : Expr κ) (rest : List (Expr κ)) :
    (decodePairs rest).1.map Prod.fst = searches (input :: rest) ∧
      (decodePairs rest).1.map Prod.snd = results (input :: rest) ∧
      (decodePairs rest).2 = defaultOf (input :: rest) := by
  obtain ⟨hfst, hsnd, hdefault⟩ := decodePairs_spec rest
  refine ⟨hfst, hsnd, ?_⟩
  rw [hdefault, defaultOf, List.length_cons]
  by_cases hodd : rest.length % 2 = 1
  · rw [if_pos hodd, if_pos (by omega)]
    obtain ⟨e, es, rfl⟩ := List.exists_cons_of_ne_nil
      (show rest ≠ [] by rintro rfl; cases hodd)
    rw [List.getLast?_cons_cons]
  · rw [if_neg hodd, if_neg (by omega)]

/-! ### The choice -/

/-- Oracle has an answer where it has both numbers. -/
lemma exists_inNumber {v s : Scalar} (h : oracleEqual o .number v s ≠ none) :
    ∃ a b, o.inNumber v = some a ∧ o.inNumber s = some b := by
  cases hv : o.inNumber v with
  | none =>
    refine absurd ?_ h
    rw [oracleEqual, hv]
    rfl
  | some a =>
    cases hs : o.inNumber s with
    | none =>
      refine absurd ?_ h
      rw [oracleEqual, hv, hs]
      rfl
    | some b => exact ⟨a, b, rfl, rfl⟩

lemma oracleEqual_number {v s : Scalar} {a b : Option ℚ} (hv : o.inNumber v = some a)
    (hs : o.inNumber s = some b) : oracleEqual o .number v s = some (decide (a = b)) := by
  rw [oracleEqual, hv, hs]
  rfl

/-- **Two values have one text exactly where Oracle takes them to be equal.** -/
lemma sameAsText_iff {kind : Kind} {v s : Scalar} (h : oracleEqual o kind v s ≠ none) :
    oracleEqual o kind v s = some (decide (v.castText = s.castText)) ↔ SameAsText o kind v s := by
  have hdecide : ∀ {p q : Prop} [Decidable p] [Decidable q],
      some (decide p) = some (decide q) ↔ (p ↔ q) := by
    intro p q _ _
    rw [Option.some_inj, decide_eq_decide]
  cases kind with
  | text =>
    rw [oracleEqual, hdecide]
    cases v with
    | null =>
      cases s with
      | null => exact iff_of_true Iff.rfl trivial
      | number b => exact iff_of_true (iff_of_false nofun nofun) trivial
      | text t => exact iff_of_true (iff_of_false nofun nofun) trivial
    | number a =>
      cases s with
      | null => exact iff_of_true (iff_of_false nofun nofun) trivial
      | number b =>
        rw [Oracle.inText, Oracle.inText, Scalar.castText, Scalar.castText, Option.some_inj,
          Option.some_inj, Number.text_inj, Number.eq_iff]
        rfl
      | text t =>
        rw [Oracle.inText, Oracle.inText, Scalar.castText, Scalar.castText, Option.some_inj,
          Option.some_inj, eq_comm, eq_comm (a := a.text)]
        rfl
    | text u =>
      cases s with
      | null => exact iff_of_true (iff_of_false nofun nofun) trivial
      | number b =>
        rw [Oracle.inText, Oracle.inText, Scalar.castText, Scalar.castText, Option.some_inj,
          Option.some_inj]
        rfl
      | text t => exact iff_of_true Iff.rfl trivial
  | number =>
    obtain ⟨a, b, hv, hs⟩ := exists_inNumber o h
    rw [oracleEqual_number o hv hs, hdecide]
    have htext : ∀ {t : Solid} {x : Option ℚ}, o.inNumber (.text t) = some x →
        x = o.toNumber t := by
      intro t x hx
      obtain ⟨q, hq, rfl⟩ := Option.map_eq_some_iff.1 hx
      exact hq.symm
    have hsome : ∀ {t : Solid} {x : Option ℚ}, o.inNumber (.text t) = some x → x ≠ none := by
      intro t x hx hnone
      obtain ⟨q, -, rfl⟩ := Option.map_eq_some_iff.1 hx
      cases hnone
    cases v with
    | null =>
      obtain rfl := Option.some.inj hv
      cases s with
      | null =>
        obtain rfl := Option.some.inj hs
        exact iff_of_true (iff_of_true rfl rfl) trivial
      | number n =>
        obtain rfl := Option.some.inj hs
        exact iff_of_true (iff_of_false nofun nofun) trivial
      | text t => exact iff_of_true (iff_of_false (fun hb => hsome hs hb.symm) nofun) trivial
    | number m =>
      obtain rfl := Option.some.inj hv
      cases s with
      | null =>
        obtain rfl := Option.some.inj hs
        exact iff_of_true (iff_of_false nofun nofun) trivial
      | number n =>
        obtain rfl := Option.some.inj hs
        rw [Scalar.castText, Scalar.castText, Option.some_inj, Option.some_inj, Number.text_inj,
          Number.eq_iff]
        exact ⟨fun hsame hvalue => (hsame.1 hvalue).2, fun hscale =>
          ⟨fun hvalue => ⟨hvalue, hscale hvalue⟩, And.left⟩⟩
      | text t =>
        rw [Scalar.castText, Scalar.castText, Option.some_inj, htext hs, eq_comm,
          eq_comm (a := m.text)]
        rfl
    | text u =>
      cases s with
      | null =>
        obtain rfl := Option.some.inj hs
        exact iff_of_true (iff_of_false (hsome hv) nofun) trivial
      | number n =>
        obtain rfl := Option.some.inj hs
        rw [Scalar.castText, Scalar.castText, Option.some_inj, htext hv]
        rfl
      | text t =>
        rw [Scalar.castText, Scalar.castText, Option.some_inj, htext hv, htext hs]
        exact ⟨fun hsame heq => Subtype.ext (hsame.1 heq), fun himp =>
          ⟨fun heq => congrArg Subtype.val (himp heq), congrArg o.toNumber⟩⟩

lemma agrees_of_firstMatch {kind : Kind} {v : Scalar} {ss : List Scalar} {c : Option ℕ}
    (h : firstMatch (oracleEqual o kind v) ss = some c) :
    SameTests (oracleEqual o kind v) (fun s => some (decide (v.castText = s.castText))) ss ↔
      Agrees o kind v ss := by
  induction ss generalizing c with
  | nil => exact Iff.rfl
  | cons s ss ih =>
    rw [firstMatch] at h
    have hne : oracleEqual o kind v s ≠ none := by
      intro hnone
      rw [hnone] at h
      cases h
    rw [SameTests, Agrees, sameAsText_iff o hne]
    refine and_congr_right fun _ => forall_congr' fun hfalse => ?_
    rw [hfalse, Option.bind_some, if_neg Bool.false_ne_true] at h
    obtain ⟨c', hrest, -⟩ := Option.map_eq_some_iff.1 h
    exact ih hrest

/-- The arms compare the texts of the selector and the search values. -/
lemma caseChoice_eq (val : Expr κ → Scalar) (input : Expr κ) (pairs : List (Expr κ × Expr κ)) :
    caseChoice val (pairs.map fun p =>
        (.other .isNotDistinctFrom [.cast input .text, .cast p.1 .text] [], p.2)) =
      firstMatch (fun s => some (decide ((val input).castText = s.castText)))
        ((pairs.map Prod.fst).map val) := by
  induction pairs with
  | nil => rfl
  | cons p pairs ih =>
    rw [caseChoice] at ih ⊢
    rw [List.map_cons, List.map_cons, List.map_cons, firstMatch, firstMatch, ih]
    rfl

/-- **The `CASE` has Oracle's results and default, and takes the same one exactly where the texts
say what Oracle says.** -/
theorem decode_iff (val : Expr κ → Scalar) (input search result : Expr κ) (rest : List (Expr κ)) :
    ∃ whens default,
      rewriteDecode (input :: search :: result :: rest) = .ok (.case none whens default) ∧
      whens.map Prod.snd = results (input :: search :: result :: rest) ∧
      default = defaultOf (input :: search :: result :: rest) ∧
      ∀ c, oracleChoice o val (input :: search :: result :: rest) = some c →
        (caseChoice val whens = some c ↔
          ArgumentsAgree o val (input :: search :: result :: rest)) := by
  obtain ⟨hfst, hsnd, hdefault⟩ := decodePairs_args input (search :: result :: rest)
  refine ⟨_, (decodePairs (search :: result :: rest)).2, rfl, ?_, hdefault, fun c hc => ?_⟩
  · rw [← hsnd, List.map_map]
    rfl
  · have hchoice := caseChoice_eq val input (decodePairs (search :: result :: rest)).1
    rw [hfst] at hchoice
    exact (hchoice ▸ firstMatch_eq_iff hc).trans (agrees_of_firstMatch o hc)

end Arguments

/-- `DECODE(1.0, 1, ...)`: the numbers are the same, and their texts are not. -/
theorem scaled_not_decoded :
    let o : Oracle := ⟨fun _ => [], fun _ => none⟩
    let selector : Expr Unit := .value (.number ⟨10, some 1⟩)
    let search : Expr Unit := .value (.number ⟨1, none⟩)
    let result : Expr Unit := .value (.singleQuotedString "one")
    let val : Expr Unit → Scalar := fun e =>
      match e with
      | .value (.number n) => .number ⟨n.mantissa, n.point.getD 0⟩
      | _ => .null
    oracleChoice o val [selector, search, result] = some (some 0) ∧
      ∃ whens, rewriteDecode [selector, search, result] = .ok (.case none whens none) ∧
        caseChoice val whens = some none := by
  intro o selector search result val
  refine ⟨?_, _, rfl, rfl⟩
  have hvalue : (⟨10, 1⟩ : Number).value = (⟨1, 0⟩ : Number).value := by
    norm_num [Number.value]
  have hequal : oracleEqual o .number (val selector) (val search) = some true := by
    rw [oracleEqual_number o (a := some (⟨10, 1⟩ : Number).value)
      (b := some (⟨1, 0⟩ : Number).value) rfl rfl, hvalue]
    exact congrArg some (decide_eq_true rfl)
  have hsearches : searches [selector, search, result] = [search] := by
    simp [searches, pairCount]
  rw [oracleChoice, hsearches, List.map_singleton, List.headD_cons]
  show firstMatch (oracleEqual o .number (val selector)) [val search] = some (some 0)
  rw [firstMatch, hequal]
  rfl

end DbSaci.Translate.Decode
