import DbSaci.Library.Truth
import Mathlib.Data.List.Nodup

set_option relaxedAutoImplicit false
set_option autoImplicit false

/-!
# Boolean formulas, their text, and how the text is read

A formula is a tree over atoms in which parentheses are nodes of their own, as SQL parsers keep
them. Printing writes `left op right` and adds no parentheses; reading follows the usual
precedence `NOT > AND > OR` with both binary operators associating to the left. Printing a tree
that a reader did not produce can therefore change its meaning.

## Main definitions

* `Formula`, `Formula.truth` — formulas and their three-valued truth.
* `Formula.print`, `Formula.read` — the text of a formula and the reader of such texts.
* `Formula.Parsed` — the trees a reader produces: each operand binds at least as tightly as its
  position asks.
* `Formula.absorb` — what reading the text of a formula does to the reader's state.

## Main results

* `Formula.readTokens_print` — reading the text of *any* tree is `absorb`.
* `Formula.read_print` — a parsed tree is read back as itself.
* `Formula.parsed_of_read` — every tree that is read is parsed.
* `Formula.exists_truth` — over distinct atoms a formula can be given any definite truth value.
-/

/-- Formulas over atoms of type `α`, with explicit parentheses. -/
inductive Formula (α : Type)
  | atom (a : α)
  | and (left right : Formula α)
  | or (left right : Formula α)
  | not (operand : Formula α)
  | nested (inner : Formula α)
  deriving DecidableEq, Repr

namespace Formula

variable {α : Type}

/-- The truth value of a formula under an assignment to its atoms. -/
def truth (v : α → Truth) : Formula α → Truth
  | atom a => v a
  | and l r => l.truth v ⊓ r.truth v
  | or l r => l.truth v ⊔ r.truth v
  | not f => (f.truth v).neg
  | nested f => f.truth v

/-- The atoms of a formula, from left to right. -/
def atoms : Formula α → List α
  | atom a => [a]
  | and l r | or l r => l.atoms ++ r.atoms
  | not f | nested f => f.atoms

/-! ### Texts -/

/-- The tokens of a formula's text; the text of an atom is one token. -/
inductive Token (α : Type)
  | atom (a : α)
  | and
  | or
  | not
  | lparen
  | rparen
  deriving DecidableEq, Repr

/-- The text of a formula: `left op right`, with parentheses only where the tree has them. -/
def print : Formula α → List (Token α)
  | atom a => [.atom a]
  | and l r => l.print ++ .and :: r.print
  | or l r => l.print ++ .or :: r.print
  | not f => .not :: f.print
  | nested f => .lparen :: (f.print ++ [.rparen])

/-- How tightly the root of a formula binds: `OR`, `AND`, then everything else. -/
def level : Formula α → ℕ
  | or _ _ => 0
  | and _ _ => 1
  | not _ | atom _ | nested _ => 2

/-- The trees a reader produces: no operand binds more loosely than its position allows. -/
def Parsed : Formula α → Prop
  | atom _ => True
  | and l r => l.Parsed ∧ 1 ≤ l.level ∧ r.Parsed ∧ 2 ≤ r.level
  | or l r => l.Parsed ∧ r.Parsed ∧ 1 ≤ r.level
  | not f => f.Parsed ∧ 2 ≤ f.level
  | nested f => f.Parsed

instance decidableParsed : (f : Formula α) → Decidable f.Parsed
  | atom _ => isTrue trivial
  | and l r => by
    have := decidableParsed l; have := decidableParsed r; unfold Parsed; infer_instance
  | or l r => by
    have := decidableParsed l; have := decidableParsed r; unfold Parsed; infer_instance
  | not f => by have := decidableParsed f; unfold Parsed; infer_instance
  | nested f => by have := decidableParsed f; unfold Parsed; infer_instance

/-! ### The reader -/

/-- What the reader knows about the text since the last open parenthesis: the disjunction it has
finished, the conjunction it is building, and the `NOT`s waiting for their operand. -/
structure Frame (α : Type) where
  ors : Option (Formula α) := none
  ands : Option (Formula α) := none
  nots : ℕ := 0

namespace Frame

/-- Add a conjunct to the conjunction being built. -/
def conjoin : Option (Formula α) → Formula α → Formula α
  | none, f => f
  | some l, f => and l f

/-- Add a disjunct to the disjunction that is finished. -/
def disjoin : Option (Formula α) → Formula α → Formula α
  | none, f => f
  | some l, f => or l f

/-- Put `n` negations around a formula. -/
def negate : ℕ → Formula α → Formula α
  | 0, f => f
  | n + 1, f => not (negate n f)

/-- An operand has been read: it takes the waiting `NOT`s and joins the conjunction. -/
def operand (s : Frame α) (f : Formula α) : Frame α :=
  { s with ands := some (conjoin s.ands (negate s.nots f)), nots := 0 }

/-- A `NOT` has been read. -/
def waitNot (s : Frame α) : Frame α := { s with nots := s.nots + 1 }

/-- The formula of a finished frame, if it has one. -/
def close (s : Frame α) : Option (Formula α) := s.ands.map (disjoin s.ors)

/-- An `OR` has been read: the conjunction is finished. -/
def split (s : Frame α) : Frame α := { ors := s.close, ands := none, nots := s.nots }

end Frame

/-- Read a text token by token. The flag says whether an operand has just been read; the list
holds the frames of the open parentheses. -/
def readTokens : List (Token α) → Bool → Frame α → List (Frame α) → Option (Formula α)
  | [], true, s, [] => s.close
  | .atom a :: ts, false, s, st => readTokens ts true (s.operand (atom a)) st
  | .not :: ts, false, s, st => readTokens ts false s.waitNot st
  | .lparen :: ts, false, s, st => readTokens ts false {} (s :: st)
  | .rparen :: ts, true, s, p :: st =>
    match s.close with
    | some f => readTokens ts true (p.operand (nested f)) st
    | none => none
  | .and :: ts, true, s, st => readTokens ts false s st
  | .or :: ts, true, s, st => readTokens ts false s.split st
  | _, _, _, _ => none

/-- Read a whole text. -/
def read (ts : List (Token α)) : Option (Formula α) := readTokens ts false {} []

/-- What reading the text of a formula does to a frame that waits for an operand. -/
def absorb : Formula α → Frame α → Frame α
  | atom a, s => s.operand (atom a)
  | and l r, s => r.absorb (l.absorb s)
  | or l r, s => r.absorb (l.absorb s).split
  | not f, s => f.absorb s.waitNot
  | nested f, s =>
    match (f.absorb {}).close with
    | some g => s.operand (nested g)
    | none => s

/-- After a formula's text there is a conjunction, so the frame can be closed. -/
lemma absorb_ands (f : Formula α) (s : Frame α) : ∃ g, (f.absorb s).ands = some g := by
  induction f generalizing s with
  | atom a => exact ⟨_, rfl⟩
  | and l r _ ihr => exact ihr _
  | or l r _ ihr => exact ihr _
  | not f ih => exact ih _
  | nested f ih =>
    obtain ⟨g, hg⟩ := ih {}
    simp [absorb, Frame.close, hg, Frame.operand]

/-- **Reading the text of any tree.** Whether or not the tree is parsed, reading its text from a
frame that waits for an operand leads to the frame `absorb` computes. -/
lemma readTokens_print (f : Formula α) (ts : List (Token α)) (s : Frame α) (st : List (Frame α)) :
    readTokens (f.print ++ ts) false s st = readTokens ts true (f.absorb s) st := by
  induction f generalizing ts s st with
  | atom a => simp [print, readTokens, absorb]
  | and l r ihl ihr =>
    simp only [print, List.append_assoc, List.cons_append, ihl, readTokens, absorb, ihr]
  | or l r ihl ihr =>
    simp only [print, List.append_assoc, List.cons_append, ihl, readTokens, absorb, ihr]
  | not f ih => simp only [print, List.cons_append, readTokens, absorb, ih]
  | nested f ih =>
    obtain ⟨g, hg⟩ := f.absorb_ands {}
    simp [print, readTokens, absorb, ih, Frame.close, hg]

/-- The formula a printed tree is read as. -/
lemma read_print_eq_close (f : Formula α) : read f.print = (f.absorb {}).close := by
  have h := readTokens_print f [] {} []
  rw [List.append_nil] at h
  rw [read, h]
  rfl

/-! ### Parsed trees are read back -/

@[simp] lemma negate_succ_operand (s : Frame α) (f : Formula α) :
    s.waitNot.operand f = s.operand (not f) := by
  have h : ∀ n, Frame.negate (n + 1) f = Frame.negate n (not f) := by
    intro n
    induction n with
    | zero => rfl
    | succ n ih => rw [Frame.negate, ih, Frame.negate]
  simp [Frame.operand, Frame.waitNot, h]

/-- Where the text of a parsed tree is read from a fresh position, the tree itself comes out. The
three parts are for the three places a tree can stand in: behind `NOT`s and conjuncts, at the
start of a conjunction, and at the start of a text. -/
lemma absorb_parsed (f : Formula α) (h : f.Parsed) :
    (2 ≤ f.level → ∀ s, f.absorb s = s.operand f) ∧
    (1 ≤ f.level → ∀ o, f.absorb { ors := o } = { ors := o, ands := some f }) ∧
    (f.absorb {}).close = some f := by
  induction f with
  | atom a => exact ⟨fun _ s => rfl, fun _ o => rfl, rfl⟩
  | and l r ihl ihr =>
    obtain ⟨hl, hl1, hr, hr2⟩ := h
    have hand : ∀ o, (and l r).absorb { ors := o } = { ors := o, ands := some (and l r) } := by
      intro o
      rw [absorb, (ihl hl).2.1 hl1 o, (ihr hr).1 hr2]
      rfl
    refine ⟨fun h2 => absurd h2 (by simp [level]), fun _ => hand, ?_⟩
    rw [hand]
    rfl
  | or l r ihl ihr =>
    obtain ⟨hl, hr, hr1⟩ := h
    refine ⟨fun h2 => absurd h2 (by simp [level]), fun h1 => absurd h1 (by simp [level]), ?_⟩
    have hnots : (l.absorb {}).split = { ors := some l } := by
      have hn : ∀ (g : Formula α) (s : Frame α), (g.absorb s).nots = 0 := by
        intro g
        induction g with
        | atom a => intro s; rfl
        | and _ _ _ ih => intro s; exact ih _
        | or _ _ _ ih => intro s; exact ih _
        | not _ ih => intro s; exact ih _
        | nested g _ =>
          intro s
          obtain ⟨g', hg'⟩ := g.absorb_ands {}
          simp [absorb, Frame.close, hg', Frame.operand]
      simp [Frame.split, (ihl hl).2.2, hn]
    rw [absorb, hnots, (ihr hr).2.1 hr1]
    rfl
  | not f ih =>
    obtain ⟨hf, hf2⟩ := h
    have hnot : ∀ s, (not f).absorb s = s.operand (not f) := by
      intro s
      rw [absorb, (ih hf).1 hf2, negate_succ_operand]
    exact ⟨fun _ => hnot, fun _ o => hnot _, by rw [hnot]; rfl⟩
  | nested f ih =>
    have hnest : ∀ s, (nested f).absorb s = s.operand (nested f) := by
      intro s
      simp [absorb, (ih h).2.2]
    exact ⟨fun _ => hnest, fun _ o => hnest _, by rw [hnest]; rfl⟩

/-- **A parsed tree is read back as itself.** -/
theorem read_print (f : Formula α) (h : f.Parsed) : read f.print = some f := by
  rw [read_print_eq_close]
  exact (absorb_parsed f h).2.2

/-- A frame whose parts a reader could have built. -/
structure Frame.Parsed (s : Frame α) : Prop where
  ors : ∀ f ∈ s.ors, f.Parsed
  ands : ∀ f ∈ s.ands, f.Parsed ∧ 1 ≤ f.level

namespace Frame.Parsed

variable {s : Frame α}

lemma empty : ({} : Frame α).Parsed := ⟨by simp, by simp⟩

lemma waitNot (h : s.Parsed) : s.waitNot.Parsed := ⟨h.ors, h.ands⟩

lemma operand (h : s.Parsed) {f : Formula α} (hf : f.Parsed) (hf2 : 2 ≤ f.level) :
    (s.operand f).Parsed := by
  have hneg : ∀ n, (Frame.negate n f).Parsed ∧ 2 ≤ (Frame.negate n f).level := by
    intro n
    induction n with
    | zero => exact ⟨hf, hf2⟩
    | succ n ih => exact ⟨ih, le_rfl⟩
  obtain ⟨hn, hn2⟩ := hneg s.nots
  refine ⟨h.ors, fun g hg => ?_⟩
  obtain rfl : Frame.conjoin s.ands (Frame.negate s.nots f) = g := by
    simpa [Frame.operand] using hg
  cases hs : s.ands with
  | none => exact ⟨hn, by simp only [Frame.conjoin]; omega⟩
  | some l =>
    obtain ⟨hl, hl1⟩ := h.ands l (by simp [hs])
    exact ⟨⟨hl, hl1, hn, hn2⟩, le_rfl⟩

lemma close (h : s.Parsed) {f : Formula α} (hf : s.close = some f) : f.Parsed := by
  cases ha : s.ands with
  | none => simp [Frame.close, ha] at hf
  | some a =>
    obtain ⟨hp, h1⟩ := h.ands a (by simp [ha])
    obtain rfl : Frame.disjoin s.ors a = f := by simpa [Frame.close, ha] using hf
    cases ho : s.ors with
    | none => exact hp
    | some o => exact ⟨h.ors o (by simp [ho]), hp, h1⟩

lemma split (h : s.Parsed) : s.split.Parsed :=
  ⟨fun _ hf => h.close hf, by simp [Frame.split]⟩

end Frame.Parsed

/-- Reading keeps the frames parsed, so what it returns is parsed. -/
lemma parsed_of_readTokens (ts : List (Token α)) (b : Bool) (s : Frame α) (st : List (Frame α))
    (hs : s.Parsed) (hst : ∀ p ∈ st, p.Parsed) {f : Formula α}
    (h : readTokens ts b s st = some f) : f.Parsed := by
  induction ts, b, s, st using readTokens.induct with
  | case1 s => exact hs.close h
  | case2 s st a ts ih => exact ih (hs.operand trivial le_rfl) hst h
  | case3 s st ts ih => exact ih hs.waitNot hst h
  | case4 s st ts ih =>
    refine ih .empty ?_ h
    rintro p (_ | ⟨_, hp⟩)
    · exact hs
    · exact hst p hp
  | case5 ts s p st g hg ih =>
    rw [readTokens, hg] at h
    have hgp : g.Parsed := hs.close hg
    have hnp : (nested g).Parsed := hgp
    refine ih ((hst p (by simp)).operand hnp le_rfl) (fun q hq => hst q ?_) h
    exact List.mem_cons_of_mem _ hq
  | case6 ts s p st hg => simp [readTokens, hg] at h
  | case7 s st ts ih => exact ih hs hst h
  | case8 s st ts ih => exact ih hs.split hst h
  | case9 => simp [readTokens] at h

/-- **Every tree that is read is parsed.** -/
theorem parsed_of_read {ts : List (Token α)} {f : Formula α} (h : read ts = some f) : f.Parsed :=
  parsed_of_readTokens ts false {} [] .empty (by simp) h

/-! ### Chains of conjuncts -/

/-- What reading the texts of several conjuncts, joined by `AND`, does to a frame. -/
def absorbAll (fs : List (Formula α)) (s : Frame α) : Frame α :=
  fs.foldl (fun s f => f.absorb s) s

@[simp] lemma absorbAll_nil (s : Frame α) : absorbAll [] s = s := rfl

@[simp] lemma absorbAll_cons (f : Formula α) (fs : List (Formula α)) (s : Frame α) :
    absorbAll (f :: fs) s = absorbAll fs (f.absorb s) := rfl

lemma absorbAll_append (fs gs : List (Formula α)) (s : Frame α) :
    absorbAll (fs ++ gs) s = absorbAll gs (absorbAll fs s) := List.foldl_append

/-- The text of a chain of conjunctions is read conjunct by conjunct. -/
lemma absorb_foldl_and (f : Formula α) (fs : List (Formula α)) (s : Frame α) :
    (fs.foldl and f).absorb s = absorbAll (f :: fs) s := by
  induction fs generalizing f with
  | nil => rfl
  | cons g gs ih => rw [List.foldl_cons, ih]; rfl

/-- The infimum of a truth value and the truth values of several formulas. -/
def meet (v : α → Truth) (fs : List (Formula α)) (t : Truth) : Truth :=
  fs.foldl (fun t f => t ⊓ f.truth v) t

@[simp] lemma meet_nil (v : α → Truth) (t : Truth) : meet v [] t = t := rfl

@[simp] lemma meet_cons (v : α → Truth) (f : Formula α) (fs : List (Formula α)) (t : Truth) :
    meet v (f :: fs) t = meet v fs (t ⊓ f.truth v) := rfl

lemma meet_append (v : α → Truth) (fs gs : List (Formula α)) (t : Truth) :
    meet v (fs ++ gs) t = meet v gs (meet v fs t) := List.foldl_append

lemma meet_eq_inf (v : α → Truth) (fs : List (Formula α)) (t : Truth) :
    meet v fs t = t ⊓ meet v fs ⊤ := by
  induction fs generalizing t with
  | nil => simp
  | cons f fs ih => rw [meet_cons, meet_cons, ih, ih (⊤ ⊓ f.truth v), top_inf_eq, inf_assoc]

lemma truth_foldl_and (v : α → Truth) (f : Formula α) (fs : List (Formula α)) :
    (fs.foldl and f).truth v = meet v fs (f.truth v) := by
  induction fs generalizing f with
  | nil => rfl
  | cons g gs ih => rw [List.foldl_cons, ih]; rfl

lemma meet_top (v : α → Truth) (fs : List (Formula α)) (h : ∀ f ∈ fs, f.truth v = ⊤) :
    meet v fs ⊤ = ⊤ := by
  induction fs with
  | nil => rfl
  | cons f fs ih =>
    simp only [List.mem_cons, forall_eq_or_imp] at h
    simp [h.1, ih h.2]

lemma meet_bot (v : α → Truth) (fs : List (Formula α)) (t : Truth)
    (h : t = ⊥ ∨ ∃ f ∈ fs, f.truth v = ⊥) : meet v fs t = ⊥ := by
  induction fs generalizing t with
  | nil => simpa using h
  | cons f fs ih =>
    refine ih _ ?_
    rcases h with rfl | ⟨g, _ | ⟨_, hg⟩, hgv⟩
    · exact Or.inl (bot_inf_eq _)
    · exact Or.inl ((congrArg (t ⊓ ·) hgv).trans (inf_bot_eq t))
    · exact Or.inr ⟨g, hg, hgv⟩

/-- The value of the disjunction a frame has finished. -/
def Frame.orsTruth (v : α → Truth) (s : Frame α) : Truth := s.ors.elim ⊥ (truth v)

/-- The value of the conjunction a frame is building. -/
def Frame.andsTruth (v : α → Truth) (s : Frame α) : Truth := s.ands.elim ⊤ (truth v)

/-- The value of a frame that is closed. -/
lemma truth_close (v : α → Truth) {s : Frame α} {f : Formula α} (h : s.close = some f) :
    f.truth v = s.orsTruth v ⊔ s.andsTruth v := by
  cases ha : s.ands with
  | none => simp [Frame.close, ha] at h
  | some a =>
    obtain rfl : Frame.disjoin s.ors a = f := by simpa [Frame.close, ha] using h
    cases ho : s.ors <;> simp [Frame.orsTruth, Frame.andsTruth, ha, ho, Frame.disjoin, truth]

lemma orsTruth_split (v : α → Truth) {s : Frame α} {a : Formula α} (h : s.ands = some a) :
    s.split.orsTruth v = s.orsTruth v ⊔ s.andsTruth v := by
  have hc : s.close = some (Frame.disjoin s.ors a) := by simp [Frame.close, h]
  rw [← truth_close v hc]
  simp [Frame.split, Frame.orsTruth, hc]

/-- A finished disjunction only grows. -/
lemma orsTruth_le_absorb (v : α → Truth) (f : Formula α) (s : Frame α) :
    s.orsTruth v ≤ (f.absorb s).orsTruth v := by
  induction f generalizing s with
  | atom a => exact le_rfl
  | and l r ihl ihr => exact (ihl s).trans (ihr _)
  | or l r ihl ihr =>
    obtain ⟨a, ha⟩ := l.absorb_ands s
    calc s.orsTruth v ≤ (l.absorb s).orsTruth v := ihl s
      _ ≤ (l.absorb s).split.orsTruth v := by rw [orsTruth_split v ha]; exact le_sup_left
      _ ≤ _ := ihr _
  | not f ih => exact ih s.waitNot
  | nested f ih =>
    obtain ⟨g, hg⟩ := f.absorb_ands {}
    have hc : (f.absorb {}).close = some (Frame.disjoin (f.absorb {}).ors g) := by
      simp [Frame.close, hg]
    simp [absorb, hc, Frame.operand, Frame.orsTruth]

lemma orsTruth_le_absorbAll (v : α → Truth) (fs : List (Formula α)) (s : Frame α) :
    s.orsTruth v ≤ (absorbAll fs s).orsTruth v := by
  induction fs generalizing s with
  | nil => exact le_rfl
  | cons f fs ih => exact (orsTruth_le_absorb v f s).trans (ih _)

/-- A reader has no `NOT` waiting after an operand. -/
lemma absorb_nots (f : Formula α) (s : Frame α) : (f.absorb s).nots = 0 := by
  induction f generalizing s with
  | atom a => rfl
  | and _ _ _ ih => exact ih _
  | or _ _ _ ih => exact ih _
  | not _ ih => exact ih _
  | nested f _ =>
    obtain ⟨g, hg⟩ := f.absorb_ands {}
    simp [absorb, Frame.close, hg, Frame.operand]

/-- A parsed tree without a bare `OR` becomes one more conjunct. -/
lemma truth_absorb_of_level (v : α → Truth) (f : Formula α) (hf : f.Parsed) (h1 : 1 ≤ f.level)
    (s : Frame α) (hs : s.nots = 0) :
    (f.absorb s).orsTruth v = s.orsTruth v ∧
    (f.absorb s).andsTruth v = s.andsTruth v ⊓ f.truth v := by
  have hop : ∀ (g : Formula α) (s : Frame α), s.nots = 0 →
      (s.operand g).orsTruth v = s.orsTruth v ∧
      (s.operand g).andsTruth v = s.andsTruth v ⊓ g.truth v := by
    intro g s hs
    refine ⟨rfl, ?_⟩
    cases ha : s.ands <;>
      simp [Frame.operand, Frame.andsTruth, ha, hs, Frame.conjoin, Frame.negate, truth]
  induction f generalizing s with
  | and l r ihl ihr =>
    obtain ⟨hl, hl1, hr, hr2⟩ := hf
    obtain ⟨ho, ha⟩ := ihl hl hl1 s hs
    obtain ⟨ho', ha'⟩ := ihr hr (by omega) (l.absorb s) (absorb_nots l s)
    exact ⟨ho'.trans ho, by rw [absorb, ha', ha, truth, inf_assoc]⟩
  | or l r => simp [level] at h1
  | atom a => exact hop _ s hs
  | not f => rw [(absorb_parsed _ hf).1 le_rfl]; exact hop _ s hs
  | nested f => rw [(absorb_parsed _ hf).1 le_rfl]; exact hop _ s hs

/-- A parsed tree at the start of a conjunction adds its disjuncts to the finished ones. -/
lemma truth_absorb_of_ands_top (v : α → Truth) (f : Formula α) (hf : f.Parsed) (s : Frame α)
    (hs : s.nots = 0) (hand : s.andsTruth v = ⊤) :
    (f.absorb s).orsTruth v ⊔ (f.absorb s).andsTruth v = s.orsTruth v ⊔ f.truth v := by
  induction f with
  | or l r ihl ihr =>
    obtain ⟨hl, hr, hr1⟩ := hf
    obtain ⟨a, ha⟩ := l.absorb_ands s
    have hnots : (l.absorb s).split.nots = 0 := absorb_nots l s
    obtain ⟨ho, ha'⟩ := truth_absorb_of_level v r hr hr1 _ hnots
    have htop : (l.absorb s).split.andsTruth v = ⊤ := rfl
    rw [absorb, ho, ha', htop, orsTruth_split v ha, ihl hl, truth, top_inf_eq, sup_assoc]
  | _ =>
    obtain ⟨ho, ha⟩ := truth_absorb_of_level v _ hf (by simp [level]) s hs
    rw [ho, ha, hand, top_inf_eq]

/-! ### Forcing a truth value -/

/-- The truth of a formula depends on its own atoms only. -/
lemma truth_congr {v w : α → Truth} (f : Formula α) (h : ∀ a ∈ f.atoms, v a = w a) :
    f.truth v = f.truth w := by
  induction f with
  | atom a => exact h a (by simp [atoms])
  | and l r ihl ihr | or l r ihl ihr =>
    have hl := ihl fun a ha => h a (by simp [atoms, ha])
    have hr := ihr fun a ha => h a (by simp [atoms, ha])
    simp only [truth, hl, hr]
  | not f ih => simp only [truth, ih h]
  | nested f ih => exact ih h

/-- **Forcing a value.** Over distinct atoms a formula can be made true and can be made false,
without touching the atoms outside it. -/
theorem exists_truth [DecidableEq α] (f : Formula α) (h : f.atoms.Nodup) (b : Bool)
    (v₀ : α → Truth) :
    ∃ v, f.truth v = Truth.ofBool b ∧ ∀ a ∉ f.atoms, v a = v₀ a := by
  induction f generalizing b v₀ with
  | atom a =>
    refine ⟨Function.update v₀ a (Truth.ofBool b), by simp [truth], fun c hc => ?_⟩
    rw [Function.update_of_ne (by simpa [atoms] using hc)]
  | and l r ihl ihr | or l r ihl ihr =>
    -- give both operands the value; the right assignment leaves the atoms on the left alone
    obtain ⟨hl, hr, hdis⟩ := List.nodup_append.1 h
    obtain ⟨v, hv, hvout⟩ := ihl hl b v₀
    obtain ⟨w, hw, hwout⟩ := ihr hr b v
    have hlw : l.truth w = l.truth v :=
      truth_congr l fun a ha => hwout a fun har => hdis a ha a har rfl
    refine ⟨w, by simp [truth, hlw, hv, hw], fun a ha => ?_⟩
    simp only [atoms, List.mem_append, not_or] at ha
    rw [hwout a ha.2, hvout a ha.1]
  | not f ih =>
    obtain ⟨v, hv, hout⟩ := ih h (!b) v₀
    exact ⟨v, by cases b <;> simp_all [truth, Truth.ofBool, Truth.neg], hout⟩
  | nested f ih => exact ih h b v₀

/-- The same for several formulas whose atoms are all distinct, each with its own value. -/
theorem exists_truth_list [DecidableEq α] (fs : List (Formula α × Bool)) (v₀ : α → Truth)
    (h : (fs.flatMap fun p => p.1.atoms).Nodup) :
    ∃ v, (∀ p ∈ fs, p.1.truth v = Truth.ofBool p.2) ∧
      ∀ a ∉ fs.flatMap fun p => p.1.atoms, v a = v₀ a := by
  induction fs with
  | nil => exact ⟨v₀, by simp⟩
  | cons p fs ih =>
    obtain ⟨hf, hfs, hdis⟩ := List.nodup_append.1 h
    obtain ⟨v, hv, hvout⟩ := ih hfs
    obtain ⟨w, hw, hwout⟩ := exists_truth p.1 hf p.2 v
    refine ⟨w, ?_, fun a ha => ?_⟩
    · rintro q (_ | ⟨_, hq⟩)
      · exact hw
      · rw [← hv q hq]
        refine truth_congr q.1 fun a ha => hwout a fun haf => ?_
        exact hdis a haf a (List.mem_flatMap.2 ⟨q, hq, ha⟩) rfl
    · simp only [List.flatMap_cons, List.mem_append, not_or] at ha
      rw [hwout a ha.1, hvout a ha.2]

/-! ### When a printed chain of conjuncts keeps its meaning -/

lemma absorbAll_nots (fs : List (Formula α)) (s : Frame α) (hs : s.nots = 0) :
    (absorbAll fs s).nots = 0 := by
  induction fs generalizing s with
  | nil => exact hs
  | cons f fs ih => exact ih _ (absorb_nots f s)

lemma absorbAll_ands (f : Formula α) (fs : List (Formula α)) (s : Frame α) :
    ∃ g, (absorbAll (f :: fs) s).ands = some g := by
  induction fs generalizing f s with
  | nil => exact f.absorb_ands s
  | cons g gs ih => exact ih g _

/-- Conjuncts without a bare `OR` are read as conjuncts. -/
lemma truth_absorbAll (v : α → Truth) (fs : List (Formula α)) (hp : ∀ f ∈ fs, f.Parsed)
    (h1 : ∀ f ∈ fs, 1 ≤ f.level) (s : Frame α) (hs : s.nots = 0) :
    (absorbAll fs s).orsTruth v = s.orsTruth v ∧
    (absorbAll fs s).andsTruth v = meet v fs (s.andsTruth v) := by
  induction fs generalizing s with
  | nil => exact ⟨rfl, rfl⟩
  | cons f fs ih =>
    simp only [List.mem_cons, forall_eq_or_imp] at hp h1
    obtain ⟨ho, ha⟩ := truth_absorb_of_level v f hp.1 h1.1 s hs
    obtain ⟨ho', ha'⟩ := ih hp.2 h1.2 (f.absorb s) (absorb_nots f s)
    exact ⟨ho'.trans ho, by rw [absorbAll_cons, meet_cons, ha', ha]⟩

/-- A printed chain is read as some formula. -/
lemma exists_read_chain (f : Formula α) (fs : List (Formula α)) :
    ∃ g, read (fs.foldl and f).print = some g ∧ ∀ v, g.truth v =
      (absorbAll (f :: fs) {}).orsTruth v ⊔ (absorbAll (f :: fs) {}).andsTruth v := by
  obtain ⟨a, ha⟩ := absorbAll_ands f fs {}
  have hc : (absorbAll (f :: fs) {}).close =
      some (Frame.disjoin (absorbAll (f :: fs) {}).ors a) := by
    rw [Frame.close, ha, Option.map_some]
  exact ⟨_, by rw [read_print_eq_close, absorb_foldl_and, hc], fun v => truth_close v hc⟩

/-- **A chain without bare disjunctions keeps its meaning.** -/
theorem truth_read_chain (f : Formula α) (fs : List (Formula α))
    (hp : ∀ g ∈ f :: fs, g.Parsed) (h1 : ∀ g ∈ f :: fs, 1 ≤ g.level) :
    ∃ g, read (fs.foldl and f).print = some g ∧
      ∀ v, g.truth v = (fs.foldl and f).truth v := by
  obtain ⟨g, hg, hv⟩ := exists_read_chain f fs
  refine ⟨g, hg, fun v => ?_⟩
  obtain ⟨ho, ha⟩ := truth_absorbAll v (f :: fs) hp h1 {} rfl
  rw [hv, ho, ha, truth_foldl_and]
  simp [Frame.orsTruth, Frame.andsTruth]

/-- When the conjuncts before a disjunction `l OR r` and its left part `l` are true, the text up
to its `OR` is a disjunct that is true. -/
lemma orsTruth_first_or (v : α → Truth) (pre : List (Formula α)) (l r : Formula α)
    (post : List (Formula α)) (hp : ∀ g ∈ pre, g.Parsed) (h1 : ∀ g ∈ pre, 1 ≤ g.level)
    (hl : l.Parsed) (hpre : ∀ g ∈ pre, g.truth v = ⊤) (hlv : l.truth v = ⊤) :
    (absorbAll (pre ++ or l r :: post) {}).orsTruth v = ⊤ := by
  obtain ⟨-, ha⟩ := truth_absorbAll v pre hp h1 {} rfl
  have hands : (absorbAll pre {}).andsTruth v = ⊤ := ha.trans (meet_top v pre hpre)
  have hnots : (absorbAll pre ({} : Frame α)).nots = 0 := absorbAll_nots pre {} rfl
  obtain ⟨a, hla⟩ := l.absorb_ands (absorbAll pre {})
  have hsplit : (l.absorb (absorbAll pre {})).split.orsTruth v = ⊤ := by
    rw [orsTruth_split v hla, truth_absorb_of_ands_top v l hl _ hnots hands, hlv, sup_top_eq]
  rw [absorbAll_append, absorbAll_cons, absorb]
  refine top_le_iff.1 (le_trans ?_ (orsTruth_le_absorbAll v post _))
  rw [← hsplit]
  exact orsTruth_le_absorb v r _

/-- When the right part `r` of a disjunction `l OR r` that ends the chain is true, so is the
text. -/
lemma andsTruth_last_or (v : α → Truth) (pre : List (Formula α)) (l r : Formula α)
    (hr : r.Parsed) (hr1 : 1 ≤ r.level) (hrv : r.truth v = ⊤) :
    (absorbAll (pre ++ [or l r]) {}).andsTruth v = ⊤ := by
  have hnots : (l.absorb (absorbAll pre {})).split.nots = 0 := absorb_nots l _
  obtain ⟨-, ha⟩ := truth_absorb_of_level v r hr hr1 _ hnots
  rw [absorbAll_append, absorbAll_cons, absorbAll_nil, absorb, ha, hrv]
  rfl

/-- **A chain with a bare disjunction changes its meaning.** Over distinct atoms, a chain of two
or more conjuncts of which one is a bare disjunction has an assignment under which the chain is
false and its text is read as true.

**Proof sketch.** Take the first bare disjunction `l OR r`. If a conjunct follows it, make what
comes before it and `l` true and that conjunct false: the text has the disjunct that ends with
`l`. If none follows, some conjunct precedes it; make that one false and `r` true: the text has
the disjunct that begins with `r`. -/
theorem exists_chain_changes [DecidableEq α] (f : Formula α) (fs : List (Formula α))
    (hp : ∀ g ∈ f :: fs, g.Parsed) (h0 : ∃ g ∈ f :: fs, g.level = 0) (hlen : fs ≠ [])
    (hd : ((f :: fs).flatMap atoms).Nodup) :
    ∃ v g, read (fs.foldl and f).print = some g ∧ g.truth v = ⊤ ∧
      (fs.foldl and f).truth v = ⊥ := by
  obtain ⟨g, hg, hgv⟩ := exists_read_chain f fs
  have hchain : ∀ v, (∃ c ∈ f :: fs, c.truth v = ⊥) → (fs.foldl and f).truth v = ⊥ := by
    intro v ⟨c, hc, hcv⟩
    rw [truth_foldl_and]
    refine meet_bot v fs _ ?_
    rcases List.mem_cons.1 hc with rfl | hc
    · exact Or.inl hcv
    · exact Or.inr ⟨c, hc, hcv⟩
  -- split the chain at its first bare disjunction
  obtain ⟨c, hc⟩ : ∃ c, (f :: fs).find? (fun g => g.level = 0) = some c := by
    rw [← Option.isSome_iff_exists, List.find?_isSome]
    simpa using h0
  obtain ⟨hc0, pre, post, hsplit, hpre⟩ := List.find?_eq_some_iff_append.1 hc
  obtain ⟨l, r, rfl⟩ : ∃ l r, c = or l r := by
    cases c with
    | or l r => exact ⟨l, r, rfl⟩
    | _ => simp [level] at hc0
  have hlr : (or l r).Parsed := hp _ (by rw [hsplit]; simp)
  obtain ⟨hl, hr, hr1⟩ := hlr
  have hpre1 : ∀ g ∈ pre, 1 ≤ g.level := fun g hg => by
    have := hpre g hg
    simp only [Bool.not_eq_true', decide_eq_false_iff_not] at this
    omega
  have hprep : ∀ g ∈ pre, g.Parsed := fun g hg => hp g (by rw [hsplit]; simp [hg])
  rw [hsplit] at hd hgv hchain
  cases post with
  | cons p post =>
    -- the first disjunct of the text ends with `l`, and `p` is none of its conjuncts
    have hsub : (((pre.map fun g => (g, true)) ++ [(l, true), (p, false)]).flatMap
        fun q => q.1.atoms).Nodup := by
      refine hd.sublist ?_
      rw [List.flatMap_append, List.flatMap_map, List.flatMap_append]
      refine (List.Sublist.refl _).append ?_
      exact (List.sublist_append_left l.atoms r.atoms).append
        ((List.Sublist.refl _).append (List.nil_sublist _))
    obtain ⟨v, hv, -⟩ := exists_truth_list _ (fun _ => ⊤) hsub
    have hpv : p.truth v = ⊥ := hv (p, false) (by simp)
    have hlv : l.truth v = ⊤ := hv (l, true) (by simp)
    have hprev : ∀ g ∈ pre, g.truth v = ⊤ := fun g hg => hv (g, true) (by simp [hg])
    refine ⟨v, g, hg, ?_, hchain v ⟨p, by simp, hpv⟩⟩
    rw [hgv, orsTruth_first_or v pre l r _ hprep hpre1 hl hprev hlv, top_sup_eq]
  | nil =>
    -- the last disjunct of the text is `r`, and the chain has a conjunct before the disjunction
    obtain ⟨q, pre', rfl⟩ : ∃ q pre', pre = q :: pre' := by
      cases pre with
      | nil => simp_all
      | cons q pre' => exact ⟨q, pre', rfl⟩
    have hsub : ([(q, false), (r, true)].flatMap fun q => q.1.atoms).Nodup := by
      refine hd.sublist ?_
      simp only [List.flatMap_cons, List.flatMap_nil, List.append_nil, List.cons_append,
        List.flatMap_append]
      refine (List.Sublist.refl _).append ?_
      exact (List.sublist_append_right l.atoms r.atoms).trans (List.sublist_append_right _ _)
    obtain ⟨v, hv, -⟩ := exists_truth_list _ (fun _ => ⊤) hsub
    have hqv : q.truth v = ⊥ := hv (q, false) (by simp)
    have hrv : r.truth v = ⊤ := hv (r, true) (by simp)
    refine ⟨v, g, hg, ?_, hchain v ⟨q, by simp, hqv⟩⟩
    rw [hgv, andsTruth_last_or v _ l r hr hr1 hrv, sup_top_eq]

end Formula
