import DbSaci.Library.ClearingCache

set_option relaxedAutoImplicit false
set_option autoImplicit false

/-!
# The prepared statements of a connection

A text is prepared once and the statement is kept under it. It is forgotten if it has failed, and
all of them are dropped when there are 256 of them and one more is to be kept.

## Main definitions

* `StmtCache.prepareCached`, `StmtCache.forgetCached` — what the code does.
* `StmtCache.answers` — what it gives for a list of calls.

## Main results

* `prepared_latest` — a statement that is kept is the last one that the server gave for its text.
* `answers_unbounded` — up to 256 texts nothing is prepared twice without need.
-/

namespace DbSaci.Backend

variable {σ : Type}

/-- `STMT_CACHE_CAP`. -/
abbrev stmtCacheCap : ℕ := 256

/-- The statements by their texts. -/
abbrev StmtCache (σ : Type) := Cache (List Char) σ stmtCacheCap

/-- A call: a text is to be prepared, where the server may give a statement, or to be forgotten. -/
abbrev StmtCall (σ : Type) := Memory.Op (List Char) σ

namespace StmtCache

/-- `prepare_cached`: the server is asked if the text is not there, and gives a statement or an
error. -/
def prepareCached (c : StmtCache σ) (sql : List Char) (prepared : Option σ) :
    StmtCache σ × Option σ :=
  match c.entries.lookup sql with
  | some stmt => (c, some stmt)
  | none =>
    match prepared with
    | some stmt => (c.store sql stmt, some stmt)
    | none => (c, none)

/-- Nothing is prepared for a text that is there. -/
lemma prepareCached_some {c : StmtCache σ} {sql : List Char} {stmt : σ}
    (h : c.entries.lookup sql = some stmt) (prepared : Option σ) :
    c.prepareCached sql prepared = (c, some stmt) := by
  unfold prepareCached
  rw [h]

/-- What the server gives for another text is kept. -/
lemma prepareCached_none {c : StmtCache σ} {sql : List Char} (h : c.entries.lookup sql = none)
    (prepared : Option σ) :
    c.prepareCached sql prepared = (prepared.elim c (c.store sql), prepared) := by
  unfold prepareCached
  rw [h]
  cases prepared <;> rfl

/-- `forget_cached`. -/
def forgetCached (c : StmtCache σ) (sql : List Char) : StmtCache σ := c.forget sql

/-- One call, with what comes back: the statement, and whether the server was asked. -/
def answer (c : StmtCache σ) : StmtCall σ → StmtCache σ × Option (Memory.Reply σ)
  | .fetch sql prepared =>
    let result := c.prepareCached sql prepared
    (result.1, some ⟨result.2, (c.entries.lookup sql).isNone⟩)
  | .forget sql => (c.forgetCached sql, none)

/-- What comes back for some calls. -/
def answers : StmtCache σ → List (StmtCall σ) → List (Option (Memory.Reply σ))
  | _, [] => []
  | c, call :: calls => (c.answer call).2 :: answers (c.answer call).1 calls

/-- The statements behind some calls. -/
def after (c : StmtCache σ) (calls : List (StmtCall σ)) : StmtCache σ :=
  calls.foldl (fun c call => (c.answer call).1) c

/-- The code is a cache of that kind. -/
lemma answer_eq (c : StmtCache σ) (call : StmtCall σ) :
    c.answer call = (Cache.memory (List Char) σ stmtCacheCap).step c call := by
  cases call with
  | forget sql => rfl
  | fetch sql prepared =>
    rw [answer]
    cases hget : c.entries.lookup sql with
    | some stmt =>
      rw [prepareCached_some hget]
      have hstep := Memory.step_fetch_some (m := Cache.memory _ σ stmtCacheCap) (s := c) hget
        prepared
      exact hstep.symm
    | none =>
      rw [prepareCached_none hget]
      have hstep := Memory.step_fetch_none (m := Cache.memory _ σ stmtCacheCap) (s := c) hget
        prepared
      exact hstep.symm

lemma answers_eq (c : StmtCache σ) (calls : List (StmtCall σ)) :
    c.answers calls = (Cache.memory (List Char) σ stmtCacheCap).replies c calls := by
  induction calls generalizing c with
  | nil => rfl
  | cons call calls ih => rw [answers, Memory.replies, answer_eq, ih]

lemma after_eq (c : StmtCache σ) (calls : List (StmtCall σ)) :
    c.after calls = (Cache.memory (List Char) σ stmtCacheCap).run c calls := by
  rw [after, Memory.run]
  exact congrArg (fun f => calls.foldl f c) (funext fun c => funext fun call => by rw [answer_eq])

/-- The statement the server has given last for each text, if the text has not been forgotten since,
on a connection that has had some calls. -/
def given (calls : List (StmtCall σ)) : List Char → Option σ :=
  (Cache.memory (List Char) σ stmtCacheCap).last (.empty _ _ _) (fun _ => none) calls

/-- The statements on a connection that has had some calls. -/
def behind (calls : List (StmtCall σ)) : StmtCache σ := after (.empty _ _ _) calls

/-- **A statement that is not prepared now is the last one that the server has given for its text**,
and the text has not been forgotten since, whatever calls there have been. -/
theorem prepared_latest (calls : List (StmtCall σ)) (sql : List Char) (prepared : Option σ) :
    ((behind calls).prepareCached sql prepared).2 =
      if ((behind calls).entries.lookup sql).isSome = true then given calls sql else prepared := by
  have hsound : Cache.Sound (behind calls) (given calls) := by
    rw [behind, after_eq]
    exact Cache.get_run (Cache.sound_empty _) calls
  cases hget : (behind calls).entries.lookup sql with
  | some stmt =>
    rw [prepareCached_some hget, hsound sql stmt hget]
    rfl
  | none =>
    rw [prepareCached_none hget]
    rfl

/-- **Up to 256 texts the cache does as well as one that drops nothing**: the statements are the
same, and the server is asked for the same ones. -/
theorem answers_unbounded {calls : List (StmtCall σ)}
    (h : (calls.map Memory.Op.key).toFinset.card ≤ stmtCacheCap) :
    answers (.empty _ _ _) calls = Memory.unbounded.replies (fun _ => none) calls := by
  rw [answers_eq]
  exact Cache.replies_eq_unbounded h

/-- A statement that is prepared, used again, forgotten and prepared again. -/
def preparedAgain : List (StmtCall ℕ) :=
  [.fetch "SELECT 1".toList (some 7), .fetch "SELECT 1".toList none, .forget "SELECT 1".toList,
    .fetch "SELECT 1".toList (some 8)]

/-- The server is asked twice for it. -/
theorem preparedAgain_answers : answers (.empty _ _ _) preparedAgain =
    Memory.unbounded.replies (fun _ => none) preparedAgain :=
  answers_unbounded (by decide)

end StmtCache

end DbSaci.Backend
