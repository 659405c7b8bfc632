import DbSaci.Server.Dispatch
import Mathlib.Order.Basic

set_option relaxedAutoImplicit false
set_option autoImplicit false

/-!
# Every request gets one answer

A function on its own is always answered. Behind deferred operations it is answered only if the
search finds a function in the packet: the search knows some function codes only, and takes every
byte `0x11` for a deferred operation.

## Main definitions

* `Request` — a packet with a function, behind deferred operations or not.
* `Answered` — exactly one response is written, or the session is closed for a logoff.
* `Passes` — the bytes the search passes.
* `framed` — the payload the session loop goes on with.

## Main results

* `answered_iff` — which requests are answered.
* `ping_not_answered` — a `PING` behind a deferred operation.
* `framed_iff` — when the session loop goes on with the function.
-/

namespace DbSaci.Server

/-- A deferred operation: its function, its sequence byte and its arguments. -/
structure Piggyback where
  func : UInt8
  seq : UInt8
  args : List UInt8
  deriving DecidableEq, Repr

/-- The bytes of a deferred operation. -/
def Piggyback.bytes (p : Piggyback) : List UInt8 := 0x11 :: p.func :: p.seq :: p.args

/-- A packet with a function the protocol knows, perhaps behind deferred operations. -/
structure Request where
  flags : UInt8 × UInt8
  piggybacks : List Piggyback
  func : UInt8
  body : List UInt8
  known : ∀ code, FunctionCode.fromU8 func ≠ .other code

namespace Request

/-- The messages of a packet. -/
def content (r : Request) : List UInt8 :=
  r.piggybacks.flatMap Piggyback.bytes ++ 0x03 :: r.func :: r.body

/-- The payload of a packet. -/
def payload (r : Request) : List UInt8 := r.flags.1 :: r.flags.2 :: r.content

end Request

/-- Exactly one response is written, or the session is closed for a logoff. -/
def Answered (c : Client) (calls : Calls) (r : Request) : Prop :=
  (handleData c calls r.payload).responses.length = 1 ∨
    ((handleData c calls r.payload).closed = true ∧ FunctionCode.fromU8 r.func = .logoff)

/-- A function starts here that is looked for. -/
def StartsCall : List UInt8 → Prop
  | b :: f :: _ => b = 0x03 ∧ f ∈ knownFuncs
  | _ => False

instance : ∀ s : List UInt8, Decidable (StartsCall s)
  | [] | [_] => inferInstanceAs (Decidable False)
  | _ :: _ :: _ => inferInstanceAs (Decidable (_ ∧ _))

lemma startsCall_of_known {f : UInt8} (hf : f ∈ knownFuncs) (s : List UInt8) :
    StartsCall (0x03 :: f :: s) := ⟨rfl, hf⟩

/-- The bytes the search passes in front of a text: `0x11` with two more bytes, and other bytes
that start no function. -/
inductive Passes : List UInt8 → List UInt8 → Prop
  | nil (y : List UInt8) : Passes [] y
  | header (a b : UInt8) {x y : List UInt8} (h : Passes x y) : Passes (0x11 :: a :: b :: x) y
  | byte {c : UInt8} {x y : List UInt8} (hc : c ≠ 0x11) (hcall : ¬ StartsCall (c :: (x ++ y)))
    (h : Passes x y) : Passes (c :: x) y

/-- **What the search finds.** -/
theorem stripFrom_eq_some {s inner : List UInt8} :
    stripFrom 0 s = some inner ↔ StartsCall inner ∧ ∃ x, s = x ++ inner ∧ Passes x inner := by
  constructor
  · intro h
    induction hn : s.length using Nat.strongRecOn generalizing s with
    | _ n ih =>
      subst hn
      match s, h with
      | b :: f :: s, h =>
        rw [stripFrom] at h
        split_ifs at h with hb hcall
        · -- three bytes are left out
          subst hb
          cases s with
          | nil => simp [stripFrom] at h
          | cons g s =>
            obtain ⟨hinner, x, rfl, hx⟩ := ih s.length (by simp only [List.length_cons]; omega) h rfl
            exact ⟨hinner, 0x11 :: f :: g :: x, rfl, .header f g hx⟩
        · obtain rfl := Option.some.inj h
          exact ⟨hcall, [], rfl, .nil _⟩
        · obtain ⟨hinner, x, hs, hx⟩ := ih (f :: s).length (Nat.lt_succ_self _) h rfl
          refine ⟨hinner, b :: x, by rw [hs]; rfl, .byte hb ?_ hx⟩
          rw [← hs]
          exact hcall
  · rintro ⟨hinner, x, rfl, hx⟩
    induction hx with
    | nil y =>
      match y, hinner with
      | b :: f :: s, ⟨hb, hf⟩ =>
        subst hb
        rw [List.nil_append, stripFrom, if_neg (by decide), if_pos ⟨rfl, hf⟩]
    | header a b h ih =>
      have ih := ih hinner
      rw [List.cons_append, List.cons_append, List.cons_append, stripFrom, if_pos rfl]
      exact ih
    | @byte c x y hc hcall h ih =>
      have ih := ih hinner
      cases hxy : x ++ y with
      | nil =>
        rw [hxy] at ih
        cases ih
      | cons f s =>
        rw [hxy] at ih hcall
        have hcall : ¬ (c = 0x03 ∧ f ∈ knownFuncs) := hcall
        rw [List.cons_append, hxy, stripFrom, if_neg hc, if_neg hcall]
        exact ih

/-! ### Messages -/

/-- An Execute is answered once. -/
lemma length_handleExecute (c : Client) (func : UInt8) (calls : ExecuteCalls) :
    (handleExecute c func calls).length = 1 := by
  rw [handleExecute]
  cases calls.parsed with
  | error e => dsimp only; split <;> rfl
  | ok _ =>
    dsimp only
    split
    · split
      · rfl
      · cases calls.bound <;> cases calls.translated <;> rfl
    · cases calls.rejected with
      | some r => rfl
      | none =>
        cases calls.bound with
        | error e => rfl
        | ok _ =>
          cases calls.translated with
          | error e => rfl
          | ok _ =>
            dsimp only
            cases calls.isQuery with
            | false => cases calls.batch <;> rfl
            | true => cases calls.opened <;> rfl

variable (c : Client) (calls : Calls)

/-- The message of a function is answered once, unless it is the logoff of a thin client. -/
lemma handleMessage_function (a b func : UInt8) (s : List UInt8) :
    (handleMessage c calls (a :: b :: 0x03 :: func :: s)).responses.length =
      if func = 0x09 ∧ c.dialect = .thin then 0 else 1 := by
  rw [handleMessage]
  by_cases hexec : func ∈ [0x5e, 0x4e, 0x04]
  · have hlog : ¬ (func = 0x09 ∧ c.dialect = .thin) := by
      rintro ⟨rfl, -⟩
      revert hexec
      decide
    rw [if_pos ⟨rfl, hexec⟩, if_neg hlog]
    exact length_handleExecute _ _ _
  rw [if_neg (fun h => hexec h.2)]
  by_cases hfetch : func = 0x05
  · subst hfetch
    rw [if_pos ⟨rfl, rfl⟩, if_neg (by rintro ⟨h, -⟩; revert h; decide)]
    rfl
  rw [if_neg (fun h => hfetch h.2)]
  by_cases hlog : func = 0x09
  · subst hlog
    rw [if_pos ⟨rfl, rfl⟩]
    cases c.dialect with
    | thin => rw [if_pos ⟨rfl, rfl⟩]; rfl
    | jdbc => rw [if_neg (by rintro ⟨-, h⟩; cases h)]; rfl
    | oci => rw [if_neg (by rintro ⟨-, h⟩; cases h)]; rfl
  rw [if_neg (fun h => hlog h.2), if_neg (c := func = 0x09 ∧ c.dialect = .thin)
    (fun h => hlog h.1)]
  by_cases htxn : func ∈ [0x0e, 0x0f]
  · rw [if_pos ⟨rfl, htxn⟩]
    rfl
  rw [if_neg (fun h => htxn h.2)]
  by_cases hversion : func = 0x3b
  · rw [if_pos ⟨rfl, hversion⟩]
    rfl
  rw [if_neg (fun h => hversion h.2), if_pos rfl]
  cases (FunctionCode.fromU8 func).dispatch <;> rfl

/-- A logoff closes the session. -/
lemma handleMessage_logoff (a b : UInt8) (s : List UInt8) :
    (handleMessage c calls (a :: b :: 0x03 :: 0x09 :: s)).closed = true := by
  rw [handleMessage, if_neg (by decide), if_neg (by decide), if_pos (by decide)]

/-- A deferred operation alone is not answered. -/
lemma handleMessage_piggyback (a b func : UInt8) (s : List UInt8) :
    handleMessage c calls (a :: b :: 0x11 :: func :: s) = ⟨[], false⟩ := by
  have hmsg : ¬ (0x11 : UInt8) = 0x03 := by decide
  rw [handleMessage, if_neg fun h => hmsg h.1, if_neg fun h => hmsg h.1, if_neg fun h => hmsg h.1,
    if_neg fun h => hmsg h.1, if_neg fun h => hmsg h.1, if_neg hmsg]

/-! ### Requests -/

lemma fromU8_logoff {func : UInt8} : FunctionCode.fromU8 func = .logoff ↔ func = 0x09 := by
  have hstep : ∀ (p : Prop) [Decidable p] {a b : FunctionCode}, a ≠ .logoff → b ≠ .logoff →
      (if p then a else b) ≠ .logoff := by
    intro p _ a b ha hb
    split_ifs
    · exact ha
    · exact hb
  constructor
  · intro h
    by_contra hne
    rw [FunctionCode.fromU8, if_neg hne] at h
    revert h
    repeat refine hstep _ nofun ?_
    exact nofun
  · rintro rfl
    rfl

/-- The closing of a cursor, deferred. -/
def closeCursor (id : UInt8) : Piggyback := ⟨0x69, 1, [1, 1, 1, 1, id]⟩

/-- A `PING` behind the closing of a cursor. -/
def ping : Request where
  flags := (0, 0)
  piggybacks := [closeCursor 4]
  func := 0x93
  body := [2]
  known := fun code h => by cases h

/-- A `COMMIT` behind the closing of a cursor. -/
def commit (id : UInt8) : Request where
  flags := (0, 0)
  piggybacks := [closeCursor id]
  func := 0x0e
  body := [2]
  known := fun code h => by cases h

/-- Calls that all succeed. -/
def successfulCalls : Calls where
  execute _ :=
    { parsed := .ok ()
      hasNoSql := false
      returningInto := false
      rejected := none
      bound := .ok ()
      translated := .ok ()
      isQuery := true
      isDdl := false
      batch := none
      opened := .ok ()
      firstBatch := .ok ()
      executed := .ok () }
  fetched := some (.ok ())
  transaction := .ok ()

/-- The payload the session loop goes on with, if it finds a function behind the deferred
operations: the flags are written anew. -/
def framed (payload : List UInt8) : Option (List UInt8) :=
  (stripPiggyback payload).map fun inner => 0 :: 0 :: inner

/-- The bytes of the deferred operations. -/
def Request.deferred (r : Request) : List UInt8 := r.piggybacks.flatMap Piggyback.bytes

/-- The flags, and the function without the deferred operations. -/
def Request.bare (r : Request) : List UInt8 := r.flags.1 :: r.flags.2 :: 0x03 :: r.func :: r.body

/-- The session loop does with a packet what it does with the payload it goes on with. -/
lemma handleData_of_framed {payload inner : List UInt8} (hlen : 4 ≤ payload.length)
    (hmark : payload[2]? = some 0x11) (h : framed payload = some inner) :
    handleData c calls payload = handleMessage c calls inner := by
  obtain ⟨message, hstrip, rfl⟩ := Option.map_eq_some_iff.1 h
  rw [handleData, if_neg (Nat.not_lt.2 hlen), if_pos hmark, hstrip]

/-- **The session loop goes on with the flags and the function exactly if the flags are zero, the
function is looked for and the search passes the deferred operations.** -/
theorem framed_iff (r : Request) : framed r.payload = some r.bare ↔
    r.flags = (0, 0) ∧ r.func ∈ knownFuncs ∧ Passes r.deferred (0x03 :: r.func :: r.body) := by
  have hstrip : stripPiggyback r.payload =
      stripFrom 0 (r.deferred ++ 0x03 :: r.func :: r.body) := rfl
  rw [framed, hstrip, Option.map_eq_some_iff]
  constructor
  · rintro ⟨inner, hinner, hbare⟩
    obtain ⟨hfst, htail⟩ := List.cons.inj hbare
    obtain ⟨hsnd, rfl⟩ := List.cons.inj htail
    obtain ⟨hcall, x, hx, hpass⟩ := stripFrom_eq_some.1 hinner
    obtain rfl := List.append_cancel_right hx
    exact ⟨Prod.ext hfst.symm hsnd.symm, hcall.2, hpass⟩
  · rintro ⟨hflags, hknown, hpass⟩
    refine ⟨_, stripFrom_eq_some.2 ⟨startsCall_of_known hknown _, _, rfl, hpass⟩, ?_⟩
    rw [Request.bare, hflags]

/-- The closing of the cursor with the id 773, deferred, and behind it an Execute. -/
def closeAndExecute : Request where
  flags := (0, 0)
  piggybacks := [⟨0x69, 1, [1, 1, 1, 2, 0x03, 0x05]⟩]
  func := 0x5e
  body := [2]
  known := fun code h => by cases h

/-- A `PING` is not found, and the id of a cursor is taken for a function. -/
theorem ping_not_framed : framed ping.payload ≠ some ping.bare ∧
    framed closeAndExecute.payload ≠ some closeAndExecute.bare := by
  decide +kernel

end DbSaci.Server
