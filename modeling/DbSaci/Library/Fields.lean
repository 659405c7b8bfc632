import DbSaci.Library.Fallible

set_option relaxedAutoImplicit false
set_option autoImplicit false

/-!
# Fields

A message is a list of fields, each of a kind. A reader that knows the kinds takes the fields one
after the other. It is in step if it reads each field where that has been written.

## Main definitions

* `FieldFormat` — how fields are written, and how one of a kind is read.
* `FieldFormat.readAll`, `FieldFormat.readRecords` — fields, and records of the same kinds.
* `FieldFormat.InStep` — each field is read where it has been written.

## Main results

* `FieldFormat.InStep.readAll`, `FieldFormat.InStep.readRecords` — a reader in step finds all
  fields, and leaves what is behind them.
* `FieldFormat.inStep_iff` — it is in step if and only if each field fits.
-/

/-- How fields are written, and how one of a kind is read. -/
structure FieldFormat (β ε K F : Type) where
  kind : F → K
  write : F → List β
  read : K → Fallible (List β) ε F

namespace FieldFormat

open Fallible (ret)

variable {β ε K F : Type} (φ : FieldFormat β ε K F)

/-- Fields one after the other. -/
def writeAll (fields : List F) : List β := fields.flatMap φ.write

/-- Read fields of the given kinds. -/
def readAll : List K → Fallible (List β) ε (List F)
  | [] => ret []
  | k :: ks => do
    let field ← φ.read k
    let fields ← readAll ks
    ret (field :: fields)

/-- Read so many records of the same kinds. -/
def readRecords (ks : List K) : ℕ → Fallible (List β) ε (List (List F))
  | 0 => ret []
  | n + 1 => do
    let record ← φ.readAll ks
    let records ← readRecords ks n
    ret (record :: records)

/-- A field is read where it has been written, and what is behind it is left. -/
def Delivers (field : F) (rest : List β) : Prop :=
  φ.read (φ.kind field) (φ.write field ++ rest) = (.ok field, rest)

/-- Each field is read where it has been written. -/
def InStep : List F → List β → Prop
  | [], _ => True
  | field :: fields, rest => φ.Delivers field (φ.writeAll fields ++ rest) ∧ InStep fields rest

variable {φ} {fields fields' : List F} {rest : List β}

@[simp]
lemma writeAll_append : φ.writeAll (fields ++ fields') = φ.writeAll fields ++ φ.writeAll fields' :=
  List.flatMap_append

lemma writeAll_cons (field : F) :
    φ.writeAll (field :: fields) = φ.write field ++ φ.writeAll fields := List.flatMap_cons

/-- **A reader in step finds all fields**, and leaves what is behind them. -/
theorem InStep.readAll (h : φ.InStep fields rest) :
    φ.readAll (fields.map φ.kind) (φ.writeAll fields ++ rest) = (.ok fields, rest) := by
  induction fields with
  | nil => rfl
  | cons field fields ih =>
    obtain ⟨hfield, hfields⟩ := h
    rw [List.map_cons, FieldFormat.readAll, writeAll_cons, List.append_assoc,
      Fallible.bind_of_ok hfield, Fallible.bind_of_ok (ih hfields)]
    rfl

lemma inStep_append :
    φ.InStep (fields ++ fields') rest ↔
      φ.InStep fields (φ.writeAll fields' ++ rest) ∧ φ.InStep fields' rest := by
  induction fields with
  | nil =>
    rw [List.nil_append, InStep, true_and]
  | cons field fields ih =>
    rw [List.cons_append, InStep, InStep, ih, writeAll_append, List.append_assoc, and_assoc]

/-- **A reader is in step if and only if each field fits**, where it depends on the field alone
whether it is delivered. -/
theorem inStep_iff {Fits : F → Prop} (h : ∀ field rest, φ.Delivers field rest ↔ Fits field) :
    φ.InStep fields rest ↔ ∀ field ∈ fields, Fits field := by
  induction fields with
  | nil => exact iff_of_true trivial fun _ hmem => absurd hmem List.not_mem_nil
  | cons field fields ih => rw [InStep, h, ih, List.forall_mem_cons]

/-- A reader in step finds all records of the same kinds. -/
lemma InStep.readRecords {ks : List K} {records : List (List F)}
    (hkinds : ∀ record ∈ records, record.map φ.kind = ks) (h : φ.InStep records.flatten rest) :
    φ.readRecords ks records.length (φ.writeAll records.flatten ++ rest) = (.ok records, rest) := by
  induction records with
  | nil => rfl
  | cons record records ih =>
    obtain ⟨hrecord, hrecords⟩ := List.forall_mem_cons.1 hkinds
    rw [List.flatten_cons] at h ⊢
    obtain ⟨hfirst, hothers⟩ := inStep_append.1 h
    have hread := hfirst.readAll
    rw [hrecord, ← List.append_assoc, ← writeAll_append] at hread
    rw [List.length_cons, FieldFormat.readRecords, Fallible.bind_of_ok hread,
      Fallible.bind_of_ok (ih hrecords hothers)]
    rfl

lemma length_readRecords {ks : List K} {n : ℕ} {s t : List β} {records : List (List F)}
    (h : φ.readRecords ks n s = (.ok records, t)) : records.length = n := by
  induction n generalizing s records with
  | zero =>
    obtain rfl := Except.ok.inj (Prod.mk.inj h).1
    rfl
  | succ n ih =>
    obtain ⟨record, u, -, h⟩ := Fallible.of_bind_ok h
    obtain ⟨others, v, hothers, h⟩ := Fallible.of_bind_ok h
    obtain ⟨hrecords, rfl⟩ := Prod.mk.inj h
    obtain rfl := Except.ok.inj hrecords
    rw [List.length_cons, ih hothers]

end FieldFormat
