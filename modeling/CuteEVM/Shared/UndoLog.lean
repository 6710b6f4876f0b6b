import Mathlib.Data.List.Basic
import Mathlib.Tactic.Common

set_option autoImplicit false

-- A store logs, newest first, one entry for each change it makes.

namespace UndoLog

variable {Store Entry View Fault : Type}

def undoAll (undo : Entry → View → View) : List Entry → View → View
  | [], view => view
  | entry :: rest, view => undoAll undo rest (undo entry view)

@[simp] theorem undoAll_nil (undo : Entry → View → View) (view : View) :
    undoAll undo [] view = view := rfl

@[simp] theorem undoAll_cons (undo : Entry → View → View) (entry : Entry) (rest : List Entry) (view : View) :
    undoAll undo (entry :: rest) view = undoAll undo rest (undo entry view) := rfl

theorem undoAll_append (undo : Entry → View → View) (upper lower : List Entry) (view : View) :
    undoAll undo (upper ++ lower) view = undoAll undo lower (undoAll undo upper view) := by
  induction upper generalizing view with
  | nil => rfl
  | cons entry upper ih => exact ih (undo entry view)

theorem undoAll_pair {View' : Type} (undo : Entry → View → View) (undo' : Entry → View' → View')
    (entries : List Entry) (view : View) (view' : View') :
    undoAll (fun entry pair => (undo entry pair.1, undo' entry pair.2)) entries (view, view') =
      (undoAll undo entries view, undoAll undo' entries view') := by
  induction entries generalizing view view' with
  | nil => rfl
  | cons entry rest ih => exact ih (undo entry view) (undo' entry view')

-- Revert entries until only `mark` of them are left.
def rewind (revert : Entry → Store → Except Fault Store) (mark : Nat) :
    List Entry → Store → Except Fault (List Entry × Store)
  | [], store => .ok ([], store)
  | entry :: rest, store =>
    if mark ≤ rest.length then
      match revert entry store with
      | .ok reverted => rewind revert mark rest reverted
      | .error fault => .error fault
    else .ok (entry :: rest, store)

theorem rewind_self (revert : Entry → Store → Except Fault Store) (entries : List Entry) (store : Store) :
    rewind revert entries.length entries store = .ok (entries, store) := by
  cases entries with
  | nil => rfl
  | cons entry rest =>
    have above : ¬ rest.length + 1 ≤ rest.length := by omega
    simp only [rewind, List.length_cons, above, if_false]

theorem rewind_error {revert : Entry → Store → Except Fault Store} {mark : Nat} {entries : List Entry} {store : Store}
    {fault : Fault} (failed : rewind revert mark entries store = .error fault) :
    ∃ entry store, revert entry store = .error fault := by
  induction entries generalizing store with
  | nil => cases failed
  | cons entry rest ih =>
    simp only [rewind] at failed
    split at failed
    · split at failed
      · exact ih failed
      · next other reverted =>
        obtain rfl := Except.error.inj failed
        exact ⟨entry, store, reverted⟩
    · cases failed

theorem rewind_keeps {revert : Entry → Store → Except Fault Store} {kept : List Entry → Store → Prop}
    (keeps : ∀ entry rest store reverted, kept (entry :: rest) store → revert entry store = .ok reverted → kept rest reverted)
    {mark : Nat} {entries left : List Entry} {store reverted : Store} (holds : kept entries store)
    (result : rewind revert mark entries store = .ok (left, reverted)) : kept left reverted := by
  induction entries generalizing store with
  | nil =>
    obtain ⟨rfl, rfl⟩ := Prod.mk.inj (Except.ok.inj result)
    exact holds
  | cons entry rest ih =>
    simp only [rewind] at result
    split at result
    · split at result
      · next next stepped => exact ih (keeps entry rest store next holds stepped) result
      · cases result
    · obtain ⟨rfl, rfl⟩ := Prod.mk.inj (Except.ok.inj result)
      exact holds

-- `kept entries store` is an invariant of a store whose log holds `entries`; reverting the newest
-- entry succeeds under it, keeps it, and acts on the view as `undo` does.
structure Reverts (revert : Entry → Store → Except Fault Store) (kept : List Entry → Store → Prop)
    (view : Store → View) (undo : Entry → View → View) : Prop where
  step : ∀ entry rest store, kept (entry :: rest) store →
    ∃ reverted, revert entry store = .ok reverted ∧ kept rest reverted ∧ view reverted = undo entry (view store)

theorem Reverts.rewind_ok {revert : Entry → Store → Except Fault Store}
    {kept : List Entry → Store → Prop} {view : Store → View} {undo : Entry → View → View}
    (reverts : Reverts revert kept view undo) (upper lower : List Entry) (store : Store)
    (holds : kept (upper ++ lower) store) :
    ∃ reverted, rewind revert lower.length (upper ++ lower) store = .ok (lower, reverted) ∧
      kept lower reverted ∧ view reverted = undoAll undo upper (view store) := by
  induction upper generalizing store with
  | nil => exact ⟨store, rewind_self revert lower store, holds, rfl⟩
  | cons entry upper ih =>
    obtain ⟨next, stepped, kept, seen⟩ := reverts.step entry (upper ++ lower) store holds
    obtain ⟨reverted, result, keptLower, view⟩ := ih next kept
    refine ⟨reverted, ?_, keptLower, ?_⟩
    · have within : lower.length ≤ (upper ++ lower).length := by simp
      simp only [List.cons_append, rewind, within, if_true, stepped, result]
    · rw [view, seen, undoAll_cons]

end UndoLog
