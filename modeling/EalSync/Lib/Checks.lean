import Mathlib.Logic.Basic

/-! Functions that fail at a check or at a step that fails: what it means that one succeeds,
and where the error of one that fails comes from. -/
namespace EalSync.Checks

universe u

variable {ε ε' α β : Type u}

theorem bind_ok {x : Except ε α} {f : α → Except ε β} {b : β} (ok : x.bind f = .ok b) :
    ∃ a, x = .ok a ∧ f a = .ok b := by
  cases x with
  | error e => cases ok
  | ok a => exact ⟨a, rfl, ok⟩

theorem ok_bind {x : Except ε α} {f : α → Except ε β} {a : α} {b : β} (first : x = .ok a)
    (rest : f a = .ok b) : x.bind f = .ok b := by
  rw [first]
  exact rest

/-- A check that passes, and what comes after it. -/
theorem check_ok {p : Prop} [Decidable p] {e : ε} {x : Except ε α} {a : α}
    (ok : (if p then .error e else x) = .ok a) : ¬p ∧ x = .ok a := by
  split at ok
  · cases ok
  · rename_i passed
    exact ⟨passed, ok⟩

theorem mapError_ok {x : Except ε α} {f : ε → ε'} {a : α} (ok : x.mapError f = .ok a) : x = .ok a := by
  cases x with
  | error e => cases ok
  | ok b => exact congrArg Except.ok (Except.ok.inj ok)

theorem forM_ok {items : List α} {f : α → Except ε PUnit.{u + 1}} {u : PUnit} :
    items.forM f = .ok u ↔ ∀ item ∈ items, f item = .ok u := by
  induction items with
  | nil => exact iff_of_true rfl fun _ member => absurd member List.not_mem_nil
  | cons item rest ih =>
    rw [List.forall_mem_cons, ← ih]
    refine ⟨fun ok => ?_, fun ⟨first, later⟩ => ok_bind first later⟩
    obtain ⟨_, first, later⟩ := bind_ok ok
    exact ⟨first, later⟩

/-- Every error that the computation can have is a P. -/
def Fails (P : ε → Prop) (x : Except ε α) : Prop := ∀ e, x = .error e → P e

namespace Fails

variable {P : ε → Prop}

theorem ok (a : α) : Fails P (.ok a : Except ε α) := by
  rintro _ ⟨⟩

theorem error {e : ε} (h : P e) : Fails P (.error e : Except ε α) := by
  rintro _ ⟨⟩
  exact h

theorem bind {x : Except ε α} {f : α → Except ε β} (first : Fails P x) (rest : ∀ a, Fails P (f a)) :
    Fails P (x.bind f) := by
  intro e failed
  cases x with
  | error e' => exact first e (congrArg _ (Except.error.inj failed))
  | ok a => exact rest a e failed

theorem check {p : Prop} [Decidable p] {e : ε} {x : Except ε α} (h : P e) (rest : Fails P x) :
    Fails P (if p then .error e else x) := by
  split
  · exact error h
  · exact rest

theorem mapError {x : Except ε' α} {f : ε' → ε} (each : ∀ e, P (f e)) : Fails P (x.mapError f) := by
  cases x with
  | error e => exact error (each e)
  | ok a => exact ok a

theorem forM {items : List α} {f : α → Except ε PUnit} (each : ∀ item ∈ items, Fails P (f item)) :
    Fails P (items.forM f) := by
  induction items with
  | nil => exact ok _
  | cons item rest ih =>
    refine bind (each item List.mem_cons_self) fun _ => ?_
    exact ih fun x member => each x (List.mem_cons_of_mem _ member)

end Fails

theorem bind_error {x : Except ε α} {f : α → Except ε β} {e : ε} (failed : x.bind f = .error e) :
    x = .error e ∨ ∃ a, x = .ok a ∧ f a = .error e := by
  cases x with
  | error e' => exact .inl (congrArg Except.error (Except.error.inj failed))
  | ok a => exact .inr ⟨a, rfl, failed⟩

theorem check_error {p : Prop} [Decidable p] {e e' : ε} {x : Except ε α}
    (failed : (if p then .error e' else x) = .error e) : e' = e ∨ x = .error e := by
  split at failed
  · exact .inl (Except.error.inj failed)
  · exact .inr failed

theorem mapError_error {x : Except ε α} {f : ε → ε'} {e : ε'} (failed : x.mapError f = .error e) :
    ∃ e', f e' = e := by
  cases x with
  | error e' => exact ⟨e', Except.error.inj failed⟩
  | ok a => cases failed

end EalSync.Checks
