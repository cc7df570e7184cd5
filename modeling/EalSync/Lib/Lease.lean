import EalSync.Lib.Runs
import Mathlib

/-! Time-bounded leases on one resource. A slot holds the current token with the last instant
at which it still excludes others; it may be granted when it is free or past that instant,
released by the token that holds it, and cleared once past. Exclusion is proved here for any
system whose steps refine these. -/
namespace EalSync.Lease

universe u v w x

variable {Token : Type u} {Time : Type v}

abbrev Slot (Token : Type u) (Time : Type v) := Option (Token × Time)

inductive Action (Token : Type u) (Time : Type v) where
  | grant (t : Token) (e : Time)
  | release (t : Token)
  | other

variable [LinearOrder Time]

inductive Step (now : Time) : Slot Token Time → Action Token Time → Slot Token Time → Prop where
  | keep (s) : Step now s .other s
  | grant (s) (t : Token) (e : Time) : (∀ h, s = some h → h.2 < now) →
      Step now s (.grant t e) (some (t, e))
  | release (t : Token) (e : Time) : Step now (some (t, e)) (.release t) none
  | expire (t : Token) (e : Time) : e < now → Step now (some (t, e)) .other none

/-- Token t still holds the slot, or its last instant e has passed. -/
def Protected (t : Token) (e clock : Time) (s : Slot Token Time) : Prop :=
  s = some (t, e) ∨ e < clock

theorem granted_protected {now : Time} {s s' : Slot Token Time} {t : Token} {e : Time}
    (h : Step now s (.grant t e) s') : Protected t e now s' := by
  cases h with
  | grant _ _ _ _ => exact .inl rfl

theorem step_protected {clock now : Time} {s s' : Slot Token Time} {a : Action Token Time}
    {t : Token} {e : Time} (before : Protected t e clock s) (later : clock ≤ now)
    (h : Step now s a s') : Protected t e now s' ∨ a = .release t := by
  rcases before with held | past
  · subst held
    cases h with
    | keep => exact .inl (.inl rfl)
    | grant _ _ _ free => exact .inl (.inr (free (t, e) rfl))
    | release => exact .inr rfl
    | expire _ _ past => exact .inl (.inr past)
  · exact .inl (.inr (lt_of_lt_of_le past later))

theorem step_keeps {now : Time} {s' : Slot Token Time} {a : Action Token Time} {t : Token} {e : Time}
    (h : Step now (some (t, e)) a s') (covered : now ≤ e) (apart : a ≠ .release t) :
    s' = some (t, e) := by
  rcases step_protected (.inl rfl) le_rfl h with (held | past) | released
  · exact held
  · exact absurd past (not_lt.mpr covered)
  · exact absurd released apart

theorem protected_not_granted {clock now : Time} {s s' : Slot Token Time} {t t' : Token}
    {e e' : Time} (before : Protected t e clock s) (later : clock ≤ now) (covered : now ≤ e)
    (h : Step now s (.grant t' e') s') : False := by
  rcases before with held | past
  · cases h with
    | grant _ _ _ free => exact absurd (free (t, e) held) (not_lt.mpr covered)
  · exact absurd (lt_of_lt_of_le past later) (not_lt.mpr covered)

section Refinement

variable {S : Type w} {E : Type x}

/-- A system refines the slot when every admitted event moves the clock forward to its own
instant and acts on the slot by one of the steps above. -/
structure Refines (step : S → E → S) (guard : S → E → Prop) (clock : S → Time)
    (now : E → Time) (slot : S → Slot Token Time) (action : S → E → Action Token Time) :
    Prop where
  forward : ∀ s e, guard s e → clock s ≤ now e
  clock : ∀ s e, guard s e → clock (step s e) = now e
  acts : ∀ s e, guard s e → Step (now e) (slot s) (action s e) (slot (step s e))

variable {step : S → E → S} {guard : S → E → Prop} {clock : S → Time} {now : E → Time}
  {slot : S → Slot Token Time} {action : S → E → Action Token Time}

theorem protected_until (refines : Refines step guard clock now slot action) {s : S}
    {es : List E} {t : Token} {e : Time} (initial : Protected t e (clock s) (slot s))
    (admissible : Runs.Admissible step guard s es) :
    Protected t e (clock (Runs.run step s es)) (slot (Runs.run step s es)) ∨
      ∃ before x after, es = before ++ x :: after ∧
        action (Runs.run step s before) x = .release t := by
  refine Runs.run_unless (P := fun s => Protected t e (clock s) (slot s))
    (Q := fun s x => action s x = .release t) ?_ initial admissible
  intro s x holds admitted
  rw [refines.clock s x admitted]
  exact step_protected holds (refines.forward s x admitted) (refines.acts s x admitted)

/-- Between two grants, the second at an instant the first still covers, the first token was
released. -/
theorem exclusion (refines : Refines step guard clock now slot action) {s : S}
    {before between : List E} {first second : E} {t t' : Token} {e e' : Time}
    (admissible : Runs.Admissible step guard s (before ++ first :: (between ++ [second])))
    (one : action (Runs.run step s before) first = .grant t e)
    (two : action (Runs.run step s (before ++ first :: between)) second = .grant t' e')
    (covered : now second ≤ e) :
    ∃ pre x post, between = pre ++ x :: post ∧
      action (Runs.run step s (before ++ first :: pre)) x = .release t := by
  have split : ∀ es, Runs.run step s (before ++ first :: es) =
      Runs.run step (step (Runs.run step s before) first) es := by
    intro es
    rw [Runs.run_append]
    rfl
  have tail := (Runs.admissible_append step guard s before _).mp admissible
  have admitted := tail.2.1
  have rest := (Runs.admissible_append step guard _ between [second]).mp tail.2.2
  have acts := refines.acts _ first admitted
  rw [one] at acts
  have start := granted_protected acts
  rw [← refines.clock _ first admitted] at start
  rcases protected_until refines start rest.1 with still | ⟨pre, x, post, rfl, released⟩
  · have last := refines.acts _ second rest.2.1
    rw [split] at two
    rw [two] at last
    exact (protected_not_granted still (refines.forward _ second rest.2.1) covered last).elim
  · exact ⟨pre, x, post, rfl, by rw [split]; exact released⟩

end Refinement

end EalSync.Lease
