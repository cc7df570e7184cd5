import Mathlib.Data.List.Basic

/-! Runs of a guarded step function. The guard says which events a state admits; an admissible
event list meets it at every state the run passes through. The rules lift what one step
preserves to runs of every length. -/
namespace EalSync.Runs

universe u v w x y

variable {S : Type u} {E : Type v} {T : Type w} {L : Type x}

def run (step : S → E → S) (s : S) : List E → S
  | [] => s
  | e :: rest => run step (step s e) rest

def Admissible (step : S → E → S) (guard : S → E → Prop) (s : S) : List E → Prop
  | [] => True
  | e :: rest => guard s e ∧ Admissible step guard (step s e) rest

instance decidableAdmissible (step : S → E → S) (guard : S → E → Prop)
    [∀ s e, Decidable (guard s e)] : ∀ s es, Decidable (Admissible step guard s es)
  | _, [] => inferInstanceAs (Decidable True)
  | s, e :: rest =>
    have := decidableAdmissible step guard (step s e) rest
    inferInstanceAs (Decidable (guard s e ∧ _))

theorem run_append (step : S → E → S) (s : S) (first second : List E) :
    run step s (first ++ second) = run step (run step s first) second := by
  induction first generalizing s with
  | nil => rfl
  | cons e rest ih => exact ih (step s e)

theorem run_snoc (step : S → E → S) (s : S) (es : List E) (e : E) :
    run step s (es ++ [e]) = step (run step s es) e := run_append step s es [e]

theorem admissible_append (step : S → E → S) (guard : S → E → Prop) (s : S)
    (first second : List E) :
    Admissible step guard s (first ++ second) ↔
      Admissible step guard s first ∧ Admissible step guard (run step s first) second := by
  induction first generalizing s with
  | nil => simp [Admissible, run]
  | cons e rest ih => simp [Admissible, run, ih, and_assoc]

theorem admissible_at {step : S → E → S} {guard : S → E → Prop} {s : S} {before after : List E}
    {e : E} (admissible : Admissible step guard s (before ++ e :: after)) :
    guard (run step s before) e :=
  ((admissible_append step guard s before (e :: after)).mp admissible).2.1

theorem admissible_and {step : S → E → S} {guard extra : S → E → Prop} {s : S} {es : List E} :
    Admissible step (fun s e => guard s e ∧ extra s e) s es ↔
      Admissible step guard s es ∧ Admissible step extra s es := by
  induction es generalizing s with
  | nil => simp [Admissible]
  | cons e rest ih => simp only [Admissible, ih]; tauto

/-- A guard holds along a run exactly when it holds at every split of the run. -/
theorem admissible_iff_at {step : S → E → S} {guard : S → E → Prop} {s : S} {es : List E} :
    Admissible step guard s es ↔
      ∀ before e after, es = before ++ e :: after → guard (run step s before) e := by
  constructor
  · intro admissible before e after split
    exact admissible_at (split ▸ admissible)
  · intro every
    induction es generalizing s with
    | nil => trivial
    | cons e rest ih =>
      refine ⟨every [] e rest rfl, ih ?_⟩
      intro before f after split
      exact every (e :: before) f after (by rw [split]; rfl)

section Observer

variable (step : S → E → S) (step' : T → E → T) (f : T → S)
  (commute : ∀ t e, f (step' t e) = step (f t) e)

include commute

/-- A system that runs another one inside it, and may carry more state, runs as the other does. -/
theorem run_map (t : T) (es : List E) :
    f (run step' t es) = run step (f t) es := by
  induction es generalizing t with
  | nil => rfl
  | cons e rest ih => simpa only [run, commute] using ih (step' t e)

theorem admissible_map {guard : S → E → Prop} (t : T) (es : List E) :
    Admissible step' (fun t e => guard (f t) e) t es ↔ Admissible step guard (f t) es := by
  induction es generalizing t with
  | nil => exact Iff.rfl
  | cons e rest ih => rw [Admissible, Admissible, ih, commute]

end Observer

/-- A step beside a journal of what can be seen of it. -/
def logged (step : S → E → S) (see : S → E → List L) (t : S × List L) (e : E) : S × List L :=
  (step t.1 e, t.2 ++ see t.1 e)

theorem run_logged (step : S → E → S) (see : S → E → List L) (t : S × List L) (es : List E) :
    (run (logged step see) t es).1 = run step t.1 es :=
  run_map step (logged step see) Prod.fst (fun _ _ => rfl) t es

theorem admissible_logged (step : S → E → S) (see : S → E → List L) {guard : S → E → Prop}
    (t : S × List L) (es : List E) :
    Admissible (logged step see) (fun t e => guard t.1 e) t es ↔ Admissible step guard t.1 es :=
  admissible_map step (logged step see) Prod.fst (fun _ _ => rfl) t es

theorem run_invariant {step : S → E → S} {guard : S → E → Prop} {P : S → Prop}
    (keeps : ∀ s e, P s → guard s e → P (step s e)) {s : S} {es : List E}
    (initial : P s) (admissible : Admissible step guard s es) : P (run step s es) := by
  induction es generalizing s with
  | nil => exact initial
  | cons e rest ih => exact ih (keeps s e initial admissible.1) admissible.2

/-- An invariant of the run may be assumed wherever the guard is. -/
theorem admissible_invariant {step : S → E → S} {guard : S → E → Prop} {P : S → Prop}
    (keeps : ∀ s e, P s → guard s e → P (step s e)) {s : S} {es : List E}
    (initial : P s) (admissible : Admissible step guard s es) :
    Admissible step (fun s e => guard s e ∧ P s) s es := by
  induction es generalizing s with
  | nil => trivial
  | cons e rest ih =>
    exact ⟨⟨admissible.1, initial⟩, ih (keeps s e initial admissible.1) admissible.2⟩

/-- A machine each of whose steps is a few steps of another one runs within a run of that one. -/
theorem run_simulates {E' : Type y} {step : S → E → S} {guard : S → E → Prop} {step' : T → E' → T}
    {guard' : T → E' → Prop} {f : T → S} {lower : T → E' → List E} {P : T → Prop}
    (steps : ∀ t e, P t → guard' t e → P (step' t e) ∧ Admissible step guard (f t) (lower t e) ∧
      run step (f t) (lower t e) = f (step' t e)) {t : T} {es : List E'} (initial : P t)
    (admissible : Admissible step' guard' t es) :
    ∃ fs, Admissible step guard (f t) fs ∧ run step (f t) fs = f (run step' t es) := by
  induction es generalizing t with
  | nil => exact ⟨[], trivial, rfl⟩
  | cons e rest ih =>
    obtain ⟨kept, admitted, reached⟩ := steps t e initial admissible.1
    obtain ⟨fs, later, ended⟩ := ih kept admissible.2
    rw [← reached] at later ended
    exact ⟨lower t e ++ fs, (admissible_append step guard (f t) _ fs).mpr ⟨admitted, later⟩, by
      rw [run_append, ended]
      rfl⟩

/-- Steps that lower a measure are bounded by it. -/
theorem length_le_of_falls {step : S → E → S} {guard : S → E → Prop} {P : S → Prop}
    {measure : S → Nat}
    (falls : ∀ s e, P s → guard s e → P (step s e) ∧ measure (step s e) < measure s) {s : S}
    {es : List E} (initial : P s) (admissible : Admissible step guard s es) :
    es.length ≤ measure s := by
  induction es generalizing s with
  | nil => exact Nat.zero_le _
  | cons e rest ih =>
    obtain ⟨kept, lower⟩ := falls s e initial admissible.1
    exact Nat.succ_le_of_lt (Nat.lt_of_le_of_lt (ih kept admissible.2) lower)

/-- P holds until Q happens: a step from a P state keeps P or is itself a Q event. -/
theorem run_unless {step : S → E → S} {guard : S → E → Prop} {P : S → Prop} {Q : S → E → Prop}
    (keeps : ∀ s e, P s → guard s e → P (step s e) ∨ Q s e) {s : S} {es : List E}
    (initial : P s) (admissible : Admissible step guard s es) :
    P (run step s es) ∨ ∃ before e after, es = before ++ e :: after ∧ Q (run step s before) e := by
  induction es generalizing s with
  | nil => exact .inl initial
  | cons e rest ih =>
    rcases keeps s e initial admissible.1 with still | now
    · rcases ih still admissible.2 with last | ⟨before, f, after, split, happened⟩
      · exact .inl last
      · exact .inr ⟨e :: before, f, after, by rw [split]; rfl, happened⟩
    · exact .inr ⟨[], e, rest, rfl, now⟩

end EalSync.Runs
