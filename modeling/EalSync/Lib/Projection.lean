import EalSync.Lib.Runs

/-! What one observer sees of a run. The events it sees, run again on a state of its own, keep
that state in step with the whole system, and give the answers it saw. -/
namespace EalSync.Projection

universe u v w x

variable {S : Type u} {T : Type v} {E : Type w} {O : Type x}

/-- What is seen of each event, in order. -/
def trace (step : S → E → S) (see : S → E → List O) (s : S) : List E → List O
  | [] => []
  | e :: rest => see s e ++ trace step see (step s e) rest

section

variable (step : S → E → S) (view : S → E → Option O)

def visible (s : S) (es : List E) : List E :=
  trace step (fun s e => if (view s e).isSome then [e] else []) s es

def views (s : S) (es : List E) : List O := trace step (fun s e => (view s e).toList) s es

theorem visible_seen {s : S} {e : E} {o : O} (seen : view s e = some o) (rest : List E) :
    visible step view s (e :: rest) = e :: visible step view (step s e) rest := by
  simp [visible, trace, seen]

theorem visible_unseen {s : S} {e : E} (unseen : view s e = none) (rest : List E) :
    visible step view s (e :: rest) = visible step view (step s e) rest := by
  simp [visible, trace, unseen]

theorem views_seen {s : S} {e : E} {o : O} (seen : view s e = some o) (rest : List E) :
    views step view s (e :: rest) = o :: views step view (step s e) rest := by
  simp [views, trace, seen]

theorem views_unseen {s : S} {e : E} (unseen : view s e = none) (rest : List E) :
    views step view s (e :: rest) = views step view (step s e) rest := by
  simp [views, trace, unseen]

end

/-- The related copy admits each event that is seen, answers it as it was seen, and follows it; an
event that is not seen leaves the relation to the copy as it was. -/
structure Projects (step : S → E → S) (guard : S → E → Prop) (view : S → E → Option O)
    (step' : T → E → T) (guard' : T → E → Prop) (out : T → E → O) (R : S → T → Prop) : Prop where
  seen : ∀ s t e o, R s t → guard s e → view s e = some o →
    guard' t e ∧ out t e = o ∧ R (step s e) (step' t e)
  unseen : ∀ s t e, R s t → guard s e → view s e = none → R (step s e) t

variable {step : S → E → S} {guard : S → E → Prop} {view : S → E → Option O}
  {step' : T → E → T} {guard' : T → E → Prop} {out : T → E → O} {R : S → T → Prop}

theorem Projects.follows (projects : Projects step guard view step' guard' out R) {s : S} {t : T}
    {es : List E} (related : R s t) (admissible : Runs.Admissible step guard s es) :
    Runs.Admissible step' guard' t (visible step view s es) ∧
      R (Runs.run step s es) (Runs.run step' t (visible step view s es)) ∧
      trace step' (fun t e => [out t e]) t (visible step view s es) = views step view s es := by
  induction es generalizing s t with
  | nil => exact ⟨trivial, related, rfl⟩
  | cons e rest ih =>
    cases view_eq : view s e with
    | none =>
      rw [visible_unseen step view view_eq, views_unseen step view view_eq]
      exact ih (projects.unseen s t e related admissible.1 view_eq) admissible.2
    | some o =>
      rw [visible_seen step view view_eq, views_seen step view view_eq]
      obtain ⟨admits, answered, next⟩ := projects.seen s t e o related admissible.1 view_eq
      obtain ⟨rest_admits, last, answers⟩ := ih next admissible.2
      refine ⟨⟨admits, rest_admits⟩, last, ?_⟩
      rw [trace, answered, answers]
      rfl

end EalSync.Projection
