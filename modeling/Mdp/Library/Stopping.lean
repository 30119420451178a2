/-!
# Computations that may stop

A computation on a state ends with a value or stops with a reason. What it meets is what holds of
its value and of the state it leaves, and of its reason if it stops; the rules follow the
computation.
-/

/-- A computation on a state that may stop. -/
abbrev Stopping (ε σ α : Type) := StateT σ (Except ε) α

namespace Stopping

variable {ε σ α β : Type}

/-- Stop. -/
def halt (reason : ε) : Stopping ε σ α := fun _ => .error reason

/-- A computation started in a state ends with a value and a state that have a property, or stops
with a reason that has one. -/
structure Meets (x : Stopping ε σ α) (s : σ) (P : α → σ → Prop) (E : ε → Prop) : Prop where
  ok : ∀ {value : α} {t : σ}, x s = .ok (value, t) → P value t
  error : ∀ {reason : ε}, x s = .error reason → E reason

variable {x : Stopping ε σ α} {f : α → Stopping ε σ β} {s t : σ} {P P' : α → σ → Prop}
  {Q : β → σ → Prop} {E E' : ε → Prop} {value : α}

/-- What a computation meets that is known to end. -/
theorem Meets.of_ok {v : α} (ended : x s = .ok (v, t)) (holds : P v t) : Meets x s P E where
  ok := by
    intro value t' other
    rw [ended] at other
    cases other
    exact holds
  error := by
    intro reason stopped
    rw [ended] at stopped
    cases stopped

/-- What a computation meets that is known to stop. -/
theorem Meets.of_error {r : ε} (stopped : x s = .error r) (holds : E r) :
    Meets x s P E where
  ok := by
    intro value t ended
    rw [stopped] at ended
    cases ended
  error := by
    intro reason other
    rw [stopped] at other
    cases other
    exact holds

/-- A value that is good meets its condition. -/
theorem meets_pure (holds : P value s) : Meets (pure value) s P E := .of_ok rfl holds

/-- A stop that is allowed meets its condition. -/
theorem meets_halt {reason : ε} (holds : E reason) : Meets (halt reason) s P E :=
  .of_error rfl holds

/-- The state is read. -/
theorem meets_get : Meets (get : Stopping ε σ σ) s (fun value t => value = s ∧ t = s) E :=
  .of_ok rfl ⟨rfl, rfl⟩

/-- The state is changed. -/
theorem meets_modify (change : σ → σ) :
    Meets (modify change : Stopping ε σ PUnit) s (fun _ t => t = change s) E := .of_ok rfl rfl

/-- One computation after the other. -/
theorem Meets.bind (first : Meets x s P E) (next : ∀ value t, P value t → Meets (f value) t Q E) :
    Meets (x >>= f) s Q E := by
  have run : (x >>= f) s = (x s).bind fun found => f found.1 found.2 := rfl
  cases ran : x s with
  | error reason =>
    refine .of_error (r := reason) ?_ (first.error ran)
    rw [run, ran]
    rfl
  | ok found =>
    have same : (x >>= f) s = f found.1 found.2 := by
      rw [run, ran]
      rfl
    have later := next found.1 found.2 (first.ok ran)
    exact ⟨fun ended => later.ok (same ▸ ended), fun stopped => later.error (same ▸ stopped)⟩

/-- Weaker conditions are met as well. -/
theorem Meets.mono (meets : Meets x s P E) (good : ∀ value t, P value t → P' value t)
    (bad : ∀ reason, E reason → E' reason) : Meets x s P' E' :=
  ⟨fun ended => good _ _ (meets.ok ended), fun stopped => bad _ (meets.error stopped)⟩

/-- A computation that cannot stop ends. -/
theorem Meets.ends (meets : Meets x s P E) (never : ∀ reason, ¬ E reason) :
    ∃ value t, x s = .ok (value, t) ∧ P value t := by
  cases ran : x s with
  | error reason => exact absurd (meets.error ran) (never reason)
  | ok found => exact ⟨found.1, found.2, rfl, meets.ok ran⟩

end Stopping
