import Mdp.Library.Protocol

/-!
# Interrupted programs

A handler may start before any call of a program. It runs to its end, and then the program goes on
where it was interrupted; where the handler halts, it does not go on. When the handler may start,
and what becomes of the state then, is a partial function of the state, so that a state can say that
its handler is blocked.
-/

namespace Interaction

variable {E : Interface} {ε α S : Type}

/-- The program that a caught interrupt makes of another. -/
def Program.interruptedBy (handler : Program E ε Unit) (p : Program E ε α) : Program E ε α :=
  handler.bind fun _ => p

/-- A run that may be interrupted before each of its calls. -/
inductive Interrupted (f : Effect E S) (handler : Program E ε Unit) (catches : S → Option S) :
    Program E ε α → S → Program E ε α → S → Prop where
  /-- The empty run. -/
  | refl (p : Program E ε α) (s : S) : Interrupted f handler catches p s p s
  /-- One answer, then a run. -/
  | step {request : E.Call} {next : E.Answer request → Program E ε α} {answer : E.Answer request}
      {s s' s'' : S} {q : Program E ε α} (taken : f request answer s = some s')
      (rest : Interrupted f handler catches (next answer) s' q s'') :
      Interrupted f handler catches (.call request next) s q s''
  /-- An interrupt before a call, then a run. -/
  | caught {request : E.Call} {next : E.Answer request → Program E ε α} {s s' s'' : S}
      {q : Program E ε α} (enters : catches s = some s')
      (rest : Interrupted f handler catches
        (Program.interruptedBy handler (.call request next)) s' q s'') :
      Interrupted f handler catches (.call request next) s q s''

/-- What every allowed call and every interrupt keeps holds of every run, and the program follows
its protocol from the stage that the state says. -/
theorem Program.Follows.interrupted {G : Type} {P : Protocol E G} {Q : Except ε α → G → Prop}
    {f : Effect E S} {handler : Program E ε Unit} {catches : S → Option S} {g : S → G}
    {J : S → Prop}
    (moves : ∀ request answer s s', f request answer s = some s' →
      g s' = P.advance (g s) request answer)
    (keeps : ∀ request answer s s', P.allowed (g s) request →
      f request answer s = some s' → J s → J s')
    (enters : ∀ p s s', p.Follows P Q (g s) → J s → catches s = some s' →
      (Program.interruptedBy handler p).Follows P Q (g s') ∧ J s')
    {p q : Program E ε α} {s t : S} (run : Interrupted f handler catches p s q t)
    (follows : p.Follows P Q (g s)) (start : J s) : q.Follows P Q (g t) ∧ J t := by
  induction run with
  | refl => exact ⟨follows, start⟩
  | step taken _ ih =>
    refine ih ?_ (keeps _ _ _ _ follows.1 taken start)
    rw [moves _ _ _ _ taken]
    exact follows.2 _
  | caught caught _ ih =>
    obtain ⟨inside, holds⟩ := enters _ _ _ follows start caught
    exact ih inside holds

/-- The rule for a handler that is not interrupted itself: every run is safe as the program is, or,
once an interrupt was caught, as the handler and what follows it are. -/
theorem Interrupted.safe {f : Effect E S} {handler : Program E ε Unit} {catches : S → Option S}
    {I I' : Program E ε α → S → Prop} {post post' : Except ε α → S → Prop}
    (enters : ∀ q t t', I q t → catches t = some t' →
      (Program.interruptedBy handler q).Safe f I' post' t')
    (alone : ∀ q t, I' q t → catches t = none)
    {p q : Program E ε α} {s t : S} (run : Interrupted f handler catches p s q t)
    (safe : p.Safe f I post s ∨ p.Safe f I' post' s) :
    q.Safe f I post t ∨ q.Safe f I' post' t := by
  induction run with
  | refl => exact safe
  | step taken _ ih =>
    refine ih (safe.imp ?_ ?_)
    · exact fun safe => safe.2 _ _ taken
    · exact fun safe => safe.2 _ _ taken
  | caught caught _ ih =>
    rcases safe with safe | safe
    · exact ih (.inr (enters _ _ _ safe.invariant caught))
    · rw [alone _ _ safe.invariant] at caught
      cases caught

/-- Follow an oracle through at most `budget` calls, with an interrupt wherever one is wanted and
can be caught. -/
def playInterrupted (f : Effect E S) (handler : Program E ε Unit) (catches : S → Option S)
    (oracle : Oracle E S) (wanted : S → Bool) :
    Nat → Program E ε α → S → Option (Program E ε α × S)
  | 0, p, s => some (p, s)
  | _ + 1, .done value, s => some (.done value, s)
  | _ + 1, .halt ending, s => some (.halt ending, s)
  | budget + 1, .call request next, s =>
    match if wanted s then catches s else none with
    | some s' => playInterrupted f handler catches oracle wanted budget
        (Program.interruptedBy handler (.call request next)) s'
    | none =>
      match f request (oracle request s) s with
      | none => none
      | some s' => playInterrupted f handler catches oracle wanted budget
          (next (oracle request s)) s'

/-- What is played is an interrupted run. -/
theorem playInterrupted_interrupted {f : Effect E S} {handler : Program E ε Unit}
    {catches : S → Option S} {oracle : Oracle E S} {wanted : S → Bool} {budget : Nat}
    {p q : Program E ε α} {s t : S}
    (played : playInterrupted f handler catches oracle wanted budget p s = some (q, t)) :
    Interrupted f handler catches p s q t := by
  induction budget generalizing p s with
  | zero =>
    simp only [playInterrupted, Option.some.injEq, Prod.mk.injEq] at played
    obtain ⟨rfl, rfl⟩ := played
    exact .refl _ _
  | succ budget ih =>
    cases p with
    | done value =>
      simp only [playInterrupted, Option.some.injEq, Prod.mk.injEq] at played
      obtain ⟨rfl, rfl⟩ := played
      exact .refl _ _
    | halt ending =>
      simp only [playInterrupted, Option.some.injEq, Prod.mk.injEq] at played
      obtain ⟨rfl, rfl⟩ := played
      exact .refl _ _
    | call request next =>
      simp only [playInterrupted] at played
      split at played
      · rename_i s' caught
        have enters : catches s = some s' := by
          split at caught
          · exact caught
          · contradiction
        exact .caught enters (ih played)
      · split at played
        · contradiction
        · rename_i s' taken
          exact .step taken (ih played)

/-- What is played, with a check of its end, is an interrupted run to such an end. -/
theorem exists_of_playInterrupted {f : Effect E S} {handler : Program E ε Unit}
    {catches : S → Option S} {oracle : Oracle E S} {wanted : S → Bool} {budget : Nat}
    {p : Program E ε α} {s : S} {check : Program E ε α × S → Bool}
    (good : (playInterrupted f handler catches oracle wanted budget p s).any check = true) :
    ∃ q t, Interrupted f handler catches p s q t ∧ check (q, t) = true := by
  obtain ⟨⟨q, t⟩, played, checked⟩ := (Option.any_eq_true _ _).mp good
  exact ⟨q, t, playInterrupted_interrupted played, checked⟩

end Interaction
