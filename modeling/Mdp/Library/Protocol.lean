import Mdp.Library.Program

/-!
# Protocols

A protocol is what a program looks like from outside: stages, the calls a program may make at
each stage, and the stage an answer leads to. That a program follows a protocol is shown once, by
recursion over the program and for all answers, whether or not the environment can give them. An
invariant that relates stages to states is then shown per allowed call, without looking at the
program again; `reaches` is the rule that puts the two together.
-/

namespace Interaction

/-- Stages `G`, with the calls allowed at each and where an answer leads. -/
structure Protocol (E : Interface) (G : Type) where
  /-- The calls a program may make at a stage. -/
  allowed : G → E.Call → Prop
  /-- The stage after an answer. -/
  advance : G → (request : E.Call) → E.Answer request → G

namespace Program

variable {E : Interface} {ε ε' α β G S : Type} {P : Protocol E G}

/-- From a stage on, the program makes only allowed calls, and where it ends or halts it
satisfies `Q`. -/
def Follows (P : Protocol E G) (Q : Except ε α → G → Prop) : Program E ε α → G → Prop
  | .done value, stage => Q (.ok value) stage
  | .halt ending, stage => Q (.error ending) stage
  | .call request next, stage => P.allowed stage request ∧
      ∀ answer, (next answer).Follows P Q (P.advance stage request answer)

namespace Follows

variable {Q R : Except ε α → G → Prop}

/-- A weaker condition on the ends is satisfied as well. -/
theorem mono {p : Program E ε α} {stage : G} (follows : p.Follows P Q stage)
    (weaker : ∀ result stage', Q result stage' → R result stage') : p.Follows P R stage := by
  induction p generalizing stage with
  | done value => exact weaker _ _ follows
  | halt ending => exact weaker _ _ follows
  | call request next ih => exact ⟨follows.1, fun answer => ih answer (follows.2 answer)⟩

/-- What every allowed call keeps of the stages holds of the stages at the ends. -/
theorem strengthen {I : G → Prop}
    (keeps : ∀ stage request answer, P.allowed stage request → I stage →
      I (P.advance stage request answer))
    {p : Program E ε α} {stage : G} (follows : p.Follows P Q stage) (start : I stage) :
    p.Follows P (fun result stage' => Q result stage' ∧ I stage') stage := by
  induction p generalizing stage with
  | done value => exact ⟨follows, start⟩
  | halt ending => exact ⟨follows, start⟩
  | call request next ih =>
    exact ⟨follows.1, fun answer => ih answer (follows.2 answer)
      (keeps stage request answer follows.1 start)⟩

/-- What follows a protocol follows one that it is embedded in. -/
theorem embed {G' : Type} {P' : Protocol E G'} {R : Except ε α → G' → Prop} (into : G → G')
    (allowed : ∀ stage request, P.allowed stage request → P'.allowed (into stage) request)
    (advance : ∀ stage request answer, P.allowed stage request →
      P'.advance (into stage) request answer = into (P.advance stage request answer))
    (ends : ∀ result stage, Q result stage → R result (into stage))
    {p : Program E ε α} {stage : G} (follows : p.Follows P Q stage) :
    p.Follows P' R (into stage) := by
  induction p generalizing stage with
  | done value => exact ends _ _ follows
  | halt ending => exact ends _ _ follows
  | call request next ih =>
    refine ⟨allowed _ _ follows.1, fun answer => ?_⟩
    rw [advance _ _ _ follows.1]
    exact ih answer (follows.2 answer)

/-- What follows a protocol follows one that allows more. -/
theorem widen {P' : Protocol E G} {p : Program E ε α} {stage : G} (follows : p.Follows P Q stage)
    (same : P'.advance = P.advance)
    (more : ∀ stage' request, P.allowed stage' request → P'.allowed stage' request) :
    p.Follows P' Q stage :=
  embed id more (fun _ _ _ _ => by rw [same]; rfl) (fun _ _ => id) follows

/-- The sequencing rule. -/
theorem bind {R : Except ε β → G → Prop} {p : Program E ε α} {rest : α → Program E ε β}
    {stage : G} (first : p.Follows P Q stage)
    (second : ∀ value stage', Q (.ok value) stage' → (rest value).Follows P R stage')
    (halts : ∀ ending stage', Q (.error ending) stage' → R (.error ending) stage') :
    (p.bind rest).Follows P R stage := by
  induction p generalizing stage with
  | done value => exact second value stage first
  | halt ending => exact halts ending stage first
  | call request next ih => exact ⟨first.1, fun answer => ih answer (first.2 answer)⟩

/-- The rule for a halt that is caught. -/
theorem onHalt {R : Except ε' α → G → Prop} {p : Program E ε α} {handler : ε → Program E ε' α}
    {stage : G} (first : p.Follows P Q stage)
    (second : ∀ ending stage', Q (.error ending) stage' → (handler ending).Follows P R stage')
    (ends : ∀ value stage', Q (.ok value) stage' → R (.ok value) stage') :
    (p.onHalt handler).Follows P R stage := by
  induction p generalizing stage with
  | done value => exact ends value stage first
  | halt ending => exact second ending stage first
  | call request next ih => exact ⟨first.1, fun answer => ih answer (first.2 answer)⟩

/-- What every allowed call keeps between stages and states holds of every run, for the stage
the run has come to. -/
theorem reaches {f : Effect E S} {J : G → S → Prop}
    (keeps : ∀ stage request answer s s', P.allowed stage request →
      f request answer s = some s' → J stage s → J (P.advance stage request answer) s')
    {p q : Program E ε α} {s t : S} (run : Reaches f p s q t) {stage : G}
    (follows : p.Follows P Q stage) (start : J stage s) :
    ∃ stage', q.Follows P Q stage' ∧ J stage' t := by
  induction run generalizing stage with
  | refl => exact ⟨stage, follows, start⟩
  | step taken _ ih => exact ih (follows.2 _) (keeps _ _ _ _ _ follows.1 taken start)

end Follows

end Program

end Interaction
