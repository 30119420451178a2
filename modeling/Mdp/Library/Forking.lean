import Mathlib.Logic.Function.Basic
import Mdp.Library.Interleaving
import Mdp.Library.Interrupts

/-!
# Programs that fork

Programs that share a state take turns, and an answer may create another program: it goes on from
the same call with an answer of its own, under an identity that was free. Before any call of a
program its handler may start. A program that is killed takes no more steps, so every run in which
some are killed is a run here. Conditions say which answers and which interrupts are looked at.

What every step that is looked at keeps holds of every run, and each program follows the protocol
from the stage its own calls have led to.
-/

namespace Interaction

variable {E : Interface} {ε α S ι : Type} [DecidableEq ι]

/-- Whether an answer creates a program: its identity, and the answer it goes on with. -/
abbrev Spawning (E : Interface) (ι : Type) : Type :=
  (request : E.Call) → E.Answer request → Option (ι × E.Answer request)

/-- What the programs of a run share. -/
structure Forking (E : Interface) (ε S ι : Type) where
  /-- The effect of the calls of each program. -/
  effect : ι → Effect E S
  /-- Which answers create a program. -/
  spawns : Spawning E ι
  /-- The handler of interrupts. -/
  handler : Program E ε Unit
  /-- When a program can catch an interrupt, and the state then. -/
  catches : ι → S → Option S

/-- Only the first program is there. -/
def alone (root : ι) (p : Program E ε α) : ι → Option (Program E ε α) :=
  Function.update (fun _ => none) root (some p)

/-- A run of programs that fork, under conditions on the answers and on the interrupts. -/
inductive Forked (F : Forking E ε S ι) (may : Turns E S ι) (hears : ι → S → Prop) :
    (ι → Option (Program E ε α)) → S → (ι → Option (Program E ε α)) → S → Prop where
  /-- The empty run. -/
  | refl (ps : ι → Option (Program E ε α)) (s : S) : Forked F may hears ps s ps s
  /-- One answer for one of the programs, then a run. -/
  | step {ps qs : ι → Option (Program E ε α)} {i : ι} {request : E.Call}
      {next : E.Answer request → Program E ε α} {answer : E.Answer request} {s s' t : S}
      (turn : ps i = some (.call request next)) (permitted : may i request answer s)
      (taken : F.effect i request answer s = some s') (single : F.spawns request answer = none)
      (rest : Forked F may hears (Function.update ps i (some (next answer))) s' qs t) :
      Forked F may hears ps s qs t
  /-- One answer that creates a program, then a run. -/
  | spawn {ps qs : ι → Option (Program E ε α)} {i k : ι} {request : E.Call}
      {next : E.Answer request → Program E ε α} {answer other : E.Answer request} {s s' t : S}
      (turn : ps i = some (.call request next)) (permitted : may i request answer s)
      (taken : F.effect i request answer s = some s')
      (double : F.spawns request answer = some (k, other)) (free : ps k = none)
      (rest : Forked F may hears
        (Function.update (Function.update ps i (some (next answer))) k (some (next other))) s' qs
          t) :
      Forked F may hears ps s qs t
  /-- An interrupt before a call, then a run. -/
  | caught {ps qs : ι → Option (Program E ε α)} {i : ι} {request : E.Call}
      {next : E.Answer request → Program E ε α} {s s' t : S}
      (turn : ps i = some (.call request next)) (heard : hears i s)
      (enters : F.catches i s = some s')
      (rest : Forked F may hears
        (Function.update ps i (some (Program.interruptedBy F.handler (.call request next)))) s' qs
          t) :
      Forked F may hears ps s qs t

/-- Each program that is there follows the protocol from its stage on. -/
def Following {G : Type} (P : Protocol E G) (Q : Except ε α → G → Prop)
    (ps : ι → Option (Program E ε α)) (stage : ι → G) : Prop :=
  ∀ i p, ps i = some p → p.Follows P Q (stage i)

section Following

variable {G : Type} {P : Protocol E G} {Q : Except ε α → G → Prop}
  {ps : ι → Option (Program E ε α)} {stage : ι → G}

/-- One program goes on and the others stay. -/
theorem Following.update (following : Following P Q ps stage) {i : ι} {p : Program E ε α}
    {after : G}
    (follows : p.Follows P Q after) :
    Following P Q (Function.update ps i (some p)) (Function.update stage i after) := by
  intro j q there
  by_cases same : j = i
  · subst same
    rw [Function.update_self] at there ⊢
    cases there
    exact follows
  · rw [Function.update_of_ne same] at there ⊢
    exact following j q there

omit [DecidableEq ι] in
/-- The program whose turn it is. -/
theorem Following.turn (following : Following P Q ps stage) {i : ι} {request : E.Call}
    {next : E.Answer request → Program E ε α} (turn : ps i = some (.call request next)) :
    P.allowed (stage i) request ∧
      ∀ answer, (next answer).Follows P Q (P.advance (stage i) request answer) :=
  following i _ turn

/-- The first program, alone. -/
theorem Following.alone {root : ι} {p : Program E ε α} (follows : p.Follows P Q (stage root)) :
    Following P Q (alone root p) stage := by
  intro i q there
  by_cases same : i = root
  · subst same
    rw [Interaction.alone, Function.update_self] at there
    cases there
    exact follows
  · rw [Interaction.alone, Function.update_of_ne same] at there
    cases there

/-- The rule for programs that fork: what every step that is looked at keeps between the stages and
the state holds of every run, and each program follows the protocol. A program that is created is
not the first one. -/
theorem Following.forked {F : Forking E ε S ι} {may : Turns E S ι} {hears : ι → S → Prop} {root : ι}
    {J : (ι → G) → S → Prop}
    (keeps : ∀ stage i request answer s s', P.allowed (stage i) request → may i request answer s →
      F.effect i request answer s = some s' → F.spawns request answer = none → J stage s →
      J (Function.update stage i (P.advance (stage i) request answer)) s')
    (splits : ∀ stage i k request answer other s s', P.allowed (stage i) request →
      may i request answer s → F.effect i request answer s = some s' →
      F.spawns request answer = some (k, other) → k ≠ root → J stage s →
      J (Function.update (Function.update stage i (P.advance (stage i) request answer)) k
        (P.advance (stage i) request other)) s')
    (enters : ∀ stage i p s s', p.Follows P Q (stage i) → hears i s → F.catches i s = some s' →
      J stage s → (Program.interruptedBy F.handler p).Follows P Q (stage i) ∧ J stage s')
    {qs : ι → Option (Program E ε α)} {s t : S} (run : Forked F may hears ps s qs t)
    (following : Following P Q ps stage) (there : (ps root).isSome = true) (start : J stage s) :
    ∃ stage', Following P Q qs stage' ∧ J stage' t := by
  have kept : ∀ {ps : ι → Option (Program E ε α)} {i : ι} {p : Program E ε α},
      (ps root).isSome = true → (Function.update ps i (some p) root).isSome = true := by
    intro ps i p there
    by_cases same : root = i
    · rw [same, Function.update_self]
      rfl
    · rw [Function.update_of_ne same]
      exact there
  induction run generalizing stage with
  | refl => exact ⟨stage, following, start⟩
  | step turn permitted taken single _ ih =>
    obtain ⟨allowed, next⟩ := following.turn turn
    exact ih (following.update (next _)) (kept there)
      (keeps _ _ _ _ _ _ allowed permitted taken single start)
  | @spawn ps qs i k request next answer other s s' t turn permitted taken double free _ ih =>
    obtain ⟨allowed, next⟩ := following.turn turn
    have new : k ≠ root := by
      rintro rfl
      rw [free] at there
      cases there
    exact ih ((following.update (next _)).update (next _)) (kept (kept there))
      (splits _ _ _ _ _ _ _ _ allowed permitted taken double new start)
  | @caught ps qs i request next s s' t turn heard caught _ ih =>
    obtain ⟨inside, holds⟩ := enters _ _ _ _ _ (following i _ turn) heard caught start
    have again := following.update (i := i) inside
    rw [Function.update_eq_self] at again
    exact ih again (kept there) holds

end Following

/-- The stages of the programs that are there, and of no others: each follows the protocol from its
stage on. -/
def Staged {G : Type} (P : Protocol E G) (Q : Except ε α → G → Prop)
    (ps : ι → Option (Program E ε α)) (stages : ι → Option G) : Prop :=
  ∀ i, Option.Rel (fun p stage => p.Follows P Q stage) (ps i) (stages i)

section Staged

variable {G : Type} {P : Protocol E G} {Q : Except ε α → G → Prop}
  {ps : ι → Option (Program E ε α)} {stages : ι → Option G}

/-- One program goes on and the others stay, or it is a new one. -/
theorem Staged.update (staged : Staged P Q ps stages) {i : ι} {p : Program E ε α} {after : G}
    (follows : p.Follows P Q after) :
    Staged P Q (Function.update ps i (some p)) (Function.update stages i (some after)) := by
  intro j
  by_cases same : j = i
  · subst same
    rw [Function.update_self, Function.update_self]
    exact .some follows
  · rw [Function.update_of_ne same, Function.update_of_ne same]
    exact staged j

omit [DecidableEq ι] in
/-- The program whose turn it is has a stage. -/
theorem Staged.stage (staged : Staged P Q ps stages) {i : ι} {p : Program E ε α}
    (turn : ps i = some p) : ∃ stage, stages i = some stage ∧ p.Follows P Q stage := by
  have related := staged i
  rw [turn] at related
  cases there : stages i with
  | none =>
    rw [there] at related
    cases related
  | some stage =>
    rw [there] at related
    cases related with
    | some follows => exact ⟨stage, rfl, follows⟩

omit [DecidableEq ι] in
/-- Where there is no program, there is no stage. -/
theorem Staged.free (staged : Staged P Q ps stages) {i : ι} (free : ps i = none) :
    stages i = none := by
  have related := staged i
  rw [free] at related
  cases there : stages i with
  | none => rfl
  | some stage =>
    rw [there] at related
    cases related

/-- The first program, alone. -/
theorem Staged.alone {root : ι} {p : Program E ε α} {stage : G} (follows : p.Follows P Q stage) :
    Staged P Q (alone root p) (Function.update (fun _ => none) root (some stage)) :=
  Staged.update (fun _ => .none) follows

/-- The rule for programs that fork where the identity of a new one matters: it is not that of any
that was there before. -/
theorem Staged.forked {F : Forking E ε S ι} {may : Turns E S ι} {hears : ι → S → Prop}
    {J : (ι → Option G) → S → Prop}
    (keeps : ∀ stages i stage request answer s s', stages i = some stage → P.allowed stage request →
      may i request answer s → F.effect i request answer s = some s' →
      F.spawns request answer = none → J stages s →
      J (Function.update stages i (some (P.advance stage request answer))) s')
    (splits : ∀ stages i k stage request answer other s s', stages i = some stage →
      P.allowed stage request → may i request answer s → F.effect i request answer s = some s' →
      F.spawns request answer = some (k, other) → stages k = none → J stages s →
      J (Function.update (Function.update stages i (some (P.advance stage request answer))) k
        (some (P.advance stage request other))) s')
    (enters : ∀ stages i stage p s s', stages i = some stage → p.Follows P Q stage → hears i s →
      F.catches i s = some s' → J stages s →
      (Program.interruptedBy F.handler p).Follows P Q stage ∧ J stages s')
    {qs : ι → Option (Program E ε α)} {s t : S} (run : Forked F may hears ps s qs t)
    (staged : Staged P Q ps stages) (start : J stages s) :
    ∃ stages', Staged P Q qs stages' ∧ J stages' t := by
  induction run generalizing stages with
  | refl => exact ⟨stages, staged, start⟩
  | step turn permitted taken single _ ih =>
    obtain ⟨stage, there, allowed, next⟩ := staged.stage turn
    exact ih (staged.update (next _))
      (keeps _ _ _ _ _ _ _ there allowed permitted taken single start)
  | spawn turn permitted taken double free _ ih =>
    obtain ⟨stage, there, allowed, next⟩ := staged.stage turn
    exact ih ((staged.update (next _)).update (next _))
      (splits _ _ _ _ _ _ _ _ _ there allowed permitted taken double (staged.free free) start)
  | @caught ps qs i request next s s' t turn heard caught _ ih =>
    obtain ⟨stage, there, follows⟩ := staged.stage turn
    obtain ⟨inside, holds⟩ := enters _ _ _ _ _ _ there follows heard caught start
    have again := staged.update (i := i) inside
    rw [← there, Function.update_eq_self] at again
    exact ih again holds

end Staged

/-- Carry notes beside the state that no program can see: each answer adds to them. -/
def Forking.record {N : Type} (F : Forking E ε S ι)
    (note : ι → (request : E.Call) → E.Answer request → N → N) : Forking E ε (N × S) ι where
  effect i request answer x := (F.effect i request answer x.2).map fun after =>
    (note i request answer x.1, after)
  spawns := F.spawns
  handler := F.handler
  catches i x := (F.catches i x.2).map fun after => (x.1, after)

/-- Let the programs of a schedule take a turn each, with answers from an oracle, as long as every
turn passes a check. Nothing is interrupted. -/
def playForked (F : Forking E ε S ι) (passes : ι → (request : E.Call) → E.Answer request → S → Bool)
    (oracle : ι → Oracle E S) :
    List ι → (ι → Option (Program E ε α)) → S → Option ((ι → Option (Program E ε α)) × S)
  | [], ps, s => some (ps, s)
  | i :: schedule, ps, s =>
    match ps i with
    | some (.call request next) =>
      if passes i request (oracle i request s) s then
        match F.effect i request (oracle i request s) s,
            F.spawns request (oracle i request s) with
        | none, _ => none
        | some s', none =>
          playForked F passes oracle schedule
            (Function.update ps i (some (next (oracle i request s)))) s'
        | some s', some (k, other) =>
          if (ps k).isNone then
            playForked F passes oracle schedule
              (Function.update (Function.update ps i (some (next (oracle i request s)))) k
                (some (next other))) s'
          else none
      else none
    | _ => none

/-- What is played is a run, if what passes is permitted. -/
theorem playForked_forked {F : Forking E ε S ι}
    {passes : ι → (request : E.Call) → E.Answer request → S → Bool} {may : Turns E S ι}
    {hears : ι → S → Prop} {oracle : ι → Oracle E S} {schedule : List ι}
    {ps qs : ι → Option (Program E ε α)} {s t : S}
    (sound : ∀ i request answer s, passes i request answer s = true → may i request answer s)
    (played : playForked F passes oracle schedule ps s = some (qs, t)) :
    Forked F may hears ps s qs t := by
  induction schedule generalizing ps s with
  | nil =>
    simp only [playForked, Option.some.injEq, Prod.mk.injEq] at played
    obtain ⟨rfl, rfl⟩ := played
    exact .refl _ _
  | cons i schedule ih =>
    simp only [playForked] at played
    split at played
    · rename_i request next turn
      split at played
      · rename_i passed
        have permitted := sound _ _ _ _ passed
        split at played
        · contradiction
        · rename_i s' taken single
          exact .step turn permitted taken single (ih played)
        · rename_i s' k other taken double
          split at played
          · rename_i free
            exact .spawn turn permitted taken double (Option.isNone_iff_eq_none.mp free) (ih played)
          · contradiction
      · contradiction
    · contradiction

/-- What is played, with a check of its end, is a run to such an end. -/
theorem exists_of_playForked {F : Forking E ε S ι}
    {passes : ι → (request : E.Call) → E.Answer request → S → Bool} {may : Turns E S ι}
    {hears : ι → S → Prop} {oracle : ι → Oracle E S} {schedule : List ι}
    {ps : ι → Option (Program E ε α)} {s : S}
    {check : (ι → Option (Program E ε α)) × S → Bool}
    (sound : ∀ i request answer s, passes i request answer s = true → may i request answer s)
    (good : (playForked F passes oracle schedule ps s).any check = true) :
    ∃ qs t, Forked F may hears ps s qs t ∧ check (qs, t) = true := by
  obtain ⟨⟨qs, t⟩, played, checked⟩ := (Option.any_eq_true _ _).mp good
  exact ⟨qs, t, playForked_forked sound played, checked⟩

end Interaction
