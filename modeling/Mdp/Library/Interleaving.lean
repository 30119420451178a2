import Mathlib.Logic.Function.Basic
import Mdp.Library.Protocol

/-!
# Interleaved programs

Any number of programs that share a state take turns: a step is one answered call of one of them. A
condition on steps says which interleavings are looked at. What every allowed step keeps holds of
every interleaving, and each program follows its own protocol in it.
-/

namespace Interaction

variable {E : Interface} {ε α S ι : Type} [DecidableEq ι]

/-- A condition on the steps: whose step, which call and answer, and the state before. -/
abbrev Turns (E : Interface) (S ι : Type) : Type :=
  ι → (request : E.Call) → E.Answer request → S → Prop

/-- A run of programs that take turns in any order. -/
inductive Interleaved (f : ι → Effect E S) (may : Turns E S ι) :
    (ι → Program E ε α) → S → (ι → Program E ε α) → S → Prop where
  /-- The empty run. -/
  | refl (ps : ι → Program E ε α) (s : S) : Interleaved f may ps s ps s
  /-- One answer for one of the programs, then a run. -/
  | step {ps qs : ι → Program E ε α} {i : ι} {request : E.Call}
      {next : E.Answer request → Program E ε α} {answer : E.Answer request} {s s' t : S}
      (turn : ps i = .call request next) (permitted : may i request answer s)
      (taken : f i request answer s = some s')
      (rest : Interleaved f may (Function.update ps i (next answer)) s' qs t) :
      Interleaved f may ps s qs t

/-- What every allowed step keeps holds of every interleaving of programs that follow their
protocols from the stages that the state says. -/
theorem Program.Follows.interleaved {G : Type} {P : ι → Protocol E G}
    {Q : ι → Except ε α → G → Prop} {f : ι → Effect E S} {may : Turns E S ι} {g : S → ι → G}
    {J : S → Prop}
    (moves : ∀ i request answer s s', f i request answer s = some s' →
      g s' = Function.update (g s) i ((P i).advance (g s i) request answer))
    (keeps : ∀ i request answer s s', (P i).allowed (g s i) request → may i request answer s →
      f i request answer s = some s' → J s → J s')
    {ps qs : ι → Program E ε α} {s t : S} (run : Interleaved f may ps s qs t)
    (follows : ∀ i, (ps i).Follows (P i) (Q i) (g s i)) (start : J s) :
    (∀ i, (qs i).Follows (P i) (Q i) (g t i)) ∧ J t := by
  induction run with
  | refl => exact ⟨follows, start⟩
  | @step ps qs i request next answer s s' t turn permitted taken _ ih =>
    have own := follows i
    rw [turn] at own
    refine ih (fun j => ?_) (keeps _ _ _ _ _ own.1 permitted taken start)
    rw [moves _ _ _ _ _ taken]
    by_cases same : j = i
    · subst same
      rw [Function.update_self, Function.update_self]
      exact own.2 answer
    · rw [Function.update_of_ne same, Function.update_of_ne same]
      exact follows j

/-- Let the programs of a schedule take a turn each, with answers from an oracle, as long as every
turn passes a check. -/
def playInterleaved (f : ι → Effect E S)
    (passes : ι → (request : E.Call) → E.Answer request → S → Bool)
    (oracle : ι → Oracle E S) : List ι → (ι → Program E ε α) → S → Option ((ι → Program E ε α) × S)
  | [], ps, s => some (ps, s)
  | i :: schedule, ps, s =>
    match ps i with
    | .call request next =>
      match f i request (oracle i request s) s with
      | none => none
      | some s' =>
        if passes i request (oracle i request s) s then
          playInterleaved f passes oracle schedule
            (Function.update ps i (next (oracle i request s))) s'
        else none
    | _ => none

/-- What is played is an interleaving, if what passes is permitted. -/
theorem playInterleaved_interleaved {f : ι → Effect E S}
    {passes : ι → (request : E.Call) → E.Answer request → S → Bool}
    {may : Turns E S ι} {oracle : ι → Oracle E S} {schedule : List ι}
    {ps qs : ι → Program E ε α} {s t : S}
    (sound : ∀ i request answer s, passes i request answer s = true → may i request answer s)
    (played : playInterleaved f passes oracle schedule ps s = some (qs, t)) :
    Interleaved f may ps s qs t := by
  induction schedule generalizing ps s with
  | nil =>
    simp only [playInterleaved, Option.some.injEq, Prod.mk.injEq] at played
    obtain ⟨rfl, rfl⟩ := played
    exact .refl _ _
  | cons i schedule ih =>
    simp only [playInterleaved] at played
    split at played
    · rename_i request next turn
      split at played
      · contradiction
      · rename_i s' taken
        split at played
        · rename_i passed
          exact .step turn (sound _ _ _ _ passed) taken (ih played)
        · contradiction
    · contradiction

/-- What is played, with a check of its end, is an interleaving to such an end. -/
theorem exists_of_playInterleaved {f : ι → Effect E S}
    {passes : ι → (request : E.Call) → E.Answer request → S → Bool}
    {may : Turns E S ι} {oracle : ι → Oracle E S} {schedule : List ι}
    {ps : ι → Program E ε α} {s : S} {check : (ι → Program E ε α) × S → Bool}
    (sound : ∀ i request answer s, passes i request answer s = true → may i request answer s)
    (good : (playInterleaved f passes oracle schedule ps s).any check = true) :
    ∃ qs t, Interleaved f may ps s qs t ∧ check (qs, t) = true := by
  obtain ⟨⟨qs, t⟩, played, checked⟩ := (Option.any_eq_true _ _).mp good
  exact ⟨qs, t, playInterleaved_interleaved sound played, checked⟩

end Interaction
