import Mdp.Conformance
import Mdp.Frame
import Mdp.Library.Interrupts

/-!
# A process that catches SIGINT

`sig_cleanup` may start before any call of a process once it is installed, and blocks itself while
it runs. It either returns, and then the process goes on where it was, or it exits. A place says
where the process is and, while the handler runs, where the handler is; the stage of the process
stands still meanwhile.
-/

namespace Mdp

open Interaction CStrings HardLinks

/-- Where a process is. -/
structure Place where
  /-- The stage of the command. -/
  stage : Stage
  /-- The stage of `sig_cleanup` while it runs. -/
  signal : Option Stage
  deriving DecidableEq

/-- The place after an answer: an exit inside the handler ends the command as well. -/
def Place.advance (place : Place) : (request : Call) → Call.Answer request → Place
  | .nextHandler, registered => ⟨(place.signal.getD place.stage).exiting registered, none⟩
  | .sigreturn, _ => ⟨place.stage, none⟩
  | request, answer =>
    match place.signal with
    | none => ⟨place.stage.advance request answer, none⟩
    | some inner => ⟨place.stage, some (inner.advance request answer)⟩

/-- The calls allowed at a place. The handler exits only where it could not clean up. -/
def Place.Allowed (cfg : Config) (L : CLocale) (command : Command.Edits) (place : Place)
    (request : Call) : Prop :=
  match place.signal with
  | none => (lifetime cfg L command).allowed place.stage request
  | some inner => handling.allowed inner request ∨
      (request = .nextHandler ∧ (inner = .kept ∨ inner = .stuck)) ∨
      (request = .sigreturn ∧ inner = .over)

/-- The protocol of a process that may be interrupted. -/
def interruptible (cfg : Config) (L : CLocale) (command : Command.Edits) :
    Protocol posix Place where
  allowed := Place.Allowed cfg L command
  advance := Place.advance

/-- What holds of such a process once it has ended. -/
def PlaceEnded (result : Except Ending Unit) (place : Place) : Prop :=
  place.signal = none ∧ Ended result place.stage

variable {cfg : Config} {L : CLocale} {command : Command.Edits}

/-- Outside the handler a place moves as its stage does. -/
theorem Place.advance_running (stage : Stage) (request : Call) (answer : Call.Answer request) :
    Place.advance ⟨stage, none⟩ request answer = ⟨stage.advance request answer, none⟩ := by
  cases request <;> rfl

/-- Inside the handler, up to its end, the stage of the handler moves. -/
theorem Place.advance_handling {inner : Stage} {request : Call}
    (allowed : handling.allowed inner request) (stage : Stage) (answer : Call.Answer request) :
    Place.advance ⟨stage, some inner⟩ request answer =
      ⟨stage, some (inner.advance request answer)⟩ := by
  rcases allowed with neutral | inside
  · cases request <;> first | rfl | exact neutral.elim
  · cases inside <;> rfl

/-- A process that follows its protocol follows it when it may be interrupted. -/
theorem follows_running {p : Prog Unit} {stage : Stage}
    (follows : p.Follows (lifetime cfg L command) Ended stage) :
    p.Follows (interruptible cfg L command) PlaceEnded ⟨stage, none⟩ := by
  refine follows.embed (fun stage => (⟨stage, none⟩ : Place)) ?_ ?_ ?_
  · exact fun _ _ allowed => allowed
  · exact fun stage request answer _ => Place.advance_running stage request answer
  · exact fun _ _ ended => ⟨rfl, ended⟩

/-- What holds where the handler of an interrupt at a stage returns, and where it has ended the
process. -/
abbrev HandlerEnded (stage : Stage) (result : Except Ending Unit) (place : Place) : Prop :=
  match result with
  | .ok _ => place = ⟨stage, some .over⟩
  | .error ending => PlaceEnded (.error ending) place

/-- A process that is interrupted follows the protocol from the start of the handler on. -/
theorem interrupt_follows {p : Prog Unit} {stage : Stage}
    (follows : p.Follows (interruptible cfg L command) PlaceEnded ⟨stage, none⟩) :
    (Program.interruptedBy (interrupt cfg) p).Follows (interruptible cfg L command) PlaceEnded
      ⟨stage, some .cleaning⟩ := by
  -- The handler itself, until it returns or exits.
  have inside : (sigCleanup cfg).Follows (interruptible cfg L command)
      (fun result place => ∃ inner, place = ⟨stage, some inner⟩ ∧ CleanedUp result inner)
      ⟨stage, some .cleaning⟩ := by
    refine handler_follows.embed (fun inner => (⟨stage, some inner⟩ : Place)) ?_ ?_ ?_
    · exact fun _ _ allowed => Or.inl allowed
    · exact fun _ _ answer allowed => Place.advance_handling allowed stage answer
    · exact fun _ inner cleaned => ⟨inner, rfl, cleaned⟩
  have caught : ((sigCleanup cfg).onHalt (leave cfg)).Follows (interruptible cfg L command)
      (HandlerEnded stage) ⟨stage, some .cleaning⟩ := by
    refine inside.onHalt ?_ ?_
    · rintro _ _ ⟨inner, rfl, ⟨message, rfl⟩, place⟩
      have exits : interruptible cfg L command |>.allowed ⟨stage, some inner⟩ .nextHandler :=
        .inr (.inl ⟨rfl, place⟩)
      refine ⟨exits, fun registered => ?_⟩
      refine (follows_running (runHandler_follows registered)).mono fun result place ended => ?_
      cases result with
      | ok value => exact ended.2.elim
      | error ending => exact ended
    · rintro _ _ ⟨inner, rfl, rfl⟩
      rfl
  show (((sigCleanup cfg).onHalt (leave cfg)).bind fun _ => ask .sigreturn).bind _ |>.Follows _ _ _
  rw [Program.bind_assoc]
  refine caught.bind ?_ fun _ _ ended => ended
  rintro _ _ rfl
  have returns : interruptible cfg L command |>.allowed ⟨stage, some .over⟩ .sigreturn :=
    .inr (.inr ⟨rfl, rfl⟩)
  exact ⟨returns, fun _ => follows⟩

/-- The effect of the calls, with the place of the process beside the state. -/
abbrev placed : Effect posix (Place × State) :=
  effect.record fun entry place => place.advance entry.request entry.answer

/-- The state in which the handler starts: it is blocked from now on. -/
def State.blocked (s : State) : State := s.setGlobals { s.globals with masked := true }

/-- `SIGINT` starts its handler if that is installed and not blocked. -/
def caught (x : Place × State) : Option (Place × State) :=
  if x.2.globals.sigint = .cleanup ∧ x.2.globals.masked = false then
    some (⟨x.1.stage, some .cleaning⟩, x.2.blocked)
  else none

/-- The same with something remembered beside it. -/
def caughtAnywhere {G : Type} (x : G × (Place × State)) : Option (G × (Place × State)) :=
  (caught x.2).map fun y => (x.1, y)

/-- `SIGINT` is blocked while its handler runs. -/
def Masked (place : Place) (s : State) : Prop :=
  place.signal.isSome = true → s.globals.masked = true

/-- An answer starts no handler, and the return from it ends it. -/
theorem Place.signal_advance {place : Place} {request : Call} {answer : Call.Answer request}
    (running : (place.advance request answer).signal.isSome = true) :
    place.signal.isSome = true ∧ request ≠ .sigreturn := by
  obtain ⟨stage, signal⟩ := place
  cases signal with
  | none =>
    rw [← Bool.not_eq_false] at running
    refine absurd ?_ running
    cases request <;> rfl
  | some inner =>
    refine ⟨rfl, ?_⟩
    rintro rfl
    cases running

/-- It stays blocked. -/
theorem Masked.step {place : Place} {s s' : State} {request : Call} {answer : Call.Answer request}
    (masked : Masked place s) (taken : effect request answer s = some s') :
    Masked (place.advance request answer) s' := by
  intro running
  obtain ⟨before, other⟩ := Place.signal_advance running
  rw [effect_masked_kept other taken]
  exact masked before

/-- The handler starts outside a handler. -/
theorem caught_eq_some {place : Place} {s : State} {x : Place × State} (masked : Masked place s)
    (enters : caught (place, s) = some x) :
    place.signal = none ∧ x = (⟨place.stage, some .cleaning⟩, s.blocked) := by
  simp only [caught, Option.ite_none_right_eq_some, Option.some.injEq] at enters
  obtain ⟨⟨_, free⟩, same⟩ := enters
  refine ⟨?_, same.symm⟩
  cases signal : place.signal with
  | none => rfl
  | some inner =>
    have blocked := masked (by rw [signal]; rfl)
    rw [free] at blocked
    contradiction

/-- The rule for a process that may be interrupted: what every allowed answer and every interrupt
keeps holds of every run, and the process follows its protocol. -/
theorem process_interrupted {G : Type} {f : Effect posix (G × (Place × State))}
    {catches : G × (Place × State) → Option (G × (Place × State))}
    {J : G × (Place × State) → Prop}
    (moves : ∀ request answer x x', f request answer x = some x' →
      x'.2.1 = x.2.1.advance request answer)
    (keeps : ∀ request answer x x', (interruptible cfg L command).allowed x.2.1 request →
      f request answer x = some x' → J x → J x')
    (enters : ∀ x x', J x → catches x = some x' →
      x.2.1.signal = none ∧ x'.2.1 = ⟨x.2.1.stage, some .cleaning⟩ ∧ J x')
    {q : Prog Unit} {x t : G × (Place × State)}
    (run : Interrupted f (interrupt cfg) catches (process cfg L command) x q t)
    (first : x.2.1 = ⟨.starting, none⟩) (start : J x) :
    q.Follows (interruptible cfg L command) PlaceEnded t.2.1 ∧ J t := by
  have follows :
      (process cfg L command).Follows (interruptible cfg L command) PlaceEnded x.2.1 := by
    rw [first]
    exact follows_running (process_follows cfg L command)
  refine Program.Follows.interrupted (g := fun x => x.2.1) moves keeps ?_ run follows start
  intro p y y' inside holds caught
  obtain ⟨free, entered, next⟩ := enters y y' holds caught
  refine ⟨?_, next⟩
  have place : y.2.1 = ⟨y.2.1.stage, none⟩ := by rw [← free]
  rw [place] at inside
  rw [entered]
  exact interrupt_follows inside

end Mdp
