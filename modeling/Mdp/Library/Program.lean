import Mathlib.Logic.Function.Basic

/-!
# Interactive programs

A program is a tree: it has ended with a value, it has halted with an ending, or it asks its
environment one question and goes on with the answer. An effect says which answers the
environment may give in a state and what the state is afterwards; everything an environment can
decide (a failure, a returned byte string, what an external process left behind) is part of the
answer, so an effect is a function and a run can be replayed.

Runs are reachability between configurations, so a run that is cut short anywhere is a run too.
`Safe` is the weakest precondition that also holds its invariant in every configuration on the
way; it is a structural recursion over the tree and composes along `bind`. `Ends` asks only what
holds where a run ends with a value.
-/

namespace Interaction

/-- The questions of a program, and the type of the answers to each. -/
structure Interface where
  /-- One question. -/
  Call : Type
  /-- What may be answered to it. -/
  Answer : Call → Type

/-- A program over an interface that halts with an `ε` or ends with an `α`. -/
inductive Program (E : Interface) (ε α : Type) : Type where
  /-- The program has ended with a value. -/
  | done (value : α)
  /-- The program has halted; nothing that follows it is run. -/
  | halt (ending : ε)
  /-- The program waits for the answer to one call. -/
  | call (request : E.Call) (next : E.Answer request → Program E ε α)

namespace Program

variable {E : Interface} {ε ε' α β γ S : Type}

/-- Sequencing: the second program runs on the value of the first, and not after a halt. -/
def bind : Program E ε α → (α → Program E ε β) → Program E ε β
  | .done value, rest => rest value
  | .halt ending, _ => .halt ending
  | .call request next, rest => .call request fun answer => (next answer).bind rest

/-- Programs are sequenced by `bind`. -/
instance : Monad (Program E ε) where
  pure := .done
  bind := .bind

/-- `pure` is a program that is done. -/
@[simp] theorem pure_eq (value : α) : (pure value : Program E ε α) = .done value := rfl

/-- The notation for sequencing is `bind`. -/
@[simp] theorem bind_eq (p : Program E ε α) (rest : α → Program E ε β) :
    p >>= rest = p.bind rest := rfl

/-- A program that is done passes its value on. -/
@[simp] theorem done_bind (value : α) (rest : α → Program E ε β) :
    (done value : Program E ε α).bind rest = rest value := rfl

/-- Nothing follows a program that has halted. -/
@[simp] theorem halt_bind (ending : ε) (rest : α → Program E ε β) :
    (halt ending : Program E ε α).bind rest = halt ending := rfl

/-- What follows a call follows each of its answers. -/
@[simp] theorem call_bind (request : E.Call) (next : E.Answer request → Program E ε α)
    (rest : α → Program E ε β) :
    (call request next).bind rest = call request fun answer => (next answer).bind rest := rfl

/-- Sequencing is associative. -/
theorem bind_assoc (p : Program E ε α) (second : α → Program E ε β)
    (third : β → Program E ε γ) :
    (p.bind second).bind third = p.bind fun value => (second value).bind third := by
  induction p with
  | done value => rfl
  | halt ending => rfl
  | call request next ih =>
    simp only [call_bind]
    congr 1
    funext answer
    exact ih answer

/-- Run another program in place of a halt. -/
def onHalt : Program E ε α → (ε → Program E ε' α) → Program E ε' α
  | .done value, _ => .done value
  | .halt ending, handler => handler ending
  | .call request next, handler => .call request fun answer => (next answer).onHalt handler

/-- A program that is done does not need the handler. -/
@[simp] theorem done_onHalt (value : α) (handler : ε → Program E ε' α) :
    (done value : Program E ε α).onHalt handler = done value := rfl

/-- A program that has halted goes on with the handler. -/
@[simp] theorem halt_onHalt (ending : ε) (handler : ε → Program E ε' α) :
    (halt ending : Program E ε α).onHalt handler = handler ending := rfl

/-- The handler is behind each answer to a call. -/
@[simp] theorem call_onHalt (request : E.Call) (next : E.Answer request → Program E ε α)
    (handler : ε → Program E ε' α) :
    (call request next).onHalt handler =
      call request fun answer => (next answer).onHalt handler := rfl

end Program

/-- The state after an answer, or `none` when the environment cannot give that answer there. -/
abbrev Effect (E : Interface) (S : Type) :=
  (request : E.Call) → E.Answer request → S → Option S

/-- One answered call and the state it left. -/
structure Entry (E : Interface) (S : Type) where
  /-- The question. -/
  request : E.Call
  /-- The answer the program went on with. -/
  answer : E.Answer request
  /-- The state after it. -/
  after : S

namespace Effect

variable {E : Interface} {S G : Type}

/-- Carry a note beside the state that the program cannot see, updated at every answer from the
state it leaves. -/
def record (f : Effect E S) (note : Entry E S → G → G) : Effect E (G × S) :=
  fun request answer s =>
    (f request answer s.2).map fun after => (note ⟨request, answer, after⟩ s.1, after)

/-- Only the answers that an additional condition on the call, its answer and the state after
allows. -/
def restrict (f : Effect E S) (allowed : Entry E S → Bool) : Effect E S :=
  fun request answer s => (f request answer s).filter fun after => allowed ⟨request, answer, after⟩

/-- A recorded call has its effect, and its note is taken. -/
@[simp] theorem record_eq_some {f : Effect E S} {note : Entry E S → G → G} {request : E.Call}
    {answer : E.Answer request} {s s' : G × S} :
    f.record note request answer s = some s' ↔
      f request answer s.2 = some s'.2 ∧ s'.1 = note ⟨request, answer, s'.2⟩ s.1 := by
  simp only [record, Option.map_eq_some_iff]
  constructor
  · rintro ⟨after, taken, rfl⟩
    exact ⟨taken, rfl⟩
  · rintro ⟨taken, noted⟩
    exact ⟨s'.2, taken, by rw [← noted]⟩

/-- A restricted call has its effect, and is allowed. -/
@[simp] theorem restrict_eq_some {f : Effect E S} {allowed : Entry E S → Bool}
    {request : E.Call} {answer : E.Answer request} {s s' : S} :
    f.restrict allowed request answer s = some s' ↔
      f request answer s = some s' ∧ allowed ⟨request, answer, s'⟩ = true := by
  simp only [restrict, Option.filter_eq_some_iff]

end Effect

/-- A run of a program from one configuration to another, of any length. -/
inductive Reaches {E : Interface} {ε α S : Type} (f : Effect E S) :
    Program E ε α → S → Program E ε α → S → Prop where
  /-- The empty run. -/
  | refl (p : Program E ε α) (s : S) : Reaches f p s p s
  /-- One answer, then a run. -/
  | step {request : E.Call} {next : E.Answer request → Program E ε α}
      {answer : E.Answer request} {s s' s'' : S} {p : Program E ε α}
      (taken : f request answer s = some s') (rest : Reaches f (next answer) s' p s'') :
      Reaches f (.call request next) s p s''

namespace Reaches

variable {E : Interface} {ε α β S : Type} {f : Effect E S}

/-- Runs compose. -/
theorem trans {p q r : Program E ε α} {s t u : S} (first : Reaches f p s q t)
    (second : Reaches f q t r u) : Reaches f p s r u := by
  induction first with
  | refl => exact second
  | step taken _ ih => exact .step taken (ih second)

/-- A run of a sequence to its end has a run of the first program to its own. -/
theorem of_bind_done {p : Program E ε β} {rest : β → Program E ε α} {value : α} {s t : S}
    (run : Reaches f (p.bind rest) s (.done value) t) :
    ∃ found u, Reaches f p s (.done found) u ∧ Reaches f (rest found) u (.done value) t := by
  induction p generalizing s with
  | done found => exact ⟨found, s, .refl _ _, run⟩
  | halt ending => cases run
  | call request next ih =>
    cases run with
    | step taken later =>
      obtain ⟨found, u, first, second⟩ := ih _ later
      exact ⟨found, u, .step taken first, second⟩

/-- Every run has a run with notes beside it. -/
theorem recorded {G : Type} {p q : Program E ε α} {s t : S} (run : Reaches f p s q t)
    (note : Entry E S → G → G) (noted : G) :
    ∃ noted', Reaches (f.record note) p (noted, s) q (noted', t) := by
  induction run generalizing noted with
  | refl => exact ⟨noted, .refl _ _⟩
  | @step request next answer s s' t p taken _ ih =>
    obtain ⟨noted', later⟩ := ih (note ⟨request, answer, s'⟩ noted)
    exact ⟨noted', .step (Effect.record_eq_some.mpr ⟨taken, rfl⟩) later⟩

end Reaches

namespace Reaches

variable {E : Interface} {ε α β S : Type} {f : Effect E S}

/-- A run inside the first program of a sequence is a run of the sequence. -/
theorem bind {p q : Program E ε β} {s t : S} (run : Reaches f p s q t) (rest : β → Program E ε α) :
    Reaches f (p.bind rest) s (q.bind rest) t := by
  induction run with
  | refl => exact .refl _ _
  | step taken _ ih => exact .step taken ih

/-- A program that is done has come to its own value. -/
@[simp] theorem of_done {value found : α} {s t : S} :
    Reaches f (.done value : Program E ε α) s (.done found) t ↔ value = found ∧ s = t := by
  constructor
  · intro run
    cases run
    exact ⟨rfl, rfl⟩
  · rintro ⟨rfl, rfl⟩
    exact .refl _ _

/-- A program that has halted comes to no value. -/
@[simp] theorem of_halt {ending : ε} {found : α} {s t : S} :
    ¬ Reaches f (.halt ending : Program E ε α) s (.done found) t := by
  intro run
  cases run

/-- A program comes to a value through some answer to its first call. -/
@[simp] theorem of_call {request : E.Call} {next : E.Answer request → Program E ε α} {found : α}
    {s t : S} :
    Reaches f (.call request next) s (.done found) t ↔
      ∃ answer u, f request answer s = some u ∧ Reaches f (next answer) u (.done found) t := by
  constructor
  · intro run
    cases run with
    | step taken later => exact ⟨_, _, taken, later⟩
  · rintro ⟨answer, u, taken, later⟩
    exact .step taken later

/-- A sequence ends where its second program does, behind an end of the first. -/
@[simp] theorem bind_done_iff {p : Program E ε β} {rest : β → Program E ε α} {value : α} {s t : S} :
    Reaches f (p.bind rest) s (.done value) t ↔
      ∃ found u, Reaches f p s (.done found) u ∧ Reaches f (rest found) u (.done value) t := by
  constructor
  · exact of_bind_done
  · rintro ⟨found, u, first, second⟩
    exact (first.bind rest).trans second

end Reaches

/-- Some run comes to this call, in this state. -/
def Asks {E : Interface} {ε α S : Type} (f : Effect E S) (p : Program E ε α) (s : S)
    (request : E.Call)
    (t : S) : Prop :=
  ∃ next, Reaches f p s (.call request next) t

namespace Asks

variable {E : Interface} {ε α β S : Type} {f : Effect E S} {request : E.Call} {s t : S}

/-- A program that is done makes no call. -/
@[simp] theorem of_done {value : α} : ¬ Asks f (.done value : Program E ε α) s request t := by
  rintro ⟨next, run⟩
  cases run

/-- A program that has halted makes no call. -/
@[simp] theorem of_halt {ending : ε} : ¬ Asks f (.halt ending : Program E ε α) s request t := by
  rintro ⟨next, run⟩
  cases run

/-- A call is asked at once, or behind an answer. -/
@[simp] theorem of_call {asked : E.Call} {next : E.Answer asked → Program E ε α} :
    Asks f (.call asked next) s request t ↔
      (asked = request ∧ s = t) ∨ ∃ answer u, f asked answer s = some u ∧
          Asks f (next answer) u request t := by
  constructor
  · rintro ⟨later, run⟩
    cases run with
    | refl => exact .inl ⟨rfl, rfl⟩
    | step taken rest => exact .inr ⟨_, _, taken, later, rest⟩
  · rintro (⟨rfl, rfl⟩ | ⟨answer, u, taken, later, run⟩)
    · exact ⟨next, .refl _ _⟩
    · exact ⟨later, .step taken run⟩

/-- A sequence asks what its first program asks, and behind an end of that what its second one
asks. -/
@[simp] theorem bind_iff {p : Program E ε β} {rest : β → Program E ε α} :
    Asks f (p.bind rest) s request t ↔ Asks f p s request t ∨
      ∃ found u, Reaches f p s (.done found) u ∧ Asks f (rest found) u request t := by
  constructor
  · rintro ⟨later, run⟩
    induction p generalizing s with
    | done found => exact .inr ⟨found, s, .refl _ _, later, run⟩
    | halt ending => cases run
    | call asked next ih =>
      cases run with
      | refl => exact .inl ⟨next, .refl _ _⟩
      | step taken rest =>
        rcases ih _ rest with ⟨last, first⟩ | ⟨found, u, first, second⟩
        · exact .inl ⟨last, .step taken first⟩
        · exact .inr ⟨found, u, .step taken first, second⟩
  · rintro (⟨later, run⟩ | ⟨found, u, first, later, second⟩)
    · exact ⟨_, run.bind rest⟩
    · exact ⟨later, (first.bind rest).trans second⟩

end Asks

/-- An environment that answers every call by a fixed rule. -/
abbrev Oracle (E : Interface) (S : Type) := (request : E.Call) → S → E.Answer request

/-- Follow an oracle through at most `budget` calls. -/
def play {E : Interface} {ε α S : Type} (f : Effect E S) (oracle : Oracle E S) :
    Nat → Program E ε α → S → Option (Program E ε α × S)
  | 0, p, s => some (p, s)
  | _ + 1, .done value, s => some (.done value, s)
  | _ + 1, .halt ending, s => some (.halt ending, s)
  | budget + 1, .call request next, s =>
    match f request (oracle request s) s with
    | none => none
    | some s' => play f oracle budget (next (oracle request s)) s'

/-- What an oracle plays is a run. -/
theorem play_reaches {E : Interface} {ε α S : Type} {f : Effect E S} {oracle : Oracle E S}
    {budget : Nat} {p q : Program E ε α} {s t : S}
    (played : play f oracle budget p s = some (q, t)) : Reaches f p s q t := by
  induction budget generalizing p s with
  | zero =>
    simp only [play, Option.some.injEq, Prod.mk.injEq] at played
    obtain ⟨rfl, rfl⟩ := played
    exact .refl _ _
  | succ budget ih =>
    cases p with
    | done value =>
      simp only [play, Option.some.injEq, Prod.mk.injEq] at played
      obtain ⟨rfl, rfl⟩ := played
      exact .refl _ _
    | halt ending =>
      simp only [play, Option.some.injEq, Prod.mk.injEq] at played
      obtain ⟨rfl, rfl⟩ := played
      exact .refl _ _
    | call request next =>
      simp only [play] at played
      split at played
      · contradiction
      · rename_i s' taken
        exact .step taken (ih played)

/-- What an oracle plays, with a check of its end, is a run to such an end. -/
theorem exists_of_play {E : Interface} {ε α S : Type} {f : Effect E S} {oracle : Oracle E S}
    {budget : Nat} {p : Program E ε α} {s : S} {check : Program E ε α × S → Bool}
    (good : (play f oracle budget p s).any check = true) :
    ∃ q t, Reaches f p s q t ∧ check (q, t) = true := by
  obtain ⟨⟨q, t⟩, played, checked⟩ := (Option.any_eq_true _ _).mp good
  exact ⟨q, t, play_reaches played, checked⟩

namespace Program

variable {E : Interface} {ε α β : Type}

/-- What a program comes to when every call has its fixed answer. -/
def under (answers : (request : E.Call) → E.Answer request) : Program E ε α → Except ε α
  | .done value => .ok value
  | .halt ending => .error ending
  | .call request next => (next (answers request)).under answers

variable {answers : (request : E.Call) → E.Answer request}

/-- Sequencing: the second program runs on what the first comes to. -/
theorem under_bind {p : Program E ε α} {rest : α → Program E ε β} {value : α}
    (first : p.under answers = .ok value) :
    (p.bind rest).under answers = (rest value).under answers := by
  induction p with
  | done found =>
    cases first
    rfl
  | halt ending => cases first
  | call request next ih => exact ih (answers request) first

/-- A halt is not followed by anything. -/
theorem under_bind_error {p : Program E ε α} {rest : α → Program E ε β} {ending : ε}
    (halted : p.under answers = .error ending) : (p.bind rest).under answers = .error ending := by
  induction p with
  | done found => cases halted
  | halt found =>
    cases halted
    rfl
  | call request next ih => exact ih (answers request) halted

end Program

namespace Program

variable {E : Interface} {ε ε' α β S : Type}

/-- What a program comes to when a rule answers its calls and keeps a state of its own. -/
def feed (rule : (request : E.Call) → S → E.Answer request × S) :
    Program E ε α → S → Except ε α × S
  | .done value, s => (.ok value, s)
  | .halt ending, s => (.error ending, s)
  | .call request next, s => (next (rule request s).1).feed rule (rule request s).2

variable {rule : (request : E.Call) → S → E.Answer request × S}

/-- Sequencing: the second program goes on from the state that the first leaves. -/
theorem feed_bind {p : Program E ε α} {rest : α → Program E ε β} {value : α} {s t : S}
    (first : p.feed rule s = (.ok value, t)) :
    (p.bind rest).feed rule s = (rest value).feed rule t := by
  induction p generalizing s with
  | done found =>
    cases first
    rfl
  | halt ending => cases first
  | call request next ih => exact ih (rule request s).1 first

/-- A halt is not followed by anything. -/
theorem feed_bind_error {p : Program E ε α} {rest : α → Program E ε β} {ending : ε} {s t : S}
    (halted : p.feed rule s = (.error ending, t)) :
    (p.bind rest).feed rule s = (.error ending, t) := by
  induction p generalizing s with
  | done found => cases halted
  | halt found =>
    cases halted
    rfl
  | call request next ih => exact ih (rule request s).1 halted

/-- Rename the endings of a program. -/
def mapHalt (rename : ε → ε') (p : Program E ε α) : Program E ε' α :=
  p.onHalt fun ending => .halt (rename ending)

/-- The endings of a sequence are those of its parts. -/
theorem mapHalt_bind (rename : ε → ε') (p : Program E ε α) (rest : α → Program E ε β) :
    (p.bind rest).mapHalt rename = (p.mapHalt rename).bind fun value =>
    (rest value).mapHalt rename := by
  induction p with
  | done value => rfl
  | halt ending => rfl
  | call request next ih =>
    show Program.call request _ = Program.call request _
    congr 1
    funext answer
    exact ih answer

/-- A program with renamed endings comes to the same, with its ending renamed. -/
theorem feed_mapHalt (rename : ε → ε') (p : Program E ε α) (s : S) :
    (p.mapHalt rename).feed rule s =
      ((p.feed rule s).1.mapError rename, (p.feed rule s).2) := by
  induction p generalizing s with
  | done value => rfl
  | halt ending => rfl
  | call request next ih => exact ih (rule request s).1 (rule request s).2

/-- Every value the program can end with, whatever is answered, satisfies `Q`. -/
def Yields (Q : α → Prop) : Program E ε α → Prop
  | .done value => Q value
  | .halt _ => True
  | .call _ next => ∀ answer, (next answer).Yields Q

/-- Nothing need be known of the values. -/
theorem yields_true (p : Program E ε α) : p.Yields fun _ => True := by
  induction p with
  | done value => trivial
  | halt ending => trivial
  | call request next ih => exact ih

/-- A run ends with one of them. -/
theorem Yields.of_reaches {S : Type} {f : Effect E S} {Q : α → Prop} {p q : Program E ε α} {s t : S}
    (yields : p.Yields Q) (run : Reaches f p s q t) : q.Yields Q := by
  induction run with
  | refl => exact yields
  | step _ _ ih => exact ih (yields _)

/-- What follows a program need only be the same for the values that it can end with. -/
theorem bind_congr {Q : α → Prop} {p : Program E ε α} {rest rest' : α → Program E ε β}
    (yields : p.Yields Q) (same : ∀ value, Q value → rest value = rest' value) :
    p.bind rest = p.bind rest' := by
  induction p with
  | done value => exact same value yields
  | halt ending => rfl
  | call request next ih =>
    rw [call_bind, call_bind]
    congr 1
    funext answer
    exact ih answer (yields answer)

/-- The values of a sequence are those of its second part. -/
theorem Yields.bind {Q : α → Prop} {R : β → Prop} {p : Program E ε α} {rest : α → Program E ε β}
    (yields : p.Yields Q) (second : ∀ value, Q value → (rest value).Yields R) :
    (p.bind rest).Yields R := by
  induction p with
  | done value => exact second value yields
  | halt ending => trivial
  | call request next ih => exact fun answer => ih answer (yields answer)

end Program

namespace Program

variable {E : Interface} {ε ε' α β S : Type}

/-- From this configuration on, every configuration of every run satisfies `I`, and a run that
ends or halts satisfies `post` there. -/
def Safe (f : Effect E S) (I : Program E ε α → S → Prop) (post : Except ε α → S → Prop) :
    Program E ε α → S → Prop
  | .done value, s => I (.done value) s ∧ post (.ok value) s
  | .halt ending, s => I (.halt ending) s ∧ post (.error ending) s
  | .call request next, s => I (.call request next) s ∧
      ∀ answer s', f request answer s = some s' → Safe f I post (next answer) s'

/-- `Safe` for an invariant of the state alone. -/
abbrev Always (f : Effect E S) (J : S → Prop) (post : Except ε α → S → Prop)
    (p : Program E ε α) (s : S) : Prop := p.Safe f (fun _ => J) post s

namespace Safe

variable {f : Effect E S} {I I' : Program E ε α → S → Prop} {post post' : Except ε α → S → Prop}

/-- A safe configuration satisfies its invariant. -/
theorem invariant {p : Program E ε α} {s : S} (safe : p.Safe f I post s) : I p s := by
  cases p with
  | done value => exact safe.1
  | halt ending => exact safe.1
  | call request next => exact safe.1

/-- Safety is kept by every run. -/
theorem reaches {p q : Program E ε α} {s t : S} (safe : p.Safe f I post s)
    (run : Reaches f p s q t) : q.Safe f I post t := by
  induction run with
  | refl => exact safe
  | step taken _ ih => exact ih (safe.2 _ _ taken)

/-- A stronger invariant and postcondition give safety for weaker ones. -/
theorem mono {p : Program E ε α} {s : S} (safe : p.Safe f I post s)
    (weaker : ∀ q t, I q t → I' q t) (after : ∀ r t, post r t → post' r t) :
    p.Safe f I' post' s := by
  induction p generalizing s with
  | done value => exact ⟨weaker _ _ safe.1, after _ _ safe.2⟩
  | halt ending => exact ⟨weaker _ _ safe.1, after _ _ safe.2⟩
  | call request next ih =>
    exact ⟨weaker _ _ safe.1, fun answer s' taken => ih answer (safe.2 answer s' taken)⟩

end Safe

variable {f : Effect E S}

/-- The sequencing rule: the second program is safe wherever the first ends, and the first is
safe for the invariant read through the sequence. -/
theorem Safe.bind {I : Program E ε β → S → Prop} {post : Except ε β → S → Prop}
    {p : Program E ε α} {rest : α → Program E ε β} {s : S}
    (safe : p.Safe f (fun q t => I (q.bind rest) t)
      (fun r t => match r with
        | .ok value => (rest value).Safe f I post t
        | .error ending => post (.error ending) t) s) :
    (p.bind rest).Safe f I post s := by
  induction p generalizing s with
  | done value => exact safe.2
  | halt ending => exact safe
  | call request next ih =>
    exact ⟨safe.1, fun answer s' taken => ih answer (safe.2 answer s' taken)⟩

/-- A condition on the value and the state where a program ends; nothing is asked of a halt. -/
def Returning (Q : α → S → Prop) : Except ε α → S → Prop
  | .ok value, s => Q value s
  | .error _, _ => True

/-- Every run from this configuration that ends with a value satisfies `Q` there. -/
abbrev Ends (f : Effect E S) (Q : α → S → Prop) (p : Program E ε α) (s : S) : Prop :=
  p.Safe f (fun _ _ => True) (Returning Q) s

namespace Ends

variable {Q Q' : α → S → Prop}

/-- A weaker condition holds as well. -/
theorem mono {p : Program E ε α} {s : S} (ends : p.Ends f Q s)
    (weaker : ∀ value t, Q value t → Q' value t) : p.Ends f Q' s := by
  apply Safe.mono ends (fun _ _ => id)
  intro result t holds
  cases result with
  | ok value => exact weaker value t holds
  | error ending => exact trivial

/-- The sequencing rule. -/
theorem bind {R : β → S → Prop} {p : Program E ε α} {rest : α → Program E ε β} {s : S}
    (first : p.Ends f Q s) (second : ∀ value t, Q value t → (rest value).Ends f R t) :
    (p.bind rest).Ends f R s := by
  apply Safe.bind
  apply Safe.mono first (fun _ _ => id)
  intro result t holds
  cases result with
  | ok value => exact second value t holds
  | error ending => exact trivial

/-- The rule for one call. -/
theorem call {request : E.Call} {next : E.Answer request → Program E ε α} {s : S}
    (each : ∀ answer t, f request answer s = some t → (next answer).Ends f Q t) :
    (Program.call request next).Ends f Q s :=
  ⟨trivial, each⟩

/-- What holds of the ends holds of the end of a run. -/
theorem of_run {p : Program E ε α} {value : α} {s t : S} (ends : p.Ends f Q s)
    (run : Reaches f p s (.done value) t) : Q value t :=
  (Safe.reaches ends run).2

end Ends

/-- Every call the program can make, whatever is answered, satisfies `P`. -/
def Uses (P : E.Call → Prop) : Program E ε α → Prop
  | .done _ => True
  | .halt _ => True
  | .call request next => P request ∧ ∀ answer, (next answer).Uses P

namespace Uses

variable {P P' : E.Call → Prop}

/-- A program that uses fewer calls uses only these. -/
theorem mono {p : Program E ε α} (uses : p.Uses P) (wider : ∀ request, P request → P' request) :
    p.Uses P' := by
  induction p with
  | done value => trivial
  | halt ending => trivial
  | call request next ih => exact ⟨wider _ uses.1, fun answer => ih answer (uses.2 answer)⟩

/-- What is left of a program uses no other calls. -/
theorem reaches {p q : Program E ε α} {s t : S} (uses : p.Uses P) (run : Reaches f p s q t) :
    q.Uses P := by
  induction run with
  | refl => exact uses
  | step _ _ ih => exact ih (uses.2 _)

/-- A sequence uses what its parts use. -/
theorem bind {p : Program E ε α} {rest : α → Program E ε β} (first : p.Uses P)
    (second : ∀ value, (rest value).Uses P) : (p.bind rest).Uses P := by
  induction p with
  | done value => exact second value
  | halt ending => trivial
  | call request next ih => exact ⟨first.1, fun answer => ih answer (first.2 answer)⟩

/-- A caught halt uses what the program and the handler use. -/
theorem onHalt {p : Program E ε α} {handler : ε → Program E ε' α} (first : p.Uses P)
    (second : ∀ ending, (handler ending).Uses P) : (p.onHalt handler).Uses P := by
  induction p with
  | done value => trivial
  | halt ending => exact second ending
  | call request next ih => exact ⟨first.1, fun answer => ih answer (first.2 answer)⟩

/-- A program keeps every invariant that all the calls it uses keep. -/
theorem always {J : S → Prop} {p : Program E ε α} {s : S} (uses : p.Uses P)
    (keeps : ∀ request answer t t', P request → f request answer t = some t' → J t → J t')
    (start : J s) : p.Always f J (fun _ t => J t) s := by
  induction p generalizing s with
  | done value => exact ⟨start, start⟩
  | halt ending => exact ⟨start, start⟩
  | call request next ih =>
    exact ⟨start, fun answer s' taken =>
      ih answer (uses.2 answer) (keeps request answer s s' uses.1 taken start)⟩

/-- A program of calls that leave the state as it is leaves it as it is. -/
theorem ends {p : Program E ε α} {s : S} (uses : p.Uses P)
    (keeps : ∀ request answer t t', P request → f request answer t = some t' → t' = t) :
    p.Ends f (fun _ t => t = s) s := by
  have same : p.Always f (fun t => t = s) (fun _ t => t = s) s :=
    uses.always (fun request answer t t' silent taken before =>
      (keeps request answer t t' silent taken).trans before) rfl
  apply Safe.mono same (fun _ _ _ => trivial)
  intro result t holds
  cases result with
  | ok value => exact holds
  | error ending => exact trivial

end Uses

end Program

end Interaction
