import Mdp.Roles
import Mdp.Scenario

/-!
# Signals and the pipe between mdp, gpg and the watcher

In every interleaving of a process with the processes it starts, whatever fails in them and wherever
`SIGINT` interrupts them, the process starts at most two others, waits for the first before it stops
the second, and the second may only stop the first. While the process reads from the pipe, nobody
but the first child can write to it, and what becomes gpg has its output on the pipe and nothing
else of it.
-/

namespace Mdp.GpgChildren

open Mdp Interaction CStrings HardLinks

/-- The kinds of processes. -/
inductive Kind where
  /-- The process that was started first. -/
  | process
  /-- What is to become gpg. -/
  | gpg
  /-- What watches gpg. -/
  | watcher (gpg : Nat)
  deriving DecidableEq

/-- The kind of process in a role. -/
def kind : Role → Kind
  | .child _ => .gpg
  | .writer _ => .gpg
  | .joined _ => .gpg
  | .ready => .gpg
  | .replaced => .gpg
  | .watching _ gpg => .watcher gpg
  | .hasStopped _ gpg => .watcher gpg
  | _ => .process

/-- The children that a role knows of. -/
def children : Role → List Nat
  | .parent _ gpg => [gpg]
  | .reader _ gpg => [gpg]
  | .opened _ gpg _ => [gpg]
  | .watched _ gpg watcher _ => [gpg, watcher]
  | .closed gpg watcher => [gpg, watcher]
  | .gpgExited gpg watcher => [gpg, watcher]
  | .complete gpg watcher => [gpg, watcher]
  | _ => []

/-- The kind of a child, by its number. -/
def kindOf : List Nat → Nat → Option Kind
  | [gpg], pid => if pid = gpg then some .gpg else none
  | [gpg, watcher], pid =>
    if pid = gpg then some .gpg else if pid = watcher then some (.watcher gpg) else none
  | _, _ => none

/-- Every child has a kind. -/
theorem kindOf_mem {known : List Nat} {pid : Nat} (few : known.length ≤ 2) (child : pid ∈ known) :
    kindOf known pid ≠ none := by
  match known, few with
  | [], _ => cases child
  | [gpg], _ => simp_all [kindOf]
  | [gpg, watcher], _ =>
    by_cases first : pid = gpg
    · simp [kindOf, first]
    · simp_all [kindOf]

/-- No role knows of more than two. -/
theorem children_length (role : Role) : (children role).length ≤ 2 := by
  cases role <;> simp [children]

/-- The roles agree: the first process is in its own, and the others are the children it knows of,
each of its kind. -/
structure RolesAgree (root : Nat) (stages : Nat → Option Role) (rootRole : Role) : Prop where
  role : stages root = some rootRole
  process : kind rootRole = .process
  distinct : (root :: children rootRole).Nodup
  others : ∀ pid, pid ≠ root → (stages pid).map kind = kindOf (children rootRole) pid

variable {key : Option Bytes} {request : Call} {answer : Call.Answer request} {root pid : Nat}
  {stages : Nat → Option Role} {role rootRole : Role} {s s' : State}

/-- An answer that creates no process changes no kind, and no children. -/
theorem advance_of_spawned_none (allowed : role.Allowed key request)
    (taken : effect request answer s = some s') (single : spawned request answer = none) :
    kind (role.advance request answer) = kind role ∧
      children (role.advance request answer) = children role := by
  rcases allowed with plain | may
  · rw [Role.advance_plain plain]
    exact ⟨rfl, rfl⟩
  · have notChild : ∀ {answer : Fork}, effect .fork answer s = some s' →
        spawned .fork answer = none → answer = .failed := by
      intro answer taken single
      cases answer with
      | failed => rfl
      | child => exact absurd rfl (effect_fork taken).2
      | parent child => cases single
    cases may with
    | pipe => cases answer <;> exact ⟨rfl, rfl⟩
    | forkGpg =>
      rw [notChild taken single]
      exact ⟨rfl, rfl⟩
    | forkWatcher =>
      rw [notChild taken single]
      exact ⟨rfl, rfl⟩
    | waitpid => cases answer <;> exact ⟨rfl, rfl⟩
    | stop => cases answer <;> exact ⟨rfl, rfl⟩
    | probe => cases answer <;> exact ⟨rfl, rfl⟩
    | close settled =>
      rw [Role.advance_close settled]
      exact ⟨rfl, rfl⟩
    | fdopen => exact ⟨rfl, rfl⟩
    | fgets => exact ⟨rfl, rfl⟩
    | cancel => exact ⟨rfl, rfl⟩
    | _ => cases answer <;> exact ⟨rfl, rfl⟩

/-- An answer that creates somebody is one to the first process. It knows of the new child then, and
of its kind. -/
structure AddsChild (role next born : Role) (child : Nat) : Prop where
  before : kind role = .process
  after : kind next = .process
  knows : children next = children role ++ [child]
  ofKind : kindOf (children role ++ [child]) child = some (kind born)
  others : ∀ pid, pid ≠ child → kindOf (children role ++ [child]) pid = kindOf (children role) pid

/-- An answer that creates a process adds it to the children known. -/
theorem addsChild_of_spawned {child : Nat} {other : Call.Answer request}
    (allowed : role.Allowed key request) (double : spawned request answer = some (child, other))
    (new : child ∉ children role) :
    AddsChild role (role.advance request answer) (role.advance request other) child := by
  have forked : ∀ {answer other : Fork}, spawned .fork answer = some (child, other) →
      answer = .parent child ∧ other = .child := by
    intro answer other double
    cases answer with
    | failed => cases double
    | child => cases double
    | parent pid =>
      cases double
      exact ⟨rfl, rfl⟩
  rcases allowed with plain | may
  · cases request with
    | fork => exact plain.elim
    | _ => cases double
  · cases may with
    | forkGpg =>
      obtain ⟨rfl, rfl⟩ := forked double
      exact ⟨rfl, rfl, rfl, if_pos rfl, fun pid different => if_neg different⟩
    | @forkWatcher pout gpg fp =>
      obtain ⟨rfl, rfl⟩ := forked double
      have different : child ≠ gpg := by simpa [children] using new
      refine ⟨rfl, rfl, rfl, ?_, fun pid other => ?_⟩
      · simp [children, kindOf, different, Role.advance, kind]
      · simp [children, kindOf, other]
    | _ => cases double

/-- A process that creates no other remains of its kind. -/
theorem RolesAgree.turn (agree : RolesAgree root stages rootRole) (there : stages pid = some role)
    {after : Role} (same : kind after = kind role ∧ children after = children role) :
    ∃ rootRole', RolesAgree root (Function.update stages pid (some after)) rootRole' := by
  by_cases first : pid = root
  · subst first
    have found : role = rootRole := Option.some.inj (there.symm.trans agree.role)
    subst found
    refine ⟨after, Function.update_self .., same.1.trans agree.process, ?_, fun other different =>
      ?_⟩
    · rw [same.2]
      exact agree.distinct
    · rw [Function.update_of_ne different, same.2]
      exact agree.others other different
  · refine ⟨rootRole, ?_, agree.process, agree.distinct, fun other different => ?_⟩
    · rw [Function.update_of_ne (Ne.symm first)]
      exact agree.role
    · by_cases own : other = pid
      · subst own
        have before := agree.others other different
        rw [there] at before
        rw [Function.update_self, Option.map_some, same.1]
        exact before
      · rw [Function.update_of_ne own]
        exact agree.others other different

/-- Only the first process is of its kind. -/
theorem RolesAgree.eq_root (agree : RolesAgree root stages rootRole)
    (there : stages pid = some role)
    (process : kind role = .process) : pid = root ∧ role = rootRole := by
  by_cases first : pid = root
  · subst first
    exact ⟨rfl, Option.some.inj (there.symm.trans agree.role)⟩
  · have found := agree.others pid first
    rw [there, Option.map_some, process] at found
    have never : ∀ known, kindOf known pid ≠ some .process := by
      intro known
      unfold kindOf
      split
      · split <;> simp
      · split
        · simp
        · split <;> simp
      · simp
    exact absurd found.symm (never _)

/-- A number that no process has is not one of a child. -/
theorem RolesAgree.unknown_child (agree : RolesAgree root stages rootRole) {child : Nat}
    (free : stages child = none) :
    child ≠ root ∧ child ∉ children rootRole := by
  have other : child ≠ root := by
    rintro rfl
    rw [agree.role] at free
    cases free
  have found := agree.others child other
  rw [free, Option.map_none] at found
  exact ⟨other, fun known => kindOf_mem (children_length rootRole) known found.symm⟩

/-- Nor does anyone else know of it. -/
theorem RolesAgree.notMem_children (agree : RolesAgree root stages rootRole)
    (there : stages pid = some role) {child : Nat}
    (free : stages child = none) : child ∉ children role := by
  by_cases process : kind role = .process
  · rw [(agree.eq_root there process).2]
    exact (agree.unknown_child free).2
  · cases role <;> first | exact absurd rfl process | exact List.not_mem_nil

/-- A child is created. -/
theorem RolesAgree.fork (agree : RolesAgree root stages rootRole) (there : stages pid = some role)
    {after born : Role}
    {child : Nat} (free : stages child = none) (adds : AddsChild role after born child) :
    ∃ rootRole', RolesAgree root
      (Function.update (Function.update stages pid (some after)) child (some born)) rootRole' := by
  obtain ⟨rfl, rfl⟩ := agree.eq_root there adds.before
  obtain ⟨other, unknown⟩ := agree.unknown_child free
  refine ⟨after, ?_, adds.after, ?_, fun mine different => ?_⟩
  · rw [Function.update_of_ne (Ne.symm other), Function.update_self]
  · rw [adds.knows, ← List.cons_append]
    refine List.nodup_append.mpr ⟨agree.distinct, by simp, ?_⟩
    rintro known inside _ alone rfl
    rw [List.mem_singleton.mp alone] at inside
    rcases List.mem_cons.mp inside with same | inside
    · exact other same
    · exact unknown inside
  · rw [adds.knows]
    by_cases new : mine = child
    · subst new
      rw [Function.update_self, Option.map_some, adds.ofKind]
    · rw [Function.update_of_ne new, Function.update_of_ne different, adds.others mine new]
      exact agree.others mine different

/-- What fits the role of each process, of what is noted of it, under a condition on the answers:
every answer keeps it, and a child is born with it. -/
structure RoleInvariant (key : Option Bytes) (sound : (request : Call) → Call.Answer request → Prop)
    (Fits : Role → Ledger → Prop) : Prop where
  first : Fits .single .empty
  turn : ∀ role request answer ledger s s', role.Allowed key request → sound request answer →
    effect request answer s = some s' → Fits role ledger →
    Fits (role.advance request answer) (ledger.note request answer)
  child : ∀ role request answer other ledger child, role.Allowed key request →
    spawned request answer = some (child, other) → Fits role ledger →
    Fits (role.advance request other) (ledger.note request answer).child

/-- It fits every process, and nothing is noted of a number that no process has. -/
structure Fitting (Fits : Role → Ledger → Prop) (stages : Nat → Option Role) (notes : Ledgers) :
    Prop where
  fits : ∀ pid role, stages pid = some role → Fits role (notes pid)
  nobody : ∀ pid, stages pid = none → notes pid = .empty

section Run

variable {Fits : Role → Ledger → Prop} {sound : (request : Call) → Call.Answer request → Prop}
  {notes : Ledgers} {after : Role} {ledger : Ledger}

/-- One of the processes goes on, or a new one is there. -/
theorem Fitting.update (fitting : Fitting Fits stages notes) (fits : Fits after ledger) :
    Fitting Fits (Function.update stages pid (some after)) (Function.update notes pid ledger) := by
  refine ⟨fun other role there => ?_, fun other free => ?_⟩
  · by_cases own : other = pid
    · subst own
      rw [Function.update_self] at there ⊢
      rw [← Option.some.inj there]
      exact fits
    · rw [Function.update_of_ne own] at there ⊢
      exact fitting.fits other role there
  · by_cases own : other = pid
    · subst own
      rw [Function.update_self] at free
      cases free
    · rw [Function.update_of_ne own] at free ⊢
      exact fitting.nobody other free

/-- In every run it fits every process, and the roles agree. -/
theorem held_run {cfg : Config} {L : CLocale} {command : Command.Edits}
    (rule : RoleInvariant cfg.gpgKeyId sound Fits) {x t : Ledgers × Processes}
    {qs : Nat → Option (Prog Unit)}
    (run : Forked (notedProcesses cfg) (fun _ request answer _ => sound request answer) (fun _ _ =>
      True) (alone root (process cfg L command)) x qs t) (blank : ∀ pid, x.1 pid = .empty) :
    ∃ stages, Staged (roles cfg.gpgKeyId) (fun _ _ => True) qs stages ∧
      (∃ rootRole, RolesAgree root stages rootRole) ∧ Fitting Fits stages t.1 := by
  have first : RolesAgree root (Function.update (fun _ => none) root (some .single)) .single := by
    refine ⟨Function.update_self .., rfl, by simp [children], fun pid other => ?_⟩
    rw [Function.update_of_ne other]
    rfl
  have start : Fitting Fits (Function.update (fun _ => none) root (some .single)) x.1 := by
    have nobody : Fitting Fits (fun _ => none) x.1 := by
      refine ⟨fun pid role there => ?_, fun pid _ => blank pid⟩
      cases there
    have updated := @Fitting.update root _ _ _ _ _ nobody rule.first
    rw [← blank root, Function.update_eq_self] at updated
    exact updated
  refine Staged.forked (J := fun stages x => (∃ rootRole, RolesAgree root stages rootRole) ∧
    Fitting Fits stages x.1) ?_ ?_ ?_ run (.alone (process_roles cfg L command)) ⟨⟨_, first⟩, start⟩
  · rintro stages pid role request answer x y there allowed permitted taken single
      ⟨⟨rootRole, agree⟩, held⟩
    have single : spawned request answer = none := single
    obtain ⟨processes, done, rfl⟩ := Option.map_eq_some_iff.mp taken
    obtain ⟨state, taken, _⟩ := Option.map_eq_some_iff.mp done
    refine ⟨agree.turn there (advance_of_spawned_none allowed taken single), ?_⟩
    simp only [Ledgers.note, single]
    exact held.update (rule.turn _ _ _ _ _ _ allowed permitted taken (held.fits pid role there))
  · rintro stages pid child role request answer other x y there allowed permitted taken double free
      ⟨⟨rootRole, agree⟩, held⟩
    have double : spawned request answer = some (child, other) := double
    obtain ⟨processes, done, rfl⟩ := Option.map_eq_some_iff.mp taken
    obtain ⟨state, taken, _⟩ := Option.map_eq_some_iff.mp done
    have fits := held.fits pid role there
    have adds := addsChild_of_spawned allowed double (agree.notMem_children there free)
    refine ⟨agree.fork there free adds, ?_⟩
    simp only [Ledgers.note, double]
    exact (held.update (rule.turn _ _ _ _ _ _ allowed permitted taken fits)).update
      (rule.child _ _ _ _ _ _ allowed double fits)
  · intro stages pid role p x y there follows _ caught held
    obtain ⟨processes, _, rfl⟩ := Option.map_eq_some_iff.mp caught
    exact ⟨interrupted_roles follows, held⟩

end Run

/-- All that the first process may do to its children, in this order. -/
def parentActs (gpg watcher : Nat) : List Act :=
  [.forks gpg, .forks watcher, .awaits gpg, .signals watcher .int]

/-- What a role says of the acts. -/
def Acted : Role → List Act → Prop
  | .parent _ gpg, acts => acts = [.forks gpg]
  | .reader _ gpg, acts => acts = [.forks gpg]
  | .opened _ gpg _, acts => acts = [.forks gpg]
  | .watched _ gpg watcher _, acts => acts = [.forks gpg, .forks watcher]
  | .closed gpg watcher, acts => acts = [.forks gpg, .forks watcher]
  | .gpgExited gpg watcher, acts => acts = [.forks gpg, .forks watcher, .awaits gpg]
  | .complete gpg watcher, acts => acts <+: parentActs gpg watcher
  | .replaced, acts => acts = [.becomes]
  | .hasStopped _ gpg, acts => acts = [.signals gpg .int]
  | _, acts => acts = []

/-- An act that is not one leaves them as they are. -/
theorem Acted.idle {acts : List Act} (acted : Acted role acts)
    (none : Mdp.acted request answer = []) :
    Acted role (acts ++ Mdp.acted request answer) := by
  rw [none, List.append_nil]
  exact acted

/-- Every answer keeps what the roles say of the acts. -/
theorem acted_turn {ledger : Ledger} (allowed : role.Allowed key request)
    (taken : effect request answer s = some s') (fits : Acted role ledger.acts) :
    Acted (role.advance request answer) (ledger.note request answer).acts := by
  show Acted _ (ledger.acts ++ acted request answer)
  generalize ledger.acts = acts at fits
  rcases allowed with plain | may
  · rw [Role.advance_plain plain]
    exact fits.idle (acted_plain plain)
  · cases may with
    | pipe => cases answer <;> exact fits.idle rfl
    | forkGpg =>
      cases answer with
      | failed => exact fits.idle rfl
      | child => exact absurd rfl (effect_fork taken).2
      | parent gpg =>
        rw [show acts = [] from fits]
        rfl
    | forkWatcher =>
      cases answer with
      | failed => exact fits.idle rfl
      | child => exact absurd rfl (effect_fork taken).2
      | parent watcher =>
        rw [show acts = _ from fits]
        rfl
    | waitpid =>
      rw [show acts = _ from fits]
      cases answer with
      | failed signaled => rfl
      | signaled => exact ⟨[_], rfl⟩
      | exited status => rfl
    | cancel =>
      rw [show acts = _ from fits]
      cases answer with
      | sent => exact ⟨[], rfl⟩
      | esrch => exact ⟨[_], rfl⟩
      | failed => exact ⟨[_], rfl⟩
    | execAtOnce =>
      rw [show acts = [] from fits]
      cases answer <;> rfl
    | exec =>
      rw [show acts = [] from fits]
      cases answer <;> rfl
    | stop =>
      rw [show acts = [] from fits]
      cases answer <;> rfl
    | probe => cases answer <;> exact fits.idle rfl
    | close settled =>
      rw [Role.advance_close settled]
      cases answer <;> exact fits.idle rfl
    | fdopen => cases answer <;> exact fits.idle rfl
    | fgets => exact fits.idle rfl
    | _ => cases answer <;> exact fits.idle rfl

/-- A child has done nothing yet. -/
theorem acted_child {ledger : Ledger} {child : Nat} {other : Call.Answer request}
    (allowed : role.Allowed key request) (double : spawned request answer = some (child, other)) :
    Acted (role.advance request other) (ledger.note request answer).child.acts := by
  have forked : ∀ {answer other : Fork}, spawned .fork answer = some (child, other) →
      other = .child := by
    intro answer other double
    cases answer <;> cases double
    rfl
  rcases allowed with plain | may
  · cases request with
    | fork => exact plain.elim
    | _ => cases double
  · cases may with
    | forkGpg =>
      rw [forked double]
      rfl
    | forkWatcher =>
      rw [forked double]
      rfl
    | _ => cases double

/-- What the roles say of the acts holds of every process in every run. -/
theorem acted_invariant (key : Option Bytes) :
    RoleInvariant key (fun _ _ => True) (fun role ledger => Acted role ledger.acts) := by
  refine ⟨rfl, ?_, ?_⟩
  · exact fun role request answer ledger s s' allowed _ taken fits => acted_turn allowed taken fits
  · exact fun role request answer other ledger child allowed double _ => acted_child allowed double

/-- The acts of each process: those of the first, of the one that is to become gpg and of the
watcher, and nothing of anyone else. -/
structure SignalsInOrder (root gpg watcher : Nat) (notes : Ledgers) : Prop where
  distinct : [root, gpg, watcher].Nodup
  first : (notes root).acts <+: parentActs gpg watcher
  second : (notes gpg).acts <+: [.becomes]
  third : (notes watcher).acts <+: [.signals gpg .int]
  others : ∀ pid, pid ∉ [root, gpg, watcher] → (notes pid).acts = []

/-- Numbers for the children, also for those that are not there yet. -/
theorem numbers {known : List Nat} (few : known.length ≤ 2) (distinct : (root :: known).Nodup) :
    ∃ gpg watcher, [root, gpg, watcher].Nodup ∧
      (known = [] ∨ known = [gpg] ∨ known = [gpg, watcher]) := by
  match known, few, distinct with
  | [], _, _ => exact ⟨root + 1, root + 2, by simp, .inl rfl⟩
  | [gpg], _, distinct =>
    have different : root ≠ gpg := by simpa using distinct
    refine ⟨gpg, root + gpg + 1, ?_, .inr (.inl rfl)⟩
    simp only [List.nodup_cons, List.mem_cons, List.not_mem_nil, or_false, not_false_eq_true,
      List.nodup_nil, and_true]
    omega
  | [gpg, watcher], _, distinct => exact ⟨gpg, watcher, distinct, .inr (.inr rfl)⟩

/-- A child that has a number has one of these. -/
theorem kindOf_numbers {known : List Nat} {gpg watcher : Nat} (pid : Nat)
    (found : known = [] ∨ known = [gpg] ∨ known = [gpg, watcher]) :
    (pid = gpg ∧ kindOf known pid = some .gpg) ∨
      (pid = watcher ∧ kindOf known pid = some (.watcher gpg)) ∨ kindOf known pid = none := by
  rcases found with rfl | rfl | rfl
  · exact .inr (.inr rfl)
  · by_cases first : pid = gpg
    · exact .inl ⟨first, if_pos first⟩
    · exact .inr (.inr (if_neg first))
  · by_cases first : pid = gpg
    · exact .inl ⟨first, if_pos first⟩
    · by_cases second : pid = watcher
      · exact .inr (.inl ⟨second, (if_neg first).trans (if_pos second)⟩)
      · exact .inr (.inr ((if_neg first).trans (if_neg second)))

/-- The acts of a process that is to become gpg. -/
theorem Acted.second {acts : List Act} (acted : Acted role acts) (gpg : kind role = .gpg) :
    acts <+: [.becomes] := by
  cases role with
  | replaced =>
    have only : acts = _ := acted
    subst only
    exact List.prefix_refl _
  | child | writer | joined | ready =>
    rw [show acts = [] from acted]
    exact List.nil_prefix
  | _ => cases gpg

/-- The acts of a watcher. -/
theorem Acted.third {acts : List Act} {gpg : Nat} (acted : Acted role acts)
    (watcher : kind role = .watcher gpg) : acts <+: [.signals gpg .int] := by
  cases role with
  | hasStopped =>
    cases watcher
    have only : acts = _ := acted
    subst only
    exact List.prefix_refl _
  | watching =>
    rw [show acts = [] from acted]
    exact List.nil_prefix
  | _ => cases watcher

/-- The acts of the first process. -/
theorem Acted.first {acts : List Act} {gpg watcher : Nat} (acted : Acted role acts)
    (process : kind role = .process)
    (found : children role = [] ∨ children role = [gpg] ∨ children role = [gpg, watcher]) :
    acts <+: parentActs gpg watcher := by
  cases role <;> simp_all [children, kind, Acted, parentActs]

/-- Where the roles agree, what fits them is in order. -/
theorem signalsInOrder_of_agree {notes : Ledgers} (agree : RolesAgree root stages rootRole)
    (fitting : Fitting (fun role ledger => Acted role ledger.acts) stages notes) :
    ∃ gpg watcher, SignalsInOrder root gpg watcher notes := by
  obtain ⟨gpg, watcher, distinct, found⟩ := numbers (children_length rootRole) agree.distinct
  have empty : ∀ pid, stages pid = none → (notes pid).acts = [] := by
    intro pid free
    rw [fitting.nobody pid free]
    rfl
  have placed : ∀ pid kind', pid ≠ root → kindOf (children rootRole) pid = some kind' →
      ∃ role, kind role = kind' ∧ Acted role (notes pid).acts := by
    intro pid kind' other named
    rw [← agree.others pid other] at named
    obtain ⟨role, there, ofKind⟩ := Option.map_eq_some_iff.mp named
    exact ⟨role, ofKind, fitting.fits pid role there⟩
  have unnamed : ∀ pid, pid ≠ root → kindOf (children rootRole) pid = none →
      (notes pid).acts = [] := by
    intro pid other named
    rw [← agree.others pid other] at named
    exact empty pid (Option.map_eq_none_iff.mp named)
  simp only [List.nodup_cons, List.mem_cons, List.not_mem_nil, or_false, not_or, not_false_eq_true,
    List.nodup_nil, and_true] at distinct
  obtain ⟨⟨gpgOther, watcherOther⟩, different⟩ := distinct
  refine ⟨gpg, watcher, by simp [gpgOther, watcherOther, different], ?_, ?_, ?_, ?_⟩
  · exact (fitting.fits root rootRole agree.role).first agree.process found
  · rcases kindOf_numbers gpg found with ⟨_, named⟩ | ⟨same, _⟩ | named
    · obtain ⟨role, ofKind, acted⟩ := placed gpg _ (Ne.symm gpgOther) named
      exact acted.second ofKind
    · exact absurd same different
    · rw [unnamed gpg (Ne.symm gpgOther) named]
      exact List.nil_prefix
  · rcases kindOf_numbers watcher found with ⟨same, _⟩ | ⟨_, named⟩ | named
    · exact absurd same.symm different
    · obtain ⟨role, ofKind, acted⟩ := placed watcher _ (Ne.symm watcherOther) named
      exact acted.third ofKind
    · rw [unnamed watcher (Ne.symm watcherOther) named]
      exact List.nil_prefix
  · intro pid outside
    simp only [List.mem_cons, List.not_mem_nil, or_false, not_or] at outside
    obtain ⟨other, notGpg, notWatcher⟩ := outside
    rcases kindOf_numbers pid found with ⟨same, _⟩ | ⟨same, _⟩ | named
    · exact absurd same notGpg
    · exact absurd same notWatcher
    · exact unnamed pid other named

/-- In every run of a process and its children, in whatever order they take their turns, whatever
fails in them and wherever `SIGINT` interrupts them: the process creates one child and then another,
learns that the first has ended before it stops the second, and the second sends a signal to the
first at most. Each of this happens at most once, and nobody else creates, awaits or signals
anyone. -/
theorem signals_in_order (cfg : Config) (L : CLocale) (command : Command.Edits) (root : Nat)
    (x t : Ledgers × Processes) (blank : ∀ pid, x.1 pid = .empty) (qs : Nat → Option (Prog Unit))
    (run : Forked (notedProcesses cfg) (fun _ _ _ _ => True) (fun _ _ => True)
      (alone root (process cfg L command)) x qs t) :
    ∃ gpg watcher, SignalsInOrder root gpg watcher t.1 := by
  obtain ⟨stages, _, ⟨rootRole, agree⟩, fitting⟩ :=
    held_run (acted_invariant cfg.gpgKeyId) run blank
  exact signalsInOrder_of_agree agree fitting

/-- A process that has not begun, with a password file, and nothing noted. -/
def unwritten : Ledgers × Processes :=
  (fun _ => .empty, ⟨sampleFiles true, fun _ => .initial, fun _ => .none⟩)

/-- Every call succeeds, and the children are numbered as they are created. -/
def numbered (pid : Nat) : Oracle posix (Ledgers × Processes)
  | .fork, x => .parent ((x.1 pid).acts.length + 2)
  | request, x => succeeding request (x.2.view pid)

/-- A watcher whose time is over stops gpg, before the process learns that gpg has ended. -/
theorem signals_in_order_timeout : ∃ qs t,
    Forked (notedProcesses (sampleConfig true)) (fun _ _ _ _ => True) (fun _ _ => True)
      (alone 1 (process (sampleConfig true) .ascii .edit)) unwritten qs t ∧
    ((t.1 1).acts = parentActs 2 3 ∧ (t.1 3).acts = [.signals 2 .int]) ∧
    ∃ gpg watcher, SignalsInOrder 1 gpg watcher t.1 := by
  have good : (playForked (notedProcesses (sampleConfig true)) (fun _ _ _ _ => true) numbered
      (List.replicate 19 1 ++ List.replicate 5 2 ++ List.replicate 7 3 ++ List.replicate 4 1)
      (alone 1 (process (sampleConfig true) .ascii .edit)) unwritten).any
      (fun ended => decide ((ended.2.1 1).acts = parentActs 2 3 ∧
        (ended.2.1 3).acts = [.signals 2 .int])) = true := by decide +kernel
  obtain ⟨qs, t, run, acts⟩ := exists_of_playForked (fun _ _ _ _ _ => trivial) good
  exact ⟨qs, t, run, of_decide_eq_true acts,
    signals_in_order (sampleConfig true) .ascii .edit 1 unwritten t (fun _ => rfl) qs run⟩

/-- Nothing but this descriptor is on the pipe, at this end. -/
def OnlyOpen (fd : Nat) (side : PipeEnd) (table : Nat → Option PipeEnd) : Prop :=
  ∀ n, table n = if n = fd then some side else none

/-- Nothing is on the pipe. -/
def AllClosed (table : Nat → Option PipeEnd) : Prop := ∀ n, table n = none

/-- At most this descriptor is on the pipe, for reading. -/
def Reading (fd : Nat) (table : Nat → Option PipeEnd) : Prop :=
  ∀ n side, table n = some side → n = fd ∧ side = .reading

/-- The descriptors of a new pipe are different. -/
def distinctEnds : (request : Call) → Call.Answer request → Bool
  | .pipe, some pout => pout.1 != pout.2
  | _, _ => true

/-- What a role says of the descriptors and of the stream. -/
def HasDescriptors : Role → (Nat → Option PipeEnd) → Option Nat → Prop
  | .piped pout, table, _ => pout.1 ≠ pout.2 ∧ table = addPipe pout fun _ => none
  | .parent pout _, table, _ => pout.1 ≠ pout.2 ∧ table = addPipe pout fun _ => none
  | .reader pout _, table, _ => OnlyOpen pout.1 .reading table
  | .opened pout _ fp, table, stream =>
    OnlyOpen pout.1 .reading table ∧ (fp = true → stream = some pout.1)
  | .watched pout _ _ fp, table, stream =>
    Reading pout.1 table ∧ (fp = true → stream = some pout.1)
  | .child pout, table, _ => pout.1 ≠ pout.2 ∧ table = addPipe pout fun _ => none
  | .writer pout, table, _ => OnlyOpen pout.2 .writing table
  | .joined pout, table, _ =>
    ∀ n, table n = if n = pout.2 ∨ n = stdoutFileno then some .writing else none
  | .ready, table, _ => OnlyOpen stdoutFileno .writing table
  | .replaced, table, _ => OnlyOpen stdoutFileno .writing table
  | .watching pout _, table, _ => OnlyOpen pout.1 .reading table
  | .hasStopped pout _, table, _ => OnlyOpen pout.1 .reading table
  | _, table, _ => AllClosed table

/-- Closing one end of a new pipe leaves the other. -/
theorem only_reading {pout : Nat × Nat} (distinct : pout.1 ≠ pout.2) :
    OnlyOpen pout.1 .reading (Function.update (addPipe pout fun _ => none) pout.2 none) := by
  intro n
  by_cases first : n = pout.1
  · rw [if_pos first, first, Function.update_of_ne distinct, addPipe,
      Function.update_of_ne distinct, Function.update_self]
  · by_cases second : n = pout.2
    · rw [if_neg first, second, Function.update_self]
    · rw [if_neg first, Function.update_of_ne second, addPipe, Function.update_of_ne second,
        Function.update_of_ne first]

/-- Closing the other end leaves the first. -/
theorem only_writing {pout : Nat × Nat} (distinct : pout.1 ≠ pout.2) :
    OnlyOpen pout.2 .writing (Function.update (addPipe pout fun _ => none) pout.1 none) := by
  intro n
  by_cases second : n = pout.2
  · rw [if_pos second, second, Function.update_of_ne (Ne.symm distinct), addPipe,
      Function.update_self]
  · by_cases first : n = pout.1
    · rw [if_neg second, first, Function.update_self]
    · rw [if_neg second, Function.update_of_ne first, addPipe, Function.update_of_ne second,
        Function.update_of_ne first]

/-- Copying the one descriptor. -/
theorem OnlyOpen.copy {fd other : Nat} {side : PipeEnd} {table : Nat → Option PipeEnd}
    (only : OnlyOpen fd side table) (n : Nat) :
    Function.update table other (table fd) n = if n = fd ∨ n = other then some side else none := by
  by_cases copied : n = other
  · rw [copied, Function.update_self, only fd, if_pos rfl, if_pos (.inr rfl)]
  · rw [Function.update_of_ne copied, only n]
    simp [copied]

/-- What is only open for reading, and closed. -/
theorem Reading.close {fd : Nat} {table : Nat → Option PipeEnd} (reading : Reading fd table) :
    AllClosed (Function.update table fd none) := by
  intro n
  by_cases same : n = fd
  · rw [same, Function.update_self]
  · rw [Function.update_of_ne same]
    cases open' : table n with
    | none => rfl
    | some side => exact absurd (reading n side open').1 same

/-- What is only open for reading is open for reading at most. -/
theorem OnlyOpen.reading {fd : Nat} {table : Nat → Option PipeEnd}
    (only : OnlyOpen fd .reading table) :
    Reading fd table := by
  intro n side found
  rw [only n] at found
  split at found
  · exact ⟨‹_›, (Option.some.inj found).symm⟩
  · cases found

/-- Closing more. -/
theorem Reading.less {fd other : Nat} {table : Nat → Option PipeEnd} (reading : Reading fd table) :
    Reading fd (Function.update table other none) := by
  intro n side found
  by_cases same : n = other
  · rw [same, Function.update_self] at found
    cases found
  · rw [Function.update_of_ne same] at found
    exact reading n side found

/-- Closing more leaves everything closed. -/
theorem AllClosed.less {other : Nat} {table : Nat → Option PipeEnd} (off : AllClosed table) :
    AllClosed (Function.update table other none) := by
  intro n
  by_cases same : n = other
  · rw [same, Function.update_self]
  · rw [Function.update_of_ne same]
    exact off n

/-- The copy stays where the other descriptor is closed. -/
theorem only_copied {pout : Nat × Nat} {table : Nat → Option PipeEnd}
    (other : pout.2 ≠ stdoutFileno)
    (joined : ∀ n, table n = if n = pout.2 ∨ n = stdoutFileno then some .writing else none) :
    OnlyOpen stdoutFileno .writing (Function.update table pout.2 none) := by
  intro n
  by_cases same : n = pout.2
  · rw [same, Function.update_self, if_neg other]
  · rw [Function.update_of_ne same, joined n]
    simp [same]

/-- Every answer keeps what the roles say of the descriptors. -/
theorem hasDescriptors_turn {table : Nat → Option PipeEnd} {stream : Option Nat}
    (allowed : role.Allowed key request) (sound : distinctEnds request answer = true)
    (has : HasDescriptors role table stream) :
    HasDescriptors (role.advance request answer) (descriptorsAfter stream request answer table)
      (streamAfter stream request answer) := by
  rcases allowed with plain | may
  · rw [Role.advance_plain plain, descriptorsAfter_plain plain, streamAfter_plain plain]
    exact has
  · cases may with
    | pipe =>
      cases answer with
      | none => exact has
      | some pout =>
        refine ⟨bne_iff_ne.mp sound, ?_⟩
        rw [← show table = fun _ => none from funext has]
        rfl
    | forkGpg =>
      cases answer with
      | failed => exact has
      | child => exact has
      | parent gpg => exact has
    | closeWriting =>
      cases answer with
      | false => exact has
      | true =>
        obtain ⟨distinct, rfl⟩ := has
        exact only_reading distinct
    | fdopen =>
      cases answer with
      | false => exact ⟨has, nofun⟩
      | true => exact ⟨has, fun _ => rfl⟩
    | forkWatcher =>
      cases answer with
      | failed => exact has
      | child => exact has.1
      | parent watcher => exact ⟨has.1.reading, has.2⟩
    | fgets => exact has
    | fclose =>
      cases answer with
      | false => exact has
      | true =>
        show AllClosed (stream.elim table fun fd => Function.update table fd none)
        rw [has.2 rfl]
        exact has.1.close
    | waitpid => cases answer <;> exact has
    | cancel => exact has
    | closeReading =>
      cases answer with
      | false => exact has
      | true =>
        obtain ⟨distinct, rfl⟩ := has
        exact only_writing distinct
    | dup2 =>
      cases answer with
      | false => exact has
      | true => exact OnlyOpen.copy has
    | closeCopied other =>
      cases answer with
      | false => exact has
      | true => exact only_copied other has
    | @execAtOnce pout same =>
      cases answer with
      | false => exact has
      | true =>
        exact fun n => (has n).trans (by simp [same])
    | exec => cases answer <;> exact has
    | probe => cases answer <;> exact has
    | stop => cases answer <;> exact has
    | close settled fd =>
      rw [Role.advance_close settled]
      cases answer with
      | false => exact has
      | true =>
        cases role with
        | single => exact AllClosed.less has
        | watched => exact ⟨has.1.less, has.2⟩
        | complete => exact AllClosed.less has
        | _ => exact settled.elim

/-- What the roles say of the acts and of the descriptors. -/
structure FitsRole (role : Role) (ledger : Ledger) : Prop where
  acted : Acted role ledger.acts
  has : HasDescriptors role ledger.descriptors ledger.stream

/-- It holds of every process in every run in which the descriptors of each pipe differ. -/
theorem fitsRole_invariant (key : Option Bytes) :
    RoleInvariant key (fun request answer => distinctEnds request answer = true) FitsRole := by
  refine ⟨⟨rfl, fun _ => rfl⟩, ?_, ?_⟩
  · intro role request answer ledger s s' allowed sound taken fits
    exact ⟨acted_turn allowed taken fits.acted, hasDescriptors_turn allowed sound fits.has⟩
  · intro role request answer other ledger child allowed double fits
    refine ⟨acted_child allowed double, ?_⟩
    -- The child of a `fork` has the descriptors that its parent had before.
    cases request with
    | fork =>
      cases answer with
      | parent pid =>
        cases double
        exact @hasDescriptors_turn key .fork .child role _ _ allowed rfl fits.has
      | failed => cases double
      | child => cases double
    | _ => cases double

/-- Who can have the end for writing. -/
theorem HasDescriptors.writing {table : Nat → Option PipeEnd} {stream : Option Nat} {fd : Nat}
    (has : HasDescriptors role table stream) (found : table fd = some .writing) :
    kind role = .gpg ∨ (∃ pout, role = .piped pout) ∨ ∃ pout gpg, role = .parent pout gpg := by
  have reading : ∀ {fd'}, Reading fd' table → False := by
    intro fd' reading
    have side := (reading fd .writing found).2
    cases side
  have off : AllClosed table → False := by
    intro off
    rw [off fd] at found
    cases found
  cases role with
  | piped pout => exact .inr (.inl ⟨pout, rfl⟩)
  | parent pout gpg => exact .inr (.inr ⟨pout, gpg, rfl⟩)
  | child | writer | joined | ready | replaced => exact .inl rfl
  | reader | watching | hasStopped => exact (reading (OnlyOpen.reading has)).elim
  | opened => exact (reading has.1.reading).elim
  | watched => exact (reading has.1).elim
  | single | closed | gpgExited | complete => exact (off has).elim

/-- The pipe is where it belongs. -/
structure PipeInPlace (root : Nat) (qs : Nat → Option (Prog Unit)) (notes : Ledgers) : Prop where
  reads : ∀ next, qs root = some (.call (.fgets .pipe) next) →
    ∃ gpg, (notes root).acts.head? = some (.forks gpg) ∧
      ∀ pid fd, (notes pid).descriptors fd = some .writing → pid = gpg
  replaced : ∀ pid, .becomes ∈ (notes pid).acts →
    OnlyOpen stdoutFileno .writing (notes pid).descriptors
  awaited : ∀ pid, .awaits pid ∈ (notes root).acts → AllClosed (notes root).descriptors

/-- While the first process reads, only its first child can write to the pipe. -/
theorem FitsRole.reads {notes : Ledgers} (agree : RolesAgree root stages rootRole)
    (fitting : Fitting FitsRole stages notes) (allowed : rootRole.Allowed key (.fgets .pipe)) :
    ∃ gpg, (notes root).acts.head? = some (.forks gpg) ∧
      ∀ pid fd, (notes pid).descriptors fd = some .writing → pid = gpg := by
  rcases allowed with plain | may
  · exact plain.elim
  · cases may with
    | @fgets pout gpg watcher =>
      have acted : (notes root).acts = _ := (fitting.fits root _ agree.role).acted
      refine ⟨gpg, by rw [acted]; rfl, fun pid fd found => ?_⟩
      cases there : stages pid with
      | none =>
        rw [fitting.nobody pid there] at found
        cases found
      | some role =>
        have first : kind role = .process → role = .watched pout gpg watcher true :=
          fun process => (agree.eq_root there process).2
        rcases (fitting.fits pid role there).has.writing found with ofKind | ⟨_, rfl⟩ | ⟨_, _, rfl⟩
        · have other : pid ≠ root := by
            rintro rfl
            rw [Option.some.inj (there.symm.trans agree.role)] at ofKind
            cases ofKind
          have named := agree.others pid other
          rw [there, Option.map_some, ofKind] at named
          rcases @kindOf_numbers _ gpg watcher pid (.inr (.inr rfl)) with
            ⟨same, _⟩ | ⟨_, second⟩ | nobody
          · exact same
          · cases named.trans second
          · cases named.trans nobody
        · cases first rfl
        · cases first rfl

/-- What has become gpg. -/
theorem FitsRole.replaced {ledger : Ledger} (fitsRole : FitsRole role ledger)
    (became : .becomes ∈ ledger.acts) : role = .replaced := by
  obtain ⟨acted, _⟩ := fitsRole
  cases role with
  | replaced => rfl
  | complete =>
    have listed := acted.subset became
    simp [parentActs] at listed
  | _ =>
    rw [show ledger.acts = _ from acted] at became
    simp at became

/-- What has waited for gpg has nothing of the pipe. -/
theorem FitsRole.awaited {ledger : Ledger} {pid : Nat} (fitsRole : FitsRole role ledger)
    (waited : .awaits pid ∈ ledger.acts) : AllClosed ledger.descriptors := by
  obtain ⟨acted, has⟩ := fitsRole
  cases role with
  | gpgExited | complete => exact has
  | _ =>
    rw [show ledger.acts = _ from acted] at waited
    simp at waited

/-- In every run of a process and its children in which the descriptors of a new pipe differ, in
whatever order they take their turns, whatever else fails in them and wherever `SIGINT` interrupts
them: while the process reads from the pipe nobody but its first child can write to it, what has
become gpg has its output on the pipe and nothing else of it, and once the process has waited for
gpg it has nothing of the pipe. -/
theorem pipe_where_it_belongs (cfg : Config) (L : CLocale) (command : Command.Edits) (root : Nat)
    (x t : Ledgers × Processes) (blank : ∀ pid, x.1 pid = .empty) (qs : Nat → Option (Prog Unit))
    (run : Forked (notedProcesses cfg) (fun _ request answer _ => distinctEnds request answer =
      true) (fun _ _ => True) (alone root (process cfg L command)) x qs t) : PipeInPlace root qs
          t.1 := by
  obtain ⟨stages, staged, ⟨rootRole, agree⟩, fitting⟩ :=
    held_run (fitsRole_invariant cfg.gpgKeyId) run blank
  have noted : ∀ {pid}, (t.1 pid).acts ≠ [] → ∃ role, stages pid = some role := by
    intro pid acts
    cases there : stages pid with
    | none =>
      rw [fitting.nobody pid there] at acts
      exact absurd rfl acts
    | some role => exact ⟨role, rfl⟩
  refine ⟨fun next turn => ?_, fun pid became => ?_, fun pid waited => ?_⟩
  · obtain ⟨stage, there, allowed, _⟩ := staged.stage turn
    have same : stage = rootRole := Option.some.inj (there.symm.trans agree.role)
    subst same
    exact FitsRole.reads agree fitting allowed
  · obtain ⟨role, there⟩ := noted (List.ne_nil_of_mem became)
    have fitsRole := fitting.fits pid role there
    have replaced := fitsRole.replaced became
    subst replaced
    exact fitsRole.has
  · exact (fitting.fits root rootRole agree.role).awaited waited

/-- Whether a process is about to read from the pipe. -/
def readsPipe (qs : Nat → Option (Prog Unit)) (pid : Nat) : Bool :=
  match qs pid with
  | some (.call (.fgets .pipe) _) => true
  | _ => false

/-- The process reads from what has become gpg. -/
theorem pipe_where_it_belongs_reading : ∃ qs t,
    Forked (notedProcesses (sampleConfig true))
      (fun _ request answer _ => distinctEnds request answer = true) (fun _ _ => True)
      (alone 1 (process (sampleConfig true) .ascii .edit)) unwritten qs t ∧
    (readsPipe qs 1 = true ∧ (t.1 2).acts = [.becomes]) ∧ PipeInPlace 1 qs t.1 := by
  have good : (playForked (notedProcesses (sampleConfig true))
      (fun _ request answer _ => distinctEnds request answer) numbered
      (List.replicate 19 1 ++ List.replicate 5 2)
      (alone 1 (process (sampleConfig true) .ascii .edit)) unwritten).any
      (fun ended => decide (readsPipe ended.1 1 = true ∧ (ended.2.1 2).acts = [.becomes])) =
          true := by
    decide +kernel
  obtain ⟨qs, t, run, reading⟩ :=
    exists_of_playForked (fun _ _ _ _ passed => passed) good
  exact ⟨qs, t, run, of_decide_eq_true reading,
    pipe_where_it_belongs (sampleConfig true) .ascii .edit 1 unwritten t (fun _ => rfl) qs run⟩

end Mdp.GpgChildren
