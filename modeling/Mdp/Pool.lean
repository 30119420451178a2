import Mdp.Conformance
import Mdp.Frame
import Mdp.Library.Interleaving

/-!
# Processes that share the files

Any number of processes of one user run `mdp edit` or `mdp add` on the same files. Each has its own
globals; one step is one system call of one of them. Only the processes themselves take steps here,
not their children, and no signal arrives.
-/

namespace Mdp

open Interaction CStrings HardLinks

/-- What is remembered of a process since it has created the lock. -/
structure LockNotes where
  /-- The password file and its backup when it created the lock. -/
  opened : Option Node × Option Node
  /-- Whether it has begun to replace them. -/
  replaced : Bool

/-- The processes and their files. -/
structure Pool (ι : Type) where
  files : Files
  globals : ι → Globals
  stage : ι → Stage
  lockNotes : ι → LockNotes
  /-- What the last call that replaces the password file or its backup left of them. -/
  left : Option Node × Option Node

/-- What one of the processes sees. -/
def Pool.view {ι : Type} (pool : Pool ι) (i : ι) : State := ⟨pool.files, pool.globals i⟩

/-- The notes after an answer. -/
def LockNotes.note (entry : Entry posix State) (lockNotes : LockNotes) : LockNotes :=
  match entry with
  | ⟨.fopenWrite .lock, some _, after⟩ => ⟨stored after.files, false⟩
  | ⟨request, _, _⟩ => { lockNotes with replaced := lockNotes.replaced || request.replaces }

variable {ι : Type} [DecidableEq ι]

/-- The processes after an answer to one of them. -/
def Pool.turn (pool : Pool ι) (i : ι) (request : Call) (answer : Call.Answer request)
    (after : State) : Pool ι where
  files := after.files
  globals := Function.update pool.globals i after.globals
  stage := Function.update pool.stage i ((pool.stage i).advance request answer)
  lockNotes := Function.update pool.lockNotes i ((pool.lockNotes i).note ⟨request, answer, after⟩)
  left := if request.replaces then stored after.files else pool.left

section Turns

variable (pool : Pool ι) (i : ι) (request : Call) (answer : Call.Answer request) (after : State)

/-- The files are those that the answer has left. -/
@[simp] theorem Pool.turn_files : (pool.turn i request answer after).files = after.files := rfl

/-- The globals are those that the answer has left. -/
@[simp] theorem Pool.turn_globals_self :
    (pool.turn i request answer after).globals i = after.globals := Function.update_self ..

/-- The process is at the next stage. -/
@[simp] theorem Pool.turn_stage_self :
    (pool.turn i request answer after).stage i = (pool.stage i).advance request answer :=
  Function.update_self ..

/-- The answer is noted of the process. -/
@[simp] theorem Pool.turn_lockNotes_self :
    (pool.turn i request answer after).lockNotes i =
    (pool.lockNotes i).note ⟨request, answer, after⟩ :=
  Function.update_self ..

/-- The other processes are where they were. -/
@[simp] theorem Pool.turn_other {j : ι} (other : j ≠ i) :
    (pool.turn i request answer after).globals j = pool.globals j ∧
      (pool.turn i request answer after).stage j = pool.stage j ∧
      (pool.turn i request answer after).lockNotes j = pool.lockNotes j :=
  ⟨Function.update_of_ne other _ _, Function.update_of_ne other _ _,
    Function.update_of_ne other _ _⟩

end Turns

/-- The effect of a call of one of the processes. -/
def pooled (i : ι) : Effect posix (Pool ι) := fun request answer pool =>
  (effect request answer (pool.view i)).map (pool.turn i request answer)

/-- Processes that have not begun. -/
structure Pool.Starting (pool : Pool ι) : Prop where
  globals : ∀ i, pool.globals i = .initial
  stage : ∀ i, pool.stage i = .starting
  left : pool.left = stored pool.files

/-- In every interleaving of processes that run commands, what every allowed step keeps holds, and
each process follows its protocol. -/
theorem pool_run {cfg : ι → Config} {L : ι → CLocale} {command : ι → Command.Edits}
    {may : Turns posix (Pool ι) ι} {J : Pool ι → Prop}
    (keeps : ∀ i request (answer : Call.Answer request) pool after,
      (lifetime (cfg i) (L i) (command i)).allowed (pool.stage i) request →
      may i request answer pool → effect request answer (pool.view i) = some after →
      J pool → J (pool.turn i request answer after))
    {qs : ι → Prog Unit} {pool t : Pool ι}
    (run : Interleaved pooled may (fun i => process (cfg i) (L i) (command i)) pool qs t)
    (starting : pool.Starting) (start : J pool) :
    (∀ i, (qs i).Follows (lifetime (cfg i) (L i) (command i)) Ended (t.stage i)) ∧ J t := by
  refine Program.Follows.interleaved (g := Pool.stage)
    (P := fun i => lifetime (cfg i) (L i) (command i)) ?_ ?_ run ?_ start
  · intro i request answer pool pool' taken
    simp only [pooled, Option.map_eq_some_iff] at taken
    obtain ⟨after, _, rfl⟩ := taken
    rfl
  · intro i request answer pool pool' allowed permitted taken holds
    simp only [pooled, Option.map_eq_some_iff] at taken
    obtain ⟨after, done, rfl⟩ := taken
    exact keeps i request answer pool after allowed permitted done holds
  · intro i
    rw [starting.stage i]
    exact process_follows (cfg i) (L i) (command i)

end Mdp
