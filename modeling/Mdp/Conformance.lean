import Mdp.Effects

/-!
# The commands follow the session protocol

One lemma for each function of the source: from which stage it starts and at which stage it
returns. The lemmas are stated for what is done next, so that a function that calls others is a
chain of their lemmas. `process_follows` is the result for a whole process.
-/

namespace Mdp

open Interaction CStrings

variable {cfg : Config} {L : CLocale} {command : Command.Edits} {α β γ : Type}

/-- A program follows the protocol from a stage on and returns at a stage and with a value that
satisfy `Q`. -/
abbrev Conforms (cfg : Config) (L : CLocale) (command : Command.Edits) (p : Prog α) (stage : Stage)
    (Q : α → Stage → Prop) : Prop :=
  p.Follows (session cfg L command)
    (fun result stage' => match result with
      | .ok value => Q value stage'
      | .error ending => MayLeave ending stage') stage

namespace Conforms

variable {Q : α → Stage → Prop} {R : β → Stage → Prop} {stage : Stage}

/-- The sequencing rule. -/
theorem bind {p : Prog α} {rest : α → Prog β} (first : Conforms cfg L command p stage Q)
    (second : ∀ value stage', Q value stage' →
      Conforms cfg L command (rest value) stage' R) :
    Conforms cfg L command (p.bind rest) stage R :=
  Program.Follows.bind first second fun _ _ => id

/-- A weaker condition on the end. -/
theorem mono {Q' : α → Stage → Prop} {p : Prog α} (conforms : Conforms cfg L command p stage Q)
    (weaker : ∀ value stage', Q value stage' → Q' value stage') :
    Conforms cfg L command p stage Q' := by
  refine Program.Follows.mono conforms fun result stage' holds => ?_
  cases result with
  | ok value => exact weaker value stage' holds
  | error ending => exact holds

/-- A call that is allowed, and then what follows its answer. -/
theorem call {request : Call} {rest : Call.Answer request → Prog β}
    (allowed : Allowed cfg L command stage request)
    (next : ∀ answer, Conforms cfg L command (rest answer) (stage.advance request answer) R) :
    Conforms cfg L command ((ask request).bind rest) stage R := ⟨allowed, next⟩

/-- An exit with an error may happen at every stage. -/
theorem exit {message : String} :
    Conforms cfg L command (err exitFailure message) stage Q := trivial

/-- The test of `require` passed, or the process exits. -/
theorem require {passed : Bool} {message : String} {rest : Unit → Prog β}
    (next : passed = true → Conforms cfg L command (rest ()) stage R) :
    Conforms cfg L command ((Mdp.require passed message).bind rest) stage R := by
  cases passed with
  | true => exact next rfl
  | false => exact trivial

/-- A request for memory that is checked. -/
theorem allocate {message : String} {rest : Unit → Prog β}
    (next : Conforms cfg L command (rest ()) stage R) :
    Conforms cfg L command (((ask .allocate).bind fun ok => Mdp.require ok message).bind rest)
      stage R := by
  refine ⟨.neutral trivial, fun ok => ?_⟩
  cases ok with
  | true => exact next
  | false => exact trivial

/-- `xmalloc`. -/
theorem xmalloc {rest : Unit → Prog β} (next : Conforms cfg L command (rest ()) stage R) :
    Conforms cfg L command (Mdp.xmalloc.bind rest) stage R := allocate next

/-- `xasprintf`. -/
theorem xasprintf {rest : Unit → Prog β} (next : Conforms cfg L command (rest ()) stage R) :
    Conforms cfg L command (Mdp.xasprintf.bind rest) stage R := allocate next

/-- A neutral call with answers that leave the stage as it is. -/
theorem pass {request : Call} {rest : Call.Answer request → Prog β} (neutral : request.Neutral)
    (stays : ∀ answer, stage.advance request answer = stage)
    (next : ∀ answer, Conforms cfg L command (rest answer) stage R) :
    Conforms cfg L command ((ask request).bind rest) stage R := by
  refine call (.neutral neutral) fun answer => ?_
  rw [stays answer]
  exact next answer

/-- A message other than the report leaves every stage as it is. -/
theorem printed_of_ne {text : String} (other : text ≠ noChanges) (stage : Stage) :
    stage.printed text = stage := by
  cases stage <;> simp [Stage.printed, other]

/-- A message of `debug` is not the report: it begins with a bracket. -/
theorem debug_text_ne (rest : String) : "[" ++ rest ≠ noChanges := by
  intro same
  have heads := congrArg (fun text : String => text.toList.head?) same
  simp [noChanges] at heads

/-- `debug` leaves every stage as it is. -/
theorem debug_keeps {cfg' : Config} {fmt : String} :
    Conforms cfg L command (Mdp.debug cfg' fmt) stage fun _ stage' => stage' = stage := by
  unfold Mdp.debug
  split
  · refine pass trivial (fun _ => rfl) fun pid => ?_
    refine call (.neutral trivial) fun tbuf => ?_
    cases tbuf with
    | none => exact trivial
    | some tbuf =>
      refine xasprintf ?_
      have other : "[" ++ tbuf ++ "] [pid:" ++ toString pid ++ "] " ++ fmt ≠ noChanges := by
        simp only [String.append_assoc]
        exact debug_text_ne _
      exact ⟨.neutral other, fun _ => printed_of_ne other stage⟩
  · rfl

/-- `debug`, and then what follows. -/
theorem debug {cfg' : Config} {fmt : String} {rest : Unit → Prog β}
    (next : Conforms cfg L command (rest ()) stage R) :
    Conforms cfg L command ((Mdp.debug cfg' fmt).bind rest) stage R := by
  refine debug_keeps.bind fun _ stage' same => ?_
  rw [same]
  exact next

/-- `file_exists` returns for two of the answers of `stat`. -/
theorem fileExists {path : Path} {rest : Bool → Prog β}
    (allowed : Allowed cfg L command stage (.stat path))
    (found : Conforms cfg L command (rest true) (stage.looked path .found) R)
    (enoent : Conforms cfg L command (rest false) (stage.looked path .enoent) R) :
    Conforms cfg L command ((Mdp.fileExists path).bind rest) stage R := by
  refine ⟨allowed, fun lookup => ?_⟩
  cases lookup with
  | found => exact found
  | enoent => exact enoent
  | failed => exact trivial

end Conforms

/-- `lock_set` returns with the lock created. -/
theorem lockSet_conforms {rest : Unit → Prog β} {R : β → Stage → Prop}
    (next : ∀ stream, Conforms cfg L command (rest ()) (.locked stream) R) :
    Conforms cfg L command (lockSet.bind rest) .starting R := by
  refine Conforms.bind (Q := fun _ stage => ∃ stream, stage = .locked stream) ?_ ?_
  · refine Conforms.fileExists .lookForLock .exit ?_
    refine Conforms.call .createLock fun fp => ?_
    cases fp with
    | none => exact ⟨.neutral trivial, fun _ => .inl rfl⟩
    | some stream =>
      refine Conforms.pass trivial (fun _ => rfl) fun pid => ?_
      refine Conforms.call .writeLock fun _ => ?_
      exact ⟨.neutral trivial, fun _ => ⟨stream, rfl⟩⟩
  · rintro _ _ ⟨stream, rfl⟩
    exact next stream

/-- `setup_signals_and_atexit` returns with the handlers registered. -/
theorem setupSignalsAndAtexit_conforms {stream : Nat} {rest : Unit → Prog β}
    {R : β → Stage → Prop} (next : Conforms cfg L command (rest ()) .guarded R) :
    Conforms cfg L command (setupSignalsAndAtexit.bind rest) (.locked stream) R := by
  refine Conforms.bind (Q := fun _ stage => stage = .guarded) ?_ fun _ _ same => same ▸ next
  refine ⟨.register, fun ok => ?_⟩
  cases ok with
  | false => exact trivial
  | true => exact ⟨.catchInt, fun _ => ⟨.neutral trivial, fun _ => rfl⟩⟩

/-- What holds where a cleanup returns, and where it exits. -/
abbrev CleanedUp (result : Except Ending Unit) (stage : Stage) : Prop :=
  match result with
  | .ok _ => stage = .over
  | .error ending => (∃ message, ending = .exit exitFailure message) ∧
      (stage = .kept ∨ stage = .stuck)

/-- After the lock is gone `cleanup` tries to remove the temporary file. -/
theorem cleanupTmp_follows : cleanupTmp.Follows handling CleanedUp .unlocked := by
  refine ⟨.inr .readTmpPath, fun path => ?_⟩
  cases path with
  | none => rfl
  | some path =>
    refine ⟨.inr .removeTmp, fun removal => ?_⟩
    cases removal with
    | removed => rfl
    | enoent => exact ⟨⟨_, rfl⟩, .inl rfl⟩
    | failed => exact ⟨⟨_, rfl⟩, .inl rfl⟩

/-- `cleanup` removes the lock and then tries to remove the temporary file; if it exits before, the
lock is still there. -/
theorem cleanup_follows : cleanup.Follows handling CleanedUp .cleaning := by
  refine ⟨.inr .findLock, fun lookup => ?_⟩
  cases lookup with
  | found =>
    refine ⟨.inr .removeLock, fun removal => ?_⟩
    cases removal with
    | removed => exact cleanupTmp_follows
    | enoent => exact ⟨⟨_, rfl⟩, .inr rfl⟩
    | failed => exact ⟨⟨_, rfl⟩, .inr rfl⟩
  | enoent => exact cleanupTmp_follows
  | failed => exact ⟨⟨_, rfl⟩, .inr rfl⟩

/-- Both handlers write a message for debugging and clean up. -/
theorem handler_follows {fmt : String} :
    ((ask .getpid).bind fun _ => (debug cfg fmt).bind fun _ => cleanup).Follows handling
      CleanedUp .cleaning := by
  refine ⟨.inl trivial, fun _ => ?_⟩
  unfold debug
  split
  · refine ⟨.inl trivial, fun pid => ⟨.inl trivial, fun tbuf => ?_⟩⟩
    cases tbuf with
    | none => exact ⟨⟨_, rfl⟩, .inr rfl⟩
    | some tbuf =>
      refine ⟨.inl trivial, fun ok => ?_⟩
      cases ok with
      | false => exact ⟨⟨_, rfl⟩, .inr rfl⟩
      | true =>
        have other : "[" ++ tbuf ++ "] [pid:" ++ toString pid ++ "] " ++ fmt ≠ noChanges := by
          simp only [String.append_assoc]
          exact Conforms.debug_text_ne _
        exact ⟨.inl other, fun _ => cleanup_follows⟩
  · exact cleanup_follows

/-- The stage of a child in which something has failed does not change any more. -/
theorem advance_strayed (request : Call) (answer : Call.Answer request) :
    Stage.advance .strayed request answer = .strayed := by
  unfold Stage.advance
  split <;> first | rfl | (split <;> rfl) | (rename_i given; cases given <;> rfl)

/-- Nothing is asked of such a child. -/
theorem follows_strayed {ε : Type} {Q : Except ε α → Stage → Prop}
    (holds : ∀ result, Q result .strayed) (p : Program posix ε α) :
    p.Follows (lifetime cfg L command) Q .strayed := by
  induction p with
  | done value => exact holds _
  | halt ending => exact holds _
  | call request next ih =>
    refine ⟨.inr .stray, fun answer => ?_⟩
    rw [show (lifetime cfg L command).advance .strayed request answer = .strayed from
      advance_strayed request answer]
    exact ih answer

/-- It may end in every way. -/
theorem mayEnd_strayed (ending : Ending) : MayEnd ending .strayed := by
  cases ending <;> simp [MayEnd, MayLeave]

/-- What holds of a process once it has ended. -/
abbrev Ended (result : Except Ending Unit) (stage : Stage) : Prop :=
  match result with
  | .ok _ => False
  | .error ending => MayEnd ending stage

/-- The handler runs through, or exits. -/
theorem atexitCleanup_follows {status : Nat} {message : String} :
    (((atexitCleanup cfg).bind fun _ => .halt (.exit status message)) : Prog Unit).Follows
      (lifetime cfg L command) Ended .cleaning := by
  have handler : (atexitCleanup cfg).Follows (lifetime cfg L command) CleanedUp .cleaning :=
    handler_follows.widen rfl fun stage request allowed =>
      allowed.imp Allowed.neutral AllowedLeaving.clean
  refine Program.Follows.bind handler ?_ ?_
  · rintro _ _ rfl
    exact .inr (.inl rfl)
  · rintro ending stage ⟨⟨text, rfl⟩, rfl | rfl⟩
    · exact .inr (.inr (.inl rfl))
    · exact .inr (.inr (.inr (.inl rfl)))

/-- `exit` ends the process where it may end. -/
theorem runHandler_follows {stage : Stage} {status : Nat} {message : String} (registered : Bool) :
    (runHandler cfg (.exit status message) registered).Follows (lifetime cfg L command) Ended
      (stage.exiting registered) := by
  cases registered with
  | true =>
    have next : stage.exiting true = .strayed ∨ stage.exiting true = .cleaning := by
      cases stage <;> first | exact .inl rfl | exact .inr rfl
    rcases next with strayed | cleaning
    · rw [strayed]
      refine Program.Follows.bind (follows_strayed (Q := fun _ stage => stage = .strayed)
        (fun _ => rfl) (atexitCleanup cfg)) ?_ ?_
      · rintro _ _ rfl
        exact mayEnd_strayed (.exit status message)
      · rintro ending _ rfl
        exact mayEnd_strayed ending
    · rw [cleaning]
      exact atexitCleanup_follows
  | false =>
    cases stage <;> first | exact .inl ⟨_, rfl⟩ | exact .inr (.inr (.inr (.inr rfl)))

/-- A program that ends before `exit` was called ends the process where it may end. -/
theorem leave_follows {stage : Stage} {ending : Ending} (may : MayLeave ending stage)
    (first : stage.leaving = false) :
    (leave cfg ending).Follows (lifetime cfg L command) Ended stage := by
  cases ending with
  | exit status message => exact ⟨.inr (.leave first), runHandler_follows⟩
  | immediate status => exact may
  | crash => exact may
  | replaced => exact may

/-- `gpg_check` leaves every stage as it is. -/
theorem gpgCheck_conforms {stage : Stage} {rest : Unit → Prog β} {R : β → Stage → Prop}
    (next : Conforms cfg L command (rest ()) stage R) :
    Conforms cfg L command ((gpgCheck cfg).bind rest) stage R := by
  refine Conforms.bind (Q := fun _ stage' => stage' = stage) ?_ fun _ _ same => same ▸ next
  refine Conforms.xasprintf ?_
  refine Conforms.pass trivial (fun _ => rfl) fun version => ?_
  refine Conforms.require fun _ => ?_
  refine Conforms.xasprintf ?_
  refine Conforms.pass trivial (fun _ => rfl) fun keys => ?_
  refine Conforms.require fun _ => ?_
  cases cfg.gpgKeyId with
  | none => exact trivial
  | some key => rfl

/-- `ARRAY_ADD` leaves every stage as it is. -/
theorem arrayAdd_conforms {num : Nat} {stage : Stage} {rest : Unit → Prog β}
    {R : β → Stage → Prop} (next : Conforms cfg L command (rest ()) stage R) :
    Conforms cfg L command ((arrayAdd num).bind rest) stage R := by
  refine Conforms.bind (Q := fun _ stage' => stage' = stage) ?_ fun _ _ same => same ▸ next
  refine Conforms.require fun _ => ⟨.neutral trivial, fun ok => ?_⟩
  cases ok with
  | false => exact trivial
  | true => rfl

/-- The warning leaves every stage as it is. -/
theorem warnUnlessNewline_conforms {line : Bytes} {stage : Stage} {rest : Unit → Prog β}
    {R : β → Stage → Prop} (next : Conforms cfg L command (rest ()) stage R) :
    Conforms cfg L command ((warnUnlessNewline line).bind rest) stage R := by
  refine Conforms.bind (Q := fun _ stage' => stage' = stage) ?_ fun _ _ same => same ▸ next
  unfold warnUnlessNewline
  split
  · rfl
  · have other : "WARNING: Line %d is too long (max:%ld) or does not end with a new line.\n" ≠
        noChanges := by decide
    exact ⟨.neutral other, fun _ => Conforms.printed_of_ne other stage⟩

/-- The loop of `load_results_fp` leaves every stage as it is and computes what `loadLines`
does. -/
theorem loadResultsLoop_conforms {stage : Stage} {memory : Memory} {ctx : CksumCtx}
    (pieces : List Bytes) :
    Conforms cfg L command (loadResultsLoop L memory ctx pieces) stage fun loaded stage' =>
      stage' = stage ∧ ∀ lineCount, loadLines L lineCount memory ctx pieces = .ok loaded := by
  induction pieces generalizing memory ctx with
  | nil => exact ⟨rfl, fun _ => rfl⟩
  | cons line rest ih =>
    refine warnUnlessNewline_conforms ?_
    refine Conforms.xmalloc ?_
    cases taken : loadLine L memory line with
    | none => exact trivial
    | some next =>
      refine Conforms.xmalloc ?_
      refine arrayAdd_conforms ?_
      refine ih.mono fun loaded stage' holds => ⟨holds.1, fun lineCount => ?_⟩
      rw [loadLines, taken]
      exact holds.2 (lineCount + 1)

/-- `load_results_fp` reads its stream and loads what it read. -/
theorem loadResultsFp_conforms {stage : Stage} {memory : Memory} {fp : Stream}
    (allowed : Allowed cfg L command stage (.fgets fp)) :
    Conforms cfg L command (loadResultsFp L memory (some fp)) stage fun loaded stage' =>
      ∃ content, stage' = stage.drained content ∧ loadContent L memory content = .ok loaded := by
  refine ⟨allowed, fun content => ?_⟩
  exact (loadResultsLoop_conforms _).mono fun _ _ holds => ⟨content, holds.1, holds.2 0⟩

/-- The gpg child never returns. -/
theorem gpgChild_conforms {pout : Nat × Nat} {Q : Option GpgOpen → Stage → Prop} :
    Conforms cfg L command (gpgChild cfg pout) .gpgChild Q := by
  have exec : Conforms cfg L command (gpgExec cfg) .gpgChild Q := by
    refine Conforms.pass trivial (fun _ => rfl) fun pid => ?_
    refine Conforms.debug ?_
    refine ⟨.becomeGpg, fun ok => ?_⟩
    cases ok with
    | true => exact .inl rfl
    | false => exact trivial
  refine ⟨.neutral trivial, fun closed => ?_⟩
  cases closed with
  | false => exact trivial
  | true =>
    refine ⟨.neutral trivial, fun duplicated => ?_⟩
    cases duplicated with
    | false => exact trivial
    | true =>
      by_cases same : pout.2 = stdoutFileno
      · simp only [Mdp.require, if_pos same]
        exact exec
      · simp only [Mdp.require, if_neg same]
        refine ⟨.neutral trivial, fun closed => ?_⟩
        cases closed with
        | false => exact trivial
        | true => exact exec

/-- The watcher never returns. -/
theorem watcherChild_conforms {gpgPid : Nat} {timeout : UInt32} {Q : Nat → Stage → Prop} :
    Conforms cfg L command (watcherChild cfg gpgPid timeout) (.watcher gpgPid) Q := by
  refine Conforms.call .resetInt fun _ => ?_
  refine Conforms.pass trivial (fun _ => rfl) fun _ => ?_
  refine Conforms.debug ?_
  refine Conforms.pass trivial (fun _ => rfl) fun _ => ?_
  refine Conforms.pass trivial (fun _ => rfl) fun parent => ?_
  refine ⟨.neutral trivial, fun alive => ?_⟩
  cases alive with
  | sent =>
    refine Conforms.debug ?_
    have other : "gpg timed out after %d seconds, aborting\n" ≠ noChanges := by decide
    refine ⟨.neutral other, fun _ => ⟨.interruptGpg, fun answer => ?_⟩⟩
    cases answer with
    | sent => exact .inl ⟨gpgPid, rfl⟩
    | esrch => exact trivial
    | failed => exact trivial
  | esrch => exact Conforms.debug (.inl ⟨gpgPid, rfl⟩)
  | failed => exact Conforms.debug (.inl ⟨gpgPid, rfl⟩)

/-- `gpg_open` finds no password file, or returns with gpg and the watcher started. -/
theorem gpgOpen_conforms :
    Conforms cfg L command (gpgOpen cfg) .guarded fun result stage => match result with
      | none => stage = .absent
      | some opened => stage = .streaming opened.gpgPid opened.watcherPid opened.fp := by
  refine Conforms.fileExists .lookForPasswords ?_ (Conforms.debug rfl)
  refine Conforms.debug ?_
  refine Conforms.pass trivial (fun _ => rfl) fun pout => ?_
  cases pout with
  | none => exact trivial
  | some pout =>
    refine ⟨.forkGpg, fun forked => ?_⟩
    cases forked with
    | failed => exact trivial
    | child => exact gpgChild_conforms
    | parent gpgPid =>
      refine ⟨.neutral trivial, fun closed => ?_⟩
      cases closed with
      | false => exact trivial
      | true =>
        refine ⟨.openPipe, fun fp => ⟨.forkWatcher, fun forked => ?_⟩⟩
        cases forked with
        | failed => exact trivial
        | child => exact watcherChild_conforms.bind fun _ _ => id
        | parent watcherPid =>
          refine ⟨.neutral trivial, fun _ => ?_⟩
          refine Conforms.bind (Q := fun pid stage => pid = watcherPid ∧
            stage = .streaming gpgPid watcherPid fp) (Conforms.debug ⟨rfl, rfl⟩) ?_
          rintro _ _ ⟨rfl, rfl⟩
          rfl

/-- `gpg_close` returns the status gpg exited with. -/
theorem gpgClose_conforms {opened : GpgOpen} {printed : Bytes} :
    Conforms cfg L command (gpgClose cfg opened) (.read opened.gpgPid opened.watcherPid printed)
      fun retcode stage => stage = .waited opened.watcherPid printed retcode := by
  refine Conforms.debug ?_
  refine ⟨.neutral trivial, fun closed => ?_⟩
  cases closed with
  | false => exact trivial
  | true =>
    refine ⟨.wait, fun wait => ?_⟩
    cases wait with
    | signaled => exact trivial
    | failed signaled => cases signaled <;> exact trivial
    | exited retcode =>
      refine Conforms.debug ?_
      refine Conforms.bind (Q := fun _ stage => stage = .waited opened.watcherPid printed retcode)
        ?_ fun _ _ same => same
      refine Conforms.debug ⟨.cancel, fun answer => ?_⟩
      cases answer with
      | sent => rfl
      | esrch => rfl
      | failed => exact trivial

/-- What loading has come to: the stage is one to edit from, the checksum is that of the source,
and the results are what the source shows. -/
def Loaded (L : CLocale) (memory : Memory) (stage : Stage) : Prop :=
  ∃ source, stage.ready = some source ∧ memory.resultCrc32 = sourceCrc source ∧
    dump memory.results = shown L source

/-- `load_results_gpg` returns with the password file loaded, or with nothing. -/
theorem loadResultsGpg_conforms :
    Conforms cfg L command (loadResultsGpg cfg L .initial) .guarded (Loaded L) := by
  refine gpgOpen_conforms.bind ?_
  rintro (_ | opened) _ same
  · rw [same]
    exact ⟨none, rfl, rfl, rfl⟩
  · rw [same]
    obtain ⟨fp, gpgPid, watcherPid⟩ := opened
    cases fp with
    | false => exact ⟨none, rfl, rfl, rfl⟩
    | true =>
      refine (loadResultsFp_conforms .readPipe).bind ?_
      rintro loaded _ ⟨content, rfl, ok⟩
      refine Conforms.bind gpgClose_conforms ?_
      rintro retcode _ rfl
      by_cases zero : retcode = 0
      · subst zero
        exact ⟨some content, rfl, loadContent_resultCrc32 ok, by simp [shown, ok]⟩
      · simp only [Mdp.require, beq_eq_false_iff_ne.mpr zero]
        exact trivial

/-- The random weights leave every stage as it is. -/
theorem drawWeights_conforms {stage : Stage} (left : Nat) :
    Conforms cfg L command (drawWeights left) stage fun _ stage' => stage' = stage := by
  induction left with
  | zero => rfl
  | succ left ih =>
    refine Conforms.pass trivial (fun _ => rfl) fun drawn => ?_
    exact ih.bind fun _ _ same => same

/-- The random characters leave every stage as it is. -/
theorem drawCharacters_conforms {stage : Stage} {set : List WChar} (left : Nat) :
    Conforms cfg L command (drawCharacters set left) stage fun _ stage' => stage' = stage := by
  induction left with
  | zero => rfl
  | succ left ih =>
    refine (drawWeights_conforms set.length).bind ?_
    rintro weights _ rfl
    exact ih.bind fun _ _ same => same

/-- A string that is read leaves the stage as it is; a null pointer is the end. -/
theorem readString_conforms {stage : Stage} {pointer : Option (List γ)} {rest : List γ → Prog β}
    {R : β → Stage → Prop}
    (allowed : Allowed cfg L command stage (.readString pointer.isSome))
    (missing : stage.dereferenced false = .broken)
    (next : ∀ text, Conforms cfg L command (rest text) stage R) :
    Conforms cfg L command ((readString pointer).bind rest) stage R := by
  refine ⟨allowed, fun present => ?_⟩
  cases present with
  | true =>
    show Conforms cfg L command (rest _) (stage.dereferenced true) R
    rw [stage.dereferenced_true]
    exact next _
  | false => exact .inr (.inl missing)

/-- `generate_password_from_set` leaves every stage as it is, unless its set is missing. -/
theorem generatePasswordFromSet_conforms {stage : Stage} {source : Option Bytes} {length : Int}
    {set : Option (List WChar)} (ready : stage.ready = some source) :
    Conforms cfg L command (generatePasswordFromSet length set) stage fun _ stage' =>
      stage' = stage := by
  refine readString_conforms (.readSet ready) (Stage.dereferenced_of_ready ready) fun set => ?_
  split
  · rfl
  · refine Conforms.require fun _ => ?_
    refine Conforms.allocate ?_
    exact (drawCharacters_conforms _).bind fun _ _ same => same

/-- Generating a password leaves every stage as it is, unless the set is missing. -/
theorem profileGeneratePassword_conforms {stage : Stage} {source : Option Bytes} {opts : AddOptions}
    {profile : Profile} (ready : stage.ready = some source) :
    Conforms cfg L command (profileGeneratePassword opts profile) stage fun _ stage' =>
      stage' = stage := by
  refine Conforms.require fun _ => ?_
  refine Conforms.allocate ?_
  refine (generatePasswordFromSet_conforms ready).bind ?_
  rintro (_ | password) _ rfl
  · exact trivial
  · rfl

/-- Making a line of a password leaves every stage as it is, unless its memory is missing. -/
theorem passwordLine_conforms {stage : Stage} {source : Option Bytes} {opts : AddOptions}
    {password : List WChar} (ready : stage.ready = some source) :
    Conforms cfg L command (passwordLine opts password) stage fun _ stage' => stage' = stage := by
  unfold passwordLine
  split
  · rfl
  · refine ⟨.joinLine ready, fun ok => ?_⟩
    cases ok with
    | true =>
      refine ⟨.neutral trivial, fun written => ?_⟩
      cases written with
      | true => rfl
      | false => exact trivial
    | false =>
      have null : Stage.advance stage .calloc false = .broken := by
        simp [Stage.advance, Stage.given, ready]
      exact .inr (.inl null)

/-- `profile_passwords_to_results` leaves every stage and the checksum as they are. -/
theorem profilePasswordsToResults_conforms {stage : Stage} {source : Option Bytes}
    {opts : AddOptions} {profile : Profile} {memory : Memory} (ready : stage.ready = some source) :
    Conforms cfg L command (profilePasswordsToResults L opts profile memory) stage
      fun loaded stage' => stage' = stage ∧ loaded.resultCrc32 = memory.resultCrc32 := by
  unfold profilePasswordsToResults
  induction (profileGetPasswordCount opts profile).toNat generalizing memory with
  | zero => exact ⟨rfl, rfl⟩
  | succ left ih =>
    refine (profileGeneratePassword_conforms ready).bind ?_
    rintro password _ rfl
    refine (passwordLine_conforms ready).bind ?_
    rintro line _ rfl
    refine Conforms.xmalloc ?_
    cases resultNew L (upToNul line) with
    | none => exact trivial
    | some result => exact Conforms.xmalloc (arrayAdd_conforms ih)

/-- The loop of `edit_results` writes what `dump` says. -/
theorem dumpResults_conforms {source : Option Bytes} {created : Created} {written : Bytes}
    (results : List Result) :
    Conforms cfg L command (dumpResults created.fd results) (.dumping source created written)
      fun _ stage => stage = .dumping source created (written ++ dump results) := by
  induction results generalizing written with
  | nil => simp [dumpResults, dump, Program.Follows]
  | cons result rest ih =>
    refine ⟨.dump, fun text => ?_⟩
    cases text with
    | none => exact trivial
    | some count =>
      refine ⟨.dump, fun ended => ?_⟩
      cases ended with
      | none => exact trivial
      | some one =>
        refine ih.mono fun _ stage same => ?_
        rw [same, dump_cons, Result.dump]
        simp only [List.append_assoc]

/-- `spawn_editor` returns with the editor's status neither -1 nor positive. -/
theorem spawnEditor_conforms {source : Option Bytes} {created : Created} {written : Bytes}
    (whole : command = .edit → written = shown L source) :
    Conforms cfg L command (spawnEditor cfg (.tmp created.suffix))
      (.dumping source created written)
      fun _ stage => ∃ status, status ≠ -1 ∧ ¬ status > 0 ∧
        stage = .edited source created.suffix status := by
  refine readString_conforms .readEditor rfl fun editor => ?_
  refine Conforms.bind (Q := fun _ stage => stage = .dumping source created written) ?_ ?_
  · unfold editorCommand
    split
    · exact Conforms.xasprintf rfl
    · refine ⟨.neutral trivial, fun copied => ?_⟩
      cases copied <;> rfl
  · rintro editor _ rfl
    refine Conforms.xasprintf ?_
    refine Conforms.debug ?_
    refine Conforms.call (.edit whole) fun exit => ?_
    refine Conforms.require fun ran => ?_
    refine Conforms.require fun fine => ?_
    cases editor with
    | none => exact trivial
    | some editor => exact ⟨exit.status, by simpa using ran, by simpa using fine, rfl⟩

/-- `has_changed` compares the checksum of what it read with the one before. -/
theorem hasChanged_conforms {source : Option Bytes} {suffix : Nat} {status : Int} {memory : Memory}
    (ran : status ≠ -1) (fine : ¬ status > 0) :
    Conforms cfg L command (hasChanged L memory (.tmp suffix)) (.edited source suffix status)
      fun changed stage => ∃ content, stage = .compared source (.tmp suffix) content ∧
        changed = (memory.resultCrc32 != checksum content) := by
  refine ⟨.reopen ran fine, fun fp => ?_⟩
  cases fp with
  | none => exact .inr (.inl rfl)
  | some inode =>
    refine (loadResultsFp_conforms .reread).bind ?_
    rintro loaded _ ⟨content, rfl, ok⟩
    refine ⟨.neutral trivial, fun _ => ⟨content, rfl, ?_⟩⟩
    rw [loadContent_resultCrc32 ok]

/-- Replacing the password file begins when it is known whether there is one. -/
theorem moveEncrypted_conforms {path : Path} :
    Conforms cfg L command (moveEncrypted path) (.vacant path)
      fun _ stage => stage = .finished path := by
  refine Conforms.xasprintf ?_
  refine ⟨.install, fun linked => ?_⟩
  cases linked with
  | false => exact trivial
  | true =>
    refine ⟨.protect, fun changed => ?_⟩
    cases changed with
    | false => exact trivial
    | true =>
      refine ⟨.tidy, fun removal => ?_⟩
      cases removal with
      | removed => rfl
      | enoent => exact trivial
      | failed => exact trivial

/-- With `cfg_backup` the password file is linked as its backup before it is unlinked. -/
theorem unlinkPrevious_conforms {path : Path} :
    Conforms cfg L command (unlinkPrevious cfg) (.replacing path)
      fun _ stage => stage = .vacant path := by
  unfold unlinkPrevious
  cases backup : cfg.backup with
  | false =>
    refine ⟨.unlinkPlain backup, fun removal => ?_⟩
    cases removal with
    | removed => rfl
    | enoent => exact trivial
    | failed => exact trivial
  | true =>
    refine Conforms.bind (Q := fun _ stage => stage = .backedUp path) ?_ ?_
    · refine Conforms.debug ⟨.clearBackup backup, fun removal => ?_⟩
      cases removal with
      | failed => exact trivial
      | removed =>
        refine ⟨.backUp, fun linked => ?_⟩
        cases linked with
        | true => rfl
        | false => exact trivial
      | enoent =>
        refine ⟨.backUp, fun linked => ?_⟩
        cases linked with
        | true => rfl
        | false => exact trivial
    · rintro _ _ rfl
      refine ⟨.unlinkBackedUp, fun removal => ?_⟩
      cases removal with
      | removed => rfl
      | enoent => exact trivial
      | failed => exact trivial

/-- `gpg_encrypt` returns with the password file replaced. -/
theorem gpgEncrypt_conforms {source : Option Bytes} {path : Path} {content : Bytes}
    (changed : checksum content ≠ sourceCrc source) :
    Conforms cfg L command (gpgEncrypt cfg path) (.compared source path content)
      fun _ stage => stage = .finished path := by
  refine Conforms.xasprintf ?_
  refine Conforms.debug ?_
  refine Conforms.call (.encrypt changed) fun exit => ?_
  refine Conforms.require fun zero => ?_
  have done : Stage.advance (.compared source path content)
      (.system (.encrypt cfg.gpgPath cfg.gpgKeyId path)) exit = .encrypted path 0 := by
    simp [Stage.advance, Stage.encrypt, beq_iff_eq.mp zero]
  rw [done]
  refine Conforms.xasprintf ?_
  refine Conforms.fileExists .lookAgain ?_ ?_
  · refine unlinkPrevious_conforms.bind ?_
    rintro _ _ rfl
    exact moveEncrypted_conforms
  · exact moveEncrypted_conforms

/-- `edit_results` saves the temporary file or reports that nothing changed. -/
theorem editResults_conforms {stage : Stage} {source : Option Bytes} {memory : Memory}
    (ready : stage.ready = some source) (crc : memory.resultCrc32 = sourceCrc source)
    (whole : command = .edit → dump memory.results = shown L source) :
    Conforms cfg L command (editResults cfg L memory) stage fun _ stage' =>
      MayLeave (.exit 0 "") stage' := by
  refine ⟨.makeTmp ready, fun result => ?_⟩
  cases result with
  | none => exact trivial
  | some created =>
    simp only [session, Stage.advance, Stage.created, ready]
    refine (dumpResults_conforms memory.results).bind ?_
    rintro _ _ rfl
    refine ⟨.neutral trivial, fun closed => ?_⟩
    cases closed with
    | false => exact trivial
    | true =>
      refine (spawnEditor_conforms whole).bind ?_
      rintro _ _ ⟨status, ran, fine, rfl⟩
      refine (hasChanged_conforms ran fine).bind ?_
      rintro changed _ ⟨content, rfl, decided⟩
      rw [crc] at decided
      cases changed with
      | true =>
        have differs : checksum content ≠ sourceCrc source := by
          have found := decided.symm
          simp only [bne_iff_ne, ne_eq] at found
          exact fun same => found same.symm
        exact (gpgEncrypt_conforms differs).mono fun _ _ finished => .inr ⟨_, finished⟩
      | false =>
        have same : checksum content = sourceCrc source := by
          have found := decided.symm
          simp only [bne_eq_false_iff_eq] at found
          exact found.symm
        exact ⟨.report same, fun _ => .inl ⟨_, rfl⟩⟩

/-- The commands follow the protocol. -/
theorem runCommand_conforms :
    Conforms cfg L command (runCommand cfg L command) .starting fun _ stage =>
      MayLeave (.exit 0 "") stage := by
  cases command with
  | edit =>
    refine Conforms.debug ?_
    refine gpgCheck_conforms ?_
    refine lockSet_conforms fun stream => ?_
    refine setupSignalsAndAtexit_conforms ?_
    refine loadResultsGpg_conforms.bind ?_
    rintro memory stage ⟨source, ready, crc, whole⟩
    exact editResults_conforms ready crc fun _ => whole
  | add opts =>
    refine Conforms.debug ?_
    refine Conforms.bind (Q := fun _ stage => stage = .starting) ?_ ?_
    · unfold addProfile
      split
      · refine Conforms.xmalloc ?_
        refine Conforms.pass trivial (fun named => by cases named <;> rfl) fun _ => ?_
        refine Conforms.pass trivial (fun copied => by cases copied <;> rfl) fun _ => ?_
        rfl
      · split
        · exact trivial
        · rfl
    · rintro profile _ rfl
      refine gpgCheck_conforms ?_
      refine lockSet_conforms fun stream => ?_
      refine setupSignalsAndAtexit_conforms ?_
      refine loadResultsGpg_conforms.bind ?_
      rintro memory stage ⟨source, ready, crc, _⟩
      refine (profilePasswordsToResults_conforms ready).bind ?_
      rintro memory' _ ⟨rfl, kept⟩
      exact editResults_conforms ready (kept.trans crc) (by simp)

/-- Only `exit` leads to the stages of leaving. -/
theorem Stage.leaving_advance {stage : Stage} {request : Call} (answer : Call.Answer request)
    (allowed : Allowed cfg L command stage request) (first : stage.leaving = false) :
    (stage.advance request answer).leaving = false := by
  cases allowed with
  | neutral neutral =>
    rcases Stage.advance_neutral neutral answer with same | same
    · rw [same]
      exact first
    · rw [same]
      cases stage <;> first | rfl | exact first
  | makeTmp ready =>
    cases answer with
    | none => exact first
    | some created => simp [Stage.advance, Stage.created, ready, Stage.leaving]
  | joinLine ready =>
    cases answer with
    | true => exact first
    | false => simp [Stage.advance, Stage.given, ready, Stage.leaving]
  | @readSet _ source present ready =>
    show (stage.dereferenced answer).leaving = false
    rcases stage.dereferenced_eq answer with same | same
    · rw [same]
      exact first
    · rw [same]
      rfl
  | report same => rfl
  | _ => first | rfl | (cases answer <;> rfl)

/-- What holds of `main` where it exits: it does not return. -/
abbrev Exited (result : Except Ending Unit) (stage : Stage) : Prop :=
  match result with
  | .ok _ => False
  | .error ending => MayLeave ending stage ∧ stage.leaving = false

/-- `main` follows the protocol until it exits. -/
theorem mainFrom_follows (cfg : Config) (L : CLocale) (command : Command.Edits) :
    (mainFrom cfg L command).Follows (lifetime cfg L command) Exited .starting := by
  have main : Conforms cfg L command (mainFrom cfg L command) .starting fun _ _ => False := by
    refine runCommand_conforms.bind fun _ stage decided => ?_
    exact Conforms.debug decided
  have first := Program.Follows.strengthen (I := fun stage => stage.leaving = false)
    (fun _ _ answer allowed => Stage.leaving_advance answer allowed) main rfl
  have wide : (mainFrom cfg L command).Follows (lifetime cfg L command) _ .starting :=
    first.widen rfl fun _ _ => .inl
  exact wide.mono fun result stage holds => by
    cases result with
    | ok value => exact holds.1
    | error ending => exact holds

/-- A process that runs a command follows the protocol to its end. -/
theorem process_follows (cfg : Config) (L : CLocale) (command : Command.Edits) :
    (process cfg L command).Follows (lifetime cfg L command) Ended .starting :=
  (mainFrom_follows cfg L command).onHalt (fun _ _ may => leave_follows may.1 may.2)
    fun _ _ => False.elim

end Mdp
