import Mdp.Verif.Replacement
import Mdp.Verif.Sections

/-!
# The `backup` variable

What the `set backup` lines of a configuration file do to the backup of the password file.
`parse_boolean` takes a value for true if it begins with the letter o, which neither `yes` nor `no`
does, so every such line turns the backups off.
-/

namespace Mdp.Backup

open Mdp Interaction CStrings Sections

/-- The stages that `gpg_encrypt` comes to without `cfg_backup`, called for a file that changed. -/
def Plain : Stage → Prop
  | .compared source _ content => checksum content ≠ sourceCrc source
  | .encrypted _ _ => True
  | .replacing _ => True
  | .vacant _ => True
  | .installed _ => True
  | .finished _ => True
  | _ => False

variable {cfg : Config} {L : CLocale} {command : Command.Edits} {path : Path}

/-- No call of such a run makes a backup. -/
theorem plain_step (off : cfg.backup = false) {stage : Stage} {request : Call}
    {answer : Call.Answer request} {s s' : State} (allowed : Allowed cfg L command stage request)
    (taken : effect request answer s = some s')
    (holds : Plain stage ∧ bytesAt s (.bak .passwordFile) = none) :
    Plain (stage.advance request answer) ∧ bytesAt s' (.bak .passwordFile) = none := by
  obtain ⟨inside, none⟩ := holds
  cases allowed with
  | neutral neutral =>
    have sturdy : stage.failed = stage := by
      cases stage <;> first | rfl | exact inside.elim
    rw [Stage.advance_neutral_of_failed sturdy neutral, effect_neutral neutral taken]
    exact ⟨inside, none⟩
  | encrypt =>
    rcases effect_encrypt taken with ⟨_, rfl⟩ | ⟨node, _, _, rfl⟩
    · exact ⟨trivial, none⟩
    · rw [Replacement.bytesAt_create_other (by simp)]
      exact ⟨trivial, none⟩
  | report same => exact absurd same inside
  | lookAgain =>
    obtain ⟨rfl, _, _⟩ := effect_stat taken
    cases answer <;> exact ⟨trivial, none⟩
  | clearBackup on => simp [off] at on
  | unlinkPlain =>
    rcases effect_unlink taken with ⟨rfl, rfl⟩ | ⟨rfl, _, rfl⟩ | ⟨rfl, rfl⟩
    · rw [Replacement.bytesAt_erase_other (by simp)]
      exact ⟨trivial, none⟩
    · exact ⟨trivial, none⟩
    · exact ⟨trivial, none⟩
  | install =>
    rcases effect_link taken with ⟨rfl, _, _, rfl⟩ | ⟨rfl, rfl⟩
    · rw [Replacement.bytesAt_hardLink_other (by simp)]
      exact ⟨trivial, none⟩
    · exact ⟨trivial, none⟩
  | protect =>
    rcases effect_chmod taken with ⟨rfl, _, _, rfl⟩ | ⟨rfl, rfl⟩
    · rw [Replacement.bytesAt_setMode]
      exact ⟨trivial, none⟩
    · exact ⟨trivial, none⟩
  | tidy =>
    rcases effect_unlink taken with ⟨rfl, rfl⟩ | ⟨rfl, _, rfl⟩ | ⟨rfl, rfl⟩
    · rw [Replacement.bytesAt_erase_other (by simp)]
      exact ⟨trivial, none⟩
    · exact ⟨trivial, none⟩
    · exact ⟨trivial, none⟩
  | makeTmp ready => cases stage <;> first | exact inside.elim | simp [Stage.ready] at ready
  | joinLine ready => cases stage <;> first | exact inside.elim | simp [Stage.ready] at ready
  | readSet ready => cases stage <;> first | exact inside.elim | simp [Stage.ready] at ready
  | _ => exact inside.elim

/-- What `gpg_encrypt` does with `cfg_backup` off: it makes no backup. -/
def MakesNoBackup (cfg : Config) : Prop :=
  ∀ (path : Path) (s s' : State) (old : Bytes), bytesAt s .passwordFile = some old →
    bytesAt s (.bak .passwordFile) = none →
      Reaches effect (gpgEncrypt cfg path) s (.done ()) s' → bytesAt s' (.bak .passwordFile) = none

/-- What it does with `cfg_backup` on: whenever it completes, the previous contents are backed
up. -/
def KeepsPrevious (cfg : Config) : Prop :=
  ∀ (path : Path) (s s' : State) (old : Bytes), bytesAt s .passwordFile = some old →
    Reaches effect (gpgEncrypt cfg path) s (.done ()) s' →
      bytesAt s' (.bak .passwordFile) = some old

/-- Without the setting no backup is made. -/
theorem makesNoBackup_of_off (off : cfg.backup = false) : MakesNoBackup cfg := by
  intro path s s' old _ absent run
  have changed : checksum [] ≠ sourceCrc none := cksum_nil_ne_zero
  have follows : Conforms cfg .ascii .edit (gpgEncrypt cfg path) (.compared none path []) _ :=
    gpgEncrypt_conforms changed
  obtain ⟨stage, _, _, none⟩ := Program.Follows.reaches
    (fun _ _ _ _ _ allowed => plain_step off allowed) run follows ⟨changed, absent⟩
  exact none

/-- With the setting the previous file is the backup. -/
theorem keepsPrevious_of_on (on : cfg.backup = true) : KeepsPrevious cfg := by
  intro path s s' old existing run
  obtain ⟨noted, recorded⟩ := run.recorded (Replacement.note path) (.start none)
  exact (Replacement.completed_run on recorded).2.2 old existing

/-- Whether a run has come to its end. -/
def ended (e : Prog Unit × State) : Bool :=
  match e.1 with
  | .done _ => true
  | _ => false

/-- A run that has ended so has returned. -/
theorem eq_done_of_ended {e : Prog Unit × State} (done : ended e = true) : e.1 = .done () := by
  obtain ⟨q, s⟩ := e
  cases q with
  | done value => rfl
  | halt ending => simp [ended] at done
  | call request next => simp [ended] at done

/-- There is a run that completes, and it finds no backup. -/
theorem exists_completed (off : cfg.backup = false) : ∃ s s',
    bytesAt s .passwordFile = some [0x70] ∧ bytesAt s (.bak .passwordFile) = none ∧
      Reaches effect (gpgEncrypt cfg (.tmp 0)) s (.done ()) s' := by
  have good : (play effect succeeding 30 (gpgEncrypt cfg (.tmp 0)) (sampleState true)).any ended =
      true := by
    obtain ⟨debugEnabled, backup, editor, gpgPath, gpgKeyId, gpgTimeout⟩ := cfg
    simp only at off
    subst off
    cases debugEnabled <;> rfl
  obtain ⟨q, s', run, done⟩ := exists_of_play good
  exact ⟨sampleState true, s', rfl, rfl, eq_done_of_ended done ▸ run⟩

/-- Whether every `set backup` line has the value `yes` or `no`. -/
def YesOrNo (asked : List Directive) : Prop :=
  ∀ value, .set (ascii "backup") value ∈ asked → value = some (ascii "yes") ∨
    value = some (ascii "no")

/-- The value of the last `set backup` line. -/
def lastBackup (asked : List Directive) : Option Bytes := lastValue some (ascii "backup") asked

/-- Every such line turns the backups off. -/
theorem backup_top {L : CLocale} {cfg : Settings} {asked : List Directive} {final : ConfigState}
    (accepted : runAll L ⟨cfg, [], none⟩ asked = some final) (values : YesOrNo (leading asked)) :
    final.settings.backup = ((lastBackup (leading asked)).isNone && cfg.backup) := by
  refine top_induction (motive := fun cfg lines left =>
    YesOrNo lines → left.backup = ((lastBackup lines).isNone && cfg.backup)) ?_ ?_ ?_ accepted
      values
  · intro cfg _
    simp [lastBackup, lastValue]
  · intro cfg rest left same values
    rw [lastBackup, lastValue_cons_of_none some rfl]
    exact same fun value member => values value (List.mem_cons_of_mem _ member)
  · intro name value cfg next rest left changed same values
    have later := same fun value member => values value (List.mem_cons_of_mem _ member)
    by_cases named : name = ascii "backup"
    · subst named
      have off : next.backup = false := by
        cases changed with
        | backup =>
          show parseBoolean value = false
          rcases values value (List.mem_cons_self ..) with rfl | rfl <;> decide
        | _ named => exact absurd named (by decide)
      rw [later, off, Bool.and_false, lastBackup, lastValue_cons, given, if_pos rfl]
      rcases values value (List.mem_cons_self ..) with rfl | rfl <;> simp
    · have kept : next.backup = cfg.backup := by
        cases changed with
        | backup here => exact absurd here named
        | _ => rfl
      rw [later, kept, lastBackup, lastBackup,
        lastValue_cons_of_none some (given_of_ne named value)]

/-- What the last `set backup` line, or that there is none, says about the backups. -/
def BackupsFollow (cfg : Config) (last : Option Bytes) : Prop :=
  (last ≠ some (ascii "no") → KeepsPrevious cfg) ∧ (last = some (ascii "no") → MakesNoBackup cfg)

/-- Backups are made as the configuration says exactly when the last `set backup` line is not
`set backup yes`. -/
theorem backupsFollow_iff {around : Surroundings} {argv : List Bytes} {command : Command.Edits}
    {content : Bytes} (launched : launch L around argv = .ok (cfg, .edits command))
    (file : around.config = some content)
    (values : YesOrNo (leading (fileDirectives (some content)))) :
    BackupsFollow cfg (lastBackup (leading (fileDirectives (some content)))) ↔
      lastBackup (leading (fileDirectives (some content))) ≠ some (ascii "yes") := by
  obtain ⟨cmd, _, _, state, _, read, _, rfl⟩ := of_launch launched
  obtain ⟨before, accepted, rfl⟩ := of_readConfig read
  have ran := configRead_toOption L (.initial around.editor) content
  rw [← file, accepted] at ran
  have backup := backup_top ran.symm values
  have initial : (ConfigState.initial around.editor).settings.backup = true := rfl
  have switch : (configOf cmd (configSetDefaults around.configDir cmd before.settings)).backup =
      (lastBackup (leading (fileDirectives (some content)))).isNone := by
    show before.settings.backup = _
    rw [backup]
    exact Bool.and_true _
  cases last : lastBackup (leading (fileDirectives (some content))) with
  | none =>
    rw [last] at switch
    exact ⟨fun _ => by simp, fun _ => ⟨fun _ => keepsPrevious_of_on switch, by simp⟩⟩
  | some value =>
    rw [last] at switch
    obtain ⟨text, member, same⟩ := lastValue_mem last
    cases same
    have off := makesNoBackup_of_off switch
    rcases values _ member with yes | no
    · cases yes
      constructor
      · intro follows
        obtain ⟨s, s', existing, absent, run⟩ := exists_completed switch
        have made := follows.1 (by decide) _ s s' _ existing run
        rw [off _ s s' _ existing absent run] at made
        contradiction
      · exact fun other => absurd rfl other
    · cases no
      exact ⟨fun _ => by decide, fun _ => ⟨fun other => absurd rfl other, fun _ => off⟩⟩

/-- A file that asks for no backups. -/
def quietFile : Bytes := ascii "set editor vi\nset backup no\n"

/-- The configuration that it comes to. -/
def quietConfig : Config := ⟨false, false, ascii "vi", ascii "/usr/bin/gpg", none, 20⟩

/-- A configuration that says nothing of backups. -/
theorem backupsFollow_iff_quiet :
    BackupsFollow quietConfig (lastBackup (leading (fileDirectives (some quietFile)))) ↔
      lastBackup (leading (fileDirectives (some quietFile))) ≠ some (ascii "yes") := by
  have launched : launch .ascii ⟨false, none, ascii "/h/.mdp", some quietFile⟩ [ascii "edit"] =
      .ok (quietConfig, .edits .edit) := rfl
  have top : leading (fileDirectives (some quietFile)) = [.set (ascii "editor") (some (ascii "vi")),
      .set (ascii "backup") (some (ascii "no"))] := by decide +kernel
  apply backupsFollow_iff launched rfl
  intro value member
  rw [top] at member
  simp only [List.mem_cons, Directive.set.injEq, List.not_mem_nil, or_false] at member
  rcases member with ⟨named, _⟩ | ⟨_, no⟩
  · exact absurd named (by decide)
  · exact .inr no

/-- A file that asks for backups. -/
def backupFile : Bytes := ascii "set backup yes\n"

/-- The configuration that it comes to. -/
def backupConfig : Config := ⟨false, false, ascii "/usr/bin/vi", ascii "/usr/bin/gpg", none, 20⟩

/-- With `set backup yes` the previous password file is replaced without a backup. -/
theorem no_backup_despite_yes :
    launch .ascii ⟨false, none, ascii "/h/.mdp", some backupFile⟩ [ascii "edit"] =
        .ok (backupConfig, .edits .edit) ∧
      leading (fileDirectives (some backupFile)) = [.set (ascii "backup") (some (ascii "yes"))] ∧
      ¬ BackupsFollow backupConfig (lastBackup (leading (fileDirectives (some backupFile)))) := by
  have top : leading (fileDirectives (some backupFile)) =
      [.set (ascii "backup") (some (ascii "yes"))] := by
    decide +kernel
  refine ⟨rfl, top, fun follows => ?_⟩
  have off : backupConfig.backup = false := rfl
  obtain ⟨s, s', existing, absent, run⟩ := exists_completed off
  have last : lastBackup (leading (fileDirectives (some backupFile))) ≠ some (ascii "no") := by
    rw [top]
    decide
  have made := follows.1 last _ s s' _ existing run
  rw [makesNoBackup_of_off off _ s s' _ existing absent run] at made
  contradiction

end Mdp.Backup
