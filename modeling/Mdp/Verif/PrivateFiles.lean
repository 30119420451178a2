import Mdp.Startup

/-!
# What a command starts with

No command is started unless the directory of mdp and the one of the password file are closed to
others, and the files in them belong to the user or to root. The startup changes nothing but that it
makes these directories, and what it starts is what the configuration and the command line ask for.
-/

namespace Mdp.PrivateFiles

open Mdp Interaction CStrings

/-- A good owner. -/
def Owned (m : Machine) (sb : StatBuf) : Prop := sb.uid = 0 ∨ sb.uid = m.uid

/-- A directory with a good owner that is closed to everybody else. -/
def Private (m : Machine) (path : Bytes) : Prop :=
  ∃ sb, m.view path = some sb ∧ sb.kind = .directory ∧ Owned m sb ∧ sb.mode &&& 0o077 = 0

/-- What is there is a regular file with a good owner, and without some permissions. -/
def Ordinary (m : Machine) (path : Bytes) (forbidden : Nat) : Prop :=
  ∀ sb, m.view path = some sb → sb.kind = .regular ∧ Owned m sb ∧ sb.mode &&& forbidden = 0

/-- Nothing was changed but that directories were made where nothing was. -/
structure Grew (before after : Machine) : Prop where
  env : after.env = before.env
  uid : after.uid = before.uid
  fresh : ∀ mode, after.fresh mode = before.fresh mode
  view : ∀ name, after.view name = before.view name ∨
    before.view name = none ∧ after.view name = some (before.fresh 0o700)

variable {m s t u : Machine}

/-- A machine has grown from itself. -/
theorem Grew.refl (m : Machine) : Grew m m := ⟨rfl, rfl, fun _ => rfl, fun _ => .inl rfl⟩

/-- Growth upon growth is growth. -/
theorem Grew.trans (first : Grew s t) (second : Grew t u) : Grew s u where
  env := second.env.trans first.env
  uid := second.uid.trans first.uid
  fresh := fun mode => (second.fresh mode).trans (first.fresh mode)
  view := by
    intro name
    cases second.view name with
    | inl same =>
      rw [same]
      exact first.view name
    | inr made =>
      have absent : s.view name = none := by
        cases first.view name with
        | inl same => exact same.symm.trans made.1
        | inr earlier => exact earlier.1
      exact .inr ⟨absent, by rw [made.2, first.fresh]⟩

/-- A new directory changes no name that meant something. -/
theorem grew_made (m : Machine) (path : Bytes) (alsoNamed : Bytes → Bool) :
    Grew m (m.made path 0o700 alsoNamed) where
  env := rfl
  uid := rfl
  fresh := fun _ => rfl
  view := by
    intro name
    simp only [Machine.made]
    split_ifs with new
    · exact .inr ⟨Option.isNone_iff_eq_none.mp new.1, rfl⟩
    · exact .inl rfl

/-- What was there before is still the same. -/
theorem Grew.found (grew : Grew s t) {path : Bytes} {sb : StatBuf} (there : s.view path = some sb) :
    t.view path = some sb := by
  cases grew.view path with
  | inl same => rw [same, there]
  | inr made =>
    rw [made.1] at there
    cases there

/-- What is private stays so where a machine grows. -/
theorem Private.grew {path : Bytes} (closed : Private s path) (grew : Grew s t) :
    Private t path := by
  obtain ⟨sb, there, directory, owned, mode⟩ := closed
  refine ⟨sb, grew.found there, directory, ?_, mode⟩
  unfold Owned
  rw [grew.uid]
  exact owned

/-- What was ordinary later was ordinary before, where anything was there. -/
theorem Ordinary.before {path : Bytes} {forbidden : Nat} (ordinary : Ordinary t path forbidden)
    (grew : Grew s t) : Ordinary s path forbidden := by
  intro sb there
  have later := ordinary sb (grew.found there)
  unfold Owned at later
  rw [grew.uid] at later
  exact later

/-- A call ends where its answer is given. -/
theorem reaches_starts {request : StartupCall} {answer : StartupCall.Answer request}
    (run : Reaches machine (starts request) s (.done answer) t) :
    machine request answer s = some t := by
  obtain ⟨given, u, taken, rest⟩ := Reaches.of_call.mp run
  obtain ⟨same, here⟩ := Reaches.of_done.mp rest
  rw [← here, ← same]
  exact taken

/-- `stat` that succeeds tells what is there. -/
theorem reaches_stat_found {path : Bytes} {sb : StatBuf}
    (taken : machine (.stat path) (.found sb) s = some t) : s.view path = some sb ∧ s = t := by
  simp only [machine] at taken
  split_ifs at taken with there
  exact ⟨there, Option.some.inj taken⟩

/-- `stat` that finds nothing tells that nothing is there. -/
theorem reaches_stat_enoent {path : Bytes} (taken : machine (.stat path) .enoent s = some t) :
    s.view path = none ∧ s = t := by
  simp only [machine] at taken
  split_ifs at taken with absent
  exact ⟨absent, Option.some.inj taken⟩

/-- `getenv` tells what the environment holds. -/
theorem reaches_getenv {name : Bytes} {value : Option Bytes}
    (taken : machine (.getenv name) value s = some t) : value = s.env name ∧ s = t := by
  simp only [machine] at taken
  split_ifs at taken with same
  exact ⟨same, Option.some.inj taken⟩

/-- `getuid` tells who runs the process. -/
theorem reaches_getuid {uid : Nat} (taken : machine .getuid uid s = some t) :
    uid = s.uid ∧ s = t := by
  simp only [machine] at taken
  split_ifs at taken with same
  exact ⟨same, Option.some.inj taken⟩

/-- Past the check of the owner the owner is good. -/
theorem reaches_checkOwner {sb : StatBuf} {message : String}
    (run : Reaches machine (checkOwner sb message) s (.done ()) t) : Owned s sb ∧ s = t := by
  unfold checkOwner at run
  by_cases root : sb.uid = 0
  · rw [if_pos root] at run
    exact ⟨.inl root, (Reaches.of_done.mp run).2⟩
  · rw [if_neg root] at run
    obtain ⟨uid, u, first, second⟩ := Reaches.bind_done_iff.mp run
    obtain ⟨same, here⟩ := reaches_getuid (reaches_starts first)
    by_cases user : sb.uid = uid
    · rw [if_pos user] at second
      exact ⟨.inr (user.trans same), here.trans (Reaches.of_done.mp second).2⟩
    · rw [if_neg user] at second
      exact absurd second Reaches.of_halt

/-- Past the checks of a directory that was found it is private. -/
theorem reaches_checkDirectory {path : Bytes} {sb : StatBuf} (there : s.view path = some sb)
    (run : Reaches machine (checkDirectory sb) s (.done ()) t) : Private s path ∧ s = t := by
  unfold checkDirectory at run
  by_cases other : sb.kind ≠ .directory
  · rw [if_pos other] at run
    exact absurd run Reaches.of_halt
  · rw [if_neg other] at run
    obtain ⟨_, u, first, second⟩ := Reaches.bind_done_iff.mp run
    obtain ⟨owned, here⟩ := reaches_checkOwner first
    by_cases opened : sb.mode &&& 0o077 ≠ 0
    · rw [if_pos opened] at second
      exact absurd second Reaches.of_halt
    · rw [if_neg opened] at second
      exact ⟨⟨sb, there, Decidable.not_not.mp other, owned, Decidable.not_not.mp opened⟩,
        here.trans (Reaches.of_done.mp second).2⟩

/-- Past `config_ensure_directory` the directory is there and private. -/
theorem reaches_configEnsureDirectory {path : Bytes}
    (run : Reaches machine (configEnsureDirectory path) s (.done ()) t) :
    Private t path ∧ Grew s t := by
  unfold configEnsureDirectory at run
  obtain ⟨answer, u, asked, later⟩ := Reaches.bind_done_iff.mp run
  have taken := reaches_starts asked
  cases answer with
  | failed => exact absurd later Reaches.of_halt
  | found sb =>
    obtain ⟨there, here⟩ := reaches_stat_found taken
    rw [← here] at later
    obtain ⟨closed, same⟩ := reaches_checkDirectory there later
    rw [← same]
    exact ⟨closed, .refl s⟩
  | enoent =>
    obtain ⟨absent, here⟩ := reaches_stat_enoent taken
    rw [← here] at later
    obtain ⟨made, v, mkdir, rest⟩ := Reaches.bind_done_iff.mp later
    have created := reaches_starts mkdir
    cases made with
    | none => exact absurd rest Reaches.of_halt
    | some alsoNamed =>
      have grew : Grew s v := by
        simp only [machine, if_pos absent, Option.some.injEq] at created
        rw [← created]
        exact grew_made s path alsoNamed
      obtain ⟨second, w, stat, checked⟩ := Reaches.bind_done_iff.mp rest
      have again := reaches_starts stat
      cases second with
      | failed => exact absurd checked Reaches.of_halt
      | enoent => exact absurd checked Reaches.of_halt
      | found sb =>
        obtain ⟨there, here⟩ := reaches_stat_found again
        rw [← here] at checked
        obtain ⟨closed, same⟩ := reaches_checkDirectory there checked
        rw [← same]
        exact ⟨closed, grew⟩

/-- Past the check of a file it is missing or ordinary. -/
theorem reaches_checkFile {path : Bytes} {forbidden : Nat}
    (run : Reaches machine (checkFile path forbidden) s (.done ()) t) :
    Ordinary s path forbidden ∧ s = t := by
  unfold checkFile at run
  obtain ⟨answer, u, asked, later⟩ := Reaches.bind_done_iff.mp run
  have taken := reaches_starts asked
  cases answer with
  | failed => exact absurd later Reaches.of_halt
  | enoent =>
    obtain ⟨absent, here⟩ := reaches_stat_enoent taken
    refine ⟨fun sb there => ?_, here.trans (Reaches.of_done.mp later).2⟩
    rw [absent] at there
    cases there
  | found sb =>
    obtain ⟨there, here⟩ := reaches_stat_found taken
    rw [← here] at later
    dsimp only at later
    by_cases other : sb.kind ≠ .regular
    · rw [if_pos other] at later
      exact absurd later Reaches.of_halt
    · rw [if_neg other] at later
      obtain ⟨_, v, first, second⟩ := Reaches.bind_done_iff.mp later
      obtain ⟨owned, same⟩ := reaches_checkOwner first
      by_cases opened : sb.mode &&& forbidden ≠ 0
      · rw [if_pos opened] at second
        exact absurd second Reaches.of_halt
      · rw [if_neg opened] at second
        refine ⟨fun found looked => ?_, same.trans (Reaches.of_done.mp second).2⟩
        rw [there, Option.some.injEq] at looked
        rw [← looked]
        exact ⟨Decidable.not_not.mp other, owned, Decidable.not_not.mp opened⟩

/-- `get_home` gives `$HOME`, and that is there. -/
theorem reaches_getHome {home : Bytes} (run : Reaches machine getHome s (.done home) t) :
    s.env (ascii "HOME") = some home ∧ (∃ sb, s.view home = some sb) ∧ s = t := by
  unfold getHome at run
  obtain ⟨answer, u, asked, later⟩ := Reaches.bind_done_iff.mp run
  obtain ⟨value, here⟩ := reaches_getenv (reaches_starts asked)
  cases answer with
  | none => exact absurd later Reaches.of_halt
  | some found =>
    obtain ⟨exists', v, first, second⟩ := Reaches.bind_done_iff.mp later
    unfold startupFileExists at first
    obtain ⟨status, w, stat, rest⟩ := Reaches.bind_done_iff.mp first
    have taken := reaches_starts stat
    cases status with
    | failed => exact absurd rest Reaches.of_halt
    | enoent =>
      have missing := (Reaches.of_done.mp rest).1
      rw [← missing] at second
      exact absurd second Reaches.of_halt
    | found sb =>
      have present := Reaches.of_done.mp rest
      rw [← present.1] at second
      obtain ⟨there, same⟩ := reaches_stat_found taken
      have last := Reaches.of_done.mp second
      rw [← here] at there
      rw [last.1] at value there
      refine ⟨value.symm, ⟨sb, there⟩, ?_⟩
      rw [here, same, present.2, last.2]

/-- A warning changes nothing. -/
theorem reaches_warnEditor {cfg : Settings}
    (run : Reaches machine (warnEditor cfg) s (.done ()) t) :
    s = t := by
  unfold warnEditor at run
  split_ifs at run
  · exact Option.some.inj (reaches_starts run)
  · exact (Reaches.of_done.mp run).2

/-- Setting the locale changes nothing on the machine. -/
theorem reaches_setLocale (run : Reaches machine setLocale s (.done ()) t) : s = t := by
  unfold setLocale at run
  obtain ⟨answer, u, asked, later⟩ := Reaches.bind_done_iff.mp run
  have first : s = u := Option.some.inj (reaches_starts asked)
  cases answer with
  | true => exact first.trans (Reaches.of_done.mp later).2
  | false =>
    obtain ⟨value, v, getenv, warning⟩ := Reaches.bind_done_iff.mp later
    have second := (reaches_getenv (reaches_starts getenv)).2
    have third : v = t := Option.some.inj (reaches_starts warning)
    rw [first, second, third]

/-- What holds behind `read_config`. -/
structure Checked (L : CLocale) (cmd : CommandVariables) (before after : Machine)
    (state : ConfigState)
    (paths : StartupPaths) : Prop where
  /-- It read some configuration, from the directory in `$HOME`. -/
  read : ∃ home config, before.env (ascii "HOME") = some home ∧
    (∀ permute, readConfig L ⟨permute, before.env (ascii "EDITOR"), joinPath home (ascii ".mdp"),
      config⟩ cmd = .ok state) ∧ paths = startupPaths home cmd state.settings
  configDir : Private after paths.configDir
  passwordDir : Private after (dirname paths.passwordFile)
  config : Ordinary before paths.configPath 0
  passwordFile : Ordinary after paths.passwordFile 0o022
  grew : Grew before after

/-- `read_config` goes on only past all of its checks. -/
theorem reaches_readConfigChecked {L : CLocale} {cmd : CommandVariables} {state : ConfigState}
    {paths : StartupPaths}
    (run : Reaches machine (readConfigChecked L cmd) s (.done (state, paths)) t) :
    Checked L cmd s t state paths := by
  unfold readConfigChecked at run
  obtain ⟨home, u, first, run⟩ := Reaches.bind_done_iff.mp run
  obtain ⟨homeSet, _, here⟩ := reaches_getHome first
  rw [← here] at run
  obtain ⟨_, v, first, run⟩ := Reaches.bind_done_iff.mp run
  obtain ⟨configDir, grew⟩ := reaches_configEnsureDirectory first
  obtain ⟨editor, w, first, run⟩ := Reaches.bind_done_iff.mp run
  obtain ⟨editorSet, here⟩ := reaches_getenv (reaches_starts first)
  rw [← here] at run
  obtain ⟨_, w, first, run⟩ := Reaches.bind_done_iff.mp run
  obtain ⟨config, here⟩ := reaches_checkFile first
  rw [← here] at run
  obtain ⟨content, w, first, run⟩ := Reaches.bind_done_iff.mp run
  have here : v = w := Option.some.inj (reaches_starts first)
  rw [← here] at run
  cases accepted : configRead L (.initial editor) content with
  | error error =>
    rw [accepted] at run
    exact absurd run Reaches.of_halt
  | ok before =>
    rw [accepted] at run
    obtain ⟨_, w, first, run⟩ := Reaches.bind_done_iff.mp run
    rw [← reaches_warnEditor first] at run
    obtain ⟨_, w, first, run⟩ := Reaches.bind_done_iff.mp run
    obtain ⟨passwordDir, grewAgain⟩ := reaches_configEnsureDirectory first
    obtain ⟨_, x, first, run⟩ := Reaches.bind_done_iff.mp run
    obtain ⟨passwordFile, here⟩ := reaches_checkFile first
    obtain ⟨same, last⟩ := Reaches.of_done.mp run
    have states := congrArg Prod.fst same
    have places := congrArg Prod.snd same
    dsimp only at states places
    subst states places
    rw [← here] at last
    subst last
    rw [grew.env] at editorSet
    refine ⟨⟨home, content, homeSet, fun permute => ?_, rfl⟩, configDir.grew grewAgain, passwordDir,
      config.before grew, passwordFile, grew.trans grewAgain⟩
    simp only [readConfig, ← editorSet, accepted]

/-- The lock and the file for the editor lie in the directory of mdp. -/
theorem dirname_startupPaths (home : Bytes) (cmd : CommandVariables) (cfg : Settings) :
    dirname (startupPaths home cmd cfg).lockPath = (startupPaths home cmd cfg).configDir ∧
      dirname (startupPaths home cmd cfg).editorTmpPath =
          (startupPaths home cmd cfg).configDir := by
  have directory : joinPath home (ascii ".mdp") = joinPath home (ascii ".md") ++ [0x70] := by
    simp [joinPath, ascii]
  have lock : ∀ byte ∈ ascii "lock", byte ≠ slash := List.forall_iff_forall_mem.mp (by decide)
  have tmp : ∀ byte ∈ ascii "tmp_edit.XXXXXXXX", byte ≠ slash :=
    List.forall_iff_forall_mem.mp (by decide)
  simp only [startupPaths, directory]
  exact ⟨dirname_joinPath
    (by decide) lock (by decide), dirname_joinPath (by decide) tmp (by decide)⟩

/-- A command starts with the configuration that `launch` gives it, with the directory of mdp, in
which the lock and the file for the editor lie, and the one of the password file private, with a
configuration file and a password file that are ordinary where they exist, and with nothing changed
but directories that were made where nothing was. -/
theorem starts_with_private_files (L : CLocale) (permute : Bool) (argv : List Bytes) {m t : Machine}
    {cfg : Config} {started : Started} {paths : StartupPaths}
    (run : Reaches machine (startMain L permute argv) m (.done (cfg, started, paths)) t) :
    (∃ home config, m.env (ascii "HOME") = some home ∧
        paths.configDir = joinPath home (ascii ".mdp") ∧
        launch L ⟨permute, m.env (ascii "EDITOR"), paths.configDir, config⟩ argv =
          .ok (cfg, started)) ∧
      Private t paths.configDir ∧ dirname paths.lockPath = paths.configDir ∧
      dirname paths.editorTmpPath = paths.configDir ∧ Private t (dirname paths.passwordFile) ∧
      Ordinary m paths.configPath 0 ∧ Ordinary t paths.passwordFile 0o022 ∧ Grew m t := by
  unfold startMain at run
  obtain ⟨_, u, first, run⟩ := Reaches.bind_done_iff.mp run
  rw [← reaches_setLocale first] at run
  cases parsed : cmdParseCore argv with
  | error ending =>
    rw [parsed] at run
    exact absurd run Reaches.of_halt
  | ok found =>
    obtain ⟨cmd, words⟩ := found
    rw [parsed] at run
    cases words with
    | nil => exact absurd run Reaches.of_halt
    | cons command words =>
      obtain ⟨⟨state, places⟩, u, first, run⟩ := Reaches.bind_done_iff.mp run
      have checked := reaches_readConfigChecked first
      dsimp only at run
      cases dispatched : dispatch L permute cmd state command words with
      | error ending =>
        rw [dispatched] at run
        exact absurd run Reaches.of_halt
      | ok begun =>
        rw [dispatched] at run
        obtain ⟨same, last⟩ := Reaches.of_done.mp run
        simp only [Prod.mk.injEq] at same
        obtain ⟨configs, commands, sites⟩ := same
        subst configs commands sites last
        obtain ⟨home, config, homeSet, read, named⟩ := checked.read
        have directory : places.configDir = joinPath home (ascii ".mdp") := by rw [named]; rfl
        have inside := dirname_startupPaths home cmd state.settings
        rw [← named] at inside
        refine ⟨⟨home, config, homeSet, directory, ?_⟩, checked.configDir, inside.1, inside.2,
          checked.passwordDir, checked.config, checked.passwordFile, checked.grew⟩
        unfold launch
        rw [parsed, directory]
        simp only [bind, Except.bind, read, dispatched]

/-- A home directory without anything of mdp in it. -/
def newHome : Machine where
  env := fun name => if name = ascii "HOME" then some (ascii "/h") else none
  view := fun name => if name = ascii "/h" then some ⟨.directory, 0o755, 7⟩ else none
  uid := 7
  euid := 7
  umask := 0o022

/-- The machine answers, and there is no configuration file. -/
def answering : Oracle startupInterface Machine
  | .setlocale, _ => true
  | .getenv name, m => m.env name
  | .stat path, m =>
    match m.view path with
    | none => .enoent
    | some sb => .found sb
  | .mkdir _ _, _ => some fun _ => false
  | .getuid, m => m.uid
  | .read _, _ => none
  | .warn _, _ => ()

/-- The first start of a user, who has no files yet. -/
theorem starts_with_private_files_new : ∃ t : Machine,
    Private t (ascii "/h/.mdp") ∧ Ordinary t (ascii "/h/.mdp/passwords") 0o022 ∧
        Grew newHome t := by
  have played : (play machine answering 20 (startMain .ascii true [ascii "edit"]) newHome).any
      (fun final => match final.1 with
        | .done (_, _, paths) => paths.configDir == ascii "/h/.mdp" &&
            paths.passwordFile == ascii "/h/.mdp/passwords"
        | _ => false) = true := by decide +kernel
  obtain ⟨q, t, run, good⟩ := exists_of_play played
  cases q with
  | halt ending => cases good
  | call request next => cases good
  | done value =>
    obtain ⟨cfg, started, paths⟩ := value
    rw [Bool.and_eq_true, beq_iff_eq, beq_iff_eq] at good
    have start := starts_with_private_files .ascii true [ascii "edit"] run
    rw [← good.1, ← good.2]
    exact ⟨t, start.2.1, start.2.2.2.2.2.2.1, start.2.2.2.2.2.2.2⟩

end Mdp.PrivateFiles
