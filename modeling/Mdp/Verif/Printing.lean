import Mdp.Scenario
import Mdp.Search
import Mdp.Tokens
import Mdp.Verif.Decoding

/-!
# What `mdp get -r` prints

In an environment in which nothing fails, `mdp get -r` prints the lines it is asked for: those of
the decrypted content, in their order, that are no comments and that every keyword occurs in. The
keywords share a buffer that is never cleared, but a conversion that succeeds ends its own string.
-/

namespace Mdp.Printing

open Mdp Interaction CStrings Decoding

/-- A keyword that the buffer holds: a string that decodes to fewer characters than it has cells. -/
structure Fits (L : CLocale) (keyword : Bytes) : Prop where
  nonNull : ∀ byte ∈ keyword, byte ≠ 0
  short : ∃ wides, L.decode keyword = some wides ∧ wides.length < keywordLength

/-- A keyword occurs in a line, whatever the case of their letters. -/
def Occurs (lib : Library) (L : CLocale) (keyword : Bytes) (line : List WChar) : Prop :=
  ((L.decode keyword).getD []).map lib.towlower <:+: line.map lib.towlower

/-- Whether a keyword occurs in a line can be decided. -/
instance (lib : Library) (L : CLocale) (keyword : Bytes) (line : List WChar) :
    Decidable (Occurs lib L keyword line) := inferInstanceAs (Decidable (_ <:+: _))

/-- A line that is no comment and that every keyword occurs in. -/
def Wanted (lib : Library) (L : CLocale) (keywords : List Bytes) (line : List WChar) : Prop :=
  line.head? ≠ some hash ∧ ∀ keyword ∈ keywords, Occurs lib L keyword line

/-- Whether a line is wanted can be decided. -/
instance (lib : Library) (L : CLocale) (keywords : List Bytes) (line : List WChar) :
    Decidable (Wanted lib L keywords line) := inferInstanceAs (Decidable (_ ∧ _))

/-- The lines of a content, decoded, with trailing whitespace removed. -/
def entries (L : CLocale) (content : Bytes) : List (List WChar) :=
  (lines content).map fun line => ((L.decode line).getD []).rdropWhile isWhitespace

/-- What is to be printed. -/
def wantedText (lib : Library) (L : CLocale) (keywords : List Bytes) (content : Bytes) : Bytes :=
  ((entries L content).filter fun line => Wanted lib L keywords line).flatMap fun line =>
    (L.encode line).getD [] ++ [newline]

variable {lib : Library} {L : CLocale}

/-- The loop over the keywords compares each one, whatever the buffer held. -/
theorem lineMatchesPlain_iff {keywords : List Bytes} (fits : ∀ keyword ∈ keywords, Fits L keyword)
    (line kw : List WChar) :
    lineMatchesPlain lib L line kw keywords = true ↔
      ∀ keyword ∈ keywords, Occurs lib L keyword line := by
  induction keywords generalizing kw with
  | nil => simp [lineMatchesPlain]
  | cons keyword rest ih =>
    rw [List.forall_mem_cons] at fits ⊢
    obtain ⟨wides, decoded, short⟩ := fits.1.short
    have nonNull := L.decode_nonNull decoded fits.1.nonNull
    have read : upToNul (L.mbstowcs keywordLength keyword kw).1 = wides :=
      L.upToNul_mbstowcs decoded fits.1.nonNull short
    have found : Occurs lib L keyword line ↔ (wcscasestr lib.towlower line wides).isSome := by
      rw [Occurs, decoded, Option.getD_some, wcscasestr_isSome_iff nonNull]
    rw [found, ← ih fits.2 (L.mbstowcs keywordLength keyword kw).1, lineMatchesPlain, read]
    cases wcscasestr lib.towlower line wides <;> simp

/-- `line_matches` in plain mode. -/
theorem lineMatches_plain {keywords : List Bytes} (fits : ∀ keyword ∈ keywords, Fits L keyword)
    (leftovers : Leftovers) (line : List WChar) :
    lineMatches lib L false leftovers keywords line =
        .ok (decide (Wanted lib L keywords line)) := by
  unfold lineMatches
  by_cases comment : line.head? = some hash
  · rw [if_pos comment]
    simp [Wanted, comment]
  · rw [if_neg comment, if_neg (by simp)]
    congr 1
    rw [Bool.eq_iff_iff, lineMatchesPlain_iff fits]
    simp [Wanted, comment]

/-- The results that are visible after a search in plain mode are those that are asked for. -/
theorem filterFrom_plain {keywords : List Bytes} (fits : ∀ keyword ∈ keywords, Fits L keyword)
    (leftovers : Nat → Leftovers) (i : Nat) (results : List Result) :
    filterFrom lib L false leftovers keywords i results = .ok (results.map fun result =>
      { result with visible := decide (Wanted lib L keywords result.wcsValue) }) := by
  induction results generalizing i with
  | nil => rfl
  | cons result rest ih =>
    rw [filterFrom, lineMatches_plain fits]
    simp only [ih (i + 1), List.map_cons]

/-- What is printed of results with a flag. -/
theorem printResults_flagged (test : List WChar → Bool) (results : List Result) :
    printResults L (results.map fun result => { result with visible := test result.wcsValue }) =
      ((results.map Result.wcsValue).filter test).flatMap (printLine L) := by
  induction results with
  | nil => rfl
  | cons result rest ih =>
    unfold printResults at ih ⊢
    cases shown : test result.wcsValue with
    | true =>
      rw [List.map_cons, List.map_cons, List.filter_cons_of_pos shown,
        List.filter_cons_of_pos (by simpa using shown), List.flatMap_cons, List.flatMap_cons, ih]
    | false =>
      rw [List.map_cons, List.map_cons, List.filter_cons_of_neg (by simp [shown]),
        List.filter_cons_of_neg (by simpa using shown), ih]

/-- Lines that decode and their results. -/
theorem values_of_decodes {pieces : List Bytes} {added : List Result}
    (nonNull : ∀ piece ∈ pieces, ∀ byte ∈ piece, byte ≠ 0)
    (all : List.Forall₂ (Decodes L) pieces added) :
    added.map Result.wcsValue =
        pieces.map (fun piece => ((L.decode piece).getD []).rdropWhile isWhitespace) ∧
      ∀ line ∈ added.map Result.wcsValue, (L.encode line).isSome := by
  induction all with
  | nil => simp
  | @cons piece result pieces added one _ ih =>
    rw [List.forall_mem_cons] at nonNull
    obtain ⟨values, written⟩ := ih nonNull.2
    obtain ⟨wides, decoded, value⟩ := one.wide
    rw [upToNul_of_forall nonNull.1] at decoded
    rw [List.map_cons, List.map_cons, List.forall_mem_cons, values, value, decoded]
    refine ⟨rfl, ?_, by rwa [← values]⟩
    rw [← value, one.bytes]
    rfl

/-- A content whose lines the buffers hold loads as its entries. -/
theorem loadContent_entries {content : Bytes} (nonNull : ∀ byte ∈ content, byte ≠ 0)
    (fits : ∀ line ∈ lines content, line.length < maxLineSize)
    (valid : ∀ line ∈ lines content, (L.decode line).isSome) :
    ∃ loaded, loadContent L .initial content = .ok loaded ∧
      loaded.results.map Result.wcsValue = entries L content ∧
      ∀ line ∈ entries L content, (L.encode line).isSome := by
  have split : chunks maxLineSize content = lines content :=
    chunks_eq_lines 16382 fun line member => Nat.le_of_lt_succ (fits line member)
  have clean : ∀ line ∈ lines content, ∀ byte ∈ line, byte ≠ 0 := by
    intro line member byte inside
    apply nonNull byte
    rw [← chunks_flatten 16382 content]
    exact List.mem_flatten_of_mem (by rw [← maxLineSize_eq, split]; exact member) inside
  obtain ⟨loaded, added, ok, results, each⟩ := loadContent_succeeds (L := L) .initial content
  rw [split] at each
  have all : List.Forall₂ (Decodes L) (lines content) added := by
    have both :=
      (List.forall₂_and_left _ _).mpr ⟨clean, (List.forall₂_and_left _ _).mpr ⟨valid, each⟩⟩
    refine both.imp fun line result holds => holds.2.2 ?_
    rw [upToNul_of_forall holds.1]
    exact holds.2.1
  obtain ⟨values, written⟩ := values_of_decodes clean all
  have same : loaded.results = added := results
  refine ⟨loaded, ok, ?_, ?_⟩
  · rw [same, values]
    rfl
  · rw [values] at written
    exact written

/-- Answers with which nothing fails, and gpg prints a content. -/
structure Succeeds (answers : (request : Call) → Call.Answer request) (content : Bytes) : Prop where
  allocate : answers .allocate = true
  strftime : ∃ tbuf, answers .strftime = some tbuf
  version : ∀ gpgPath, answers (.system (.version gpgPath)) = 0
  listSecretKeys : ∀ gpgPath, answers (.system (.listSecretKeys gpgPath)) = 0
  stat : answers (.stat .passwordFile) = .found
  pipe : ∃ pout, answers .pipe = some pout
  fork : ∃ pid, answers .fork = .parent pid
  close : ∀ fd, answers (.close fd) = true
  fdopen : ∀ fd, answers (.fdopen fd) = true
  fgets : answers (.fgets .pipe) = content
  fclose : answers (.fclose .pipe) = true
  waitpid : ∀ pid, answers (.waitpid pid) = .exited 0
  kill : ∀ pid, answers (.kill pid .int) = .sent

variable {cfg : Config} {answers : (request : Call) → Call.Answer request} {content : Bytes}

/-- A call is answered as all of its kind are. -/
theorem under_ask (request : Call) : (ask request).under answers = .ok (answers request) := rfl

/-- What is required and has passed does not end the program. -/
theorem under_require {passed : Bool} (fine : passed = true) (message : String) :
    (require passed message).under answers = .ok () := by
  rw [fine]
  rfl

/-- `xasprintf` succeeds where memory is available. -/
theorem Succeeds.xasprintf (fine : Succeeds answers content) :
    Mdp.xasprintf.under answers = .ok () := by
  show (require (answers .allocate) _).under answers = _
  exact under_require fine.allocate _

/-- `debug` succeeds where memory is available. -/
theorem Succeeds.debug (fine : Succeeds answers content) (fmt : String) :
    (Mdp.debug cfg fmt).under answers = .ok () := by
  unfold Mdp.debug
  cases cfg.debugEnabled with
  | false => rfl
  | true =>
    obtain ⟨tbuf, text⟩ := fine.strftime
    simp only [if_true, debugPrint, Program.bind_eq]
    rw [Program.under_bind (under_ask .getpid), Program.under_bind (under_ask .strftime), text]
    exact Program.under_bind fine.xasprintf

/-- `xmalloc` succeeds where memory is available. -/
theorem Succeeds.xmalloc (fine : Succeeds answers content) :
    Mdp.xmalloc.under answers = .ok () := by
  show (require (answers .allocate) _).under answers = _
  exact under_require fine.allocate _

/-- An array that has room takes one more item. -/
theorem Succeeds.arrayAdd (fine : Succeeds answers content) {num : Nat} (room : num < uintMax) :
    (Mdp.arrayAdd num).under answers = .ok () := by
  simp only [Mdp.arrayAdd, Program.bind_eq]
  rw [Program.under_bind (under_require (by simpa using room) _),
    Program.under_bind (under_ask .allocate)]
  exact under_require fine.allocate _

/-- A line that is loaded is one more result. -/
theorem loadLine_length {memory next : Memory} {line : Bytes}
    (taken : loadLine L memory line = some next) :
    next.results.length = memory.results.length + 1 := by
  simp only [loadLine, Option.map_eq_some_iff] at taken
  obtain ⟨result, _, rfl⟩ := taken
  simp

/-- The loop of `load_results_fp` makes its calls and loads what it can. -/
theorem Succeeds.loadResultsLoop (fine : Succeeds answers content) {pieces : List Bytes}
    {memory loaded : Memory} {lineCount : Nat} {ctx : CksumCtx}
    (ok : loadLines L lineCount memory ctx pieces = .ok loaded)
    (room : memory.results.length + pieces.length ≤ uintMax) :
    (Mdp.loadResultsLoop L memory ctx pieces).under answers = .ok loaded := by
  induction pieces generalizing memory lineCount ctx with
  | nil =>
    cases ok
    rfl
  | cons line rest ih =>
    have warned : (warnUnlessNewline line).under answers = .ok () := by
      unfold warnUnlessNewline
      split <;> rfl
    simp only [loadLines] at ok
    cases taken : loadLine L memory line with
    | none => simp [taken] at ok
    | some next =>
      simp only [taken] at ok
      have longer := loadLine_length taken
      rw [List.length_cons] at room
      simp only [Mdp.loadResultsLoop, Program.bind_eq, taken]
      rw [Program.under_bind warned, Program.under_bind fine.xmalloc,
        Program.under_bind fine.xmalloc, Program.under_bind (fine.arrayAdd (by omega))]
      exact ih ok (by omega)

/-- `gpg_open` starts gpg and the watcher. -/
theorem Succeeds.gpgOpen (fine : Succeeds answers content) :
    ∃ gpgPid watcherPid, (Mdp.gpgOpen cfg).under answers =
        .ok (some ⟨true, gpgPid, watcherPid⟩) := by
  obtain ⟨pout, piped⟩ := fine.pipe
  obtain ⟨pid, forked⟩ := fine.fork
  have found : (fileExists .passwordFile).under answers = .ok true := by
    simp only [fileExists, Program.bind_eq]
    rw [Program.under_bind (under_ask (.stat .passwordFile)), fine.stat]
    rfl
  have watched : ∀ timeout, (setPidTimeout cfg pid timeout).under answers = .ok pid := by
    intro timeout
    simp only [setPidTimeout, Program.bind_eq]
    rw [Program.under_bind (under_ask .fork), forked]
    simp only
    rw [Program.under_bind (under_ask .getpid), Program.under_bind (fine.debug _)]
    rfl
  have parent : (gpgParent cfg pout pid).under answers = .ok (some ⟨true, pid, pid⟩) := by
    simp only [gpgParent, Program.bind_eq]
    rw [Program.under_bind (under_ask (.close pout.2)),
      Program.under_bind (under_require (fine.close pout.2) _),
      Program.under_bind (under_ask (.fdopen pout.1)), Program.under_bind (watched _), fine.fdopen]
    rfl
  refine ⟨pid, pid, ?_⟩
  simp only [Mdp.gpgOpen, Program.bind_eq]
  rw [Program.under_bind found]
  simp only [if_true, gpgStart, Program.bind_eq]
  rw [Program.under_bind (fine.debug _), Program.under_bind (under_ask .pipe), piped]
  simp only [gpgFork, Program.bind_eq]
  rw [Program.under_bind (under_ask .fork), forked]
  exact parent

/-- `gpg_close` returns gpg's status. -/
theorem Succeeds.gpgClose (fine : Succeeds answers content) (opened : GpgOpen) :
    (Mdp.gpgClose cfg opened).under answers = .ok 0 := by
  have cancelled : (cancelPidTimeout cfg opened.watcherPid).under answers = .ok () := by
    simp only [cancelPidTimeout, Program.bind_eq]
    rw [Program.under_bind (fine.debug _), Program.under_bind (under_ask (.kill _ .int)), fine.kill]
    rfl
  simp only [Mdp.gpgClose, Program.bind_eq]
  rw [Program.under_bind (fine.debug _), Program.under_bind (under_ask (.fclose .pipe)),
    Program.under_bind (under_require fine.fclose _), Program.under_bind (under_ask (.waitpid _)),
    fine.waitpid]
  simp only
  rw [Program.under_bind (fine.debug _), Program.under_bind cancelled]
  rfl

/-- `load_results_gpg` loads what gpg prints. -/
theorem Succeeds.loadResultsGpg (fine : Succeeds answers content) {memory loaded : Memory}
    (ok : loadContent L memory content = .ok loaded)
    (room : memory.results.length + (chunks maxLineSize content).length ≤ uintMax) :
    (Mdp.loadResultsGpg cfg L memory).under answers = .ok loaded := by
  have started : ∃ gpgPid watcherPid,
      (Mdp.gpgOpen cfg).under answers = .ok (some ⟨true, gpgPid, watcherPid⟩) := fine.gpgOpen
  obtain ⟨gpgPid, watcherPid, opened⟩ := started
  have read : (loadResultsFp L memory (some .pipe)).under answers = .ok loaded := by
    simp only [loadResultsFp, Program.bind_eq]
    rw [Program.under_bind (under_ask (.fgets .pipe)), fine.fgets]
    exact fine.loadResultsLoop ok room
  simp only [Mdp.loadResultsGpg, Program.bind_eq]
  rw [Program.under_bind opened]
  simp only [if_true]
  rw [Program.under_bind read, Program.under_bind (fine.gpgClose _)]
  rfl

/-- `gpg_check` passes with a key. -/
theorem Succeeds.gpgCheck (fine : Succeeds answers content) (key : cfg.gpgKeyId.isSome = true) :
    (Mdp.gpgCheck cfg).under answers = .ok () := by
  simp only [Mdp.gpgCheck, Program.bind_eq]
  rw [Program.under_bind fine.xasprintf, Program.under_bind (under_ask (.system (.version _))),
    Program.under_bind (under_require (by rw [fine.version]; rfl) _),
    Program.under_bind fine.xasprintf, Program.under_bind (under_ask (.system (.listSecretKeys _))),
    Program.under_bind (under_require (by rw [fine.listSecretKeys]; rfl) _)]
  exact under_require key _

/-- `print_results` after `filter_results`, for results that hold these lines. -/
theorem printResults_wanted {keywords : List Bytes} {results : List Result}
    (values : results.map Result.wcsValue = entries L content)
    (written : ∀ line ∈ entries L content, (L.encode line).isSome) :
    printResults L (results.map fun result =>
      { result with visible := decide (Wanted lib L keywords result.wcsValue) }) =
      wantedText lib L keywords content := by
  rw [printResults_flagged (fun line => decide (Wanted lib L keywords line)), values, wantedText,
    List.flatMap_def, List.flatMap_def]
  congr 1
  apply List.map_congr_left
  intro line member
  obtain ⟨text, encoded⟩ :=
    Option.isSome_iff_exists.mp (written line (List.mem_of_mem_filter member))
  rw [printLine, encoded, Option.getD_some]

/-- Only which keywords there are matters. -/
theorem wantedText_congr {keywords other : List Bytes}
    (same : ∀ keyword, keyword ∈ other ↔ keyword ∈ keywords) (content : Bytes) :
    wantedText lib L other content = wantedText lib L keywords content := by
  have wanted : ∀ line, Wanted lib L other line ↔ Wanted lib L keywords line := by
    intro line
    simp only [Wanted, same]
  simp only [wantedText, wanted]

/-- `mdp get -r` in plain mode, for keywords that its buffer holds. -/
theorem mdpGetRaw_under (fine : Succeeds answers content) (key : cfg.gpgKeyId.isSome = true)
    (nonNull : ∀ byte ∈ content, byte ≠ 0)
    (fits : ∀ line ∈ lines content, line.length < maxLineSize)
    (valid : ∀ line ∈ lines content, (L.decode line).isSome)
    (room : (lines content).length ≤ uintMax) {keywords : List Bytes}
    (held : ∀ keyword ∈ keywords, Fits L keyword) (leftovers : Nat → Leftovers) :
    (mdpGetRaw lib L cfg false leftovers keywords).under answers =
      if lines content = [] then .error (.exit exitFailure "no passwords")
      else .ok (wantedText lib L keywords content) := by
  obtain ⟨loaded, ok, values, written⟩ := loadContent_entries nonNull fits valid
  have split : chunks maxLineSize content = lines content :=
    chunks_eq_lines 16382 fun line member => Nat.le_of_lt_succ (fits line member)
  have load : (loadResultsGpg cfg L .initial).under answers = .ok loaded := by
    apply fine.loadResultsGpg ok
    rw [split]
    simpa [Memory.initial] using room
  have many : loaded.results.length = (lines content).length := by
    rw [← List.length_map (f := Result.wcsValue), values, entries, List.length_map]
  simp only [mdpGetRaw, Program.bind_eq]
  rw [Program.under_bind (fine.debug _)]
  split
  · rename_i empty
    rw [empty, List.length_nil] at many
    apply Program.under_bind_error
    simp only [loadPasswords, Program.bind_eq]
    rw [Program.under_bind (fine.gpgCheck key), Program.under_bind load, many]
    rfl
  · rename_i some
    have positive : (loaded.results.length != 0) = true := by
      have longer := List.length_pos_of_ne_nil some
      simp only [bne_iff_ne]
      omega
    have passwords : (loadPasswords L cfg).under answers = .ok loaded := by
      simp only [loadPasswords, Program.bind_eq]
      rw [Program.under_bind (fine.gpgCheck key), Program.under_bind load,
        Program.under_bind (under_require positive _)]
      rfl
    rw [Program.under_bind passwords, filterResults, filterFrom_plain held]
    show Except.ok _ = Except.ok _
    rw [printResults_wanted values written]

/-- `mdp get -r` in plain mode prints the lines that are asked for, and exits where there is none at
all; the order and the repetition of the keywords do not matter. -/
theorem prints_wanted (lib : Library) (L : CLocale) (cfg : Config) (content : Bytes)
    (keywords : List Bytes) (leftovers : Nat → Leftovers)
    (answers : (request : Call) → Call.Answer request) (fine : Succeeds answers content)
    (key : cfg.gpgKeyId.isSome = true) (nonNull : ∀ byte ∈ content, byte ≠ 0)
    (fits : ∀ line ∈ lines content, line.length < maxLineSize)
    (valid : ∀ line ∈ lines content, (L.decode line).isSome)
    (room : (lines content).length ≤ uintMax) (held : ∀ keyword ∈ keywords, Fits L keyword) :
    (mdpGetRaw lib L cfg false leftovers keywords).under answers =
        (if lines content = [] then .error (.exit exitFailure "no passwords")
        else .ok (wantedText lib L keywords content)) ∧
      ∀ other : List Bytes, (∀ keyword, keyword ∈ other ↔ keyword ∈ keywords) →
        (mdpGetRaw lib L cfg false leftovers other).under answers =
          (mdpGetRaw lib L cfg false leftovers keywords).under answers := by
  have printed :=
    @mdpGetRaw_under lib L cfg answers content fine key nonNull fits valid room keywords
    held leftovers
  refine ⟨printed, fun other same => ?_⟩
  have held' : ∀ keyword ∈ other, Fits L keyword := fun keyword member =>
    held keyword ((same keyword).mp member)
  rw [printed, mdpGetRaw_under fine key nonNull fits valid room held' leftovers,
    wantedText_congr same]

/-- A library for the C locale, without regular expressions. -/
def plainLibrary : Library where
  towlower wide := if 0x41 ≤ wide ∧ wide ≤ 0x5a then wide + 0x20 else wide
  regcomp _ := none

/-- An environment in which nothing fails. -/
def printingAnswers (content : Bytes) (request : Call) : Call.Answer request :=
  printing content request (sampleState true)

/-- These answers let every call succeed. -/
theorem printingAnswers_succeeds (content : Bytes) : Succeeds (printingAnswers content) content :=
  ⟨rfl, ⟨_, rfl⟩, fun _ => rfl, fun _ => rfl, rfl, ⟨_, rfl⟩, ⟨_, rfl⟩, fun _ => rfl, fun _ =>
    rfl, rfl, rfl, fun _ => rfl, fun _ => rfl⟩

/-- A keyword in another case, and a comment with it. -/
theorem prints_wanted_one :
    (mdpGetRaw plainLibrary .ascii (sampleConfig true) false (fun _ => ⟨[], []⟩) [ascii "AB"]).under
        (printingAnswers (ascii "x ab \n#ab\ny\n")) =
        (if lines (ascii "x ab \n#ab\ny\n") = [] then .error (.exit exitFailure "no passwords")
        else .ok (wantedText plainLibrary .ascii [ascii "AB"] (ascii "x ab \n#ab\ny\n"))) ∧
      ∀ other : List Bytes, (∀ keyword, keyword ∈ other ↔ keyword ∈ [ascii "AB"]) →
        (mdpGetRaw plainLibrary .ascii (sampleConfig true) false (fun _ => ⟨[], []⟩) other).under
            (printingAnswers (ascii "x ab \n#ab\ny\n")) =
          (mdpGetRaw plainLibrary .ascii (sampleConfig true) false (fun _ => ⟨[], []⟩)
            [ascii "AB"]).under
            (printingAnswers (ascii "x ab \n#ab\ny\n")) := by
  have held : ∀ keyword ∈ [ascii "AB"], Fits .ascii keyword := by
    rw [List.forall_mem_singleton]
    exact ⟨by decide +kernel, [0x41, 0x42], by decide, by decide⟩
  exact prints_wanted plainLibrary .ascii (sampleConfig true) _ [ascii "AB"] (fun _ => ⟨[], []⟩) _
    (printingAnswers_succeeds _) rfl (by decide +kernel) (by decide) (by decide) (by decide) held

/-- That line is printed. -/
example : wantedText plainLibrary .ascii [ascii "AB"] (ascii "x ab \n#ab\ny\n") =
    ascii "x ab\n" := by decide +kernel

end Mdp.Printing
