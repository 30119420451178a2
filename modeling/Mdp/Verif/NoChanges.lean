import Mdp.Outcome
import Mdp.Scenario
import Mdp.Verif.RoundTrip

/-!
# An edit that changes nothing

`load_results_fp` takes the checksum of the bytes it reads, and `edit_results` writes each line
without its trailing whitespace and with a newline. `has_changed` compares the two, so an editor
that does nothing is taken for one that does nothing only where the bytes were in that form. A
password file that does not exist leaves `result_crc32` zero, which is not the checksum of the empty
temporary file.
-/

namespace Mdp.NoChanges

open Interaction CStrings Decoding RoundTrip

/-- Every buffer of the content is valid, and is its text and one newline: no blanks before it, no
NUL, no long line, and a newline at the very end. -/
def NormalForm (L : CLocale) (content : Bytes) : Prop :=
  ∀ chunk ∈ chunks maxLineSize content, (L.decode (upToNul chunk)).isSome ∧
    upToNul chunk = stripped (upToNul chunk) ++ [newline]

/-- Whether a content is in normal form can be decided. -/
instance (L : CLocale) (content : Bytes) : Decidable (NormalForm L content) :=
  inferInstanceAs (Decidable (∀ chunk ∈ chunks maxLineSize content, _ ∧ _))

/-- The bytes that were read and the different bytes that are written have one checksum. -/
def Collides (L : CLocale) (content : Bytes) : Prop :=
  seen content ≠ shown L (some content) ∧ cksum (seen content) = cksum (shown L (some content))

/-- Whether the checksums of a content collide can be decided. -/
instance (L : CLocale) (content : Bytes) : Decidable (Collides L content) :=
  inferInstanceAs (Decidable (_ ∧ _))

variable {L : CLocale} {content : Bytes}

/-- A text that was written decodes with its newline. -/
theorem decode_text (exact : L.Exact) {text : Bytes} (valid : (L.decode text).isSome) :
    (L.decode (text ++ [newline])).isSome := by
  obtain ⟨wides, decoded⟩ := Option.isSome_iff_exists.mp valid
  have plain : CLocale.Plain newline := by decide
  have last : L.encode [newline.toUInt32] = some [newline] := by
    rw [CLocale.encode, exact.plain newline plain]
    rfl
  have whole := L.encode_append (exact.encode_of_decode decoded) last
  rw [exact.decode_of_encode whole]
  rfl

/-- What is written is what was read exactly when every buffer is its text and a newline. -/
theorem seen_eq_dump_iff (exact : L.Exact) {pieces : List Bytes} {added : List Result}
    (each : ∀ piece ∈ pieces, Piece piece) (all : List.Forall₂ (Dumped L) pieces added) :
    pieces.flatMap upToNul = dump added ↔ ∀ piece ∈ pieces,
      (L.decode (upToNul piece)).isSome ∧
        upToNul piece = stripped (upToNul piece) ++ [newline] := by
  constructor
  · intro same
    have cut : ∀ piece ∈ pieces.map upToNul, Piece piece := by
      intro piece member
      obtain ⟨whole, inside, rfl⟩ := List.mem_map.mp member
      exact (each whole inside).upToNul
    have many : (pieces.map upToNul).length = (added.map Result.mbsValue).length := by
      rw [List.length_map, List.length_map, all.length_eq]
    have lines := pieces_eq_lines cut (text_free all) many
      (by rw [← List.flatMap_def, same, dump_eq all])
    clear same cut many
    induction all with
    | nil => simp
    | @cons piece result pieces added one _ ih =>
      rw [List.forall_mem_cons] at each ⊢
      simp only [List.map_cons, List.cons.injEq] at lines
      have valid : (L.decode (upToNul piece)).isSome := by
        rw [lines.1]
        exact decode_text exact (by rw [one.valid]; rfl)
      have text := one.stripped valid
      exact ⟨⟨valid, by rw [← text]; exact lines.1⟩, ih each.2 lines.2⟩
  · intro normal
    clear each
    induction all with
    | nil => rfl
    | @cons piece result pieces added one _ ih =>
      rw [List.forall_mem_cons] at normal
      obtain ⟨⟨valid, ends⟩, rest⟩ := normal
      rw [List.flatMap_cons, dump_cons, ih rest, one.dump, one.stripped valid, ← ends]

/-- What is written has no NUL. -/
theorem nonNull_dump {pieces : List Bytes} {added : List Result}
    (all : List.Forall₂ (Dumped L) pieces added) : ∀ byte ∈ dump added, byte ≠ 0 := by
  induction all with
  | nil => simp [dump]
  | cons one _ ih =>
    intro byte member
    rw [dump_cons, one.dump] at member
    rcases List.mem_append.mp member with first | later
    · rcases List.mem_append.mp first with text | last
      · exact one.nonNull byte text
      · rw [List.mem_singleton.mp last]
        decide
    · exact ih byte later

/-- The temporary file that `mdp edit` writes has the checksum of the content it loaded exactly when
the content is in normal form, but for a collision. -/
theorem checksum_shown_iff (exact : L.Exact) (content : Bytes) :
    checksum (shown L (some content)) = checksum content ↔
      NormalForm L content ∨ Collides L content := by
  obtain ⟨loaded, _, ok, _, _⟩ := loadContent_succeeds (L := L) .initial content
  obtain ⟨added, results, all⟩ := loadContent_dumped exact .initial ok
  simp only [Memory.initial, List.nil_append] at results
  have written : shown L (some content) = dump added := by
    simp [shown, ok, results]
  have normal : seen content = dump added ↔ NormalForm L content :=
    seen_eq_dump_iff exact (fun chunk member => (chunk_piece chunk member).1) all
  rw [checksum, checksum, written, seen_eq_self (nonNull_dump all), Collides, written]
  constructor
  · intro same
    by_cases equal : seen content = dump added
    · exact .inl (normal.mp equal)
    · exact .inr ⟨equal, same.symm⟩
  · rintro (form | ⟨_, same⟩)
    · rw [normal.mpr form]
    · exact same.symm

/-- What an editor that does nothing leaves is compared with the source, and the checksums agree
exactly when there is a source in normal form, but for a collision. -/
theorem checksum_untouched_iff (exact : L.Exact) {source : Option Bytes} {content left : Bytes}
    (same : ∀ printed, source = some printed → printed = content)
    (untouched : left = shown L source) :
    checksum left = sourceCrc source ↔
      source ≠ none ∧ (NormalForm L content ∨ Collides L content) := by
  cases source with
  | none =>
    have differs : checksum left ≠ sourceCrc none := by
      rw [untouched]
      exact cksum_nil_ne_zero
    simp [differs]
  | some printed =>
    rw [untouched, same printed rfl, sourceCrc, checksum_shown_iff exact content]
    simp

/-- In a run of `mdp edit` that exits with status zero or calls `gpg -e`, in which gpg prints the
content, the temporary file is written in full and the editor leaves it as it is: "No changes" is
reported and `gpg -e` is not called exactly when there is a password file and its content is in
normal form, but for a collision. -/
theorem reports_noChanges_iff (cfg : Config) (L : CLocale) (exact : L.Exact) (content : Bytes)
    {s t : State} (start : s.globals = .initial) {q : Prog Unit} {outcome : Outcome}
    (run : Reaches observed (mainFrom cfg L .edit) (.initial, s) q (outcome, t))
    (decrypts : ∀ printed, outcome.printed = some printed → printed = content)
    (complete : outcome.complete = true)
    (untouched : ∀ exit, outcome.editor = some exit → exit.left = .untouched)
    (ended : q = .halt (.exit 0 "") ∨ outcome.encrypted ≠ none) :
    (outcome.reported = true ∧ outcome.encrypted = none) ↔
      (s.files.entry .passwordFile).isSome ∧ (NormalForm L content ∨ Collides L content) := by
  obtain ⟨stage, follows, holds⟩ := observed_run (mainFrom_follows cfg L .edit) start run
  -- The run has come to its decision.
  have decision : outcome.reported = true ∨ outcome.encrypted ≠ none := by
    rcases ended with rfl | encrypted
    · rcases follows.1 with ⟨path, rfl⟩ | ⟨path, rfl⟩
      · exact .inl holds.facts
      · have zero : outcome.encrypted = some 0 := holds.facts
        exact .inr (by simp [zero])
    · exact .inr encrypted
  have compared : ∃ source left, outcome.Compared L .edit source left ∧
      (outcome.reported = true ∧ outcome.encrypted = none ↔
        checksum left = sourceCrc source) := by
    rcases decision with reported | encrypted
    · obtain ⟨none, source, left, compared, same⟩ := holds.decided.reported reported
      exact ⟨source, left, compared, fun _ => same, fun _ => ⟨reported, none⟩⟩
    · obtain ⟨_, source, left, compared, differs⟩ := holds.decided.encrypted encrypted
      exact ⟨source, left, compared, fun none => absurd none.2 encrypted,
        fun same => absurd same differs⟩
  obtain ⟨source, left, compared, decided⟩ := compared
  have shows : left = shown L source := by
    obtain ⟨kind, ended⟩ := compared.editor
    have nothing : kind = .untouched := untouched _ ended
    have found := compared.shows rfl complete ⟨0, by rw [ended, nothing]⟩
    rw [compared.left, Option.some.injEq] at found
    exact found
  have exists_iff : source ≠ none ↔ (s.files.entry .passwordFile).isSome := by
    have found : ∀ b, outcome.existed = some b → b = (s.files.entry .passwordFile).isSome := by
      intro b known
      simpa [stored, HardLinks.Directory.read] using holds.existed b known
    cases source with
    | none => simp [← found _ (compared.missing rfl)]
    | some printed => simp [← found _ (compared.decrypted (by simp)).1]
  have printed : ∀ bytes, source = some bytes → bytes = content :=
    fun bytes same => decrypts bytes (compared.printed.trans same)
  rw [decided, checksum_untouched_iff exact printed shows, exists_iff]

/-- What a run with an editor that does nothing comes to: what gpg printed, what `gpg -e` returned
and whether the run exited with status zero. -/
def comesTo (printed : Option Bytes) (encrypted : Option Int) (e : Prog Unit × Outcome × State) :
    Bool :=
  decide (e.2.1.printed = printed) && decide (e.2.1.encrypted = encrypted) && e.2.1.complete &&
    decide (e.2.1.editor = some ⟨0, .untouched⟩) && decide (haltedWith e.1 = some (.exit 0 ""))

/-- A played run of `mdp edit`, with a password file of some content or with none. -/
def editRun (source : Option Bytes) : Option (Prog Unit × Outcome × State) :=
  play observed (watched (printing (source.getD []))) 80 (mainFrom (sampleConfig true) .ascii .edit)
    (.initial, sampleState source.isSome)

/-- What is played is a run with an editor that does nothing. -/
theorem exists_of_editRun {source printed : Option Bytes} {encrypted : Option Int}
    (good : (editRun source).any (comesTo printed encrypted) = true) : ∃ outcome t,
    Reaches observed (mainFrom (sampleConfig true) .ascii .edit)
      (.initial, sampleState source.isSome) (.halt (.exit 0 "")) (outcome, t) ∧
    outcome.printed = printed ∧ outcome.encrypted = encrypted ∧ outcome.complete = true ∧
    ∀ exit, outcome.editor = some exit → exit.left = .untouched := by
  obtain ⟨q, ⟨outcome, t⟩, run, ends⟩ := exists_of_play good
  simp only [comesTo, Bool.and_eq_true, decide_eq_true_eq] at ends
  obtain ⟨⟨⟨⟨printed, encrypted⟩, complete⟩, editor⟩, halted⟩ := ends
  rw [eq_halt_of_haltedWith halted] at run
  refine ⟨outcome, t, run, printed, encrypted, complete, fun exit same => ?_⟩
  rw [editor, Option.some.injEq] at same
  rw [← same]

/-- One line in normal form: "No changes" is reported. -/
theorem reports_noChanges_iff_normal : ∃ outcome t,
    Reaches observed (mainFrom (sampleConfig true) .ascii .edit) (.initial, sampleState true)
      (.halt (.exit 0 "")) (outcome, t) ∧
    outcome.encrypted = none ∧
    ((outcome.reported = true ∧ outcome.encrypted = none) ↔
      ((sampleState true).files.entry .passwordFile).isSome ∧
        (NormalForm .ascii [0x61, newline] ∨ Collides .ascii [0x61, newline])) := by
  have good : (editRun (some [0x61, newline])).any (comesTo (some [0x61, newline]) none) =
      true := by
    decide +kernel
  obtain ⟨outcome, t, run, printed, encrypted, complete, untouched⟩ := exists_of_editRun good
  exact ⟨outcome, t, run, encrypted, reports_noChanges_iff (sampleConfig true) .ascii
    CLocale.ascii_exact [0x61, newline] rfl run
    (fun bytes same => Option.some.inj (same.symm.trans printed)) complete untouched (.inl rfl)⟩

/-- Without a password file, and with a blank at the end of a line, an editor that does nothing
makes `gpg_encrypt` run. -/
theorem unchanged_is_encrypted :
    (∃ outcome t, Reaches observed (mainFrom (sampleConfig true) .ascii .edit)
      (.initial, sampleState true) (.halt (.exit 0 "")) (outcome, t) ∧
      outcome.printed = some [0x61, 0x20, newline] ∧ outcome.encrypted = some 0) ∧
    ¬ ∀ (cfg : Config) (L : CLocale) (content : Bytes) (s t : State) (q : Prog Unit)
      (outcome : Outcome), L.Exact → s.globals = .initial →
      Reaches observed (mainFrom cfg L .edit) (.initial, s) q (outcome, t) →
      (∀ printed, outcome.printed = some printed → printed = content) →
      outcome.complete = true →
      (∀ exit, outcome.editor = some exit → exit.left = .untouched) →
      (q = .halt (.exit 0 "") ∨ outcome.encrypted ≠ none) →
      outcome.reported = true ∧ outcome.encrypted = none := by
  have good : ((editRun (some [0x61, 0x20, newline])).any
        (comesTo (some [0x61, 0x20, newline]) (some 0)) &&
      (editRun none).any (comesTo none (some 0))) = true := by decide +kernel
  obtain ⟨blank, missing⟩ := (Bool.and_eq_true _ _).mp good
  constructor
  · obtain ⟨outcome, t, run, printed, encrypted, _⟩ := exists_of_editRun blank
    exact ⟨outcome, t, run, printed, encrypted⟩
  · intro claim
    obtain ⟨outcome, t, run, printed, encrypted, complete, untouched⟩ := exists_of_editRun missing
    have nothing := (claim (sampleConfig true) .ascii [] (sampleState false) t _ outcome
      CLocale.ascii_exact rfl run (fun bytes same => absurd (printed.symm.trans same) (by simp))
      complete untouched (.inl rfl)).2
    rw [encrypted] at nothing
    exact Option.some_ne_none _ nothing

end Mdp.NoChanges
