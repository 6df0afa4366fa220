import RunManifest.Proofs.CivilTime
import RunManifest.Proofs.Document.Given
import RunManifest.Proofs.Run.Reread
import RunManifest.Workflow.State

/-!
Contract: when a run ended is what its document says.

Owns:
- `PipelineRun.completionText?`, the time that the document of a run gives for its end;
- `PipelineRun.completionTime_of_ofJsonText`, that time is the completion time of the run;
- `PipelineRun.KeepsTime` and `PipelineRun.finishedAt_civil`, the law of completion times, from the
  texts of local times to the seconds of a stored run.
-/

set_option autoImplicit false

namespace RunManifest

open Document

/-! ## Documents -/

namespace PipelineRun

/-- The time that a document gives for the end of a run, none if there is none. -/
def completionText? (document : String) : Option String :=
  let status := (Json.nodeOf document.toList).1.given? "status" 4
  match status.bind (Json.Node.given? "completionTime" 2) with
  | some (.text (.ok time)) => some time
  | _ => none

end PipelineRun

/-- The status of a run that was read is the one that its document gives. -/
theorem PipelineRun.status_of_read
    {levels : Nat}
    {node : Json.Node}
    {run : PipelineRun}
    (read : (schema Json.format).read Json.format (levels + 1) node = .ok run) :
    (node.given? "status" 4 = none ∧ run.status = .blank) ∨
      ∃ part, node.given? "status" 4 = some part ∧
        (PipelineRunStatus.schema Json.format).read Json.format levels part = .ok run.status := by
  have untouched : ∀ other ∈ (schema Json.format).fields, other.name ≠ "status" →
      ∀ node change, other.read levels node = .ok change →
      ∀ record, (change record).status = record.status := by
    intro other isOther different node change readOther record
    simp only [schema, List.mem_cons, List.not_mem_nil, or_false] at isOther
    rcases isOther with rfl | rfl | rfl | rfl | rfl
    all_goals
      obtain ⟨part, -, rfl⟩ := map_eq_ok.mp readOther
      first | rfl | exact absurd rfl different
  have isField : (schema Json.format).fields[4]? = some _ := rfl
  rcases Schema.given_of_read PipelineRun.status isField orderly.names untouched
    (fun get put isKept => by cases isKept) read with
    absent | ⟨part, change, record, given, readPart, now⟩
  · exact .inl absent
  · obtain ⟨status, readStatus, rfl⟩ := map_eq_ok.mp readPart
    rw [now]
    exact .inr ⟨part, given, readStatus⟩

private theorem PipelineRunStatus.completionTime_of_read
    {levels : Nat}
    {node : Json.Node}
    {status : PipelineRunStatus}
    (read : (schema Json.format).read Json.format (levels + 1) node = .ok status) :
    (node.given? "completionTime" 2 = none ∧ status.completionTime = none) ∨
      ∃ part, node.given? "completionTime" 2 = some part ∧
        readOptional Json.format (readInstant Json.format) levels part =
          .ok status.completionTime := by
  have untouched : ∀ other ∈ (schema Json.format).fields, other.name ≠ "completionTime" →
      ∀ node change, other.read levels node = .ok change →
      ∀ record, (change record).completionTime = record.completionTime := by
    intro other isOther different node change readOther record
    simp only [schema, List.mem_cons, List.not_mem_nil, or_false] at isOther
    rcases isOther with rfl | rfl | rfl | rfl
    all_goals
      obtain ⟨part, -, rfl⟩ := map_eq_ok.mp readOther
      first | rfl | exact absurd rfl different
  have isField : (schema Json.format).fields[2]? = some _ := rfl
  rcases Schema.given_of_read PipelineRunStatus.completionTime isField orderly.names untouched
    (fun get put isKept => by cases isKept; exact fun _ _ => rfl) read with
    absent | ⟨part, change, record, given, readPart, now⟩
  · exact .inl absent
  · obtain ⟨time, readTime, rfl⟩ := map_eq_ok.mp readPart
    rw [now]
    exact .inr ⟨part, given, readTime⟩

/-- A time that may be absent is given as a text or as nothing. -/
theorem Document.readOptional_instant
    {levels : Nat}
    {node : Json.Node}
    {time : Option Instant}
    (read : readOptional Json.format (readInstant Json.format) levels node = .ok time) :
    (node = .null ∧ time = none) ∨
      ∃ text instant, node = .text (.ok text) ∧ Instant.read text = .ok instant ∧
        time = some instant := by
  obtain ⟨isAbsent, absence, read⟩ := bind_eq_ok.mp read
  cases absence
  cases node with
  | null =>
      cases read
      exact .inl ⟨rfl, rfl⟩
  | text value =>
      cases value with
      | error cause => cases read
      | ok text =>
          obtain ⟨instant, readText, isSome⟩ := map_eq_ok.mp read
          cases isSome
          simp only [readInstant, Json.format, Json.Node.legible, ok_bind] at readText
          split at readText
          case h_1 found isRead =>
            cases readText
            exact .inr ⟨text, instant, rfl, isRead, rfl⟩
          case h_2 => cases readText
  | flag value => cases read
  | number value => cases value <;> cases read
  | array items ending => cases read
  | object members ending => cases read
  | broken breakage => cases read

namespace PipelineRun

/-- The completion time of a run that was read is the time that its document gives. -/
theorem completionTime_of_ofJsonText
    {document : String}
    {run : PipelineRun}
    (read : ofJsonText document = .ok run) :
    (completionText? document = none ∧ run.status.completionTime = none) ∨
      ∃ time instant, completionText? document = some time ∧ Instant.read time = .ok instant ∧
        run.status.completionTime = some instant := by
  have readRun := Json.read_of_decode read
  rcases status_of_read readRun with ⟨absent, isBlank⟩ | ⟨status, given, readStatus⟩
  · refine .inl ⟨?_, by rw [isBlank]; rfl⟩
    rw [completionText?, absent]
    rfl
  rcases PipelineRunStatus.completionTime_of_read readStatus with
    ⟨absent, isNone⟩ | ⟨part, isPart, readTime⟩
  · refine .inl ⟨?_, isNone⟩
    simp only [completionText?, given, Option.bind_some, absent]
  rcases readOptional_instant readTime with ⟨rfl, isNone⟩ | ⟨time, instant, rfl, isRead, isSome⟩
  · refine .inl ⟨?_, isNone⟩
    simp only [completionText?, given, Option.bind_some, isPart]
  · refine .inr ⟨time, instant, ?_, isRead, isSome⟩
    simp only [completionText?, given, Option.bind_some, isPart]

/-! ## Seconds -/

private theorem finishedAt_of_none {run : PipelineRun} (absent : run.status.completionTime = none) :
    run.finishedAt = 0 := by
  rw [finishedAt, completion?, absent]
  rfl

private theorem finishedAt_of_some
    {run : PipelineRun}
    {instant : Instant}
    (present : run.status.completionTime = some instant) :
    run.finishedAt = if instant = .epoch then 0 else instant.seconds := by
  rw [finishedAt, completion?, present]
  by_cases isEpoch : instant = .epoch
  · simp [Option.filter, isEpoch]
  · simp [Option.filter, isEpoch]

/-- What it takes to keep the time of runs: to read texts of times, to write instants and to tell
the seconds at which runs ended. -/
structure KeepsTime
    (read : String → Except Instant.ReadError Instant)
    (write : Instant → String)
    (finishedAt : PipelineRun → Int) : Prop where
  /-- An accepted text is the text of a local time. -/
  civil : ∀ text instant, read text = .ok instant → ∃ time : CivilTime, text.toList ∈ time.texts
  /-- The seconds of an instant are counted on the calendar from what its text says. -/
  seconds : ∀ text instant, read text = .ok instant →
    ∀ time : CivilTime, text.toList ∈ time.texts →
      instant.seconds = time.date.countedDays * 86400 + time.hour * 3600 + time.minute * 60 +
        min time.second 59 - time.offset * 60
  /-- Instants are read back from what is written for them. -/
  reread : ∀ instant, read (write instant) = .ok instant
  /-- No two instants are written alike. -/
  distinct : ∀ first second, first ≠ second → write first ≠ write second
  unfinished : ∀ run : PipelineRun, run.status.completionTime = none → finishedAt run = 0
  finished : ∀ (run : PipelineRun) instant, run.status.completionTime = some instant →
    finishedAt run = if instant = .epoch then 0 else instant.seconds
  /-- A run that was read ended when its document says. -/
  untold : ∀ document run, ofJsonText document = .ok run → completionText? document = none →
    finishedAt run = 0
  told : ∀ document run, ofJsonText document = .ok run →
    ∀ time, completionText? document = some time → ∃ instant, read time = .ok instant ∧
      finishedAt run = if instant = .epoch then 0 else instant.seconds
  /-- The store keeps when a sound run ended, such as one that was read. -/
  stored : ∀ run : PipelineRun, run.Sound →
    ∃ again, ofJsonText run.stored = .ok again ∧ finishedAt again = finishedAt run
  sound : ∀ document run, ofJsonText document = .ok run → run.Sound

/-- The time of runs is kept from the texts of local times to the seconds of a stored run. -/
theorem finishedAt_civil : KeepsTime Instant.read Instant.text finishedAt where
  civil _ _ result := Instant.exists_of_read result
  seconds _ _ result _ isText := (Instant.seconds_of_read result isText).1
  reread := Instant.read_text
  distinct _ _ different same := different (Instant.text_injective same)
  unfinished _ := finishedAt_of_none
  finished _ _ := finishedAt_of_some
  untold document run read absent := by
    rcases completionTime_of_ofJsonText read with ⟨-, isNone⟩ | ⟨time, instant, given, -⟩
    · exact finishedAt_of_none isNone
    · rw [absent] at given
      cases given
  told document run read time given := by
    rcases completionTime_of_ofJsonText read with
      ⟨absent, -⟩ | ⟨other, instant, isGiven, isRead, isSome⟩
    · rw [absent] at given
      cases given
    · rw [given] at isGiven
      cases isGiven
      exact ⟨instant, isRead, finishedAt_of_some isSome⟩
  stored run sound := ⟨run.reread, ofJsonText_stored_reread sound, rfl⟩
  sound _ _ := sound_of_ofJsonText

/-! ## A leap second -/

/-- A leap second at the end of a year, written where the next year has begun. -/
def leapText : String := "2017-01-01T00:59:60.5 +01:00"

/-- What it says there. -/
def leapTime : CivilTime where
  date := ⟨2017, 1, 1⟩
  hour := 0
  minute := 59
  second := 60
  nanos := 500000000
  offset := 60
  onCalendar := by decide
  onClock := by decide

/-- The instant that it is. -/
def leapInstant : Instant :=
  ⟨1483228799, 1500000000, by decide⟩

/-- The document of a run that ended then. -/
def leapDocument : String :=
  Json.braced [("status", Json.braced [("completionTime", "\"" ++ leapText ++ "\"")])]

def leapRun : PipelineRun :=
  { blank with status := { PipelineRunStatus.blank with completionTime := some leapInstant } }

private theorem leapText_mem : leapText.toList ∈ leapTime.texts := by
  have shape : leapText.toList =
      ([] ++ "2017".toList) ++ (([] ++ "-".toList) ++ (([] ++ "01".toList) ++
        (([] ++ "-".toList) ++ (([] ++ "01".toList) ++ ("T".toList ++ (([] ++ "00".toList) ++
        (([] ++ ":".toList) ++ (([] ++ "59".toList) ++ (([] ++ ":".toList) ++
        (([] ++ "60".toList) ++ (".5".toList ++ ((" ".toList ++ "+01:00".toList) ++ []))))))))))))
      := by decide
  have blank : [] ∈ Instant.blanks := by decide
  have gap : " ".toList ∈ Instant.blanks := by decide +kernel
  have year : "2017".toList ∈ Instant.yearTexts 2017 :=
    ⟨"2017".toList, by decide +kernel, .inl ⟨by decide, rfl, by decide⟩⟩
  have one : "01".toList ∈ Instant.pairTexts 1 := by decide +kernel
  have hour : "00".toList ∈ Instant.pairTexts 0 := by decide +kernel
  have minute : "59".toList ∈ Instant.pairTexts 59 := by decide +kernel
  have second : "60".toList ∈ Instant.pairTexts 60 := by decide +kernel
  have fraction : ".5".toList ∈ Instant.fractionTexts 500000000 :=
    .inr ⟨['5'], by decide, by simp, rfl, by decide +kernel⟩
  have hours : "01".toList ∈ Instant.twoDigitTexts 1 := by decide +kernel
  have minutes : "00".toList ∈ Instant.twoDigitTexts 0 := by decide +kernel
  have colon : ":".toList ∈ Instant.gaps := fun c member => .inl (List.mem_singleton.mp member)
  have amount : "01".toList ++ ":".toList ++ "00".toList ∈ Instant.amountTexts 60 :=
    Language.append_mem_mul (Language.append_mem_mul hours colon) minutes
  have offset : "+01:00".toList ∈ Instant.offsetTexts 60 :=
    .inr (.inl ⟨by decide, _, amount, rfl⟩)
  rw [shape]
  exact Language.append_mem_mul (Language.append_mem_mul blank year) <|
    Language.append_mem_mul (Language.append_mem_mul blank rfl) <|
    Language.append_mem_mul (Language.append_mem_mul blank one) <|
    Language.append_mem_mul (Language.append_mem_mul blank rfl) <|
    Language.append_mem_mul (Language.append_mem_mul blank one) <|
    Language.append_mem_mul (.inl rfl) <|
    Language.append_mem_mul (Language.append_mem_mul blank hour) <|
    Language.append_mem_mul (Language.append_mem_mul blank rfl) <|
    Language.append_mem_mul (Language.append_mem_mul blank minute) <|
    Language.append_mem_mul (Language.append_mem_mul blank rfl) <|
    Language.append_mem_mul (Language.append_mem_mul blank second) <|
    Language.append_mem_mul fraction <|
    Language.append_mem_mul (Language.append_mem_mul gap offset) blank

theorem finishedAt_civil_leapSecond :
    Instant.read leapText = .ok leapInstant ∧ leapText.toList ∈ leapTime.texts ∧
      leapInstant.seconds = 17167 * 86400 + 0 * 3600 + 59 * 60 + 59 - 60 * 60 ∧
      leapInstant.text ≠ Instant.epoch.text ∧
      blank.status.completionTime = none ∧ blank.finishedAt = 0 ∧
      ofJsonText "[]" = .ok blank ∧ completionText? "[]" = none ∧
      ofJsonText leapDocument = .ok leapRun ∧ completionText? leapDocument = some leapText ∧
      leapRun.status.completionTime = some leapInstant ∧ leapRun.finishedAt = 1483228799 ∧
      ∃ again, ofJsonText leapRun.stored = .ok again ∧ again.finishedAt = leapRun.finishedAt := by
  have read : Instant.read leapText = .ok leapInstant := by decide +kernel
  have different : leapInstant ≠ Instant.epoch := by decide
  have nothing : ofJsonText "[]" = .ok blank := by decide +kernel
  have noText : completionText? "[]" = none := by decide +kernel
  have readRun : ofJsonText leapDocument = .ok leapRun := by decide +kernel
  have given : completionText? leapDocument = some leapText := by decide +kernel
  have law := finishedAt_civil
  have days : Date.countedDays ⟨2017, 1, 1⟩ = 17167 := by decide +kernel
  have seconds := law.seconds leapText leapInstant read leapTime leapText_mem
  refine ⟨read, leapText_mem, ?_, law.distinct _ _ different, rfl, law.untold _ _ nothing noText,
    nothing, noText, readRun, given, rfl, law.finished leapRun leapInstant rfl,
    law.stored leapRun (law.sound _ _ readRun)⟩
  exact seconds.trans (by rw [show leapTime.date = ⟨2017, 1, 1⟩ from rfl, days]; rfl)

end PipelineRun

end RunManifest
