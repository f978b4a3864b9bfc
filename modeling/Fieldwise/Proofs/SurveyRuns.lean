import Mathlib.Data.List.Induction
import Fieldwise.Proofs.Disk
import Fieldwise.Survey

/-!
# Runs of a survey

A survey goes through any number of calls, and between two calls the files and the configuration may change in
any way. What it has found after a call is a function of all files that were scanned up to then, in order: the
reports of those with annotated structs, and the failures among their structs together with the files that are
not well formed. A call ends well exactly when it can find and read all its files and nothing has failed in
the whole history. The files change only at the place of the output, and only when constructors are written
after a check that ended well.
-/

namespace Fieldwise.Survey

/-- What is asked of a survey. -/
inductive Request where
  | check
  | generate
  deriving DecidableEq

/-- A call on a survey, with the files and the configuration that it meets. -/
structure Call where
  /-- What is asked. -/
  request : Request
  /-- The files before the call. -/
  disk : Disk
  /-- The configuration. -/
  config : Config

/-- A file that was read: its path and its text. -/
abbrev Source := Path × String

namespace Source

/-- The report of a file, if there is an annotated struct in it. -/
def report? (source : Source) : Option FileReport :=
  match Fieldwise.scan source.2 with
  | .ok (first :: rest) => some ⟨source.1.text, first :: rest⟩
  | _ => none

/-- Whether a file is not well formed. -/
def isUnparsable (source : Source) : Bool :=
  match Fieldwise.scan source.2 with
  | .ok _ => false
  | .error _ => true

/-- What comes of a file that was read. -/
def visit (source : Source) : Visit :=
  match Fieldwise.scan source.2 with
  | .ok reports => .scanned ⟨source.1.text, reports⟩
  | .error error => .unparsable (.unparsable source.1 error.pos.line error.message)

end Source

/-- The files at some paths with their texts, up to the first that cannot be read. -/
def readable (disk : Disk) : List Path → List Source
  | [] => []
  | path :: rest =>
    match disk.readText path with
    | .ok text => (path, text) :: readable disk rest
    | .error _ => []

namespace Call

/-- What a call does to a survey. -/
def run (survey : Survey) (call : Call) : Outcome :=
  match call.request with
  | .check => survey.check call.disk call.config
  | .generate => survey.generate call.disk call.config

/-- The files that a call scans, in order. -/
def scanned (call : Call) : List Source :=
  match sources call.disk call.config.paths with
  | .ok paths => readable call.disk paths
  | .error _ => []

/-- All configured paths lead somewhere, and all source files there can be read. -/
def ReadsAll (call : Call) : Prop :=
  ∃ paths, sources call.disk call.config.paths = .ok paths ∧
    ∀ path ∈ paths, ∃ text, call.disk.readText path = .ok text

/-- Where constructors are to be written. -/
def target? (call : Call) : Option Path :=
  match call.request with
  | .check => none
  | .generate => call.config.output

end Call

/-- What has been found after some calls, the first of which met a new survey. -/
def after (calls : List Call) : Survey :=
  calls.foldl (fun survey call => (call.run survey).survey) .start

/-! ## The files of one call -/

/-- Visiting a file that can be read is looking at its text. -/
theorem visit_of_readText {disk : Disk} {path : Path} {text : String}
    (h : disk.readText path = .ok text) : Visit.of disk path = Source.visit (path, text) := by
  unfold Visit.of scanFile Source.visit
  rw [h]
  dsimp only
  cases Fieldwise.scan text <;> rfl

theorem visit_of_fault {disk : Disk} {path : Path} {fault : FileFault}
    (h : disk.readText path = .error fault) : Visit.of disk path = .unreadable fault := by
  unfold Visit.of scanFile
  rw [h]

theorem isReadable_visit (source : Source) : source.visit.isReadable = true := by
  unfold Source.visit
  cases Fieldwise.scan source.2 <;> rfl

theorem fault?_visit (source : Source) : source.visit.fault? = none := by
  unfold Source.visit
  cases Fieldwise.scan source.2 <;> rfl

theorem report?_visit (source : Source) : source.visit.report? = source.report? := by
  unfold Source.visit Source.report?
  cases Fieldwise.scan source.2 with
  | error error => rfl
  | ok reports => cases reports <;> rfl

/-- A file counts for the structs that failed in it, or for itself. -/
theorem failures_visit (source : Source) :
    source.visit.failures =
      (source.report?.toList.flatMap FileReport.structs).countP StructReport.failed +
        [source].countP Source.isUnparsable := by
  unfold Source.visit Source.report? Source.isUnparsable
  cases hscan : Fieldwise.scan source.2 with
  | error error => simp [Visit.failures, hscan]
  | ok reports =>
    cases reports with
    | nil => simp [Visit.failures, FileReport.failures, hscan]
    | cons first rest => simp [Visit.failures, FileReport.failures, hscan]

/-- The visits before the first file that cannot be read are those of the files that are read. -/
theorem takeWhile_visits (disk : Disk) (paths : List Path) :
    (paths.map (Visit.of disk)).takeWhile Visit.isReadable =
      (readable disk paths).map Source.visit := by
  induction paths with
  | nil => rfl
  | cons path rest ih =>
    cases hread : disk.readText path with
    | error fault => simp [readable, hread, visit_of_fault hread, Visit.isReadable]
    | ok text => simp [readable, hread, visit_of_readText hread, isReadable_visit, ih]

/-- No visit finds a fault exactly when all files can be read. -/
theorem findSome_visits (disk : Disk) (paths : List Path) :
    (paths.map (Visit.of disk)).findSome? Visit.fault? = none ↔
      ∀ path ∈ paths, ∃ text, disk.readText path = .ok text := by
  induction paths with
  | nil => simp
  | cons path rest ih =>
    cases hread : disk.readText path with
    | error fault => simp [hread, visit_of_fault hread, Visit.fault?]
    | ok text => simp [hread, visit_of_readText hread, fault?_visit, ih]

/-! ## One call -/

/-- Taking in files adds their reports and counts their failures. -/
theorem add_visits (survey : Survey) (found : List Source) :
    survey.add (found.map Source.visit) =
      ⟨survey.files ++ found.filterMap Source.report?,
        survey.failures +
          (((found.filterMap Source.report?).flatMap FileReport.structs).countP
            StructReport.failed + found.countP Source.isUnparsable)⟩ := by
  have hreports : (found.map Source.visit).filterMap Visit.report? =
      found.filterMap Source.report? := by
    simp [List.filterMap_map, Function.comp_def, report?_visit]
  have hcount : ∀ count, ((found.map Source.visit).map Visit.failures).foldl (· + ·) count =
      count + (((found.filterMap Source.report?).flatMap FileReport.structs).countP
        StructReport.failed + found.countP Source.isUnparsable) := by
    induction found with
    | nil => simp
    | cons first rest ih =>
      intro count
      have hrest := ih (by simp [List.filterMap_map, Function.comp_def, report?_visit])
        (count + first.visit.failures)
      rw [List.map_cons, List.map_cons, List.foldl_cons, hrest, failures_visit]
      cases hfirst : first.report? with
      | none => cases hbad : first.isUnparsable <;> simp [hfirst, hbad]; omega
      | some report => cases hbad : first.isUnparsable <;> simp [hfirst, hbad] <;> omega
  rw [add, hreports, hcount]

/-- A scan takes in the files that it can read, and leaves the disk alone. It ends well exactly when it finds and
reads all its files. -/
theorem scan_spec (survey : Survey) (call : Call) :
    (survey.scan call.disk call.config).survey = survey.add (call.scanned.map Source.visit) ∧
      (survey.scan call.disk call.config).disk = call.disk ∧
      ((survey.scan call.disk call.config).result = .ok () ↔ call.ReadsAll) := by
  unfold scan Call.scanned Call.ReadsAll
  cases hsources : sources call.disk call.config.paths with
  | error failure => simp [add]
  | ok paths =>
    have hfaults := findSome_visits call.disk paths
    dsimp only
    rw [takeWhile_visits]
    cases hfound : (paths.map (Visit.of call.disk)).findSome? Visit.fault? with
    | none => simpa [hfound] using hfaults
    | some fault => simpa [hfound] using hfaults

/-- A check ends well exactly when its scan does and nothing has failed so far. -/
theorem check_spec (survey : Survey) (call : Call) :
    (survey.check call.disk call.config).survey = survey.add (call.scanned.map Source.visit) ∧
      (survey.check call.disk call.config).disk = call.disk ∧
      ((survey.check call.disk call.config).result = .ok () ↔
        call.ReadsAll ∧ (survey.check call.disk call.config).survey.failures = 0) := by
  obtain ⟨hsurvey, hdisk, hresult⟩ := scan_spec survey call
  unfold check
  cases hscan : (survey.scan call.disk call.config).result with
  | error failure =>
    rw [hscan] at hresult
    simp only [hscan, hsurvey, hdisk, true_and, reduceCtorEq, false_iff, not_and] at hresult ⊢
    exact fun hreads => absurd hreads hresult
  | ok _ =>
    have hreads := hresult.mp hscan
    simp only [hscan]
    split
    · rename_i hfailed
      refine ⟨hsurvey, hdisk, ?_⟩
      simp only [reduceCtorEq, false_iff, not_and]
      omega
    · rename_i hfine
      exact ⟨hsurvey, hdisk, by simp only [hscan, hreads, true_and, true_iff]; omega⟩

/-- What a call can do. Without a place to write to, or when its check fails, it is the check; else it writes
all constructors found so far, and the write succeeds or fails. -/
theorem run_cases (survey : Survey) (call : Call) {checked : Outcome}
    (h : survey.check call.disk call.config = checked) :
    ((call.target? = none ∨ checked.result ≠ .ok ()) ∧ call.run survey = checked) ∨
      ∃ path, call.target? = some path ∧ checked.result = .ok () ∧
        ((∃ written, call.disk.writeText path checked.survey.output = .ok written ∧
            call.run survey = { checked with disk := written }) ∨
          ∃ fault, call.disk.writeText path checked.survey.output = .error fault ∧
            call.run survey = { checked with result := .error (.files fault) }) := by
  have hdisk : checked.disk = call.disk := h ▸ (check_spec survey call).2.1
  unfold Call.run Call.target?
  cases call.request with
  | check => exact .inl ⟨.inl rfl, h⟩
  | generate =>
    dsimp only
    unfold generate
    rw [h]
    cases hchecked : checked.result with
    | error failure => exact .inl ⟨.inr (by simp), by simp only [hchecked]⟩
    | ok _ =>
      cases call.config.output with
      | none => exact .inl ⟨.inl rfl, by simp only [hchecked]⟩
      | some path =>
        refine .inr ⟨path, rfl, rfl, ?_⟩
        simp only [hchecked, hdisk]
        cases hwrite : call.disk.writeText path checked.survey.output with
        | error fault => exact .inr ⟨fault, rfl, rfl⟩
        | ok written => exact .inl ⟨written, rfl, rfl⟩

/-- A call takes in the files that it scans, whatever else comes of it. -/
theorem run_survey (survey : Survey) (call : Call) :
    (call.run survey).survey = survey.add (call.scanned.map Source.visit) := by
  obtain ⟨hsurvey, -, -⟩ := check_spec survey call
  rcases run_cases survey call rfl with ⟨-, hrun⟩ | ⟨path, -, -, ⟨written, -, hrun⟩ | ⟨fault, -, hrun⟩⟩ <;>
    rw [hrun] <;> exact hsurvey

/-- A call ends well exactly when its check does and what it is asked to write could be written. -/
theorem run_eq_ok (survey : Survey) (call : Call) :
    (call.run survey).result = .ok () ↔
      call.ReadsAll ∧ (call.run survey).survey.failures = 0 ∧
        ∀ path, call.target? = some path →
          ∃ written, call.disk.writeText path (call.run survey).survey.output = .ok written := by
  generalize hchecked : survey.check call.disk call.config = checked
  obtain ⟨-, -, hresult⟩ := check_spec survey call
  rw [hchecked] at hresult
  rcases run_cases survey call hchecked with ⟨hidle, hrun⟩ |
    ⟨path, hpath, hok, ⟨written, hwritten, hrun⟩ | ⟨fault, hfault, hrun⟩⟩
  · rw [hrun]
    constructor
    · intro hok
      obtain ⟨hreads, hfine⟩ := hresult.mp hok
      rcases hidle with hnone | hfails
      · exact ⟨hreads, hfine, by simp [hnone]⟩
      · exact absurd hok hfails
    · rintro ⟨hreads, hfine, -⟩
      exact hresult.mpr ⟨hreads, hfine⟩
  · obtain ⟨hreads, hfine⟩ := hresult.mp hok
    rw [hrun]
    simp [hok, hreads, hfine, hpath, hwritten]
  · rw [hrun]
    simp [hpath, hfault]

/-- A call leaves the disk as it was, or it was asked to write, its check ended well, and it has written all
constructors found so far. -/
theorem run_disk (survey : Survey) (call : Call) :
    ((call.target? = none ∨ (call.run survey).result ≠ .ok ()) ∧
        (call.run survey).disk = call.disk) ∨
      ∃ path, call.target? = some path ∧ (call.run survey).result = .ok () ∧
        (survey.check call.disk call.config).result = .ok () ∧
        call.disk.writeText path (call.run survey).survey.output =
          .ok (call.run survey).disk := by
  generalize hchecked : survey.check call.disk call.config = checked
  obtain ⟨-, hdisk, -⟩ := check_spec survey call
  rw [hchecked] at hdisk
  rcases run_cases survey call hchecked with ⟨hidle, hrun⟩ |
    ⟨path, hpath, hok, ⟨written, hwritten, hrun⟩ | ⟨fault, hfault, hrun⟩⟩
  · rw [hrun]
    exact .inl ⟨hidle, hdisk⟩
  · rw [hrun]
    exact .inr ⟨path, hpath, hok, hok, hwritten⟩
  · rw [hrun]
    exact .inl ⟨.inr (by simp), hdisk⟩

/-- Only a call that generates has a place to write to. -/
theorem target_eq_some {call : Call} {path : Path} :
    call.target? = some path ↔ call.request = .generate ∧ call.config.output = some path := by
  unfold Call.target?
  cases call.request <;> simp

/-! ## All calls -/

theorem after_concat (earlier : List Call) (call : Call) :
    after (earlier ++ [call]) = (call.run (after earlier)).survey := by
  simp [after]

/-- After any calls the survey has found what is in the files that they scanned. -/
theorem after_eq (calls : List Call) :
    after calls =
      ⟨(calls.flatMap Call.scanned).filterMap Source.report?,
        (((calls.flatMap Call.scanned).filterMap Source.report?).flatMap
          FileReport.structs).countP StructReport.failed +
          (calls.flatMap Call.scanned).countP Source.isUnparsable⟩ := by
  -- Each call adds to what was found before it, so the last call comes off first.
  induction calls using List.reverseRecOn with
  | nil => rfl
  | append_singleton earlier call ih =>
    rw [after_concat, run_survey, ih, add_visits]
    simp only [List.flatMap_append, List.flatMap_singleton, List.filterMap_append,
      List.countP_append, Survey.mk.injEq, true_and]
    omega

/-- The law of a call that comes after others. -/
structure Lawful (earlier : List Call) (call : Call) : Prop where
  /-- The reports are those of all files scanned so far in which there is an annotated struct, in order. -/
  files : (call.run (after earlier)).survey.files =
    ((earlier ++ [call]).flatMap Call.scanned).filterMap Source.report?
  /-- The failures are the failing structs in these reports and the files that are not well formed. -/
  failures : (call.run (after earlier)).survey.failures =
    ((call.run (after earlier)).survey.files.flatMap FileReport.structs).countP
      StructReport.failed +
      ((earlier ++ [call]).flatMap Call.scanned).countP Source.isUnparsable
  /-- The call ends well exactly when all its files were found and read, nothing has failed in any call, and
  what it is asked to write could be written. -/
  succeeds : (call.run (after earlier)).result = .ok () ↔
    call.ReadsAll ∧ (call.run (after earlier)).survey.failures = 0 ∧
      ∀ path, call.target? = some path → ∃ written,
        call.disk.writeText path (call.run (after earlier)).survey.output = .ok written
  /-- A file is written only when constructors are asked for and the check ended well. -/
  writes : (call.run (after earlier)).disk ≠ call.disk →
    call.request = .generate ∧
      ((after earlier).check call.disk call.config).result = .ok ()
  /-- The output then holds the notice and all constructors found so far. -/
  holds : ∀ path, call.request = .generate → call.config.output = some path →
    (call.run (after earlier)).result = .ok () →
    (call.run (after earlier)).disk.readText path =
      .ok (notice ++ listing (call.run (after earlier)).survey.files)
  /-- A call that fails leaves the disk as it was. -/
  keeps : ∀ failure, (call.run (after earlier)).result = .error failure →
    (call.run (after earlier)).disk = call.disk
  /-- No call changes what is at a place other than that of the output. -/
  elsewhere : (call.run (after earlier)).disk.workdir = call.disk.workdir ∧
    ∀ place, (∀ path, call.config.output = some path → call.disk.newPlace path ≠ .ok place) →
      (call.run (after earlier)).disk.root.kindAt place = call.disk.root.kindAt place

/-- Every call on a survey follows the law, whatever calls came before it and whatever files and configurations
they met. -/
theorem every_call_lawful (earlier : List Call) (call : Call) : Lawful earlier call := by
  have hfound := after_eq (earlier ++ [call])
  rw [after_concat] at hfound
  have hfiles := congrArg Survey.files hfound
  have hfailures := congrArg Survey.failures hfound
  dsimp only at hfiles hfailures
  rw [← hfiles] at hfailures
  have hsucceeds := run_eq_ok (after earlier) call
  rcases run_disk (after earlier) call with ⟨hidle, hdisk⟩ | ⟨path, hpath, hok, hcheck, hwritten⟩
  · refine ⟨hfiles, hfailures, hsucceeds, fun hne => absurd hdisk hne, ?_, fun _ _ => hdisk, ?_⟩
    · intro path hrequest houtput hok
      rcases hidle with hnone | hfails
      · rw [target_eq_some.mpr ⟨hrequest, houtput⟩] at hnone
        contradiction
      · exact absurd hok hfails
    · rw [hdisk]
      exact ⟨rfl, fun _ _ => rfl⟩
  · obtain ⟨hrequest, houtput⟩ := target_eq_some.mp hpath
    refine ⟨hfiles, hfailures, hsucceeds, fun _ => ⟨hrequest, hcheck⟩, ?_, ?_, ?_⟩
    · intro other _ hother _
      rw [houtput] at hother
      cases hother
      exact Disk.readText_writeText hwritten
    · intro failure hfails
      rw [hok] at hfails
      contradiction
    · obtain ⟨hworkdir, target, htarget, -, hsame⟩ := Disk.write_elsewhere hwritten
      refine ⟨hworkdir, fun place hplace => hsame place ?_⟩
      rintro rfl
      exact hplace path houtput htarget

end Fieldwise.Survey
