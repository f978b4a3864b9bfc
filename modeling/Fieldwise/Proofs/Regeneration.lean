import Mathlib
import Fieldwise.Proofs.Splicing
import Fieldwise.Proofs.SurveyRuns
import Fieldwise.Proofs.Walks

/-!
# Generating twice

A run that writes constructors may put its output among the source files, where the next run finds it. The next
run finds all other files as they were. So it writes the same constructors again exactly when the output is not
among its source files, or when the output is a file without annotated structs; then nothing changes at all.
-/

namespace Fieldwise.Survey

open Fieldwise.Grammar

/-! ## The files of the second run -/

section Write

variable {disk written : Disk} {path : Path} {text : String} {target : List String}

/-- The source files after a write are those before it, and in between there may be the file. -/
theorem sources_write (h : disk.writeText path text = .ok written)
    (htarget : disk.newPlace path = .ok target)
    (hnames : ∀ name ∈ target, Path.isName name = true) {paths before : List Path}
    (hbefore : sources disk paths = .ok before) :
    ∃ after, sources written paths = .ok after ∧
      Inserted (fun found => written.place found = .ok target) before after := by
  induction paths generalizing before with
  | nil =>
    cases hbefore
    exact ⟨[], rfl, .nil⟩
  | cons first rest ih =>
    simp only [sources] at hbefore
    split at hbefore
    · contradiction
    · rename_i found hfound
      split at hbefore
      · contradiction
      · rename_i others hothers
        cases hbefore
        obtain ⟨found', hfound', hinserted⟩ := Walk.sources_write h htarget hnames hfound
        obtain ⟨others', hothers', hmore⟩ := ih hothers
        refine ⟨found' ++ others', ?_, hinserted.append hmore⟩
        simp only [sources, hfound', hothers']

theorem readText_elsewhere (h : disk.writeText path text = .ok written)
    (htarget : disk.newPlace path = .ok target) {other : Path} {shown : String}
    (hread : disk.readText other = .ok shown) (hother : disk.place other ≠ .ok target) :
    written.readText other = .ok shown := by
  obtain ⟨content, hnode, hshown⟩ := Disk.readText_eq_ok.mp hread
  obtain ⟨place, hplace, hthere⟩ := Disk.node_eq_ok.mp hnode
  refine Disk.readText_eq_ok.mpr ⟨content, Disk.node_eq_ok.mpr
    ⟨place, Disk.place_write h hplace, ?_⟩, hshown⟩
  obtain ⟨rest, rfl, hnow⟩ | hnow := Disk.at?_write h htarget hthere
  · cases rest with
    | nil =>
      rw [List.append_nil] at hother
      exact absurd hplace hother
    | cons name rest => exact hnow
  · exact hnow

/-- A path that leads to the place of the output leads to the output. -/
theorem readText_target (h : disk.writeText path text = .ok written)
    (htarget : disk.newPlace path = .ok target) {other : Path}
    (hother : written.place other = .ok target) : written.readText other = .ok text := by
  obtain ⟨content, hnode, htext⟩ := Disk.readText_eq_ok.mp (Disk.readText_writeText h)
  obtain ⟨place, hplace, hthere⟩ := Disk.node_eq_ok.mp hnode
  obtain ⟨-, found, hfound, hfile, -⟩ := Disk.write_elsewhere h
  cases hfound.symm.trans htarget
  rw [← Disk.newPlace_write h] at htarget
  cases hplace.symm.trans (Disk.place_of_newPlace htarget (by simp [hfile]))
  exact Disk.readText_eq_ok.mpr ⟨content, Disk.node_eq_ok.mpr ⟨_, hother, hthere⟩, htext⟩

/-- The second run reads what the first one read, and in between it may read the output. -/
theorem readable_write (h : disk.writeText path text = .ok written)
    (htarget : disk.newPlace path = .ok target) {before after : List Path}
    (hafter : Inserted (fun found => written.place found = .ok target) before after)
    (hreads : ∀ source ∈ before, ∃ shown, disk.readText source = .ok shown)
    (hapart : ∀ source ∈ before, disk.place source ≠ .ok target) :
    (∀ source ∈ after, ∃ shown, written.readText source = .ok shown) ∧
      Inserted (fun source => source.2 = text ∧ written.place source.1 = .ok target)
        (readable disk before) (readable written after) := by
  induction hafter with
  | nil => exact ⟨by simp, .nil⟩
  | keep source hrest ih =>
    obtain ⟨⟨shown, hshown⟩, hreads⟩ := List.forall_mem_cons.mp hreads
    obtain ⟨hsource, hapart⟩ := List.forall_mem_cons.mp hapart
    obtain ⟨hall, hinserted⟩ := ih hreads hapart
    have hnow := readText_elsewhere h htarget hshown hsource
    refine ⟨List.forall_mem_cons.mpr ⟨⟨shown, hnow⟩, hall⟩, ?_⟩
    simp only [readable, hshown, hnow]
    exact .keep (source, shown) hinserted
  | @add source hplace before after hrest ih =>
    obtain ⟨hall, hinserted⟩ := ih hreads hapart
    have hnow := readText_target h htarget hplace
    refine ⟨List.forall_mem_cons.mpr ⟨⟨text, hnow⟩, hall⟩, ?_⟩
    simp only [readable, hnow]
    exact .add ⟨rfl, hplace⟩ hinserted

end Write

/-! ## What is found in them -/

section Inserted

variable {extra : Source → Prop} {before after : List Source}

/-- Files that have nothing to report change no report and count for no failure. -/
theorem filterMap_inserted (h : Inserted extra before after)
    (hquiet : ∀ source ∈ after, extra source → Fieldwise.scan source.2 = .ok []) :
    after.filterMap Source.report? = before.filterMap Source.report? ∧
      after.countP Source.isUnparsable = before.countP Source.isUnparsable := by
  induction h with
  | nil => exact ⟨rfl, rfl⟩
  | keep source hrest ih =>
    obtain ⟨-, hquiet⟩ := List.forall_mem_cons.mp hquiet
    obtain ⟨hreports, hcount⟩ := ih hquiet
    exact ⟨by rw [List.filterMap_cons, List.filterMap_cons, hreports],
      by rw [List.countP_cons, List.countP_cons, hcount]⟩
  | @add source hextra before after hrest ih =>
    obtain ⟨hsource, hquiet⟩ := List.forall_mem_cons.mp hquiet
    obtain ⟨hreports, hcount⟩ := ih hquiet
    have hscan := hsource hextra
    have hnone : Source.report? source = none := by
      unfold Source.report?
      rw [hscan]
    have hfine : Source.isUnparsable source = false := by
      unfold Source.isUnparsable
      rw [hscan]
    exact ⟨by rw [List.filterMap_cons_none hnone, hreports],
      by rw [List.countP_cons_of_neg (by simp [hfine]), hcount]⟩

theorem listing_length_pos (report : FileReport) : 0 < report.listing.length := by
  simp only [FileReport.listing, String.length_append]
  have hmark : "\n// ".length = 4 := rfl
  omega

/-- A file with something to report makes the listing of all files longer. -/
theorem listing_length_inserted (h : Inserted extra before after) :
    (listing (before.filterMap Source.report?)).length ≤
        (listing (after.filterMap Source.report?)).length ∧
      ((∀ source ∈ before, ¬extra source) → ∀ source ∈ after, extra source →
        source.report? ≠ none → (listing (before.filterMap Source.report?)).length <
          (listing (after.filterMap Source.report?)).length) := by
  have hcons : ∀ (source : Source) (others : List Source),
      (listing ((source :: others).filterMap Source.report?)).length =
        (source.report?.elim 0 fun report => report.listing.length) +
          (listing (others.filterMap Source.report?)).length := by
    intro source others
    cases hreport : source.report? with
    | none => simp [List.filterMap_cons_none hreport]
    | some report =>
      rw [List.filterMap_cons_some hreport, listing, List.map_cons, String.join_cons,
        String.length_append]
      rfl
  induction h with
  | nil => simp
  | @keep source before after hrest ih =>
    obtain ⟨hle, hlt⟩ := ih
    rw [hcons, hcons]
    refine ⟨by omega, fun hkept other hother hextra hreport => ?_⟩
    obtain ⟨hsource, hkept⟩ := List.forall_mem_cons.mp hkept
    rcases List.mem_cons.mp hother with rfl | hother
    · exact absurd hextra hsource
    · have hless := hlt hkept other hother hextra hreport
      omega
  | @add source hextra before after hrest ih =>
    obtain ⟨hle, hlt⟩ := ih
    rw [hcons]
    refine ⟨by omega, fun hkept other hother hextra hreport => ?_⟩
    rcases List.mem_cons.mp hother with rfl | hother
    · obtain ⟨report, hreport⟩ := Option.ne_none_iff_exists'.mp hreport
      have hpos := listing_length_pos report
      rw [hreport, Option.elim_some]
      omega
    · have hless := hlt hkept other hother hextra hreport
      omega

end Inserted

/-! ## Both runs -/

/-- The output of a configuration is among the files that are scanned. -/
def Rescans (disk : Disk) (config : Config) (path : Path) : Prop :=
  ∃ paths, sources disk config.paths = .ok paths ∧
    ∃ source ∈ paths, disk.place source = disk.place path

theorem generate_survey (disk : Disk) (config : Config) {found : List Source}
    (h : Call.scanned ⟨.generate, disk, config⟩ = found) :
    (start.generate disk config).survey =
      ⟨found.filterMap Source.report?,
        ((found.filterMap Source.report?).flatMap FileReport.structs).countP StructReport.failed +
          found.countP Source.isUnparsable⟩ := by
  have hrun : (start.generate disk config).survey = _ := run_survey start ⟨.generate, disk, config⟩
  rw [hrun, h, add_visits]
  simp [start]

/-- Where all files can be read, each is scanned with its text. -/
theorem mem_readable {disk : Disk} {paths : List Path}
    (h : ∀ path ∈ paths, ∃ text, disk.readText path = .ok text) {source : Source} :
    source ∈ readable disk paths ↔ source.1 ∈ paths ∧ disk.readText source.1 = .ok source.2 := by
  obtain ⟨path, text⟩ := source
  induction paths with
  | nil => simp [readable]
  | cons first rest ih =>
    obtain ⟨⟨shown, hshown⟩, hrest⟩ := List.forall_mem_cons.mp h
    simp only [readable, hshown, List.mem_cons, ih hrest, Prod.mk.injEq]
    constructor
    · rintro (⟨rfl, rfl⟩ | ⟨hpath, htext⟩)
      · exact ⟨.inl rfl, hshown⟩
      · exact ⟨.inr hpath, htext⟩
    · rintro ⟨rfl | hpath, htext⟩
      · exact .inl ⟨rfl, by simpa [hshown] using htext.symm⟩
      · exact .inr ⟨hpath, htext⟩

/-- A run succeeds exactly when it can read all files, nothing fails, and what it finds can be written. -/
theorem generate_eq_ok {disk : Disk} {config : Config} {path : Path}
    (houtput : config.output = some path) :
    (start.generate disk config).result = .ok () ↔
      Call.ReadsAll ⟨.generate, disk, config⟩ ∧ (start.generate disk config).survey.failures = 0 ∧
        ∃ written, disk.writeText path (start.generate disk config).survey.output =
          .ok written := by
  have htarget : Call.target? ⟨.generate, disk, config⟩ = some path :=
    target_eq_some.mpr ⟨rfl, houtput⟩
  have hrun : (start.generate disk config).result = .ok () ↔ _ :=
    run_eq_ok start ⟨.generate, disk, config⟩
  rw [hrun]
  refine and_congr_right fun _ => and_congr_right fun _ => ?_
  simp only [htarget, Option.some.injEq, forall_eq']
  exact Iff.rfl

theorem generate_writes {disk : Disk} {config : Config} {path : Path}
    (houtput : config.output = some path) (hok : (start.generate disk config).result = .ok ()) :
    disk.writeText path (start.generate disk config).survey.output =
      .ok (start.generate disk config).disk := by
  have htarget : Call.target? ⟨.generate, disk, config⟩ = some path :=
    target_eq_some.mpr ⟨rfl, houtput⟩
  rcases run_disk start ⟨.generate, disk, config⟩ with
    ⟨hnone | hfails, -⟩ | ⟨other, hother, -, -, hwrite⟩
  · rw [htarget] at hnone
    contradiction
  · exact absurd hok hfails
  · rw [htarget] at hother
    cases hother
    exact hwrite

/-- What the second run meets: the files that the first one scanned, and the output if it is scanned now. -/
structure Meets (config : Config) (path : Path) (disk : Disk) (first : Outcome)
    (before after : List Source) : Prop where
  /-- The first run scanned these files. -/
  scanned : Call.scanned ⟨.generate, disk, config⟩ = before
  /-- The second run scans these files. -/
  scans : Call.scanned ⟨.generate, first.disk, config⟩ = after
  /-- The second run can read all its files. -/
  reads : Call.ReadsAll ⟨.generate, first.disk, config⟩
  /-- It scans each file with its text. -/
  mem : ∀ source, source ∈ after ↔
    (∃ paths, sources first.disk config.paths = .ok paths ∧ source.1 ∈ paths) ∧
      first.disk.readText source.1 = .ok source.2
  /-- Only the output was put in. -/
  inserted : Inserted (fun source => source.2 = first.survey.output ∧
    first.disk.place source.1 = first.disk.place path) before after
  /-- The output was not there before. -/
  apart : ∀ source ∈ before, first.disk.place source.1 ≠ first.disk.place path

/-- The source files of the second run are those of the first one, and in between there may be the output. -/
theorem exists_meets {disk : Disk} {config : Config} {path : Path}
    (houtput : config.output = some path)
    (hwork : ∀ name ∈ disk.workdir, Path.isName name = true)
    (hok : (start.generate disk config).result = .ok ())
    (hnew : disk.holds path = false ∨ ¬Rescans disk config path) :
    ∃ before after, Meets config path disk (start.generate disk config) before after := by
  obtain ⟨⟨paths, hpaths, hreads⟩, -⟩ := (generate_eq_ok houtput).mp hok
  have hwrite := generate_writes houtput hok
  generalize start.generate disk config = first at *
  obtain ⟨-, target, htarget, hfile, -⟩ := Disk.write_elsewhere hwrite
  have hplace : first.disk.place path = .ok target := by
    refine Disk.place_of_newPlace ?_ (by simp [hfile])
    rw [Disk.newPlace_write hwrite, htarget]
  -- No file of the first run was at the place of the output.
  have hapart : ∀ source ∈ paths, disk.place source ≠ .ok target := by
    intro source hsource hleads
    obtain ⟨text, htext⟩ := hreads source hsource
    obtain ⟨content, hnode, -⟩ := Disk.readText_eq_ok.mp htext
    obtain ⟨found, hfound, hthere⟩ := Disk.node_eq_ok.mp hnode
    cases hfound.symm.trans hleads
    have hleads' := Disk.place_of_newPlace htarget (by simp [hthere])
    rcases hnew with hmissing | hother
    · have hheld : disk.node path = .ok (.file content) :=
        Disk.node_eq_ok.mpr ⟨_, hleads', hthere⟩
      simp [Disk.holds, hheld, Except.isOk, Except.toBool] at hmissing
    · exact hother ⟨paths, hpaths, source, hsource, hleads.trans hleads'.symm⟩
  obtain ⟨paths', hpaths', hinserted⟩ :=
    sources_write hwrite htarget (Disk.newPlace_names htarget hwork) hpaths
  obtain ⟨hreads', hsources⟩ := readable_write hwrite htarget hinserted hreads hapart
  refine ⟨readable disk paths, readable first.disk paths', ?_, ?_, ⟨paths', hpaths', hreads'⟩, ?_,
    ?_, ?_⟩
  · simp only [Call.scanned, hpaths]
  · simp only [Call.scanned, hpaths']
  · intro source
    rw [mem_readable hreads', hpaths']
    simp
  · rw [hplace]
    exact hsources
  · intro source hsource
    obtain ⟨hmem, hread⟩ := (mem_readable hreads).mp hsource
    obtain ⟨content, hnode, -⟩ := Disk.readText_eq_ok.mp hread
    obtain ⟨found, hfound, -⟩ := Disk.node_eq_ok.mp hnode
    rw [Disk.place_write hwrite hfound, hplace, ← hfound]
    exact hapart source.1 hmem

namespace Meets

variable {config : Config} {path : Path} {disk : Disk} {before after : List Source}

/-- An output with nothing to report is written again as it is. -/
theorem keeps (h : Meets config path disk (start.generate disk config) before after)
    (houtput : config.output = some path) (hok : (start.generate disk config).result = .ok ())
    (hscan : Rescans (start.generate disk config).disk config path →
      Fieldwise.scan (start.generate disk config).survey.output = .ok []) {again : Outcome}
    (hagain : start.generate (start.generate disk config).disk config = again) :
    again.result = .ok () ∧ again.disk = (start.generate disk config).disk := by
  obtain ⟨-, hfine, -⟩ := (generate_eq_ok houtput).mp hok
  have hwrite := generate_writes houtput hok
  have hsurvey := generate_survey disk config h.scanned
  have hsurvey' := generate_survey _ config h.scans
  generalize start.generate disk config = first at *
  have hsame := filterMap_inserted h.inserted fun source hsource hextra => by
    obtain ⟨⟨paths, hpaths, hmem⟩, -⟩ := (h.mem source).mp hsource
    rw [hextra.1]
    exact hscan ⟨paths, hpaths, source.1, hmem, hextra.2⟩
  have hfound : (start.generate first.disk config).survey = first.survey := by
    rw [hsurvey', hsurvey, hsame.1, hsame.2]
  have hrewrite : first.disk.writeText path (start.generate first.disk config).survey.output =
      .ok first.disk := by
    rw [hfound]
    exact Disk.write_again hwrite
  have hresult : (start.generate first.disk config).result = .ok () :=
    (generate_eq_ok houtput).mpr ⟨h.reads, hfound ▸ hfine, first.disk, hrewrite⟩
  have hdisk := Except.ok.inj ((generate_writes houtput hresult).symm.trans hrewrite)
  rw [← hagain]
  exact ⟨hresult, hdisk⟩

/-- An output that is scanned and written again as it was has nothing to report. -/
theorem quiet (h : Meets config path disk (start.generate disk config) before after)
    (houtput : config.output = some path) (hok : (start.generate disk config).result = .ok ())
    (hrescans : Rescans (start.generate disk config).disk config path) {again : Outcome}
    (hagain : start.generate (start.generate disk config).disk config = again)
    (hresult : again.result = .ok ())
    (hsame : again.disk.readText path = (start.generate disk config).disk.readText path) :
    Fieldwise.scan (start.generate disk config).survey.output = .ok [] := by
  have hwrite := generate_writes houtput hok
  have hsurvey := generate_survey disk config h.scanned
  have hsurvey' := generate_survey _ config h.scans
  generalize start.generate disk config = first at *
  have hwritten := Disk.readText_writeText hwrite
  rw [← hagain] at hresult hsame
  obtain ⟨-, hfine, -⟩ := (generate_eq_ok houtput).mp hresult
  have htext : (start.generate first.disk config).survey.output = first.survey.output := by
    rw [Disk.readText_writeText (generate_writes houtput hresult), hwritten] at hsame
    exact Except.ok.inj hsame
  obtain ⟨paths, hpaths, source, hsource, hplace⟩ := hrescans
  have hread : first.disk.readText source = .ok first.survey.output := by
    rw [← hwritten]
    unfold Disk.readText Disk.node
    rw [hplace]
  have hmem : (source, first.survey.output) ∈ after :=
    (h.mem _).mpr ⟨⟨paths, hpaths, hsource⟩, hread⟩
  have hparsed : Source.isUnparsable (source, first.survey.output) = false := by
    rw [hsurvey'] at hfine
    have hnone : after.countP Source.isUnparsable = 0 := by
      dsimp only at hfine
      omega
    simpa using List.countP_eq_zero.mp hnone _ hmem
  cases hscan : Fieldwise.scan first.survey.output with
  | error error =>
    unfold Source.isUnparsable at hparsed
    simp [hscan] at hparsed
  | ok reports =>
    cases reports with
    | nil => rfl
    | cons report reports =>
      -- Its report would make the second output longer than the first.
      exfalso
      have hreport : Source.report? (source, first.survey.output) ≠ none := by
        unfold Source.report?
        simp [hscan]
      have hlonger := (listing_length_inserted h.inserted).2
        (fun other hother hextra => h.apart other hother hextra.2) _ hmem ⟨rfl, hplace⟩ hreport
      have hlength := congrArg String.length htext
      rw [output, output, hsurvey', hsurvey, String.length_append, String.length_append] at hlength
      dsimp only at hlength
      omega

end Meets

/-- A run that succeeds writes its output, and a second run right after it writes the same output again exactly
when the output is not among its source files or is a file without annotated structs. The second run then
changes nothing at all. -/
theorem generate_again {disk : Disk} {config : Config} {path : Path} {first again : Outcome}
    (houtput : config.output = some path)
    (hwork : ∀ name ∈ disk.workdir, Path.isName name = true)
    (hfirst : start.generate disk config = first) (hok : first.result = .ok ())
    (hnew : disk.holds path = false ∨ ¬Rescans disk config path)
    (hagain : start.generate first.disk config = again) :
    first.disk.readText path = .ok first.survey.output ∧
      ((again.result = .ok () ∧ again.disk.readText path = first.disk.readText path) ↔
        (Rescans first.disk config path → Fieldwise.scan first.survey.output = .ok [])) ∧
      (again.result = .ok () → again.disk.readText path = first.disk.readText path →
        again.disk = first.disk) := by
  subst hfirst
  obtain ⟨before, after, hmeets⟩ := exists_meets houtput hwork hok hnew
  have hwritten := Disk.readText_writeText (generate_writes houtput hok)
  have hquiet := fun hresult hsame hrescans =>
    hmeets.quiet houtput hok hrescans hagain hresult hsame
  refine ⟨hwritten, ⟨fun h => hquiet h.1 h.2, fun hscan => ?_⟩, fun hresult hsame => ?_⟩
  · obtain ⟨hresult, hdisk⟩ := hmeets.keeps houtput hok hscan hagain
    exact ⟨hresult, by rw [hdisk]⟩
  · exact (hmeets.keeps houtput hok (hquiet hresult hsame) hagain).2

/-! A project with one annotated struct, and its output in another folder of sources. -/

/-- The folders of the project. -/
def projectDisk : Disk :=
  ⟨.folder [("lib", .folder [("a.rs", .file "#[memberwise_init]\npub struct S;".toUTF8)]),
    ("src", .folder [])], []⟩

/-- The file for the constructors. -/
def projectOutput : Path := ⟨.plain, ["src", "out.rs"]⟩

/-- Both folders are scanned. -/
def projectConfig : Config := ⟨"1", [⟨.plain, ["lib"]⟩, ⟨.plain, ["src"]⟩], some projectOutput⟩

/-- What is written for the project. -/
def projectText : String :=
  "// Generated by memberwise. Do not edit.

// lib/a.rs

// lib/a.rs:2 S
impl S \x7b
    pub fn new() -> Self \x7b
        Self \x7b\x7d
    \x7d
\x7d
"

/-- The tokens of what is written, with the places of the arrow. -/
def projectTokens (dash tip : Pos) : Tokens :=
  [.ident "impl" ⟨6, 0⟩, .ident "S" ⟨6, 5⟩,
    .group .brace
      [.ident "pub" ⟨7, 4⟩, .ident "fn" ⟨7, 8⟩, .ident "new" ⟨7, 11⟩,
        .group .paren [] ⟨7, 14⟩ ⟨7, 15⟩, .punct '-' .joint dash, .punct '>' .alone tip,
        .ident "Self" ⟨7, 20⟩,
        .group .brace [.ident "Self" ⟨8, 8⟩, .group .brace [] ⟨8, 13⟩ ⟨8, 14⟩] ⟨7, 25⟩ ⟨9, 4⟩]
      ⟨6, 7⟩ ⟨10, 0⟩]

set_option maxRecDepth 2000 in
/-- The tokens are those of an item that is no struct. -/
theorem parseItems_projectTokens :
    parseItems (projectTokens ⟨7, 17⟩ ⟨7, 18⟩) =
      .ok [.other (projectTokens .callSite .callSite)] := by
  cbv

theorem scan_projectText : Fieldwise.scan projectText = .ok [] := by
  have hread : (Tokens.read (withoutShebang projectText)).toOption.any
      (fun tokens => decide (tokens = projectTokens ⟨7, 17⟩ ⟨7, 18⟩)) = true := by
    decide +kernel
  obtain ⟨tokens, hread, htokens⟩ := exists_ok_of_any hread
  have hfile : parseFile projectText = .ok [.other (projectTokens .callSite .callSite)] := by
    rw [parseFile, parseText, hread, of_decide_eq_true htokens]
    exact parseItems_projectTokens
  rw [Fieldwise.scan, annotatedIn, hfile]
  rfl

/-- The project is expanded, and its output is found among its sources. -/
theorem generate_project :
    ∃ first, start.generate projectDisk projectConfig = first ∧ first.result = .ok () ∧
      first.survey.output = projectText ∧ Rescans first.disk projectConfig projectOutput := by
  have hresult : (start.generate projectDisk projectConfig).result.toOption.any (fun _ => true) =
      true := by
    decide +kernel
  have hplaced : (sources (start.generate projectDisk projectConfig).disk
      projectConfig.paths).toOption.any (fun paths => decide (∃ source ∈ paths,
        (start.generate projectDisk projectConfig).disk.place source =
          (start.generate projectDisk projectConfig).disk.place projectOutput)) = true := by
    decide +kernel
  obtain ⟨_, hok, -⟩ := exists_ok_of_any hresult
  obtain ⟨paths, hpaths, hsource⟩ := exists_ok_of_any hplaced
  exact ⟨_, rfl, hok, by decide +kernel, paths, hpaths, of_decide_eq_true hsource⟩

/-- Generating the project again changes nothing. -/
theorem project_generated_again :
    ∃ first again, start.generate projectDisk projectConfig = first ∧ first.result = .ok () ∧
      first.disk.readText projectOutput = .ok projectText ∧
      Rescans first.disk projectConfig projectOutput ∧
      start.generate first.disk projectConfig = again ∧ again.result = .ok () ∧
      again.disk = first.disk := by
  obtain ⟨first, hfirst, hok, hwritten, hrescans⟩ := generate_project
  have houtput : projectConfig.output = some projectOutput := rfl
  have hwork : ∀ name ∈ projectDisk.workdir, Path.isName name = true := by simp [projectDisk]
  have hnew : projectDisk.holds projectOutput = false := by decide +kernel
  obtain ⟨hread, hiff, hdisk⟩ := generate_again houtput hwork hfirst hok (.inl hnew) rfl
  rw [hwritten] at hread hiff
  obtain ⟨hagain, hsame⟩ := hiff.mpr fun _ => scan_projectText
  exact ⟨first, _, hfirst, hok, hread, hrescans, rfl, hagain, hdisk hagain hsame⟩

end Fieldwise.Survey
