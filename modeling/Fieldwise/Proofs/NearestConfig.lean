import Mathlib.Data.List.Infix
import Fieldwise.Proofs.ConfigLookup
import Fieldwise.Proofs.PathOrder

/-!
# The nearest configuration decides

The search for a configuration goes up from a folder, one component at a time. The folders it can come to are the
beginnings of the path it starts at, so it ends after one round for each of them at the latest. It stops at the
longest beginning that has a configuration file, and that file alone decides what comes of it: a file that cannot be
used is a failure, whatever is farther up.
-/

namespace Fieldwise

variable {path start : Path} {config : Config} {outcome : Except Failure (Config × Path)}

/-! ## The beginnings of a path -/

namespace Path

/-- The path itself, and what is left of it when components are taken off its end. -/
inductive Above : Path → Path → Prop where
  | self (path : Path) : Above path path
  | up {path parent above : Path} (hparent : path.parent? = some parent) (h : Above parent above) : Above path above

theorem components_parent? {parent : Path} (h : path.parent? = some parent) :
    ∃ last, path.components = parent.components ++ [last] := by
  rcases parent?_eq_some h with ⟨hstart, hnames, rfl⟩ | ⟨hstart, -, last, hnames⟩
  · refine ⟨.here, ?_⟩
    rw [names] at hnames
    simp [components, empty, hstart, hnames]
  · refine ⟨.ofPart last, ?_⟩
    rw [names, names] at hnames
    simp [components, hstart, hnames]

/-- A path that has no parent is the root or has no components. -/
theorem components_of_top (h : path.parent? = none) : path.components = if path.isAbsolute then [.root] else [] := by
  obtain ⟨hstart, hnames⟩ := parent?_eq_none h
  rw [names] at hnames
  obtain ⟨start, parts⟩ := path
  cases start with
  | plain => simpa [components, isAbsolute] using hnames
  | dot => contradiction
  | root => simpa [components, isAbsolute] using hnames

/-- A parent starts at the root exactly if the path does. -/
theorem isAbsolute_parent? {parent : Path} (h : path.parent? = some parent) :
    parent.isAbsolute = path.isAbsolute := by
  rcases parent?_eq_some h with ⟨hstart, -, rfl⟩ | ⟨hstart, -⟩
  · rw [isAbsolute, isAbsolute, hstart]
    rfl
  · rw [isAbsolute, isAbsolute, hstart]

theorem Above.prefix_components {above : Path} (h : path.Above above) : above.components <+: path.components := by
  induction h with
  | self path => exact List.prefix_refl _
  | up hparent h ih =>
    obtain ⟨last, hlast⟩ := components_parent? hparent
    rw [hlast]
    exact ih.trans (List.prefix_append _ _)

theorem Above.eq_self {above : Path} (h : path.Above above) (hle : path.components <+: above.components) :
    above = path := by
  cases h with
  | self => rfl
  | up hparent h =>
    obtain ⟨last, hlast⟩ := components_parent? hparent
    have hlong := hle.length_le
    have hshort := h.prefix_components.length_le
    rw [hlast, List.length_append, List.length_singleton] at hlong
    omega

/-- The components of a path can be taken off one by one, down to the root or to nothing. -/
theorem exists_above_iff (path : Path) (front : List Component) :
    (∃ above, path.Above above ∧ above.components = front) ↔
      front <+: path.components ∧ (path.isAbsolute = true → front ≠ []) := by
  cases h : path.parent? with
  | none =>
    have hcomponents := components_of_top h
    have honly : ∀ above, path.Above above → above = path := by
      rintro above (_ | ⟨hparent, -⟩)
      · rfl
      · cases h.symm.trans hparent
    constructor
    · rintro ⟨above, habove, rfl⟩
      obtain rfl := honly above habove
      refine ⟨List.prefix_refl _, fun habsolute => ?_⟩
      simp [hcomponents, habsolute]
    · rintro ⟨hfront, hne⟩
      refine ⟨path, .self path, ?_⟩
      rw [hcomponents] at hfront ⊢
      cases habsolute : path.isAbsolute with
      | false => simpa [habsolute, eq_comm] using hfront
      | true =>
        obtain ⟨first, rest, rfl⟩ := List.exists_cons_of_ne_nil (hne habsolute)
        obtain ⟨rfl, rfl⟩ : first = .root ∧ rest = [] := by simpa [habsolute] using hfront
        rfl
  | some parent =>
    have hweight := weight_parent? h
    have hparent := exists_above_iff parent
    obtain ⟨last, hlast⟩ := components_parent? h
    rw [isAbsolute_parent? h] at hparent
    constructor
    · rintro ⟨above, _ | ⟨hup, habove⟩, rfl⟩
      · exact ⟨List.prefix_refl _, fun _ => by simp [hlast]⟩
      · cases h.symm.trans hup
        obtain ⟨hfront, hne⟩ := (hparent _).mp ⟨above, habove, rfl⟩
        rw [hlast]
        exact ⟨hfront.trans (List.prefix_append _ _), hne⟩
    · rintro ⟨hfront, hne⟩
      rw [hlast, List.prefix_concat_iff] at hfront
      rcases hfront with rfl | hfront
      · exact ⟨path, .self path, hlast⟩
      · obtain ⟨above, habove, hsame⟩ := (hparent front).mpr ⟨hfront, hne⟩
        exact ⟨above, .up h habove, hsame⟩
termination_by path.weight

end Path

namespace Config

open Path

/-! ## The nearest folder -/

/-- The folder is the longest beginning of a path that has a configuration file. -/
structure Nearest (disk : Disk) (start folder : Path) : Prop where
  /-- It is a beginning of the path. -/
  above : start.Above folder
  /-- It has a configuration file. -/
  holds : disk.holds (fileIn folder) = true
  /-- Every other beginning that has one is shorter. -/
  longest : ∀ other, start.Above other → disk.holds (fileIn other) = true → other.components <+: folder.components

section Rounds

variable {disk : Disk} {folder parent : Path}

theorem nearest?_here (h : disk.holds (fileIn folder) = true) : nearest? disk folder = some folder := by
  rw [nearest?, Path.ancestors]
  exact List.find?_cons_of_pos h

theorem nearest?_up (h : disk.holds (fileIn folder) = false) (hparent : folder.parent? = some parent) :
    nearest? disk folder = nearest? disk parent := by
  rw [nearest?, ancestors_of_parent? hparent]
  exact List.find?_cons_of_neg (by simp [h])

theorem nearest?_top (h : disk.holds (fileIn folder) = false) (hparent : folder.parent? = none) :
    nearest? disk folder = none := by
  rw [nearest?, ancestors_of_none hparent]
  simp [h]

end Rounds

/-- The nearest folder with a configuration file is found, if there is one. -/
theorem nearest?_eq_some_iff (disk : Disk) (start folder : Path) :
    nearest? disk start = some folder ↔ Nearest disk start folder := by
  cases hholds : disk.holds (fileIn start) with
  | true =>
    rw [nearest?_here hholds, Option.some.injEq]
    constructor
    · rintro rfl
      exact ⟨.self start, hholds, fun other hother _ => hother.prefix_components⟩
    · intro hnear
      exact (hnear.above.eq_self (hnear.longest start (.self start) hholds)).symm
  | false =>
    have hhere : ∀ {other}, start.Above other → disk.holds (fileIn other) = true →
        ∃ parent, start.parent? = some parent ∧ parent.Above other := by
      rintro other (_ | ⟨hparent, hother⟩) hfile
      · rw [hholds] at hfile
        contradiction
      · exact ⟨_, hparent, hother⟩
    cases hparent : start.parent? with
    | none =>
      rw [nearest?_top hholds hparent]
      refine iff_of_false (by simp) fun hnear => ?_
      obtain ⟨parent, hsome, -⟩ := hhere hnear.above hnear.holds
      cases hparent.symm.trans hsome
    | some parent =>
      have hweight := weight_parent? hparent
      rw [nearest?_up hholds hparent, nearest?_eq_some_iff disk parent folder]
      constructor
      · rintro ⟨habove, hfile, hlongest⟩
        refine ⟨.up hparent habove, hfile, fun other hother hotherFile => ?_⟩
        obtain ⟨_, hsome, hother⟩ := hhere hother hotherFile
        cases hparent.symm.trans hsome
        exact hlongest other hother hotherFile
      · rintro ⟨habove, hfile, hlongest⟩
        obtain ⟨_, hsome, habove⟩ := hhere habove hfile
        cases hparent.symm.trans hsome
        exact ⟨habove, hfile, fun other hother => hlongest other (.up hparent hother)⟩
termination_by start.weight

/-- Nothing is found exactly if no beginning of the path has a configuration file. -/
theorem nearest?_eq_none_iff (disk : Disk) (start : Path) :
    nearest? disk start = none ↔ ∀ folder, start.Above folder → disk.holds (fileIn folder) = false := by
  constructor
  · intro hnone folder habove
    induction habove with
    | self path =>
      cases hholds : disk.holds (fileIn path) with
      | false => rfl
      | true => cases hnone.symm.trans (nearest?_here hholds)
    | @up path parent above hparent h ih =>
      cases hholds : disk.holds (fileIn path) with
      | false => exact ih (nearest?_up hholds hparent ▸ hnone)
      | true => cases hnone.symm.trans (nearest?_here hholds)
  · intro hall
    cases hfound : nearest? disk start with
    | none => rfl
    | some folder =>
      have hnear := (nearest?_eq_some_iff disk start folder).mp hfound
      cases (hall folder hnear.above).symm.trans hnear.holds

/-! ## What a folder decides -/

/-- What comes of a search that ends at a folder with a configuration file. -/
inductive Decided (disk : Disk) (folder : Path) : Except Failure (Config × Path) → Prop where
  /-- The file cannot be read. -/
  | unreadable {fault : FileFault} (hread : disk.readText (fileIn folder) = .error fault) :
    Decided disk folder (.error (.files fault))
  /-- The file is not well formed. -/
  | malformed {source : String} (hread : disk.readText (fileIn folder) = .ok source)
    (hparse : parse source = .error .badConfig) : Decided disk folder (.error .badConfig)
  /-- The first source that is missing is named. -/
  | noSource {source : String} {config : Config} {before after : List Path} {path : Path}
    (hread : disk.readText (fileIn folder) = .ok source) (hparse : parse source = .ok config)
    (hpaths : config.paths = before ++ path :: after)
    (hbefore : ∀ earlier ∈ before, disk.holds (folder.join earlier) = true)
    (hmissing : disk.holds (folder.join path) = false) : Decided disk folder (.error (.badPath path))
  /-- All sources are there, and the folder of the output is not. -/
  | noOutput {source : String} {config : Config} {output parent : Path}
    (hread : disk.readText (fileIn folder) = .ok source) (hparse : parse source = .ok config)
    (hpaths : ∀ path ∈ config.paths, disk.holds (folder.join path) = true)
    (houtput : config.output = some output) (hparent : output.parent? = some parent)
    (hmissing : disk.holds (folder.join parent) = false) : Decided disk folder (.error (.badPath parent))
  /-- All that is needed is there. -/
  | valid {source : String} {config : Config}
    (hread : disk.readText (fileIn folder) = .ok source) (hparse : parse source = .ok config)
    (hpaths : ∀ path ∈ config.paths, disk.holds (folder.join path) = true)
    (houtput : ∀ output parent, config.output = some output → output.parent? = some parent →
      disk.holds (folder.join parent) = true) : Decided disk folder (.ok (config, folder))

/-- A text without a configuration is refused in one way. -/
theorem parse_eq_error {source : String} {failure : Failure} (h : parse source = .error failure) :
    failure = .badConfig := by
  unfold parse at h
  split at h
  · contradiction
  · exact (Except.error.inj h).symm

theorem mem_neededPaths :
    path ∈ config.neededPaths ↔
      path ∈ config.paths ∨ ∃ output, config.output = some output ∧ output.parent? = some path := by
  simp [neededPaths, Option.bind_eq_some_iff]

/-- A configuration that is not valid is refused for the first needed path that leads nowhere. -/
theorem validate_eq_error_iff {disk : Disk} {folder : Path} {failure : Failure} :
    config.validate disk folder = .error failure ↔
      ∃ before path after, config.neededPaths = before ++ path :: after ∧
        (∀ earlier ∈ before, disk.holds (folder.join earlier) = true) ∧
        disk.holds (folder.join path) = false ∧ failure = .badPath path := by
  unfold validate
  constructor
  · intro h
    split at h
    · rename_i path hpath
      obtain ⟨hmissing, before, after, hsplit, hbefore⟩ := List.find?_eq_some_iff_append.mp hpath
      exact ⟨before, path, after, hsplit, by simpa using hbefore, by simpa using hmissing, (Except.error.inj h).symm⟩
    · contradiction
  · rintro ⟨before, path, after, hsplit, hbefore, hmissing, rfl⟩
    have hpath : config.neededPaths.find? (fun path => !disk.holds (folder.join path)) = some path :=
      List.find?_eq_some_iff_append.mpr ⟨by simp [hmissing], before, after, hsplit, by simpa using hbefore⟩
    rw [hpath]

/-- The needed paths cut in two before one of them: it is a source behind other sources, or the folder of the output
behind all sources. -/
theorem neededPaths_eq_append {before after : List Path} (h : config.neededPaths = before ++ path :: after) :
    (∃ rest, config.paths = before ++ path :: rest) ∨
      before = config.paths ∧ ∃ output, config.output = some output ∧ output.parent? = some path := by
  have hparent : (config.output.bind Path.parent?).toList.length ≤ 1 := by
    cases config.output.bind Path.parent? <;> simp
  rw [neededPaths, List.append_eq_append_iff] at h
  rcases h with ⟨more, hbefore, houtput⟩ | ⟨more, hpaths, hrest⟩
  · have hnil : more = [] := by
      rw [houtput, List.length_append, List.length_cons] at hparent
      exact List.length_eq_zero_iff.mp (by omega)
    subst hnil
    cases hbind : config.output.bind Path.parent? with
    | none => simp [hbind] at houtput
    | some parent =>
      rw [hbind] at houtput
      obtain rfl : parent = path := by simpa using (List.cons.inj houtput).1
      exact .inr ⟨by simpa using hbefore, Option.bind_eq_some_iff.mp hbind⟩
  · cases more with
    | nil =>
      cases hbind : config.output.bind Path.parent? with
      | none => simp [hbind] at hrest
      | some parent =>
        rw [hbind] at hrest
        obtain rfl : path = parent := (List.cons.inj hrest).1
        exact .inr ⟨by simpa using hpaths.symm, Option.bind_eq_some_iff.mp hbind⟩
    | cons first rest =>
      obtain ⟨rfl, -⟩ := List.cons.inj hrest
      exact .inl ⟨rest, hpaths⟩

/-- Reading the configuration of a folder comes to what the folder decides. -/
theorem loadIn_decided (disk : Disk) (folder : Path) :
    Decided disk folder ((fun config => (config, folder)) <$> loadIn disk folder) := by
  cases hread : disk.readText (fileIn folder) with
  | error fault =>
    have hload : loadIn disk folder = .error (.files fault) := by
      simp only [loadIn, load, hread]
      rfl
    rw [hload]
    exact .unreadable hread
  | ok source =>
    have hload : load disk (fileIn folder) = parse source := by simp only [load, hread]
    cases hparse : parse source with
    | error failure =>
      obtain rfl := parse_eq_error hparse
      have hloaded : loadIn disk folder = .error .badConfig := bind_eq_error.mpr (.inl (hload.trans hparse))
      rw [hloaded]
      exact .malformed hread hparse
    | ok config =>
      cases hvalid : config.validate disk folder with
      | error failure =>
        have hloaded : loadIn disk folder = .error failure :=
          bind_eq_error.mpr (.inr ⟨config, hload.trans hparse, bind_eq_error.mpr (.inl hvalid)⟩)
        obtain ⟨before, path, after, hsplit, hbefore, hmissing, rfl⟩ := validate_eq_error_iff.mp hvalid
        rw [hloaded]
        obtain ⟨rest, hpaths⟩ | ⟨rfl, output, houtput, hparent⟩ := neededPaths_eq_append hsplit
        · exact .noSource hread hparse hpaths hbefore hmissing
        · exact .noOutput hread hparse hbefore houtput hparent hmissing
      | ok done =>
        have hloaded : loadIn disk folder = .ok config :=
          bind_eq_ok.mpr ⟨config, hload.trans hparse, bind_eq_ok.mpr ⟨(), hvalid, rfl⟩⟩
        have hneeded := validate_eq_ok.mp hvalid
        rw [hloaded]
        refine .valid hread hparse (fun path hpath => hneeded path (mem_neededPaths.mpr (.inl hpath))) ?_
        intro output parent houtput hparent
        exact hneeded parent (mem_neededPaths.mpr (.inr ⟨output, houtput, hparent⟩))

theorem Decided.eq_loadIn {disk : Disk} {folder : Path} (h : Decided disk folder outcome) :
    outcome = (fun config => (config, folder)) <$> loadIn disk folder := by
  have hload : ∀ {source}, disk.readText (fileIn folder) = .ok source → load disk (fileIn folder) = parse source := by
    intro source hread
    simp only [load, hread]
  have hinvalid : ∀ {source config path}, disk.readText (fileIn folder) = .ok source → parse source = .ok config →
      config.validate disk folder = .error (.badPath path) → loadIn disk folder = .error (.badPath path) := by
    intro source config path hread hparse hvalid
    exact bind_eq_error.mpr (.inr ⟨config, (hload hread).trans hparse, bind_eq_error.mpr (.inl hvalid)⟩)
  cases h with
  | unreadable hread =>
    simp only [loadIn, load, hread]
    rfl
  | malformed hread hparse =>
    have hloaded : loadIn disk folder = .error .badConfig := bind_eq_error.mpr (.inl ((hload hread).trans hparse))
    rw [hloaded]
    rfl
  | @noSource source config before after path hread hparse hpaths hbefore hmissing =>
    have hsplit : config.neededPaths = before ++ path :: (after ++ (config.output.bind Path.parent?).toList) := by
      rw [neededPaths, hpaths, List.append_assoc, List.cons_append]
    rw [hinvalid hread hparse (validate_eq_error_iff.mpr ⟨_, _, _, hsplit, hbefore, hmissing, rfl⟩)]
    rfl
  | @noOutput source config output parent hread hparse hpaths houtput hparent hmissing =>
    have hsplit : config.neededPaths = config.paths ++ parent :: [] := by
      rw [neededPaths, houtput, Option.bind_some, hparent, Option.toList_some]
    rw [hinvalid hread hparse (validate_eq_error_iff.mpr ⟨_, _, _, hsplit, hpaths, hmissing, rfl⟩)]
    rfl
  | @valid source config hread hparse hpaths houtput =>
    have hvalid : config.validate disk folder = .ok () := by
      refine validate_eq_ok.mpr fun path hpath => ?_
      obtain hpath | ⟨output, hsome, hparent⟩ := mem_neededPaths.mp hpath
      · exact hpaths path hpath
      · exact houtput output path hsome hparent
    have hloaded : loadIn disk folder = .ok config :=
      bind_eq_ok.mpr ⟨config, (hload hread).trans hparse, bind_eq_ok.mpr ⟨(), hvalid, rfl⟩⟩
    rw [hloaded]
    rfl

/-! ## The search -/

/-- The search as a loop: in each round a folder is looked at, and the search ends there or goes on with its parent. It
is counted how many rounds there are. -/
inductive Search (disk : Disk) (start : Path) : Path → Nat → Except Failure (Config × Path) → Prop where
  | found {folder : Path} (hfile : disk.holds (fileIn folder) = true) :
    Search disk start folder 1 ((fun config => (config, folder)) <$> loadIn disk folder)
  | up {folder parent : Path} {rounds : Nat} {outcome : Except Failure (Config × Path)}
    (hfile : disk.holds (fileIn folder) = false) (hparent : folder.parent? = some parent)
    (h : Search disk start parent rounds outcome) : Search disk start folder (rounds + 1) outcome
  | top {folder : Path} (hfile : disk.holds (fileIn folder) = false) (hparent : folder.parent? = none) :
    Search disk start folder 1 (.error (.noConfig start))

/-- A search ends, after a round for each component and one more at the latest. -/
theorem exists_search (disk : Disk) (start folder : Path) :
    ∃ rounds outcome, rounds ≤ folder.components.length + 1 ∧ Search disk start folder rounds outcome := by
  cases hfile : disk.holds (fileIn folder) with
  | true => exact ⟨1, _, by omega, .found hfile⟩
  | false =>
    cases hparent : folder.parent? with
    | none => exact ⟨1, _, by omega, .top hfile hparent⟩
    | some parent =>
      have hweight := weight_parent? hparent
      obtain ⟨rounds, outcome, hrounds, hsearch⟩ := exists_search disk start parent
      obtain ⟨last, hlast⟩ := components_parent? hparent
      refine ⟨rounds + 1, outcome, ?_, .up hfile hparent hsearch⟩
      rw [hlast, List.length_append, List.length_singleton]
      omega
termination_by folder.weight

theorem Search.eq_nearest {disk : Disk} {folder : Path} {rounds : Nat} (h : Search disk start folder rounds outcome) :
    (∃ near, nearest? disk folder = some near ∧ outcome = (fun config => (config, near)) <$> loadIn disk near) ∨
      nearest? disk folder = none ∧ outcome = .error (.noConfig start) := by
  induction h with
  | found hfile => exact .inl ⟨_, nearest?_here hfile, rfl⟩
  | up hfile hparent h ih => rwa [nearest?_up hfile hparent]
  | top hfile hparent => exact .inr ⟨nearest?_top hfile hparent, rfl⟩

theorem find_of_nearest {disk : Disk} {near : Path} (h : nearest? disk start = some near) :
    find disk start = (fun config => (config, near)) <$> loadIn disk near := by
  rw [find, h]

theorem find_of_none {disk : Disk} (h : nearest? disk start = none) : find disk start = .error (.noConfig start) := by
  rw [find, h]

theorem Search.eq_find {disk : Disk} {rounds : Nat} (h : Search disk start start rounds outcome) :
    outcome = find disk start := by
  obtain ⟨near, hnear, rfl⟩ | ⟨hnone, rfl⟩ := h.eq_nearest
  · rw [find_of_nearest hnear]
  · rw [find_of_none hnone]

/-- From any path the search comes to an end, and it has looked at no more than the beginnings of the path. The
longest beginning that has a configuration file decides alone what comes of it; if there is none, the search fails and
names the path. -/
theorem find_decided_by_nearest (disk : Disk) (start : Path) :
    (∀ front, (∃ above, start.Above above ∧ above.components = front) ↔
      front <+: start.components ∧ (start.isAbsolute = true → front ≠ [])) ∧
    (∃ rounds ≤ start.components.length + 1, Search disk start start rounds (find disk start)) ∧
    ∀ outcome, find disk start = outcome ↔
      (∃ folder, Nearest disk start folder ∧ Decided disk folder outcome) ∨
        (∀ folder, start.Above folder → disk.holds (fileIn folder) = false) ∧
          outcome = .error (.noConfig start) := by
  refine ⟨start.exists_above_iff, ?_, fun outcome => ⟨?_, ?_⟩⟩
  · obtain ⟨rounds, outcome, hrounds, hsearch⟩ := exists_search disk start start
    exact ⟨rounds, hrounds, hsearch.eq_find ▸ hsearch⟩
  · rintro rfl
    cases hfound : nearest? disk start with
    | some near =>
      rw [find_of_nearest hfound]
      exact .inl ⟨near, (nearest?_eq_some_iff disk start near).mp hfound, loadIn_decided disk near⟩
    | none => exact .inr ⟨(nearest?_eq_none_iff disk start).mp hfound, find_of_none hfound⟩
  · rintro (⟨near, hnear, hdecided⟩ | ⟨hnone, rfl⟩)
    · rw [hdecided.eq_loadIn, find_of_nearest ((nearest?_eq_some_iff disk start near).mpr hnear)]
    · exact find_of_none ((nearest?_eq_none_iff disk start).mpr hnone)

end Config

end Fieldwise
