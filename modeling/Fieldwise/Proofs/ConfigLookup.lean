import Mathlib.Data.List.Find
import Mathlib.Data.List.Induction
import Mathlib.Data.List.Infix
import Fieldwise.Config
import Fieldwise.Proofs.Walks

/-!
# Looking for a configuration

A folder can be written from the root or from the working directory. The folders above it are known by their
names, so the nearest one with a configuration is the same for both spellings, as long as it is not above the
working directory, and the configuration in it is read and checked alike. There is one exception: from the working
directory itself the search comes to the empty path, and the empty path leads nowhere.
-/

namespace Fieldwise

variable {path : Path} {place : List String}

/-! ## Names of the folders above -/

namespace Path

/-- The parts of a path that lead somewhere. -/
def names (path : Path) : List String := path.parts.filter fun part => !isIdle part

/-- Only parts that lead nowhere are left out at the end. -/
theorem filter_trimmed (parts : List String) :
    (trimmed parts).filter (fun part => !isIdle part) = parts.filter fun part => !isIdle part := by
  induction parts using List.reverseRecOn with
  | nil => rfl
  | append_singleton front last ih =>
    by_cases hlast : isIdle last = true
    · have htrimmed : trimmed (front ++ [last]) = trimmed front := by simp [trimmed, hlast]
      rw [htrimmed, ih]
      simp [hlast]
    · have htrimmed : trimmed (front ++ [last]) = front ++ [last] := by simp [trimmed, hlast]
      rw [htrimmed]

/-- What is left ends with a part that leads somewhere. -/
theorem isIdle_of_trimmed {parts front : List String} {last : String} (h : trimmed parts = front ++ [last]) :
    isIdle last = false := by
  have hreverse : parts.reverse.dropWhile isIdle = last :: front.reverse := by
    rw [trimmed, List.reverse_eq_iff] at h
    simpa using h
  have hhead := List.head?_dropWhile_not isIdle parts.reverse
  rw [hreverse] at hhead
  simpa using hhead

theorem trimmed_subset (parts : List String) : trimmed parts ⊆ parts := by
  intro part hpart
  have hmem : part ∈ parts.reverse.dropWhile isIdle := by simpa [trimmed] using hpart
  simpa using (List.dropWhile_sublist isIdle).subset hmem

/-- A parent has all names but the last one; above a lone dot is the empty path. -/
theorem parent?_eq_some {parent : Path} (h : path.parent? = some parent) :
    (path.start = .dot ∧ path.names = [] ∧ parent = empty) ∨
      parent.start = path.start ∧ parent.parts ⊆ path.parts ∧ ∃ last, path.names = parent.names ++ [last] := by
  unfold parent? at h
  split at h
  · rename_i hparts
    split at h
    · rename_i hstart
      refine .inl ⟨hstart, ?_, (Option.some.inj h).symm⟩
      rw [names, ← filter_trimmed, hparts]
      rfl
    · contradiction
  · rename_i hne
    obtain rfl := Option.some.inj h
    obtain ⟨front, last, hfront⟩ := (List.eq_nil_or_concat (trimmed path.parts)).resolve_left hne
    rw [List.concat_eq_append] at hfront
    refine .inr ⟨rfl, ?_, last, ?_⟩
    · refine fun part hpart => trimmed_subset _ ?_
      exact List.dropLast_subset _ (trimmed_subset _ hpart)
    · rw [names, names, filter_trimmed, ← filter_trimmed path.parts, hfront, List.dropLast_concat, List.filter_append]
      simp [isIdle_of_trimmed hfront]

/-- Nothing is above a path without names that does not start at a dot. -/
theorem parent?_eq_none (h : path.parent? = none) : path.start ≠ .dot ∧ path.names = [] := by
  unfold parent? at h
  split at h
  · rename_i hparts
    split at h
    · contradiction
    · rename_i hstart
      refine ⟨hstart, ?_⟩
      rw [names, ← filter_trimmed, hparts]
      rfl
  · contradiction

theorem ancestors_of_parent? {parent : Path} (h : path.parent? = some parent) :
    path.ancestors = path :: parent.ancestors := by
  rw [ancestors]
  split
  · rename_i other hother
    rw [h] at hother
    rw [Option.some.inj hother]
  · rename_i hnone
    rw [h] at hnone
    contradiction

theorem ancestors_of_none (h : path.parent? = none) : path.ancestors = [path] := by
  rw [ancestors]
  split
  · rename_i parent hparent
    rw [h] at hparent
    contradiction
  · rfl

/-- A path and the paths above it have fewer and fewer of its names. A path that starts at a dot ends with the dot and
the empty path. -/
theorem map_names_ancestors (path : Path) :
    path.ancestors.map names = path.names.inits.reverse ++ if path.start = .dot then [[]] else [] := by
  cases h : path.parent? with
  | none =>
    obtain ⟨hstart, hnames⟩ := parent?_eq_none h
    simp [ancestors_of_none h, hnames, hstart]
  | some parent =>
    have hweight := weight_parent? h
    have hparent := map_names_ancestors parent
    rw [ancestors_of_parent? h, List.map_cons, hparent]
    rcases parent?_eq_some h with ⟨hstart, hnames, rfl⟩ | ⟨hstart, -, last, hnames⟩
    · have hempty : empty.names = [] := rfl
      rw [hnames, hstart, hempty]
      rfl
    · rw [hnames, hstart, List.inits_append]
      simp
termination_by path.weight

/-- What is above a path starts where it starts, and has no other parts. -/
theorem mem_ancestors {path above : Path} (h : above ∈ path.ancestors) :
    above.isAbsolute = path.isAbsolute ∧ above.parts ⊆ path.parts := by
  cases hparent : path.parent? with
  | none =>
    rw [ancestors_of_none hparent, List.mem_singleton] at h
    subst h
    exact ⟨rfl, List.Subset.refl _⟩
  | some parent =>
    have hweight := weight_parent? hparent
    rw [ancestors_of_parent? hparent] at h
    rcases List.mem_cons.mp h with rfl | h
    · exact ⟨rfl, List.Subset.refl _⟩
    · obtain ⟨habsolute, hparts⟩ := mem_ancestors h
      rcases parent?_eq_some hparent with ⟨hstart, -, rfl⟩ | ⟨hstart, hsubset, -⟩
      · refine ⟨by rw [habsolute, isAbsolute, isAbsolute, hstart]; rfl, fun part hpart => ?_⟩
        simpa [empty] using hparts hpart
      · exact ⟨by rw [habsolute, isAbsolute, isAbsolute, hstart], fun part hpart => hsubset (hparts hpart)⟩
termination_by path.weight

/-- The parts that are walked through from a folder; the empty path asks for the folder. -/
def steps (path : Path) : List String :=
  match path.writtenParts with
  | [] => [""]
  | parts => parts

end Path

/-- The beginnings of two lists together are the first list with the beginnings of the second, and shorter ones. -/
theorem inits_reverse_append (front back : List String) :
    ∃ shorter, (front ++ back).inits.reverse = back.inits.reverse.map (front ++ ·) ++ shorter ∧
      ∀ names ∈ shorter, ¬front <+: names := by
  induction back using List.reverseRecOn with
  | nil =>
    rcases List.eq_nil_or_concat front with rfl | ⟨before, last, rfl⟩
    · exact ⟨[], rfl, by simp⟩
    · rw [List.concat_eq_append]
      refine ⟨before.inits.reverse, by simp [List.inits_append], fun names hnames hprefix => ?_⟩
      have hshort := ((List.mem_inits _ _).mp (List.mem_reverse.mp hnames)).length_le
      have hlong := hprefix.length_le
      rw [List.length_append, List.length_singleton] at hlong
      omega
  | append_singleton back last ih =>
    obtain ⟨shorter, hshorter, hnot⟩ := ih
    refine ⟨shorter, ?_, hnot⟩
    rw [← List.append_assoc, List.inits_append (front ++ back), List.inits_append back, List.reverse_append, hshorter]
    simp

/-! ## Where a path leads from a folder -/

namespace Disk

/-- The working directory is a folder, and the way to it goes through names. -/
structure Settled (disk : Disk) : Prop where
  /-- It is a folder. -/
  folder : disk.root.kindAt disk.workdir = some .folder
  /-- The way goes through names. -/
  names : ∀ name ∈ disk.workdir, Path.isName name = true

theorem follow_idle {disk : Disk} (h : disk.root.kindAt place = some .folder) {part : String}
    (hpart : Path.isIdle part = true) (rest : List String) :
    disk.follow place (part :: rest) = disk.follow place rest := by
  obtain ⟨entries, hentries⟩ := Node.kindAt_eq_folder.mp h
  rw [follow, hentries]
  simp only [hpart, if_true]

/-- An idle part makes no difference where something follows, since that asks for a folder as well. -/
theorem follow_idle_before (disk : Disk) (place : List String) {part : String} (hpart : Path.isIdle part = true)
    {rest : List String} (hrest : rest ≠ []) : disk.follow place (part :: rest) = disk.follow place rest := by
  obtain ⟨next, more, rfl⟩ := List.exists_cons_of_ne_nil hrest
  rw [follow]
  cases hnode : disk.root.at? place with
  | none =>
    rw [follow]
    simp only [hnode]
  | some node =>
    cases node with
    | file content =>
      rw [follow]
      simp only [hnode]
    | folder entries => simp only [hpart, if_true]

theorem kindAt_of_append {node : Node} {rest : List String} (h : node.kindAt (place ++ rest) = some .folder) :
    node.kindAt place = some .folder := by
  obtain ⟨entries, hentries⟩ := Node.kindAt_eq_folder.mp h
  rw [Node.at?_append] at hentries
  obtain ⟨found, hfound, hrest⟩ := Option.bind_eq_some_iff.mp hentries
  cases rest with
  | nil =>
    cases hrest
    exact Node.kindAt_eq_folder.mpr ⟨entries, hfound⟩
  | cons name rest =>
    cases found with
    | file content => simp [Node.at?_file_cons] at hrest
    | folder own => exact Node.kindAt_eq_folder.mpr ⟨own, hfound⟩

/-- A path behind a folder is walked from where the folder is, except for the empty path behind the empty path. -/
theorem place_join {disk : Disk} (hwork : disk.root.kindAt disk.workdir = some .folder) {base : Path}
    (hpath : path.isAbsolute = false) (hne : base ≠ .empty ∨ path ≠ .empty) :
    disk.place (base.join path) =
      disk.follow (disk.startOf base) base.parts >>= fun folder => disk.follow folder path.steps := by
  by_cases hbase : base = .empty
  · subst hbase
    have hne' : path ≠ .empty := hne.resolve_left (by simp)
    have hjoin : Path.empty.join path = path := by simp [Path.join, hpath]
    have hstart : disk.startOf path = disk.workdir := by simp [startOf, hpath]
    have hhere : disk.follow (disk.startOf .empty) Path.empty.parts = .ok disk.workdir := rfl
    rw [hjoin, place, if_neg hne', hstart, hhere]
    change _ = disk.follow disk.workdir path.steps
    obtain ⟨start, parts⟩ := path
    cases start with
    | root => simp [Path.isAbsolute] at hpath
    | dot => exact (follow_idle hwork rfl parts).symm
    | plain =>
      obtain ⟨first, rest, rfl⟩ := List.exists_cons_of_ne_nil (l := parts) (by rintro rfl; exact hne' rfl)
      rfl
  · obtain ⟨start, parts⟩ := base
    cases hadded : path.writtenParts with
    | nil =>
      have hsteps : path.steps = [""] := by rw [Path.steps, hadded]
      rw [hsteps, ← follow_append]
      by_cases hslash : (Path.mk start parts).endsInSlash = true
      · have hjoin : (Path.mk start parts).join path = ⟨start, parts⟩ := by
          simp [Path.join, hpath, hbase, hadded, hslash]
        have hstart : ∀ parts', disk.startOf ⟨start, parts'⟩ = disk.startOf ⟨start, parts⟩ := fun _ => rfl
        rw [hjoin, place, if_neg hbase]
        rcases List.eq_nil_or_concat parts with rfl | ⟨front, last, rfl⟩
        · have hroot : start = .root := by simpa [Path.endsInSlash] using hslash
          subst hroot
          have hfolder : disk.root.kindAt [] = some .folder := kindAt_of_append hwork
          exact (follow_idle hfolder rfl []).symm
        · rw [List.concat_eq_append] at hslash ⊢
          obtain rfl : last = "" := by simpa [Path.endsInSlash] using hslash
          -- A second slash at the end asks for the same folder.
          rw [List.append_assoc, follow_append, follow_append]
          congr 1
          funext reached
          exact (follow_idle_before disk reached rfl (by simp)).symm
      · have hjoin : (Path.mk start parts).join path = ⟨start, parts ++ [""]⟩ := by
          simp [Path.join, hpath, hbase, hadded, hslash]
        rw [hjoin, place, if_neg (by simp [Path.empty])]
        rfl
    | cons first rest =>
      have hsteps : path.steps = first :: rest := by rw [Path.steps, hadded]
      have hjoin : (Path.mk start parts).join path =
          ⟨start, (if parts.getLast? = some "" then parts.dropLast else parts) ++ first :: rest⟩ := by
        simp [Path.join, hpath, hbase, hadded]
      rw [hjoin, hsteps, place, if_neg (by simp [Path.empty]), ← follow_append]
      change disk.follow (disk.startOf ⟨start, parts⟩) _ = _
      split
      · rename_i hlast
        obtain ⟨front, rfl⟩ := List.getLast?_eq_some_iff.mp hlast
        rw [List.dropLast_concat, List.append_assoc, follow_append, follow_append]
        congr 1
        funext reached
        exact (follow_idle_before disk reached rfl (by simp)).symm
      · rfl

/-- A way that never goes back comes to the names in it. -/
theorem follow_eq_ok_names {disk : Disk} {parts reached : List String} (hup : ".." ∉ parts)
    (h : disk.follow place parts = .ok reached) : reached = place ++ parts.filter fun part => !Path.isIdle part := by
  induction parts generalizing place with
  | nil =>
    cases h
    simp
  | cons part rest ih =>
    obtain ⟨hpart, hrest⟩ := not_or.mp (mt List.mem_cons.mpr hup)
    rw [follow] at h
    split at h
    · contradiction
    · contradiction
    · split at h
      · rename_i hidle
        rw [ih hrest h]
        simp [hidle]
      · rename_i hidle
        rw [if_neg (by simpa using (Ne.symm hpart))] at h
        split at h
        · contradiction
        · rw [ih hrest h]
          simp [hidle]

/-- A way that never goes back reaches a folder that is there. -/
theorem follow_of_folder {disk : Disk} {parts : List String} (hup : ".." ∉ parts)
    (h : disk.root.kindAt (place ++ parts.filter fun part => !Path.isIdle part) = some .folder) :
    disk.follow place parts = .ok (place ++ parts.filter fun part => !Path.isIdle part) := by
  induction parts generalizing place with
  | nil => simp [follow]
  | cons part rest ih =>
    obtain ⟨hpart, hrest⟩ := not_or.mp (mt List.mem_cons.mpr hup)
    have hplace := kindAt_of_append h
    by_cases hidle : Path.isIdle part = true
    · simp only [List.filter_cons, hidle, Bool.not_true, Bool.false_eq_true, if_false] at h ⊢
      rw [follow_idle hplace hidle, ih hrest h]
    · simp only [List.filter_cons, hidle, Bool.not_false, if_true] at h ⊢
      rw [List.append_cons] at h
      obtain ⟨entries, hentries⟩ := Node.kindAt_eq_folder.mp hplace
      obtain ⟨child, hchild⟩ := Node.kindAt_eq_folder.mp (kindAt_of_append h)
      rw [Node.at?_entry hentries] at hchild
      have hback : (part == "..") = false := by simpa using (Ne.symm hpart)
      rw [follow, hentries]
      simp only [hidle, Bool.false_eq_true, if_false, hback, hchild]
      rw [ih hrest h]
      simp

end Disk

namespace Config

open Disk

/-- Whether a folder has a configuration file depends on its names alone. -/
theorem holds_fileIn {disk : Disk} (hwork : disk.root.kindAt disk.workdir = some .folder) {folder : Path}
    (hup : ".." ∉ folder.parts) :
    disk.holds (fileIn folder) = (disk.root.at? (disk.startOf folder ++ folder.names ++ [fileName])).isSome := by
  have hplace : disk.place (fileIn folder) = disk.follow (disk.startOf folder) folder.parts >>= fun here =>
      disk.follow here [fileName] :=
    place_join hwork rfl (.inr (by simp [Path.empty]))
  have hname : ".." ∉ [fileName] := by decide
  have hnames : [fileName].filter (fun part => !Path.isIdle part) = [fileName] := by decide
  rw [Bool.eq_iff_iff]
  constructor
  · intro hholds
    cases hnode : disk.node (fileIn folder) with
    | error fault => simp [Disk.holds, hnode, Except.isOk, Except.toBool] at hholds
    | ok node =>
      obtain ⟨place, hreached, hthere⟩ := node_eq_ok.mp hnode
      obtain ⟨here, hhere, hlast⟩ := bind_eq_ok.mp (hplace.symm.trans hreached)
      rw [follow_eq_ok_names hup hhere] at hlast
      rw [follow_eq_ok_names hname hlast, hnames] at hthere
      rw [Path.names, hthere]
      rfl
  · intro hsome
    obtain ⟨node, hthere⟩ := Option.isSome_iff_exists.mp hsome
    have hfound := hthere
    rw [Node.at?_append] at hfound
    obtain ⟨found, hhere, hentry⟩ := Option.bind_eq_some_iff.mp hfound
    cases found with
    | file content => simp [Node.at?_file_cons] at hentry
    | folder entries =>
      have hfollow := follow_of_folder hup (Node.kindAt_eq_folder.mpr ⟨entries, hhere⟩)
      have hlast : disk.follow (disk.startOf folder ++ folder.names) [fileName] =
          .ok (disk.startOf folder ++ folder.names ++ [fileName]) := by
        have hnamed : Node.named? fileName entries = some node := (Node.at?_entry hhere fileName).symm.trans hthere
        have hidle : Path.isIdle fileName = false := by decide
        have hback : (fileName == "..") = false := by decide
        simp [follow, hhere, hidle, hback, hnamed]
      have hnode : disk.node (fileIn folder) = .ok node :=
        node_eq_ok.mpr ⟨_, hplace.trans (bind_eq_ok.mpr ⟨_, hfollow, hlast⟩), hthere⟩
      simp [Disk.holds, hnode, Except.isOk, Except.toBool]

/-- Where the nearest folder with a configuration is: at the first names, from longer to shorter, behind which there
is a configuration file. -/
theorem map_names_nearest? {disk : Disk} (hwork : disk.root.kindAt disk.workdir = some .folder) {start : Path}
    (hup : ".." ∉ start.parts) :
    (nearest? disk start).map Path.names =
      (start.names.inits.reverse ++ if start.start = Path.Start.dot then [[]] else []).find? fun names =>
        (disk.root.at? (disk.startOf start ++ names ++ [fileName])).isSome := by
  rw [nearest?, ← Path.map_names_ancestors, List.find?_map]
  congr 1
  refine List.find?_congr fun folder hfolder => ?_
  obtain ⟨habsolute, hparts⟩ := Path.mem_ancestors hfolder
  have hsame : disk.startOf folder = disk.startOf start := by rw [startOf, startOf, habsolute]
  rw [holds_fileIn hwork fun hback => hup (hparts hback), hsame]
  rfl

end Config

/-! ## Both spellings -/

/-- Two failures of the same kind, about whatever paths. -/
def Failure.alike : Failure → Failure → Bool
  | .noConfig _, .noConfig _ => true
  | .files fault, .files other => fault == other
  | .badConfig, .badConfig => true
  | .badPath _, .badPath _ => true
  | .unparsable _ _ _, .unparsable _ _ _ => true
  | .failed _, .failed _ => true
  | _, _ => false

theorem Failure.alike_self (failure : Failure) : failure.alike failure = true := by
  cases failure <;> simp [alike]

namespace Config

open Disk

/-- Two searches come to the same: the same configuration, or failures of the same kind. -/
def Agree : Except Failure (Config × Path) → Except Failure (Config × Path) → Prop
  | .ok found, .ok other => found.1 = other.1
  | .error failure, .error other => failure.alike other = true
  | _, _ => False

/-- A path from the root has the names of the working directory before its own. -/
theorem names_workPath_join {disk : Disk} (hnames : ∀ name ∈ disk.workdir, Path.isName name = true) {start : Path}
    (hstart : start.isAbsolute = false) (hup : ".." ∉ start.parts) :
    (disk.workPath.join start).start = .root ∧ ".." ∉ (disk.workPath.join start).parts ∧
      (disk.workPath.join start).names = disk.workdir ++ start.names := by
  have hwork : disk.workdir.filter (fun name => !Path.isIdle name) = disk.workdir := by
    refine List.filter_eq_self.mpr fun name hname => ?_
    exact (Bool.and_eq_true_iff.mp (hnames name hname)).1
  have hback : ".." ∉ disk.workdir := fun hmem => by simpa [Path.isName] using hnames _ hmem
  have hlast : disk.workPath.parts.getLast? ≠ some "" := fun hlast => by
    simpa [Path.isName, Path.isIdle] using hnames "" (List.mem_of_getLast? hlast)
  obtain ⟨from_, parts⟩ := start
  rw [Path.join, hstart, if_neg (by simp), if_neg (by simp [workPath, Path.empty]), if_neg hlast]
  cases from_ with
  | root => simp [Path.isAbsolute] at hstart
  | dot =>
    refine ⟨rfl, by simpa [Path.writtenParts, workPath, hback] using hup, ?_⟩
    have hdot : Path.isIdle "." = true := rfl
    simp [Path.names, Path.writtenParts, workPath, hwork, hdot]
  | plain =>
    cases parts with
    | nil =>
      simp only [Path.writtenParts]
      split
      · exact ⟨rfl, hback, by simpa [Path.names, workPath] using hwork⟩
      · refine ⟨rfl, by simpa [workPath] using hback, ?_⟩
        have hslash : Path.isIdle "" = true := rfl
        simp [Path.names, workPath, hwork, hslash]
    | cons first rest =>
      refine ⟨rfl, by simpa [Path.writtenParts, workPath, hback] using hup, ?_⟩
      simp [Path.names, Path.writtenParts, workPath, hwork]

/-- The way to a folder with a configuration file is open. -/
theorem follow_of_holds {disk : Disk} (hwork : disk.root.kindAt disk.workdir = some .folder) {folder : Path}
    (hup : ".." ∉ folder.parts) (h : disk.holds (fileIn folder) = true) :
    disk.follow (disk.startOf folder) folder.parts = .ok (disk.startOf folder ++ folder.names) := by
  cases hnode : disk.node (fileIn folder) with
  | error fault => simp [Disk.holds, hnode, Except.isOk, Except.toBool] at h
  | ok node =>
    obtain ⟨place, hreached, -⟩ := node_eq_ok.mp hnode
    rw [fileIn, place_join hwork rfl (.inr (by simp [Path.empty]))] at hreached
    obtain ⟨here, hhere, -⟩ := bind_eq_ok.mp hreached
    rw [hhere, follow_eq_ok_names hup hhere, Path.names]

theorem nearest?_eq_some {disk : Disk} (hwork : disk.root.kindAt disk.workdir = some .folder) {start near : Path}
    (hup : ".." ∉ start.parts) (h : nearest? disk start = some near) :
    disk.startOf near = disk.startOf start ∧
      disk.follow (disk.startOf start) near.parts = .ok (disk.startOf start ++ near.names) := by
  obtain ⟨habsolute, hparts⟩ := Path.mem_ancestors (List.mem_of_find?_eq_some h)
  have hsame : disk.startOf near = disk.startOf start := by rw [startOf, startOf, habsolute]
  have hholds : disk.holds (fileIn near) = true := List.find?_some (p := fun folder => disk.holds (fileIn folder)) h
  have hfollow := follow_of_holds hwork (fun hback => hup (hparts hback)) hholds
  rw [hsame] at hfollow
  exact ⟨hsame, hfollow⟩

/-- From the root and from the working directory, the nearest folder is the same. -/
theorem nearest?_workPath_join {disk : Disk} (hdisk : disk.Settled) {start folder : Path}
    (hstart : start.isAbsolute = false) (hup : ".." ∉ start.parts)
    (hfolder : nearest? disk (disk.workPath.join start) = some folder) (hbelow : disk.workdir <+: folder.names) :
    ∃ near, nearest? disk start = some near ∧ disk.workdir ++ near.names = folder.names := by
  obtain ⟨hroot, hupRoot, hnames⟩ := names_workPath_join hdisk.names hstart hup
  obtain ⟨shorter, hshorter, hnot⟩ := inits_reverse_append disk.workdir start.names
  have habsolute := map_names_nearest? hdisk.folder hupRoot
  rw [hfolder, hnames, hshorter, List.append_assoc, List.find?_append, List.find?_map] at habsolute
  have hrelative := map_names_nearest? hdisk.folder hup
  have hstartOf : disk.startOf start = disk.workdir := by simp [startOf, hstart]
  have hrootOf : disk.startOf (disk.workPath.join start) = [] := by simp [startOf, Path.isAbsolute, hroot]
  rw [hstartOf, List.find?_append] at hrelative
  rw [hrootOf, hroot] at habsolute
  simp only [List.nil_append, Function.comp_def] at habsolute
  cases hfound : start.names.inits.reverse.find? fun names =>
      (disk.root.at? (disk.workdir ++ names ++ [fileName])).isSome with
  | none =>
    rw [hfound] at habsolute
    have hmem := List.mem_of_find?_eq_some (habsolute.symm.trans rfl)
    exact absurd hbelow (hnot _ (by simpa using hmem))
  | some names =>
    rw [hfound] at habsolute hrelative
    obtain ⟨near, hnear, hname⟩ := Option.map_eq_some_iff.mp hrelative
    exact ⟨near, hnear, by rw [hname]; exact (Option.some.inj habsolute).symm⟩

/-- Behind a folder, whichever way it is written, the same is found. The empty path alone stays empty behind the empty
path, where it leads nowhere. -/
theorem node_join {disk : Disk} (hwork : disk.root.kindAt disk.workdir = some .folder) {near folder : Path}
    {here : List String} (hnear : disk.follow (disk.startOf near) near.parts = .ok here)
    (hfolder : disk.follow (disk.startOf folder) folder.parts = .ok here) (hne : folder ≠ .empty)
    (hpath : near ≠ .empty ∨ path ≠ .empty) : disk.node (near.join path) = disk.node (folder.join path) := by
  by_cases habsolute : path.isAbsolute = true
  · simp [Path.join, habsolute]
  · have hrelative : path.isAbsolute = false := by simpa using habsolute
    rw [node, node, place_join hwork hrelative hpath, place_join hwork hrelative (.inl hne), hnear, hfolder]

/-- A configuration is valid if all that it needs is there. -/
theorem validate_eq_ok {disk : Disk} {folder : Path} {config : Config} :
    config.validate disk folder = .ok () ↔ ∀ path ∈ config.neededPaths, disk.holds (folder.join path) = true := by
  unfold validate
  split
  · rename_i path hpath
    have hmissing := List.find?_some hpath
    refine iff_of_false nofun fun hall => ?_
    simp [hall path (List.mem_of_find?_eq_some hpath)] at hmissing
  · rename_i hnone
    exact iff_of_true rfl fun path hpath => by simpa using List.find?_eq_none.mp hnone path hpath

/-- If it is not valid, a needed path that leads nowhere is named. -/
theorem validate_eq_error {disk : Disk} {folder : Path} {config : Config} {failure : Failure}
    (h : config.validate disk folder = .error failure) :
    ∃ path ∈ config.neededPaths, disk.holds (folder.join path) = false ∧ failure = .badPath path := by
  unfold validate at h
  split at h
  · rename_i path hpath
    refine ⟨path, List.mem_of_find?_eq_some hpath, ?_, (Except.error.inj h).symm⟩
    simpa using List.find?_some hpath
  · contradiction

section Search

variable {disk : Disk} {start near : Path} {config : Config} {failure : Failure}

theorem find_of_unread (hnear : nearest? disk start = some near) (h : load disk (fileIn near) = .error failure) :
    find disk start = .error failure := by
  rw [find, hnear]
  simp only [loadIn, h]
  rfl

theorem find_of_valid (hnear : nearest? disk start = some near) (hload : load disk (fileIn near) = .ok config)
    (h : config.validate disk near = .ok ()) : find disk start = .ok (config, near) := by
  have hloaded : loadIn disk near = .ok config := bind_eq_ok.mpr ⟨config, hload, bind_eq_ok.mpr ⟨(), h, rfl⟩⟩
  rw [find, hnear]
  simp only [hloaded]
  rfl

theorem find_of_invalid (hnear : nearest? disk start = some near) (hload : load disk (fileIn near) = .ok config)
    (h : config.validate disk near = .error failure) : find disk start = .error failure := by
  have hloaded : loadIn disk near = .error failure :=
    bind_eq_error.mpr (.inr ⟨config, hload, bind_eq_error.mpr (.inl h)⟩)
  rw [find, hnear]
  simp only [hloaded]
  rfl

end Search

section Spellings

variable {disk : Disk} (hwork : disk.root.kindAt disk.workdir = some .folder) {near folder : Path} {here : List String}
  (hnear : disk.follow (disk.startOf near) near.parts = .ok here)
  (hfolder : disk.follow (disk.startOf folder) folder.parts = .ok here) (hne : folder ≠ .empty)
include hwork hnear hfolder hne

theorem load_fileIn : load disk (fileIn near) = load disk (fileIn folder) := by
  have hnode : disk.node (fileIn near) = disk.node (fileIn folder) :=
    node_join hwork hnear hfolder hne (.inr (by simp [Path.empty]))
  simp only [load, readText, hnode]

/-- With the empty path a folder asks for the empty path in vain. -/
theorem validate_near (config : Config) :
    config.validate disk near = .ok () ↔
      config.validate disk folder = .ok () ∧ ¬(near = .empty ∧ .empty ∈ config.neededPaths) := by
  have hsame : ∀ path, near ≠ .empty ∨ path ≠ .empty →
      disk.holds (near.join path) = disk.holds (folder.join path) := fun path hpath => by
    rw [Disk.holds, Disk.holds, node_join hwork hnear hfolder hne hpath]
  have hempty : disk.holds (Path.empty.join .empty) = false := rfl
  rw [validate_eq_ok, validate_eq_ok]
  constructor
  · intro hall
    have hneeds : ¬(near = .empty ∧ .empty ∈ config.neededPaths) := fun ⟨hnear', hmem⟩ => by
      have hholds := hall .empty hmem
      rw [hnear', hempty] at hholds
      contradiction
    refine ⟨fun path hpath => ?_, hneeds⟩
    rw [← hsame path (not_and_or.mp fun ⟨hnear', hpath'⟩ => hneeds ⟨hnear', hpath' ▸ hpath⟩)]
    exact hall path hpath
  · rintro ⟨hall, hneeds⟩ path hpath
    rw [hsame path (not_and_or.mp fun ⟨hnear', hpath'⟩ => hneeds ⟨hnear', hpath' ▸ hpath⟩)]
    exact hall path hpath

/-- If nothing else is missing, it is the empty path that is reported. -/
theorem validate_empty {config : Config} (h : config.validate disk folder = .ok ()) (hempty : near = .empty)
    (hneeds : .empty ∈ config.neededPaths) : config.validate disk near = .error (.badPath .empty) := by
  cases hvalid : config.validate disk near with
  | ok done =>
    have hholds := validate_eq_ok.mp hvalid .empty hneeds
    rw [hempty] at hholds
    contradiction
  | error failure =>
    obtain ⟨path, hpath, hmissing, rfl⟩ := validate_eq_error hvalid
    by_cases hpath' : path = .empty
    · rw [hpath']
    · rw [Disk.holds, node_join hwork hnear hfolder hne (.inr hpath'), ← Disk.holds,
        validate_eq_ok.mp h path hpath] at hmissing
      contradiction

end Spellings

/-- What two spellings of the nearest folder have in common. The search from the working directory comes to the same
as the search from the root, unless it comes to the empty path and the configuration needs the empty path. Then it
reports the empty path, which the search from the root finds to be the folder itself. -/
theorem find_workPath_join {disk : Disk} (hdisk : disk.Settled) {start : Path} (hstart : start.isAbsolute = false)
    (hup : ".." ∉ start.parts) {folder : Path} (hfolder : nearest? disk (disk.workPath.join start) = some folder)
    {here : List String} (hplace : disk.place folder = .ok here) (hbelow : disk.workdir <+: here) :
    ∃ near, nearest? disk start = some near ∧ disk.follow (disk.startOf near) near.parts = .ok here ∧
      (Agree (find disk start) (find disk (disk.workPath.join start)) ↔
        ¬(near = .empty ∧ ∃ config, find disk (disk.workPath.join start) = .ok (config, folder) ∧
          .empty ∈ config.neededPaths)) ∧
      ∀ config, near = .empty → find disk (disk.workPath.join start) = .ok (config, folder) →
        .empty ∈ config.neededPaths → find disk start = .error (.badPath .empty) := by
  obtain ⟨hroot, hupRoot, -⟩ := names_workPath_join hdisk.names hstart hup
  obtain ⟨hstartOf, hreached⟩ := nearest?_eq_some hdisk.folder hupRoot hfolder
  have hrootOf : disk.startOf (disk.workPath.join start) = [] := by simp [startOf, Path.isAbsolute, hroot]
  have hne : folder ≠ .empty := by
    rintro rfl
    simp [place] at hplace
  rw [place, if_neg hne, hstartOf, hreached, hrootOf, List.nil_append] at hplace
  obtain rfl := Except.ok.inj hplace
  obtain ⟨near, hnear, hnames⟩ := nearest?_workPath_join hdisk hstart hup hfolder hbelow
  obtain ⟨hnearOf, hnearReached⟩ := nearest?_eq_some hdisk.folder hup hnear
  have hstartOf' : disk.startOf start = disk.workdir := by simp [startOf, hstart]
  rw [hstartOf', hnames, ← hstartOf', ← hnearOf] at hnearReached
  rw [hrootOf, List.nil_append, ← hrootOf, ← hstartOf] at hreached
  refine ⟨near, hnear, hnearReached, ?_⟩
  have hload := load_fileIn hdisk.folder hnearReached hreached hne
  cases hloaded : load disk (fileIn folder) with
  | error failure =>
    rw [find_of_unread hnear (hload.trans hloaded), find_of_unread hfolder hloaded]
    exact ⟨iff_of_true failure.alike_self (by simp), by simp⟩
  | ok config =>
    rw [hloaded] at hload
    have hnearValid := validate_near hdisk.folder hnearReached hreached hne config
    cases hvalid : config.validate disk folder with
    | error failure =>
      -- Neither search gets through, and both name a path.
      obtain ⟨path, -, -, rfl⟩ := validate_eq_error hvalid
      rw [find_of_invalid hfolder hloaded hvalid]
      refine ⟨iff_of_true ?_ (by simp), by simp⟩
      cases hother : config.validate disk near with
      | ok done => cases hvalid.symm.trans (hnearValid.mp hother).1
      | error failure =>
        obtain ⟨other, -, -, rfl⟩ := validate_eq_error hother
        rw [find_of_invalid hnear hload hother]
        rfl
    | ok done =>
      have hfind := find_of_valid hfolder hloaded hvalid
      rw [hfind]
      by_cases hempty : near = .empty ∧ .empty ∈ config.neededPaths
      · have hmissing := validate_empty hdisk.folder hnearReached hreached hne hvalid hempty.1 hempty.2
        rw [find_of_invalid hnear hload hmissing]
        exact ⟨iff_of_false id fun h => h ⟨hempty.1, config, rfl, hempty.2⟩, fun _ _ _ _ => rfl⟩
      · rw [find_of_valid hnear hload (hnearValid.mpr ⟨hvalid, hempty⟩)]
        refine ⟨iff_of_true rfl ?_, ?_⟩
        · rintro ⟨hnear', _, hfound, hneeds⟩
          cases hfound
          exact hempty ⟨hnear', hneeds⟩
        · rintro _ hnear' hfound hneeds
          cases hfound
          exact absurd ⟨hnear', hneeds⟩ hempty

/-- A project in the working directory, with its output beside its configuration file. -/
def homeDisk : Disk where
  root := .folder [("home", .folder [
    (fileName, .file "version = \"1.0\"\n[source]\npaths = [\"src/\"]\n[output]\npath = \"out.rs\"\n".toUTF8),
    ("src", .folder [])])]
  workdir := ["home"]

/-- What its configuration file says. -/
def homeConfig : Config := ⟨"1.0", [⟨.plain, ["src", ""]⟩], some ⟨.plain, ["out.rs"]⟩⟩

theorem nearest?_homeDisk : nearest? homeDisk (homeDisk.workPath.join ⟨.plain, ["src"]⟩) = some ⟨.root, ["home"]⟩ := by
  have hjoin : homeDisk.workPath.join ⟨.plain, ["src"]⟩ = ⟨.root, ["home", "src"]⟩ := by decide
  have hsrc : (Path.mk .root ["home", "src"]).parent? = some ⟨.root, ["home"]⟩ := by decide
  have hhome : (Path.mk .root ["home"]).parent? = some ⟨.root, []⟩ := by decide
  rw [hjoin, nearest?, Path.ancestors_of_parent? hsrc, Path.ancestors_of_parent? hhome]
  decide +kernel

/-- From its sources the project is found if they are written from the root, and not if they are written from the
working directory. -/
theorem find_homeDisk :
    homeDisk.Settled ∧ homeDisk.place ⟨.root, ["home"]⟩ = .ok homeDisk.workdir ∧
      find homeDisk (homeDisk.workPath.join ⟨.plain, ["src"]⟩) = .ok (homeConfig, ⟨.root, ["home"]⟩) ∧
      find homeDisk ⟨.plain, ["src"]⟩ = .error (.badPath .empty) ∧
      ¬Agree (find homeDisk ⟨.plain, ["src"]⟩) (find homeDisk (homeDisk.workPath.join ⟨.plain, ["src"]⟩)) := by
  have hdisk : homeDisk.Settled := ⟨rfl, by decide⟩
  have hplace : homeDisk.place ⟨.root, ["home"]⟩ = .ok homeDisk.workdir := rfl
  obtain ⟨near, hnear, -, hagree, hfails⟩ :=
    find_workPath_join hdisk rfl (by decide) nearest?_homeDisk hplace (List.prefix_refl _)
  have hempty : near = .empty := by
    have hsrc : (Path.mk .plain ["src"]).parent? = some .empty := by decide
    rw [nearest?, Path.ancestors_of_parent? hsrc, Path.ancestors_of_none (by decide)] at hnear
    have hfound : [Path.mk .plain ["src"], .empty].find? (fun folder => homeDisk.holds (fileIn folder)) =
        some .empty := by
      decide +kernel
    exact Option.some.inj (hnear.symm.trans hfound)
  have hload : load homeDisk (fileIn ⟨.root, ["home"]⟩) = .ok homeConfig := by
    have hread : (load homeDisk (fileIn ⟨.root, ["home"]⟩)).toOption.any (· = homeConfig) = true := by decide +kernel
    obtain ⟨config, hload, hconfig⟩ := exists_ok_of_any hread
    rw [hload, of_decide_eq_true hconfig]
  have hvalid : homeConfig.validate homeDisk ⟨.root, ["home"]⟩ = .ok () := validate_eq_ok.mpr (by decide +kernel)
  have hfind := find_of_valid nearest?_homeDisk hload hvalid
  have hneeds : .empty ∈ homeConfig.neededPaths := by decide
  exact ⟨hdisk, hplace, hfind, hfails homeConfig hempty hfind hneeds,
    fun h => hagree.mp h ⟨hempty, homeConfig, hfind, hneeds⟩⟩

end Config

end Fieldwise
