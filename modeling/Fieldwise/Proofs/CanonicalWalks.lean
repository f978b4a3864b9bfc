import Mathlib.Data.List.Forall2
import Mathlib.Data.List.Nodup
import Fieldwise.Proofs.PathOrder
import Fieldwise.Proofs.SurveyRuns

/-!
# The files that are scanned

Which files a scan visits, and in which order, is told by what is at each place of the disk, not by the order in
which folders keep their entries: the source files at each configured path and below it, in the order of their
paths, except for those in build output. The order inside a folder is that of its sorted entries, and each entry
brings paths that begin with its name.
-/

namespace Fieldwise

namespace Node

/-- What holds of files, and of folders if it holds of their entries, holds of all nodes. -/
@[elab_as_elim]
theorem entryInduction {motive : Node → Prop} (file : ∀ content, motive (.file content))
    (folder : ∀ entries, (∀ entry ∈ entries, motive entry.2) → motive (.folder entries)) : ∀ node, motive node
  | .file content => file content
  | .folder entries => folder entries fun entry hentry =>
    have : sizeOf entry.2 < 1 + sizeOf entries := by
      have hlt := List.sizeOf_lt_of_mem hentry
      obtain ⟨name, node⟩ := entry
      rw [Prod.mk.sizeOf_spec] at hlt
      dsimp only
      omega
    entryInduction file folder entry.2
termination_by node => sizeOf node

/-- Every folder of a tree has entries with different names, which lead somewhere and not back. -/
structure Tidy (node : Node) : Prop where
  /-- The names are different. -/
  nodup : ∀ place entries, node.at? place = some (folder entries) → (entries.map Prod.fst).Nodup
  /-- They are names. -/
  names : ∀ place entries, node.at? place = some (folder entries) → ∀ entry ∈ entries, Path.isName entry.1 = true

/-- An entry is known by its name, if no other entry has it. -/
theorem named?_eq_some {entries : List (String × Node)} (h : (entries.map Prod.fst).Nodup) {name : String}
    {node : Node} : named? name entries = some node ↔ (name, node) ∈ entries := by
  induction entries with
  | nil => simp [named?]
  | cons entry rest ih =>
    obtain ⟨first, found⟩ := entry
    rw [List.map_cons, List.nodup_cons] at h
    by_cases hfirst : first = name
    · subst hfirst
      have hrest : (first, node) ∉ rest := fun hmem => h.1 (List.mem_map.mpr ⟨_, hmem, rfl⟩)
      simp [named?, hrest, eq_comm]
    · simp [named?, hfirst, Ne.symm hfirst, ih h.2]

namespace Tidy

variable {entries : List (String × Node)} {name : String} {node : Node}

theorem named (h : (folder entries).Tidy) : named? name entries = some node ↔ (name, node) ∈ entries :=
  named?_eq_some (h.nodup [] entries rfl)

theorem entry (h : (folder entries).Tidy) (hmem : (name, node) ∈ entries) : node.Tidy := by
  have hthere : ∀ place, (folder entries).at? (name :: place) = node.at? place := fun place => by
    rw [at?_folder_cons, h.named.mpr hmem, Option.bind_some]
  exact ⟨fun place own hown => h.nodup (name :: place) own ((hthere place).trans hown),
    fun place own hown => h.names (name :: place) own ((hthere place).trans hown)⟩

theorem isName (h : (folder entries).Tidy) (hmem : (name, node) ∈ entries) : Path.isName name = true :=
  h.names [] entries rfl _ hmem

theorem file (content : ByteArray) : (Node.file content).Tidy := by
  refine ⟨fun place entries h => ?_, fun place entries h => ?_⟩ <;>
    cases place <;> simp [at?, child?] at h

/-- A folder is tidy if its own entries have different names and are tidy. -/
theorem of_entries (hnodup : (entries.map Prod.fst).Nodup) (hnames : ∀ entry ∈ entries, Path.isName entry.1 = true)
    (htidy : ∀ entry ∈ entries, entry.2.Tidy) : (folder entries).Tidy := by
  have hentry : ∀ name place own, (folder entries).at? (name :: place) = some (folder own) →
      ∃ child : Node, child.Tidy ∧ child.at? place = some (folder own) := by
    intro name place own hown
    rw [at?_folder_cons] at hown
    obtain ⟨child, hchild, hown⟩ := Option.bind_eq_some_iff.mp hown
    exact ⟨child, htidy _ ((named?_eq_some hnodup).mp hchild), hown⟩
  constructor
  · intro place own hown
    cases place with
    | nil =>
      cases hown
      exact hnodup
    | cons name place =>
      obtain ⟨child, hchild, hown⟩ := hentry name place own hown
      exact hchild.nodup place own hown
  · intro place own hown
    cases place with
    | nil =>
      cases hown
      exact hnames
    | cons name place =>
      obtain ⟨child, hchild, hown⟩ := hentry name place own hown
      exact hchild.names place own hown

theorem isName_of_at? {place : List String} {found : Node} (h : node.Tidy) (hthere : node.at? place = some found) :
    ∀ name ∈ place, Path.isName name = true := by
  induction place generalizing node with
  | nil => simp
  | cons first rest ih =>
    cases node with
    | file content => simp [at?_file_cons] at hthere
    | folder entries =>
      rw [at?_folder_cons] at hthere
      obtain ⟨child, hchild, hrest⟩ := Option.bind_eq_some_iff.mp hthere
      have hmem := h.named.mp hchild
      exact List.forall_mem_cons.mpr ⟨h.isName hmem, ih (h.entry hmem) hrest⟩

theorem of_at? {place : List String} {found : Node} (h : node.Tidy) (hthere : node.at? place = some found) :
    found.Tidy := by
  have hbelow : ∀ names, node.at? (place ++ names) = found.at? names := fun names => by
    rw [at?_append, hthere, Option.bind_some]
  exact ⟨fun names own hown => h.nodup (place ++ names) own ((hbelow names).trans hown),
    fun names own hown => h.names (place ++ names) own ((hbelow names).trans hown)⟩

end Tidy

/-- A tree with the same entries in its folders, at any depth, in another order. -/
inductive Reordered : Node → Node → Prop
  | refl (node : Node) : Reordered node node
  /-- The entries of a folder stand in another order. -/
  | perm {entries others : List (String × Node)} (h : entries.Perm others) :
    Reordered (folder entries) (folder others)
  /-- Something in an entry stands in another order. -/
  | entry {front back : List (String × Node)} {name : String} {node other : Node} (h : Reordered node other) :
    Reordered (folder (front ++ (name, node) :: back)) (folder (front ++ (name, other) :: back))
  | trans {node middle other : Node} (h : Reordered node middle) (h' : Reordered middle other) :
    Reordered node other

/-- At every place of a tidy tree there is the same, in whatever order entries stand. -/
theorem Reordered.kindAt {node other : Node} (h : node.Reordered other) (hnode : node.Tidy) :
    other.Tidy ∧ ∀ place, other.kindAt place = node.kindAt place := by
  induction h with
  | refl node => exact ⟨hnode, fun _ => rfl⟩
  | @perm entries others h =>
    have hnodup : (others.map Prod.fst).Nodup := (h.map Prod.fst).nodup_iff.mp (hnode.nodup [] entries rfl)
    have hnamed : ∀ name, named? name others = named? name entries := fun name => by
      refine Option.ext fun child => ?_
      rw [named?_eq_some hnodup, hnode.named, h.mem_iff]
    refine ⟨.of_entries hnodup (fun entry hentry => hnode.isName (h.mem_iff.mpr hentry))
      fun entry hentry => hnode.entry (h.mem_iff.mpr hentry), fun place => ?_⟩
    cases place with
    | nil => rfl
    | cons name place => rw [Node.kindAt, Node.kindAt, at?_folder_cons, at?_folder_cons, hnamed]
  | @entry front back name node other _ ih =>
    have hmem : (name, node) ∈ front ++ (name, node) :: back := by simp
    obtain ⟨htidy, hsame⟩ := ih (hnode.entry hmem)
    have hfst : (front ++ (name, other) :: back).map Prod.fst = (front ++ (name, node) :: back).map Prod.fst := by simp
    have hnodup : ((front ++ (name, other) :: back).map Prod.fst).Nodup := hfst ▸ hnode.nodup [] _ rfl
    have hnode' : (folder (front ++ (name, other) :: back)).Tidy := by
      refine .of_entries hnodup (fun entry hentry => ?_) fun entry hentry => ?_
      · have hfirst : entry.1 ∈ (front ++ (name, node) :: back).map Prod.fst := hfst ▸ List.mem_map_of_mem hentry
        obtain ⟨old, hold, heq⟩ := List.mem_map.mp hfirst
        exact heq ▸ hnode.isName hold
      · rcases List.mem_append.mp hentry with hfront | hback
        · exact hnode.entry (List.mem_append_left _ hfront)
        · rcases List.mem_cons.mp hback with rfl | hback
          · exact htidy
          · exact hnode.entry (List.mem_append_right _ (List.mem_cons_of_mem _ hback))
    refine ⟨hnode', fun place => ?_⟩
    cases place with
    | nil => rfl
    | cons first place =>
      rw [Node.kindAt, Node.kindAt, at?_folder_cons, at?_folder_cons]
      by_cases hfirst : first = name
      · subst hfirst
        rw [hnode'.named.mpr (by simp : (first, other) ∈ _), hnode.named.mpr hmem]
        exact hsame place
      · have hnamed : named? first (front ++ (name, other) :: back) = named? first (front ++ (name, node) :: back) := by
          refine Option.ext fun child => ?_
          rw [hnode'.named, hnode.named]
          simp [hfirst]
        rw [hnamed]
  | trans _ _ ih ih' =>
    obtain ⟨hmiddle, hsame⟩ := ih hnode
    obtain ⟨hother, hsame'⟩ := ih' hmiddle
    exact ⟨hother, fun place => (hsame' place).trans (hsame place)⟩

end Node

/-! ## Members and order of a walk -/

namespace Walk

open Node

theorem belowEach_eq (folder : Path) (entries : List (String × Node)) :
    belowEach folder entries = entries.map fun entry => (entry.1, found folder entry.1 entry.2) := by
  induction entries with
  | nil => rfl
  | cons entry rest ih => rw [belowEach, ih, List.map_cons, found]

/-- The entries of a folder in the order in which they are walked. -/
theorem below_folder (path : Path) (entries : List (String × Node)) :
    below path (.folder entries) = (entries.mergeSort before).flatMap fun entry => found path entry.1 entry.2 := by
  have hmap : (entries.mergeSort before).map (fun entry => (entry.1, found path entry.1 entry.2)) =
      (entries.map fun entry => (entry.1, found path entry.1 entry.2)).mergeSort before :=
    List.map_mergeSort fun _ _ _ _ => rfl
  rw [below, belowEach_eq, ← hmap, List.flatMap_map]

/-- A walk from a node finds the source files below it to which no build output leads. -/
theorem mem_below {node : Node} (h : node.Tidy) {path file : Path} :
    file ∈ below path node ↔ ∃ names content, node.at? names = some (.file content) ∧ outputName ∉ names ∧
      file = names.foldl entryPath path ∧ isSource file = true := by
  induction node using Node.entryInduction generalizing path with
  | file content =>
    rw [below]
    constructor
    · intro hmem
      split at hmem
      · rename_i hsource
        obtain rfl := List.mem_singleton.mp hmem
        exact ⟨[], content, rfl, by simp, rfl, hsource⟩
      · simp at hmem
    · rintro ⟨names, found, hthere, -, rfl, hsource⟩
      cases names with
      | nil => simpa using hsource
      | cons name rest => simp [at?_file_cons] at hthere
  | folder entries ih =>
    rw [below_folder, List.mem_flatMap]
    constructor
    · rintro ⟨⟨name, child⟩, hmem, hfound⟩
      rw [List.mem_mergeSort] at hmem
      rw [found] at hfound
      split at hfound
      · simp at hfound
      · rename_i hname
        obtain ⟨names, content, hthere, houtput, hfile, hsource⟩ := (ih _ hmem (h.entry hmem)).mp hfound
        refine ⟨name :: names, content, ?_, ?_, hfile, hsource⟩
        · rw [at?_folder_cons, h.named.mpr hmem, Option.bind_some, hthere]
        · exact List.mem_cons.not.mpr (not_or.mpr ⟨fun heq => hname (by simp [heq]), houtput⟩)
    · rintro ⟨names, content, hthere, houtput, hfile, hsource⟩
      cases names with
      | nil => simp [at?] at hthere
      | cons name names =>
        rw [at?_folder_cons] at hthere
        obtain ⟨child, hchild, hthere⟩ := Option.bind_eq_some_iff.mp hthere
        have hmem := h.named.mp hchild
        obtain ⟨hname, houtput⟩ := not_or.mp (List.mem_cons.not.mp houtput)
        refine ⟨(name, child), List.mem_mergeSort.mpr hmem, ?_⟩
        rw [found, if_neg (by simpa using Ne.symm hname)]
        exact (ih _ hmem (h.entry hmem)).mpr ⟨names, content, hthere, houtput, hfile, hsource⟩

/-- What is found in an entry has its name on the way. -/
theorem mem_found {entries : List (String × Node)} (h : (Node.folder entries).Tidy) {name : String} {child : Node}
    (hmem : (name, child) ∈ entries) {path file : Path} (hfile : file ∈ found path name child) :
    ∃ names, file = (name :: names).foldl entryPath path ∧ ∀ part ∈ name :: names, Path.isName part = true := by
  rw [found] at hfile
  split at hfile
  · simp at hfile
  · obtain ⟨names, content, hthere, -, hfile, -⟩ := (mem_below (h.entry hmem)).mp hfile
    exact ⟨names, hfile, List.forall_mem_cons.mpr ⟨h.isName hmem, (h.entry hmem).isName_of_at? hthere⟩⟩

/-- A walk from a node goes in the order of the paths. -/
theorem pairwise_below {node : Node} (h : node.Tidy) (path : Path) : (below path node).Pairwise Path.Before := by
  induction node using Node.entryInduction generalizing path with
  | file content =>
    rw [below]
    split <;> simp
  | folder entries ih =>
    rw [below_folder, List.flatMap, List.pairwise_flatten, List.pairwise_map]
    constructor
    · intro files hfiles
      obtain ⟨⟨name, child⟩, hmem, rfl⟩ := List.mem_map.mp hfiles
      rw [List.mem_mergeSort] at hmem
      dsimp only [found]
      split
      · exact .nil
      · exact ih _ hmem (h.entry hmem) _
    · -- The entries are sorted, and since their names are different each is less than the next.
      have hsorted := List.pairwise_mergeSort before_trans before_total entries
      have hnodup : ((entries.mergeSort before).map Prod.fst).Nodup :=
        ((List.mergeSort_perm entries before).map Prod.fst).nodup_iff.mpr (h.nodup [] entries rfl)
      rw [List.Nodup, List.pairwise_map] at hnodup
      refine (hsorted.and hnodup).imp_of_mem fun {left right} hleft hright hlt file hfile other hother => ?_
      rw [List.mem_mergeSort] at hleft hright
      obtain ⟨names, rfl, hnames⟩ := mem_found h hleft hfile
      obtain ⟨others, rfl, hothers⟩ := mem_found h hright hother
      refine Path.before_of_lt path ?_ hnames hothers
      have hle : left.1 ≤ right.1 := by
        simpa only [before, Bool.not_eq_true', decide_eq_false_iff_not, String.not_lt] using hlt.1
      exact String.not_le.mp fun hge => hlt.2 (String.le_antisymm hle hge)

/-- A path that is known by the name of build output has it for its last component. -/
theorem nameOf_eq_outputName {path : Path} : nameOf path = outputName ↔ path.fileName? = some outputName := by
  unfold nameOf
  cases hname : path.fileName? with
  | some name => simp
  | none =>
    refine iff_of_false (fun htext => ?_) (by simp)
    obtain ⟨start, parts⟩ := path
    have hchars : (Path.text ⟨start, parts⟩).toList = outputName.toList := congrArg String.toList htext
    cases start with
    | dot => cases parts <;> simp [Path.text, String.toList_intercalate, outputName] at hchars
    | root => simp [Path.text, outputName] at hchars
    | plain =>
      rcases parts with _ | ⟨first, _ | ⟨second, rest⟩⟩
      · simp [Path.text, outputName] at hchars
      · obtain rfl : first = outputName := by simpa [Path.text] using htext
        simp [Path.fileName?, Path.trimmed, Path.isIdle, outputName] at hname
      · have hslash : '/' ∈ (Path.text ⟨.plain, first :: second :: rest⟩).toList := by
          simp [Path.text, String.toList_intercalate]
        rw [hchars] at hslash
        simp [outputName] at hslash

/-- A path leads to a source file at a path or below it, and nothing on the way is build output, from the name of the
path on. -/
def Leads (disk : Disk) (source file : Path) : Prop :=
  source.fileName? ≠ some outputName ∧ file.extension? = some sourceExtension ∧
    ∃ place names content, disk.place source = .ok place ∧ outputName ∉ names ∧
      file = names.foldl entryPath source ∧ disk.place file = .ok (place ++ names) ∧
      disk.root.kindAt (place ++ names) = some (.file content)

/-- The source files at a path and below it, in the order of their paths. -/
structure Listing (disk : Disk) (source : Path) (found : List Path) : Prop where
  /-- They are all there. -/
  mem : ∀ file, file ∈ found ↔ Leads disk source file
  /-- They are in order. -/
  sorted : found.Pairwise Path.Before

namespace Listing

variable {disk : Disk} {source : Path} {found others : List Path}

theorem nodup (h : Listing disk source found) : found.Nodup := h.sorted.imp Path.Before.ne

/-- No other list has the same files in the same order. -/
theorem unique (h : Listing disk source found) (hothers : Listing disk source others) : found = others := by
  have hperm : found.Perm others := (List.perm_ext_iff_of_nodup h.nodup hothers.nodup).mpr fun file =>
    (h.mem file).trans (hothers.mem file).symm
  exact hperm.eq_of_pairwise (fun _ _ _ _ hbefore hafter => absurd hafter hbefore.asymm) h.sorted hothers.sorted

end Listing

theorem sources_listing {disk : Disk} (hdisk : disk.root.Tidy) {source : Path} {found : List Path}
    (h : sources disk source = .ok found) : Listing disk source found := by
  obtain ⟨node, hnode, rfl⟩ := sources_eq_ok.mp h
  obtain ⟨place, hplace, hthere⟩ := Disk.node_eq_ok.mp hnode
  have htidy := hdisk.of_at? hthere
  have hbelow : ∀ names, disk.root.at? (place ++ names) = node.at? names := fun names => by
    rw [at?_append, hthere, Option.bind_some]
  by_cases hname : nameOf source = outputName
  · rw [if_pos (by simpa using hname)]
    exact ⟨fun file => iff_of_false (by simp) fun hleads => hleads.1 (nameOf_eq_outputName.mp hname), .nil⟩
  · rw [if_neg (by simpa using hname)]
    refine ⟨fun file => ?_, pairwise_below htidy source⟩
    rw [mem_below htidy]
    constructor
    · rintro ⟨names, content, hfile, houtput, rfl, hsource⟩
      refine ⟨mt nameOf_eq_outputName.mpr hname, by simpa [isSource] using hsource, place, names, content, hplace,
        houtput, rfl, ?_, ?_⟩
      · exact Disk.place_entryPaths hplace (htidy.isName_of_at? hfile) (by simp [hbelow, hfile])
      · rw [kindAt, hbelow, hfile]
        rfl
    · rintro ⟨-, hsource, other, names, content, hother, houtput, rfl, -, hfile⟩
      cases hplace.symm.trans hother
      rw [kindAt, hbelow] at hfile
      obtain ⟨found, hfound, hkind⟩ := Option.map_eq_some_iff.mp hfile
      cases found with
      | folder entries => simp [kind] at hkind
      | file bytes => exact ⟨names, bytes, hfound, houtput, rfl, by simp [isSource, hsource]⟩

/-- A walk is possible wherever a path leads somewhere. -/
theorem exists_sources {disk : Disk} {source : Path} :
    (∃ found, sources disk source = .ok found) ↔ disk.holds source = true := by
  simp only [sources_eq_ok, Disk.holds]
  cases disk.node source with
  | error fault => simp [Except.isOk, Except.toBool]
  | ok node => simp [Except.isOk, Except.toBool]

end Walk

/-! ## Disks that hold the same -/

/-- Two disks hold the same: at every place there is a folder, a file with the same bytes, or nothing on both. -/
structure Disk.Alike (disk other : Disk) : Prop where
  /-- Relative paths start at the same place. -/
  workdir : other.workdir = disk.workdir
  /-- The same is seen at every place. -/
  kindAt : ∀ place, other.root.kindAt place = disk.root.kindAt place

namespace Disk.Alike

open Node

variable {disk other : Disk}

theorem startOf (h : disk.Alike other) (path : Path) : other.startOf path = disk.startOf path := by
  rw [Disk.startOf, Disk.startOf, h.workdir]

theorem at?_cases (h : disk.Alike other) (place : List String) :
    (disk.root.at? place = none ∧ other.root.at? place = none) ∨
      (∃ content, disk.root.at? place = some (.file content) ∧ other.root.at? place = some (.file content)) ∨
      ∃ entries entries', disk.root.at? place = some (.folder entries) ∧
        other.root.at? place = some (.folder entries') := by
  have hkind := h.kindAt place
  rw [Node.kindAt, Node.kindAt] at hkind
  cases hthere : disk.root.at? place with
  | none =>
    rw [hthere, Option.map_none, Option.map_eq_none_iff] at hkind
    exact .inl ⟨rfl, hkind⟩
  | some node =>
    rw [hthere] at hkind
    obtain ⟨node', hnode', hsame⟩ := Option.map_eq_some_iff.mp hkind
    cases node with
    | file content =>
      cases node' with
      | file content' =>
        cases hsame
        exact .inr (.inl ⟨content, rfl, hnode'⟩)
      | folder entries' => contradiction
    | folder entries =>
      cases node' with
      | file content' => contradiction
      | folder entries' => exact .inr (.inr ⟨entries, entries', rfl, hnode'⟩)

theorem follow (h : disk.Alike other) (place parts : List String) :
    other.follow place parts = disk.follow place parts := by
  induction parts generalizing place with
  | nil => rfl
  | cons part rest ih =>
    rw [Disk.follow, Disk.follow]
    rcases h.at?_cases place with ⟨hdisk, hother⟩ | ⟨content, hdisk, hother⟩ | ⟨entries, entries', hdisk, hother⟩
    · rw [hdisk, hother]
    · rw [hdisk, hother]
    · -- An entry of one folder is an entry of the other, since both are seen at its place.
      have hentry : (named? part entries').isSome = (named? part entries).isSome := by
        have hnext := congrArg Option.isSome (h.kindAt (place ++ [part]))
        rwa [Node.kindAt, Node.kindAt, at?_entry hdisk, at?_entry hother, Option.isSome_map, Option.isSome_map] at hnext
      rw [hdisk, hother]
      simp only [ih]
      cases hfound : named? part entries <;> cases hfound' : named? part entries' <;>
        simp [hfound, hfound'] at hentry ⊢

theorem place (h : disk.Alike other) (path : Path) : other.place path = disk.place path := by
  rw [Disk.place, Disk.place, h.startOf, h.follow]

theorem node_cases (h : disk.Alike other) (path : Path) :
    (∃ fault, disk.node path = .error fault ∧ other.node path = .error fault) ∨
      (∃ content, disk.node path = .ok (.file content) ∧ other.node path = .ok (.file content)) ∨
      ∃ entries entries', disk.node path = .ok (.folder entries) ∧ other.node path = .ok (.folder entries') := by
  have hplace := h.place path
  cases hdisk : disk.place path with
  | error fault =>
    rw [hdisk] at hplace
    exact .inl ⟨fault, bind_eq_error.mpr (.inl hdisk), bind_eq_error.mpr (.inl hplace)⟩
  | ok place =>
    rw [hdisk] at hplace
    rcases h.at?_cases place with ⟨hthere, hthere'⟩ | ⟨content, hthere, hthere'⟩ | ⟨entries, entries', hthere, hthere'⟩
    · exact .inl ⟨.missing, bind_eq_error.mpr (.inr ⟨place, hdisk, by rw [hthere]⟩),
        bind_eq_error.mpr (.inr ⟨place, hplace, by rw [hthere']⟩)⟩
    · exact .inr (.inl ⟨content, node_eq_ok.mpr ⟨place, hdisk, hthere⟩, node_eq_ok.mpr ⟨place, hplace, hthere'⟩⟩)
    · exact .inr (.inr ⟨entries, entries', node_eq_ok.mpr ⟨place, hdisk, hthere⟩,
        node_eq_ok.mpr ⟨place, hplace, hthere'⟩⟩)

theorem holds (h : disk.Alike other) (path : Path) : other.holds path = disk.holds path := by
  rw [Disk.holds, Disk.holds]
  rcases h.node_cases path with ⟨fault, hdisk, hother⟩ | ⟨content, hdisk, hother⟩ | ⟨entries, entries', hdisk, hother⟩
  · rw [hdisk, hother]
  · rw [hdisk, hother]
  · rw [hdisk, hother]
    rfl

theorem readText (h : disk.Alike other) (path : Path) : other.readText path = disk.readText path := by
  rw [Disk.readText, Disk.readText]
  rcases h.node_cases path with ⟨fault, hdisk, hother⟩ | ⟨content, hdisk, hother⟩ | ⟨entries, entries', hdisk, hother⟩
  · rw [hdisk, hother]
  · rw [hdisk, hother]
  · rw [hdisk, hother]
    rfl

theorem newPlace (h : disk.Alike other) (path : Path) : other.newPlace path = disk.newPlace path := by
  unfold Disk.newPlace
  dsimp only
  split
  · rfl
  · rename_i last _
    rw [h.startOf, h.follow]
    congr 1
    funext folder
    split
    · rfl
    · rcases h.at?_cases (folder ++ [last]) with ⟨hdisk, hother⟩ | ⟨content, hdisk, hother⟩ |
        ⟨entries, entries', hdisk, hother⟩ <;>
        rw [hdisk, hother]

theorem write (h : disk.Alike other) (path : Path) (content : ByteArray) :
    (∃ fault, disk.write path content = .error fault ∧ other.write path content = .error fault) ∨
      ∃ written written', disk.write path content = .ok written ∧ other.write path content = .ok written' ∧
        written.Alike written' := by
  have hplace := h.newPlace path
  cases hnew : disk.newPlace path with
  | error fault =>
    rw [hnew] at hplace
    exact .inl ⟨fault, bind_eq_error.mpr (.inl hnew), bind_eq_error.mpr (.inl hplace)⟩
  | ok target =>
    rw [hnew] at hplace
    have hwritten : disk.write path content = .ok { disk with root := disk.root.put target (.file content) } :=
      bind_eq_ok.mpr ⟨target, hnew, rfl⟩
    have hwritten' : other.write path content = .ok { other with root := other.root.put target (.file content) } :=
      bind_eq_ok.mpr ⟨target, hplace, rfl⟩
    refine .inr ⟨_, _, hwritten, hwritten', h.workdir, fun place => ?_⟩
    obtain ⟨-, found, hfound, hfile, hsame⟩ := write_elsewhere hwritten
    obtain ⟨-, found', hfound', hfile', hsame'⟩ := write_elsewhere hwritten'
    cases hnew.symm.trans hfound
    cases hplace.symm.trans hfound'
    by_cases htarget : place = target
    · subst htarget
      rw [Node.kindAt, Node.kindAt, hfile, hfile']
    · rw [hsame place htarget, hsame' place htarget, h.kindAt]

end Disk.Alike

namespace Walk

open Disk

variable {disk other : Disk}

theorem leads_alike (h : disk.Alike other) {source file : Path} : Leads other source file ↔ Leads disk source file := by
  simp only [Leads, h.place, h.kindAt]

theorem sources_alike (h : disk.Alike other) (hdisk : disk.root.Tidy) (hother : other.root.Tidy) (source : Path) :
    sources other source = sources disk source := by
  cases hfound : sources disk source with
  | ok found =>
    obtain ⟨others, hothers⟩ := exists_sources.mpr ((h.holds source).trans (exists_sources.mp ⟨found, hfound⟩))
    have hlisting := sources_listing hother hothers
    have hsame : Listing disk source others := ⟨fun file => (hlisting.mem file).trans (leads_alike h), hlisting.sorted⟩
    rw [hothers, hsame.unique (sources_listing hdisk hfound)]
  | error fault =>
    rcases h.node_cases source with ⟨fault', hnode, hnode'⟩ | ⟨content, hnode, -⟩ | ⟨entries, _, hnode, -⟩
    · have hfault : sources disk source = .error fault' := bind_eq_error.mpr (.inl hnode)
      rw [← hfound, hfault]
      exact bind_eq_error.mpr (.inl hnode')
    all_goals
      obtain ⟨found, hok⟩ := exists_sources.mpr (by rw [Disk.holds, hnode]; rfl)
      rw [hfound] at hok
      contradiction

end Walk

/-! ## Scans -/

namespace Survey

open Disk

theorem sources_eq_ok {disk : Disk} {paths : List Path} (h : ∀ path ∈ paths, disk.holds path = true) :
    ∃ found, List.Forall₂ (fun path files => Walk.sources disk path = .ok files) paths found ∧
      sources disk paths = .ok found.flatten := by
  induction paths with
  | nil => exact ⟨[], .nil, rfl⟩
  | cons path rest ih =>
    obtain ⟨hpath, hrest⟩ := List.forall_mem_cons.mp h
    obtain ⟨files, hfiles⟩ := Walk.exists_sources.mpr hpath
    obtain ⟨found, hfound, hsources⟩ := ih hrest
    exact ⟨files :: found, .cons hfiles hfound, by rw [sources, hfiles]; simp only [hsources]; rfl⟩

/-- The first path that leads nowhere is the one that is reported. -/
theorem sources_eq_error {disk : Disk} {paths : List Path} {path : Path}
    (h : paths.find? (fun path => !disk.holds path) = some path) : sources disk paths = .error (.badPath path) := by
  induction paths with
  | nil => contradiction
  | cons first rest ih =>
    rw [List.find?_cons] at h
    cases hfirst : disk.holds first with
    | false =>
      rw [hfirst] at h
      obtain rfl := Option.some.inj h
      cases hsources : Walk.sources disk first with
      | error fault => rw [sources, hsources]
      | ok found =>
        rw [Walk.exists_sources.mp ⟨found, hsources⟩] at hfirst
        contradiction
    | true =>
      rw [hfirst] at h
      obtain ⟨files, hfiles⟩ := Walk.exists_sources.mpr hfirst
      rw [sources, hfiles]
      simp only [ih h]

/-- What a scan of some files does: it reads them one after the other and takes in what they contain, up to the first
file that cannot be read. -/
structure Takes (survey : Survey) (disk : Disk) (paths : List Path) (outcome : Outcome) : Prop where
  /-- The files that were read, those that were not, and how the scan ended. -/
  split : ∃ (read : List Source) (rest : List Path), paths = read.map Prod.fst ++ rest ∧
    (∀ source ∈ read, disk.readText source.1 = .ok source.2) ∧
    outcome.survey.files = survey.files ++ read.filterMap Source.report? ∧
    outcome.survey.failures = survey.failures +
      (((read.filterMap Source.report?).flatMap FileReport.structs).countP StructReport.failed +
        read.countP Source.isUnparsable) ∧
    ((rest = [] ∧ outcome.result = .ok ()) ∨ ∃ path more fault, rest = path :: more ∧
      disk.readText path = .error fault ∧ outcome.result = .error (.files fault))
  /-- The disk stays as it is. -/
  disk : outcome.disk = disk

/-- The files that are read and the rest, which is empty or begins with a file that cannot be read. -/
theorem readable_split (disk : Disk) (paths : List Path) :
    ∃ rest, paths = (readable disk paths).map Prod.fst ++ rest ∧
      (∀ source ∈ readable disk paths, disk.readText source.1 = .ok source.2) ∧
      ((rest = [] ∧ (paths.map (Visit.of disk)).findSome? Visit.fault? = none) ∨ ∃ path more fault,
        rest = path :: more ∧ disk.readText path = .error fault ∧
          (paths.map (Visit.of disk)).findSome? Visit.fault? = some fault) := by
  induction paths with
  | nil => exact ⟨[], rfl, by simp [readable], .inl ⟨rfl, rfl⟩⟩
  | cons path more ih =>
    cases hread : disk.readText path with
    | error fault =>
      have hnone : readable disk (path :: more) = [] := by simp [readable, hread]
      refine ⟨path :: more, by simp [hnone], by simp [hnone], .inr ⟨path, more, fault, rfl, hread, ?_⟩⟩
      rw [List.map_cons, visit_of_fault hread]
      rfl
    | ok text =>
      obtain ⟨rest, hsplit, hall, hend⟩ := ih
      have hcons : readable disk (path :: more) = (path, text) :: readable disk more := by simp [readable, hread]
      have hfault : ((path :: more).map (Visit.of disk)).findSome? Visit.fault? =
          (more.map (Visit.of disk)).findSome? Visit.fault? := by
        simp [visit_of_readText hread, fault?_visit]
      rw [hfault, hcons]
      exact ⟨rest, by rw [List.map_cons, List.cons_append, ← hsplit], List.forall_mem_cons.mpr ⟨hread, hall⟩, hend⟩

theorem scan_takes {disk : Disk} {config : Config} {paths : List Path} (h : sources disk config.paths = .ok paths)
    (survey : Survey) : survey.Takes disk paths (survey.scan disk config) := by
  obtain ⟨rest, hsplit, hall, hend⟩ := readable_split disk paths
  have hadd := add_visits survey (readable disk paths)
  rw [scan, h]
  simp only [takeWhile_visits]
  rcases hend with ⟨rfl, hnone⟩ | ⟨path, more, fault, rfl, hread, hsome⟩
  · rw [hnone]
    exact ⟨⟨_, [], hsplit, hall, congrArg Survey.files hadd, congrArg Survey.failures hadd, .inl ⟨rfl, rfl⟩⟩, rfl⟩
  · rw [hsome]
    exact ⟨⟨_, _, hsplit, hall, congrArg Survey.files hadd, congrArg Survey.failures hadd,
      .inr ⟨path, more, fault, rfl, hread, rfl⟩⟩, rfl⟩

/-! ## Two disks -/

/-- Two runs that differ at most in the order of entries of the folders that they leave. -/
structure Outcome.Alike (outcome other : Outcome) : Prop where
  /-- They have found the same. -/
  survey : other.survey = outcome.survey
  /-- They tell of the same failures. -/
  diagnostics : other.diagnostics = outcome.diagnostics
  /-- They end in the same way. -/
  result : other.result = outcome.result
  /-- They leave the same files. -/
  disk : outcome.disk.Alike other.disk

section Alike

variable {disk other : Disk} (h : disk.Alike other) (hdisk : disk.root.Tidy) (hother : other.root.Tidy)
  (survey : Survey) (config : Config)
include h hdisk hother

theorem sources_alike (paths : List Path) : sources other paths = sources disk paths := by
  induction paths with
  | nil => rfl
  | cons path rest ih => rw [sources, sources, Walk.sources_alike h hdisk hother, ih]

theorem scan_alike : (survey.scan disk config).Alike (survey.scan other config) := by
  have hvisit : Visit.of other = Visit.of disk := by
    funext path
    rw [Visit.of, Visit.of, scanFile, scanFile, h.readText]
  rw [scan, scan, sources_alike h hdisk hother, hvisit]
  cases sources disk config.paths with
  | error failure => exact ⟨rfl, rfl, rfl, h⟩
  | ok paths =>
    dsimp only
    split <;> exact ⟨rfl, rfl, rfl, h⟩

theorem check_alike : (survey.check disk config).Alike (survey.check other config) := by
  have hscan := scan_alike h hdisk hother survey config
  unfold check
  dsimp only
  rw [hscan.result, hscan.survey]
  split
  · exact hscan
  · split
    · exact ⟨rfl, hscan.diagnostics, rfl, hscan.disk⟩
    · exact hscan

theorem generate_alike : (survey.generate disk config).Alike (survey.generate other config) := by
  have hcheck := check_alike h hdisk hother survey config
  unfold generate
  dsimp only
  rw [hcheck.result, hcheck.survey]
  split
  · exact hcheck
  · exact hcheck
  · rename_i path _ _
    rcases hcheck.disk.write path (survey.check disk config).survey.output.toUTF8 with
      ⟨fault, hwrite, hwrite'⟩ | ⟨written, written', hwrite, hwrite', hwritten⟩
    · rw [writeText, writeText, hwrite, hwrite']
      exact ⟨rfl, hcheck.diagnostics, rfl, hcheck.disk⟩
    · rw [writeText, writeText, hwrite, hwrite']
      exact ⟨rfl, hcheck.diagnostics, rfl, hwritten⟩

end Alike

/-- Which files a scan visits, and in which order, is told by what is at each place of the disk. For each configured
path it visits the listing of that path, and takes in the files up to the first that cannot be read. A path that leads
nowhere is reported, and then nothing is taken in. In whatever order folders keep their entries, every run comes to
the same. -/
theorem scan_canonical {disk : Disk} (hdisk : disk.root.Tidy) (survey : Survey) (config : Config) :
    ((∀ path ∈ config.paths, disk.holds path = true) → ∃ found : List (List Path),
      List.Forall₂ (fun path files => Walk.Listing disk path files ∧ files.Nodup) config.paths found ∧
        survey.Takes disk found.flatten (survey.scan disk config)) ∧
      (∀ path, config.paths.find? (fun path => !disk.holds path) = some path →
        survey.scan disk config = ⟨survey, "", disk, .error (.badPath path)⟩) ∧
      ∀ root, disk.root.Reordered root →
        (survey.scan disk config).Alike (survey.scan ⟨root, disk.workdir⟩ config) ∧
          (survey.check disk config).Alike (survey.check ⟨root, disk.workdir⟩ config) ∧
          (survey.generate disk config).Alike (survey.generate ⟨root, disk.workdir⟩ config) := by
  refine ⟨fun hpaths => ?_, fun path hpath => ?_, fun root hroot => ?_⟩
  · obtain ⟨found, hfound, hsources⟩ := sources_eq_ok hpaths
    refine ⟨found, hfound.imp fun path files hfiles => ?_, scan_takes hsources survey⟩
    have hlisting := Walk.sources_listing hdisk hfiles
    exact ⟨hlisting, hlisting.nodup⟩
  · rw [scan, sources_eq_error hpath]
  · obtain ⟨hother, hkind⟩ := hroot.kindAt hdisk
    have halike : disk.Alike ⟨root, disk.workdir⟩ := ⟨rfl, hkind⟩
    exact ⟨scan_alike halike hdisk hother survey config, check_alike halike hdisk hother survey config,
      generate_alike halike hdisk hother survey config⟩

/-- A folder beside a file with the same beginning, a folder with the name of a source file, and build output. -/
def mixedEntries : List (String × Node) :=
  [("z.rs", .file ⟨#[0xff]⟩), ("a.rs", .file "struct S;".toUTF8), ("a", .folder [("b.rs", .file "".toUTF8)]),
    ("x.rs", .folder [("target", .folder [("t.rs", .file "".toUTF8)]), ("y.rs", .file "(".toUTF8)])]

/-- A disk with these entries in a folder. -/
def mixedDisk : Disk := ⟨.folder [("src", .folder mixedEntries)], []⟩

theorem tidy_mixedDisk : mixedDisk.root.Tidy := by
  have hfolder : ∀ name bytes, Path.isName name = true → (Node.folder [(name, .file bytes)]).Tidy := fun name bytes h =>
    .of_entries (by simp) (by simpa using h) (by simpa using Node.Tidy.file bytes)
  have htarget : (Node.folder [("target", .folder [("t.rs", .file "".toUTF8)]), ("y.rs", .file "(".toUTF8)]).Tidy :=
    .of_entries (by decide) (by decide) (by simpa using ⟨hfolder "t.rs" _ rfl, .file _⟩)
  have hsrc : (Node.folder mixedEntries).Tidy :=
    .of_entries (by decide) (by decide)
      (by simpa [mixedEntries] using ⟨.file _, .file _, hfolder "b.rs" _ rfl, htarget⟩)
  exact .of_entries (by simp) (by simp [Path.isName, Path.isIdle]) (by simpa using hsrc)

/-- The folder is scanned in the order of paths, whichever way round it keeps its entries. -/
theorem scan_mixedDisk :
    (∃ found, List.Forall₂ (fun path files => Walk.Listing mixedDisk path files ∧ files.Nodup)
        [⟨.plain, ["src"]⟩] found ∧
      start.Takes mixedDisk found.flatten (start.scan mixedDisk ⟨"1", [⟨.plain, ["src"]⟩], none⟩)) ∧
      (start.scan mixedDisk ⟨"1", [⟨.plain, ["src"]⟩], none⟩).Alike
        (start.scan ⟨.folder [("src", .folder mixedEntries.reverse)], []⟩ ⟨"1", [⟨.plain, ["src"]⟩], none⟩) := by
  obtain ⟨hfound, -, hreordered⟩ := scan_canonical tidy_mixedDisk start ⟨"1", [⟨.plain, ["src"]⟩], none⟩
  have hreverse : mixedDisk.root.Reordered (.folder [("src", .folder mixedEntries.reverse)]) :=
    @Node.Reordered.entry [] [] "src" _ _ (.perm (List.reverse_perm mixedEntries).symm)
  exact ⟨hfound (by decide +kernel), (hreordered _ hreverse).1⟩

end Survey

end Fieldwise
