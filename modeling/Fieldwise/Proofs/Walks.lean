import Fieldwise.Files.Walk
import Fieldwise.Proofs.Disk

/-!
# Walking after a write

A walk over source files finds what it found before a file was written, in the same order, and in between it may
find the file that was written. Folders are sorted by name on the way, so a new entry takes its place among the
others and moves none of them.
-/

namespace Fieldwise

variable {place : List String} {name : String}

/-! ## Lists with something put in -/

/-- The second list is the first one with members put in that pass a test. -/
inductive Inserted {α : Type} (extra : α → Prop) : List α → List α → Prop
  | nil : Inserted extra [] []
  | keep (x : α) {xs ys : List α} (h : Inserted extra xs ys) : Inserted extra (x :: xs) (x :: ys)
  | add {y : α} (hextra : extra y) {xs ys : List α} (h : Inserted extra xs ys) :
    Inserted extra xs (y :: ys)

namespace Inserted

variable {α β : Type} {extra : α → Prop}

theorem refl (xs : List α) : Inserted extra xs xs := by
  induction xs with
  | nil => exact .nil
  | cons x xs ih => exact .keep x ih

theorem append {xs ys xs' ys' : List α} (h : Inserted extra xs ys) (h' : Inserted extra xs' ys') :
    Inserted extra (xs ++ xs') (ys ++ ys') := by
  induction h with
  | nil => exact h'
  | keep x _ ih => exact .keep x ih
  | add hextra _ ih => exact .add hextra ih

theorem mono {other : α → Prop} (himp : ∀ x, extra x → other x) {xs ys : List α}
    (h : Inserted extra xs ys) : Inserted other xs ys := by
  induction h with
  | nil => exact .nil
  | keep x _ ih => exact .keep x ih
  | add hextra _ ih => exact .add (himp _ hextra) ih

/-- What is put into each part of a list is put into the whole. -/
theorem flatMap {rows : List β} {f g : β → List α}
    (h : ∀ row ∈ rows, Inserted extra (f row) (g row)) :
    Inserted extra (rows.flatMap f) (rows.flatMap g) := by
  induction rows with
  | nil => exact .nil
  | cons row rows ih =>
    obtain ⟨hrow, hrows⟩ := List.forall_mem_cons.mp h
    exact hrow.append (ih hrows)

end Inserted

/-! ## Sorting -/

/-- A list is divided in one way into members that pass a test and members behind them that do not. -/
theorem append_inj_of_test {α : Type} (test : α → Bool) {xs ys xs' ys' : List α}
    (h : xs ++ ys = xs' ++ ys') (hxs : ∀ x ∈ xs, test x = true) (hys : ∀ y ∈ ys, test y = false)
    (hxs' : ∀ x ∈ xs', test x = true) (hys' : ∀ y ∈ ys', test y = false) : xs = xs' ∧ ys = ys' := by
  have hfront : ∀ {xs ys : List α}, (∀ x ∈ xs, test x = true) → (∀ y ∈ ys, test y = false) →
      (xs ++ ys).filter test = xs := by
    intro xs ys hxs hys
    rw [List.filter_append, List.filter_eq_self.mpr hxs, List.filter_eq_nil_iff.mpr, List.append_nil]
    intro y hy
    simp [hys y hy]
  have hsame : xs = xs' := by rw [← hfront hxs hys, h, hfront hxs' hys']
  subst hsame
  exact ⟨rfl, List.append_cancel_left h⟩

/-- Leaving members out and sorting can be done in either order. -/
theorem filter_mergeSort {α : Type} {le : α → α → Bool}
    (htrans : ∀ a b c, le a b = true → le b c = true → le a c = true)
    (htotal : ∀ a b, (le a b || le b a) = true) (test : α → Bool) (xs : List α) :
    (xs.mergeSort le).filter test = (xs.filter test).mergeSort le := by
  induction xs with
  | nil => simp
  | cons x xs ih =>
    obtain ⟨front, back, hwhole, hrest, hfront⟩ := List.mergeSort_cons htrans htotal x xs
    have hsorted := List.pairwise_mergeSort htrans htotal (x :: xs)
    rw [hwhole, List.pairwise_append] at hsorted
    have hback := (List.pairwise_cons.mp hsorted.2.1).1
    rw [hrest, List.filter_append] at ih
    rw [hwhole, List.filter_append]
    by_cases hx : test x = true
    · obtain ⟨front', back', hwhole', hrest', hfront'⟩ :=
        List.mergeSort_cons htrans htotal x (xs.filter test)
      have hsorted' := List.pairwise_mergeSort htrans htotal (x :: xs.filter test)
      rw [hwhole', List.pairwise_append] at hsorted'
      have hback' := (List.pairwise_cons.mp hsorted'.2.1).1
      rw [hrest'] at ih
      -- Both divide the sorted rest into what comes before the first member and what comes behind it.
      have hsame := append_inj_of_test (fun y => !le x y) ih
        (fun y hy => hfront y (List.mem_filter.mp hy).1)
        (fun y hy => by simp [hback y (List.mem_filter.mp hy).1]) hfront'
        (fun y hy => by simp [hback' y hy])
      rw [List.filter_cons_of_pos hx, List.filter_cons_of_pos hx, hwhole', hsame.1, hsame.2]
    · rw [List.filter_cons_of_neg hx, List.filter_cons_of_neg hx]
      exact ih

namespace Walk

theorem before_trans {α : Type} (a b c : String × α) (hab : before a b = true)
    (hbc : before b c = true) : before a c = true := by
  simp only [before, Bool.not_eq_true', decide_eq_false_iff_not, String.not_lt] at hab hbc ⊢
  exact String.le_trans hab hbc

theorem before_total {α : Type} (a b : String × α) : (before a b || before b a) = true := by
  simp only [before, Bool.or_eq_true, Bool.not_eq_true', decide_eq_false_iff_not, String.not_lt]
  exact String.le_total a.1 b.1

/-- An entry in which nothing is found does not change what is found. -/
theorem flatMap_mergeSort_concat (rows : List (String × List Path)) (name : String) :
    ((rows ++ [(name, [])]).mergeSort before).flatMap Prod.snd =
      (rows.mergeSort before).flatMap Prod.snd := by
  have hfull : ∀ rows : List (String × List Path),
      (rows.filter fun row => !row.2.isEmpty).flatMap Prod.snd = rows.flatMap Prod.snd := by
    intro rows
    induction rows with
    | nil => rfl
    | cons row rows ih =>
      obtain ⟨name, found⟩ := row
      cases found with
      | nil => simpa using ih
      | cons path found => simpa using ih
  rw [← hfull, filter_mergeSort before_trans before_total, List.filter_append,
    ← hfull (rows.mergeSort before), filter_mergeSort before_trans before_total]
  simp

/-! ## Folders -/

/-- What is found in an entry of a folder. -/
def found (folder : Path) (name : String) (node : Node) : List Path :=
  if name == outputName then [] else below (entryPath folder name) node

/-- The entries before and after one of them is put into a folder, side by side. An entry that is new stands
before as one in which nothing is found. -/
theorem exists_rows {extra : Path → Prop} (folder : Path) {new : Node} {entries : List (String × Node)}
    (h : Inserted extra (((Node.named? name entries).map (found folder name)).getD []) (found folder name new)) :
    ∃ rows : List (String × List Path × List Path),
      (∀ row ∈ rows, Inserted extra row.2.1 row.2.2) ∧
      rows.map (fun row => (row.1, row.2.2)) = belowEach folder (Node.putEntry name new entries) ∧
      (rows.map (fun row => (row.1, row.2.1)) = belowEach folder entries ∨
        rows.map (fun row => (row.1, row.2.1)) = belowEach folder entries ++ [(name, [])]) := by
  induction entries with
  | nil => exact ⟨[(name, [], found folder name new)], by simpa [Node.named?] using h, rfl, .inr rfl⟩
  | cons entry rest ih =>
    obtain ⟨first, node⟩ := entry
    by_cases hfirst : first = name
    · subst hfirst
      simp only [Node.named?, BEq.rfl, if_true, Option.map_some, Option.getD_some] at h
      refine ⟨(first, found folder first node, found folder first new) ::
        (belowEach folder rest).map fun row => (row.1, row.2, row.2), ?_, ?_, .inl ?_⟩
      · rw [List.forall_mem_cons]
        refine ⟨h, fun row hrow => ?_⟩
        obtain ⟨pair, -, rfl⟩ := List.mem_map.mp hrow
        exact .refl pair.2
      · simp [Node.putEntry, belowEach, found, Function.comp_def]
      · simp [belowEach, found, Function.comp_def]
    · simp only [Node.named?, beq_iff_eq, hfirst, if_false] at h
      obtain ⟨rows, hrows, hafter, hbefore⟩ := ih h
      refine ⟨(first, found folder first node, found folder first node) :: rows, ?_, ?_, ?_⟩
      · rw [List.forall_mem_cons]
        exact ⟨.refl _, hrows⟩
      · simp [Node.putEntry, hfirst, belowEach, found, hafter]
      · simpa [belowEach, found] using hbefore

/-- What is put into one entry of a folder is put into the whole. -/
theorem below_putEntry {extra : Path → Prop} (folder : Path) {new : Node} {entries : List (String × Node)}
    (h : Inserted extra (((Node.named? name entries).map (found folder name)).getD []) (found folder name new)) :
    Inserted extra (below folder (.folder entries))
      (below folder (.folder (Node.putEntry name new entries))) := by
  obtain ⟨rows, hrows, hafter, hbefore⟩ := exists_rows folder h
  -- The rows are sorted once, by name; what is before and what is after are both read from them.
  have hsorted : ∀ side : String × List Path × List Path → List Path,
      ((rows.map fun row => (row.1, side row)).mergeSort before).flatMap Prod.snd =
        (rows.mergeSort before).flatMap side := by
    intro side
    have hmap : (rows.mergeSort before).map (fun row => (row.1, side row)) =
        (rows.map fun row => (row.1, side row)).mergeSort before :=
      List.map_mergeSort fun _ _ _ _ => rfl
    rw [← hmap, List.flatMap_map]
  have hleft : (rows.mergeSort before).flatMap (fun row => row.2.1) =
      below folder (.folder entries) := by
    rw [← hsorted fun row => row.2.1, below]
    rcases hbefore with hbefore | hbefore
    · rw [hbefore]
    · rw [hbefore, flatMap_mergeSort_concat]
  have hright : (rows.mergeSort before).flatMap (fun row => row.2.2) =
      below folder (.folder (Node.putEntry name new entries)) := by
    rw [← hsorted fun row => row.2.2, below, hafter]
  rw [← hleft, ← hright]
  exact .flatMap fun row hrow => hrows row (List.mem_mergeSort.mp hrow)

/-- A file that is put into a folder of a tree is all that may be found in addition. -/
theorem below_put {node : Node} {front : List String} {last : String}
    (hfront : node.kindAt front = some .folder)
    (hlast : node.kindAt (front ++ [last]) ≠ some .folder) (path : Path) (content : ByteArray) :
    Inserted (· = (front ++ [last]).foldl entryPath path) (below path node)
      (below path (node.put (front ++ [last]) (.file content))) := by
  induction front generalizing node path with
  | nil =>
    obtain ⟨entries, hnode⟩ := Node.kindAt_eq_folder.mp hfront
    cases hnode
    refine below_putEntry path ?_
    cases hentry : Node.named? last entries with
    | none =>
      simp only [Option.map_none, Option.getD_none, found, Node.put, below]
      split
      · exact .nil
      · split
        · exact Inserted.add (by simp) .nil
        · exact .nil
    | some old =>
      cases old with
      | file bytes =>
        simp only [Option.map_some, Option.getD_some, found, Node.put, below]
        exact .refl _
      | folder own => simp [Node.kindAt, Node.at?_folder_cons, hentry, Node.at?, Node.kind] at hlast
  | cons name rest ih =>
    obtain ⟨entries, hnode⟩ := Node.kindAt_eq_folder.mp hfront
    cases node with
    | file bytes => simp [Node.at?_file_cons] at hnode
    | folder own =>
      rw [Node.at?_folder_cons] at hnode
      obtain ⟨child, hchild, hrest⟩ := Option.bind_eq_some_iff.mp hnode
      have hfolder : child.kindAt rest = some .folder :=
        Node.kindAt_eq_folder.mpr ⟨entries, hrest⟩
      have hfree : child.kindAt (rest ++ [last]) ≠ some .folder := by
        simpa [Node.kindAt, Node.at?_folder_cons, hchild] using hlast
      have hinside := ih hfolder hfree (entryPath path name)
      refine below_putEntry path ?_
      rw [hchild, Option.map_some, Option.getD_some, Option.getD_some, found, found]
      split
      · exact .nil
      · exact hinside

end Walk

/-! ## Paths of entries -/

/-- A part of a path that can be the name of an entry: it leads somewhere, and not back. -/
def Path.isName (part : String) : Bool := !isIdle part && part != ".."

namespace Disk

/-- A path goes through names only, if it starts there. -/
theorem follow_names {disk : Disk} {parts reached : List String} (h : disk.follow place parts = .ok reached)
    (hplace : ∀ name ∈ place, Path.isName name = true) : ∀ name ∈ reached, Path.isName name = true := by
  induction parts generalizing place with
  | nil =>
    cases h
    exact hplace
  | cons part rest ih =>
    rw [follow] at h
    split at h
    · contradiction
    · contradiction
    · split at h
      · exact ih h hplace
      · split at h
        · exact ih h fun name hname => hplace name (List.dropLast_subset place hname)
        · split at h
          · contradiction
          · rename_i hidle hup _ _ _
            refine ih h fun name hname => ?_
            rcases List.mem_append.mp hname with hname | hname
            · exact hplace name hname
            · rw [List.mem_singleton.mp hname]
              simp_all [Path.isName]

/-- A new file is at a place of names, if the working directory is. -/
theorem newPlace_names {disk : Disk} {path : Path} {target : List String}
    (h : disk.newPlace path = .ok target)
    (hwork : ∀ name ∈ disk.workdir, Path.isName name = true) :
    ∀ name ∈ target, Path.isName name = true := by
  obtain ⟨before, last, folder, -, rfl, hfollow, hidle, hup, -⟩ := newPlace_eq_ok h
  have hstart : ∀ name ∈ disk.startOf path, Path.isName name = true := by
    unfold startOf
    split
    · simp
    · exact hwork
  intro name hname
  rcases List.mem_append.mp hname with hname | hname
  · exact follow_names hfollow hstart name hname
  · rw [List.mem_singleton.mp hname]
    simp [Path.isName, hidle, hup]

theorem place_entryPath {disk : Disk} {path : Path} (h : disk.place path = .ok place)
    (hname : Path.isName name = true) (hthere : disk.root.at? (place ++ [name]) ≠ none) :
    disk.place (Walk.entryPath path name) = .ok (place ++ [name]) := by
  unfold Disk.place at h
  split at h
  · contradiction
  · rename_i hne
    obtain ⟨start, parts⟩ := path
    -- A slash at the end of a path does not stand between it and a name.
    let front := if parts.getLast? = some "" then parts.dropLast else parts
    have hentry : Walk.entryPath ⟨start, parts⟩ name = ⟨start, front ++ [name]⟩ := by
      simp [Walk.entryPath, Path.join, Path.isAbsolute, Path.writtenParts, hne, front]
    have hfront : disk.follow (disk.startOf ⟨start, parts⟩) front = .ok place := by
      by_cases hslash : parts.getLast? = some ""
      · obtain ⟨before, hbefore⟩ := List.getLast?_eq_some_iff.mp hslash
        subst hbefore
        simp only [front, List.getLast?_concat, if_true, List.dropLast_concat]
        exact (follow_slash h).1
      · simpa only [front, hslash, if_false] using h
    have hstart : disk.startOf ⟨start, front ++ [name]⟩ = disk.startOf ⟨start, parts⟩ := rfl
    have hempty : (⟨start, front ++ [name]⟩ : Path) ≠ .empty := by simp [Path.empty]
    rw [Node.at?_append] at hthere
    obtain ⟨found, hfound⟩ := Option.ne_none_iff_exists'.mp hthere
    obtain ⟨node, hnode, hchild⟩ := Option.bind_eq_some_iff.mp hfound
    rw [hentry, Disk.place, if_neg hempty, hstart, follow_append, hfront]
    change disk.follow place [name] = _
    simp only [Path.isName, Bool.and_eq_true, Bool.not_eq_true', bne_iff_ne] at hname
    cases node with
    | file content => simp [Node.at?_file_cons] at hchild
    | folder entries =>
      rw [Node.at?_folder_cons] at hchild
      obtain ⟨child, hnamed, -⟩ := Option.bind_eq_some_iff.mp hchild
      simp [follow, hnode, hname, hnamed]

/-- The path through entries leads to the last of them. -/
theorem place_entryPaths {disk : Disk} {path : Path} {names : List String} (h : disk.place path = .ok place)
    (hnames : ∀ name ∈ names, Path.isName name = true) (hthere : disk.root.at? (place ++ names) ≠ none) :
    disk.place (names.foldl Walk.entryPath path) = .ok (place ++ names) := by
  induction names generalizing path place with
  | nil => simpa using h
  | cons name rest ih =>
    obtain ⟨hname, hrest⟩ := List.forall_mem_cons.mp hnames
    rw [List.append_cons] at hthere ⊢
    have hnext : disk.root.at? (place ++ [name]) ≠ none := by
      intro hnone
      rw [Node.at?_append, hnone] at hthere
      exact hthere rfl
    exact ih (place_entryPath h hname hnext) hrest hthere

end Disk

/-! ## Source files -/

section Write

variable {disk written : Disk} {path : Path} {content : ByteArray} {target : List String}

/-- What a path leads to after a write: what it led to before, with the file put into it if it is below. -/
theorem Disk.at?_write (h : disk.write path content = .ok written) (htarget : disk.newPlace path = .ok target)
    {node : Node} (hnode : disk.root.at? place = some node) :
    (∃ rest, target = place ++ rest ∧
        written.root.at? place = some (node.put rest (.file content))) ∨
      written.root.at? place = some node := by
  obtain ⟨found, hfound, hdone⟩ := bind_eq_ok.mp h
  cases hfound.symm.trans htarget
  cases hdone
  by_cases hbefore : place <+: target
  · obtain ⟨rest, rfl⟩ := hbefore
    exact .inl ⟨rest, rfl, Node.at?_put_append hnode rest _⟩
  by_cases hbehind : target <+: place
  · -- Only a folder has something behind it, and the file takes the place of none.
    obtain ⟨more, rfl⟩ := hbehind
    obtain ⟨-, -, -, -, -, -, -, -, hfree⟩ := Disk.newPlace_eq_ok htarget
    rw [Node.at?_append] at hnode
    obtain ⟨old, hold, hmore⟩ := Option.bind_eq_some_iff.mp hnode
    cases old with
    | folder entries => exact absurd (Node.kindAt_eq_folder.mpr ⟨entries, hold⟩) hfree
    | file bytes =>
      cases more with
      | nil => simp at hbefore
      | cons name rest => simp [Node.at?_file_cons] at hmore
  · right
    rw [← hnode]
    exact Node.at?_put_apart hbehind hbefore _

/-- The source files at a path are found below what it leads to. -/
theorem Walk.sources_eq_ok {source : Path} {found : List Path} :
    Walk.sources disk source = .ok found ↔
      ∃ node, disk.node source = .ok node ∧
        (if nameOf source == outputName then [] else below source node) = found := by
  unfold Walk.sources
  rw [bind_eq_ok]
  refine exists_congr fun node => and_congr_right fun _ => ?_
  split <;> simp [pure, Except.pure]

/-- A walk after a write finds what it found before, and in between it may find the file. -/
theorem Walk.sources_write (h : disk.write path content = .ok written)
    (htarget : disk.newPlace path = .ok target)
    (hnames : ∀ name ∈ target, Path.isName name = true) {source : Path} {before : List Path}
    (hbefore : Walk.sources disk source = .ok before) :
    ∃ after, Walk.sources written source = .ok after ∧
      Inserted (fun found => written.place found = .ok target) before after := by
  obtain ⟨node, hnode, rfl⟩ := sources_eq_ok.mp hbefore
  obtain ⟨place, hplace, hthere⟩ := Disk.node_eq_ok.mp hnode
  have hplaced := Disk.place_write h hplace
  -- It is enough to compare what is below.
  suffices hbelow : ∃ now, written.root.at? place = some now ∧
      Inserted (fun found => written.place found = .ok target) (below source node)
        (below source now) by
    obtain ⟨now, hnow, hinserted⟩ := hbelow
    refine ⟨_, sources_eq_ok.mpr ⟨now, Disk.node_eq_ok.mpr ⟨place, hplaced, hnow⟩, rfl⟩, ?_⟩
    split
    · exact .nil
    · exact hinserted
  obtain ⟨rest, rfl, hnow⟩ | hnow := Disk.at?_write h htarget hthere
  · refine ⟨_, hnow, ?_⟩
    obtain ⟨_, last, folder, _, hsplit, hfollow, _, _, hfree⟩ := Disk.newPlace_eq_ok htarget
    obtain ⟨-, hfolder⟩ := Disk.follow_slash hfollow
    rcases List.eq_nil_or_concat rest with rfl | ⟨front, final, rfl⟩
    · cases node with
      | file bytes => exact .refl _
      | folder entries =>
        rw [List.append_nil] at hfree
        exact absurd (Node.kindAt_eq_folder.mpr ⟨entries, hthere⟩) hfree
    · rw [List.concat_eq_append] at *
      rw [← List.append_assoc] at hsplit
      obtain ⟨rfl, -⟩ := List.append_inj' hsplit rfl
      have hinside : ∀ names, disk.root.kindAt (place ++ names) = node.kindAt names := by
        intro names
        rw [Node.kindAt, Node.at?_append, hthere]
        rfl
      rw [hinside] at hfolder hfree
      refine (below_put hfolder hfree source content).mono ?_
      rintro found rfl
      refine Disk.place_entryPaths hplaced ?_ ?_
      · exact fun name hname => hnames name (List.mem_append_right place hname)
      · obtain ⟨-, found, hfound, hfile, -⟩ := Disk.write_elsewhere h
        cases hfound.symm.trans htarget
        simp [hfile]
  · exact ⟨node, hnow, .refl _⟩

end Write

end Fieldwise
