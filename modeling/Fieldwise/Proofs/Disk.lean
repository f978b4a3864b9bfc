import Fieldwise.Files.Disk
import Fieldwise.Proofs.Outcome

/-!
# What a write changes

Writing a file changes what is at one place, the place of the file. Everywhere else there is a file with the
same bytes, a folder, or nothing, as there was before; so every path that led somewhere still leads there, and
the path of the file now leads to what was written.
-/

namespace Fieldwise

variable {place reached parts : List String} {node : Node}

namespace Node

/-- What is seen at a place without looking into folders. -/
inductive Kind where
  | file (content : ByteArray)
  | folder

/-- What is seen of a node. -/
def kind : Node → Kind
  | file content => .file content
  | folder _ => .folder

/-- What is seen at a place; nothing if nothing is there. -/
def kindAt (node : Node) (place : List String) : Option Kind := (node.at? place).map kind

theorem at?_file_cons (content : ByteArray) (name : String) (rest : List String) :
    (file content).at? (name :: rest) = none := rfl

theorem at?_folder_cons (entries : List (String × Node)) (name : String) (rest : List String) :
    (folder entries).at? (name :: rest) =
      (named? name entries).bind fun child => child.at? rest := by
  simp only [at?, child?]
  cases named? name entries <;> rfl

theorem at?_append (node : Node) (before after : List String) :
    node.at? (before ++ after) = (node.at? before).bind fun found => found.at? after := by
  induction before generalizing node with
  | nil => rfl
  | cons name rest ih =>
    cases node with
    | file content => rfl
    | folder entries =>
      rw [List.cons_append, at?_folder_cons, at?_folder_cons]
      cases named? name entries with
      | none => rfl
      | some child => exact ih child

/-- An entry of a folder is at the place of the folder with its name behind. -/
theorem at?_entry {entries : List (String × Node)} (h : node.at? place = some (folder entries)) (name : String) :
    node.at? (place ++ [name]) = named? name entries := by
  rw [at?_append, h, Option.bind_some, at?_folder_cons]
  cases named? name entries <;> rfl

theorem kindAt_eq_folder : node.kindAt place = some .folder ↔ ∃ entries, node.at? place = some (folder entries) := by
  unfold kindAt
  cases node.at? place with
  | none => simp
  | some found => cases found <;> simp [kind]

theorem at?_put (h : node.kindAt place = some .folder) (last : String) (new : Node) :
    (node.put (place ++ [last]) new).at? (place ++ [last]) = some new := by
  induction place generalizing node with
  | nil =>
    obtain ⟨entries, hnode⟩ := kindAt_eq_folder.mp h
    cases hnode
    simp [put, at?_folder_cons, named?_putEntry, at?]
  | cons name rest ih =>
    obtain ⟨entries, hnode⟩ := kindAt_eq_folder.mp h
    cases node with
    | file content => simp [at?_file_cons] at hnode
    | folder own =>
      rw [at?_folder_cons] at hnode
      obtain ⟨child, hchild, hrest⟩ := Option.bind_eq_some_iff.mp hnode
      have hkind : child.kindAt rest = some .folder := kindAt_eq_folder.mpr ⟨entries, hrest⟩
      rw [List.cons_append, put, at?_folder_cons, named?_putEntry, if_pos rfl, hchild]
      exact ih hkind

/-- A file that is put into a folder, where no folder is, changes what is seen at its own place only. -/
theorem kindAt_put (h : node.kindAt place = some .folder) {last : String}
    (hlast : node.kindAt (place ++ [last]) ≠ some .folder) (content : ByteArray) {other : List String}
    (hother : other ≠ place ++ [last]) :
    (node.put (place ++ [last]) (file content)).kindAt other = node.kindAt other := by
  induction place generalizing node other with
  | nil =>
    obtain ⟨entries, hnode⟩ := kindAt_eq_folder.mp h
    cases hnode
    cases other with
    | nil => rfl
    | cons name rest =>
      simp only [List.nil_append, put, kindAt, at?_folder_cons, named?_putEntry]
      by_cases hname : last = name
      · -- Behind the entry there was nothing, and behind a file there is nothing either.
        subst hname
        obtain ⟨next, more, rfl⟩ := List.exists_cons_of_ne_nil (l := rest) (by rintro rfl; simp at hother)
        rw [if_pos rfl]
        cases hentry : named? last entries with
        | none => rfl
        | some found =>
          cases found with
          | file old => rfl
          | folder old => simp [kindAt, at?_folder_cons, hentry, at?, kind] at hlast
      · rw [if_neg hname]
  | cons name rest ih =>
    obtain ⟨entries, hnode⟩ := kindAt_eq_folder.mp h
    cases node with
    | file content => simp [at?_file_cons] at hnode
    | folder own =>
      rw [at?_folder_cons] at hnode
      obtain ⟨child, hchild, hrest⟩ := Option.bind_eq_some_iff.mp hnode
      have hkind : child.kindAt rest = some .folder := kindAt_eq_folder.mpr ⟨entries, hrest⟩
      have hfree : child.kindAt (rest ++ [last]) ≠ some .folder := by
        simpa [kindAt, at?_folder_cons, hchild] using hlast
      cases other with
      | nil => rfl
      | cons first others =>
        simp only [List.cons_append, put, kindAt, at?_folder_cons, named?_putEntry, hchild,
          Option.getD_some]
        by_cases hname : name = first
        · subst hname
          have hothers : others ≠ rest ++ [last] := by
            rintro rfl
            exact hother rfl
          simpa [kindAt, hchild] using ih hkind hfree hothers
        · rw [if_neg hname]

/-- What is put below a place is put into what is there. -/
theorem at?_put_append {found : Node} (h : node.at? place = some found) (rest : List String) (new : Node) :
    (node.put (place ++ rest) new).at? place = some (found.put rest new) := by
  induction place generalizing node with
  | nil =>
    cases h
    rfl
  | cons name more ih =>
    cases node with
    | file content => simp [at?_file_cons] at h
    | folder entries =>
      rw [at?_folder_cons] at h
      obtain ⟨child, hchild, hmore⟩ := Option.bind_eq_some_iff.mp h
      rw [List.cons_append, put, at?_folder_cons, named?_putEntry, if_pos rfl, hchild]
      exact ih hmore

/-- What is put at a place changes nothing at places beside it. -/
theorem at?_put_apart {other : List String} (hbehind : ¬place <+: other) (hbefore : ¬other <+: place) (new : Node) :
    (node.put place new).at? other = node.at? other := by
  induction place generalizing node other with
  | nil => exact absurd List.nil_prefix hbehind
  | cons name rest ih =>
    cases other with
    | nil => exact absurd List.nil_prefix hbefore
    | cons first others =>
      cases node with
      | file content => rfl
      | folder entries =>
        rw [put, at?_folder_cons, at?_folder_cons, named?_putEntry]
        by_cases hname : name = first
        · subst hname
          rw [List.prefix_cons_inj] at hbehind hbefore
          rw [if_pos rfl, Option.bind_some, ih hbehind hbefore]
          cases hchild : named? name entries with
          | some child => rfl
          | none =>
            -- There is nothing in the folder that is made on the way.
            cases others with
            | nil => exact absurd List.nil_prefix hbefore
            | cons next more => rfl
        · rw [if_neg hname]

theorem putEntry_self {name : String} {entries : List (String × Node)} (h : named? name entries = some node) :
    putEntry name node entries = entries := by
  induction entries with
  | nil => simp [named?] at h
  | cons entry rest ih =>
    obtain ⟨first, found⟩ := entry
    by_cases hfirst : first = name
    · subst hfirst
      simp only [named?, BEq.rfl, if_true, Option.some.injEq] at h
      simp [putEntry, h]
    · simp only [named?, beq_iff_eq, hfirst, if_false] at h
      simp [putEntry, hfirst, ih h]

theorem put_self {found : Node} (h : node.at? place = some found) : node.put place found = node := by
  induction place generalizing node with
  | nil =>
    cases h
    rfl
  | cons name rest ih =>
    cases node with
    | file content => rfl
    | folder entries =>
      rw [at?_folder_cons] at h
      obtain ⟨child, hchild, hrest⟩ := Option.bind_eq_some_iff.mp h
      rw [put, hchild, Option.getD_some, ih hrest, putEntry_self hchild]

end Node

namespace Disk

open Node

theorem node_eq_ok {disk : Disk} {path : Path} :
    disk.node path = .ok node ↔
      ∃ place, disk.place path = .ok place ∧ disk.root.at? place = some node := by
  unfold Disk.node
  rw [bind_eq_ok]
  refine exists_congr fun place => and_congr_right fun _ => ?_
  cases disk.root.at? place <;> simp

theorem readText_eq_ok {disk : Disk} {path : Path} {text : String} :
    disk.readText path = .ok text ↔
      ∃ content, disk.node path = .ok (.file content) ∧ String.fromUTF8? content = some text := by
  unfold Disk.readText
  rw [bind_eq_ok]
  constructor
  · rintro ⟨node, hnode, htext⟩
    cases node with
    | folder entries => contradiction
    | file content =>
      refine ⟨content, hnode, ?_⟩
      cases hcontent : String.fromUTF8? content with
      | none => simp [hcontent] at htext
      | some found => simpa [hcontent] using htext
  · rintro ⟨content, hnode, htext⟩
    exact ⟨.file content, hnode, by simp [htext]⟩

theorem follow_append (disk : Disk) (place before after : List String) :
    disk.follow place (before ++ after) =
      disk.follow place before >>= fun reached => disk.follow reached after := by
  induction before generalizing place with
  | nil => rfl
  | cons part rest ih =>
    rw [List.cons_append, follow, follow]
    split
    · rfl
    · rfl
    · split
      · exact ih place
      · split
        · exact ih place.dropLast
        · split
          · rfl
          · exact ih (place ++ [part])

/-- A path with a slash at its end is followed to a folder. -/
theorem follow_slash {disk : Disk} (h : disk.follow place (parts ++ [""]) = .ok reached) :
    disk.follow place parts = .ok reached ∧ disk.root.kindAt reached = some .folder := by
  rw [follow_append] at h
  obtain ⟨found, hparts, h⟩ := bind_eq_ok.mp h
  rw [follow] at h
  split at h
  · contradiction
  · contradiction
  · rename_i entries hentries
    simp only [Path.isIdle, BEq.rfl, Bool.true_or, if_true, follow] at h
    cases h
    exact ⟨hparts, kindAt_eq_folder.mpr ⟨entries, hentries⟩⟩

/-- A walk goes the same way when what is seen changes at one place only, where there is no folder before and
something after. -/
theorem follow_congr {disk disk' : Disk} {target : List String}
    (hsame : ∀ place, place ≠ target → disk'.root.kindAt place = disk.root.kindAt place)
    (htarget : disk.root.kindAt target ≠ some .folder) (hthere : disk'.root.kindAt target ≠ none)
    (h : disk.follow place parts = .ok reached) : disk'.follow place parts = .ok reached := by
  -- A folder of the old tree is a folder of the new one, and nothing is lost.
  have hfolder : ∀ {place entries}, disk.root.at? place = some (.folder entries) →
      ∃ entries', disk'.root.at? place = some (.folder entries') := by
    intro place entries hentries
    have hkind := kindAt_eq_folder.mpr ⟨entries, hentries⟩
    rw [← hsame place (by rintro rfl; exact htarget hkind)] at hkind
    exact kindAt_eq_folder.mp hkind
  have hkept : ∀ {place}, disk.root.at? place ≠ none → disk'.root.at? place ≠ none := by
    intro place hplace
    by_cases heq : place = target
    · subst heq
      simpa [kindAt] using hthere
    · have hkind := hsame place heq
      unfold kindAt at hkind
      intro hnone
      rw [hnone, Option.map_none, eq_comm, Option.map_eq_none_iff] at hkind
      exact hplace hkind
  induction parts generalizing place with
  | nil => exact h
  | cons part rest ih =>
    rw [follow] at h ⊢
    split at h
    · contradiction
    · contradiction
    · rename_i entries hentries
      obtain ⟨entries', hentries'⟩ := hfolder hentries
      rw [hentries']
      dsimp only
      split at h
      · rename_i hidle
        rw [if_pos hidle]
        exact ih h
      · rename_i hidle
        rw [if_neg hidle]
        split at h
        · rename_i hup
          rw [if_pos hup]
          exact ih h
        · rename_i hup
          rw [if_neg hup]
          split at h
          · contradiction
          · rename_i child hchild
            have hnext : disk'.root.at? (place ++ [part]) ≠ none := by
              refine hkept ?_
              rw [at?_entry hentries, hchild]
              simp
            obtain ⟨child', hchild'⟩ := Option.ne_none_iff_exists'.mp hnext
            rw [at?_entry hentries'] at hchild'
            rw [hchild']
            exact ih h

/-- A new file gets a place in a folder, where no folder is; its path ends with a name. -/
theorem newPlace_eq_ok {disk : Disk} {path : Path} (h : disk.newPlace path = .ok place) :
    ∃ before last folder, path.parts = before ++ [last] ∧ place = folder ++ [last] ∧
      disk.follow (disk.startOf path) (before ++ [""]) = .ok folder ∧
      Path.isIdle last = false ∧ last ≠ ".." ∧ disk.root.kindAt place ≠ some .folder := by
  unfold newPlace at h
  dsimp only at h
  generalize hparts : (path.parts.reverse.dropWhile (· == "")).reverse = parts at h
  cases hlast : parts.getLast? with
  | none =>
    rw [hlast] at h
    dsimp only at h
    split at h <;> contradiction
  | some last =>
    rw [hlast] at h
    obtain ⟨folder, hfolder, h⟩ := bind_eq_ok.mp h
    split at h
    · contradiction
    · rename_i hname
      simp only [Bool.or_eq_true, not_or, Bool.not_eq_true, beq_iff_eq, decide_eq_true_eq,
        Nat.not_lt] at hname
      obtain ⟨⟨hidle, hup⟩, hlength⟩ := hname
      have hsuffix : path.parts.reverse.dropWhile (· == "") <:+ path.parts.reverse :=
        List.dropWhile_suffix _
      have hwhole : parts = path.parts := by
        have hle : path.parts.reverse.length ≤ (path.parts.reverse.dropWhile (· == "")).length := by
          rw [← hparts, List.length_reverse] at hlength
          rwa [List.length_reverse]
        rw [← hparts, hsuffix.eq_of_length_le hle, List.reverse_reverse]
      have hsplit : path.parts = parts.dropLast ++ [last] := by
        obtain ⟨before, hbefore⟩ := List.getLast?_eq_some_iff.mp hlast
        rw [← hwhole, hbefore, List.dropLast_concat]
      have hplace : place = folder ++ [last] ∧ disk.root.kindAt place ≠ some .folder := by
        split at h
        · contradiction
        · rename_i hfree
          cases h
          refine ⟨rfl, fun hkind => ?_⟩
          obtain ⟨entries, hentries⟩ := kindAt_eq_folder.mp hkind
          exact hfree entries hentries
      exact ⟨parts.dropLast, last, folder, hsplit, hplace.1, hfolder, hidle, by simpa using hup,
        hplace.2⟩

/-- A write changes what is seen at the place of the file only, and leaves the working directory. -/
theorem write_elsewhere {disk written : Disk} {path : Path} {content : ByteArray}
    (h : disk.write path content = .ok written) :
    written.workdir = disk.workdir ∧ ∃ target, disk.newPlace path = .ok target ∧
      written.root.at? target = some (.file content) ∧
      ∀ place, place ≠ target → written.root.kindAt place = disk.root.kindAt place := by
  obtain ⟨target, hplace, h⟩ := bind_eq_ok.mp h
  cases h
  obtain ⟨before, last, folder, -, rfl, hfollow, -, -, hfree⟩ := newPlace_eq_ok hplace
  obtain ⟨-, hkind⟩ := follow_slash hfollow
  exact ⟨rfl, _, hplace, at?_put hkind last _, fun place hother =>
    kindAt_put hkind hfree content hother⟩

/-- The path of a new file leads to its place if there is something. -/
theorem place_of_newPlace {disk : Disk} {path : Path} {target : List String}
    (h : disk.newPlace path = .ok target) (hthere : disk.root.at? target ≠ none) :
    disk.place path = .ok target := by
  obtain ⟨before, last, folder, hparts, rfl, hfollow, hidle, hup, -⟩ := newPlace_eq_ok h
  obtain ⟨hbefore, hkind⟩ := follow_slash hfollow
  obtain ⟨entries, hentries⟩ := kindAt_eq_folder.mp hkind
  obtain ⟨found, hfound⟩ := Option.ne_none_iff_exists'.mp hthere
  rw [at?_entry hentries] at hfound
  have hne : path ≠ .empty := by
    rintro rfl
    simp [Path.empty] at hparts
  rw [place, if_neg hne, hparts, follow_append, hbefore]
  change disk.follow folder [last] = _
  simp [follow, hentries, hidle, hup, hfound]

section Write

variable {disk written : Disk} {path : Path} {content : ByteArray}

theorem follow_write (h : disk.write path content = .ok written) (hfollow : disk.follow place parts = .ok reached) :
    written.follow place parts = .ok reached := by
  obtain ⟨-, target, hplace, htarget, hsame⟩ := write_elsewhere h
  obtain ⟨-, -, -, -, -, -, -, -, hfree⟩ := newPlace_eq_ok hplace
  exact follow_congr hsame hfree (by simp [kindAt, htarget]) hfollow

theorem place_write (h : disk.write path content = .ok written) {other : Path}
    (hother : disk.place other = .ok reached) : written.place other = .ok reached := by
  unfold place at hother ⊢
  split at hother
  · contradiction
  · rename_i hne
    have hstart : written.startOf other = disk.startOf other := by
      simp only [startOf, (write_elsewhere h).1]
    rw [if_neg hne, hstart]
    exact follow_write h hother

/-- After a write the file would get the same place again. -/
theorem newPlace_write (h : disk.write path content = .ok written) :
    written.newPlace path = disk.newPlace path := by
  obtain ⟨hworkdir, target, hplace, htarget, -⟩ := write_elsewhere h
  have hstart : written.startOf path = disk.startOf path := by simp only [startOf, hworkdir]
  rw [hplace]
  unfold newPlace at hplace ⊢
  dsimp only at hplace ⊢
  split at hplace
  · split at hplace <;> contradiction
  · obtain ⟨folder, hfolder, hplace⟩ := bind_eq_ok.mp hplace
    rw [← hstart] at hfolder
    refine bind_eq_ok.mpr ⟨folder, hstart ▸ follow_write h (hstart ▸ hfolder), ?_⟩
    split at hplace
    · contradiction
    · rename_i hname
      rw [if_neg hname]
      split at hplace
      · contradiction
      · cases hplace
        rw [htarget]

theorem node_write (h : disk.write path content = .ok written) :
    written.node path = .ok (.file content) := by
  obtain ⟨-, target, hplace, htarget, -⟩ := write_elsewhere h
  rw [← newPlace_write h] at hplace
  exact node_eq_ok.mpr ⟨target, place_of_newPlace hplace (by simp [htarget]), htarget⟩

theorem write_again (h : disk.write path content = .ok written) :
    written.write path content = .ok written := by
  obtain ⟨-, target, hplace, htarget, -⟩ := write_elsewhere h
  rw [← newPlace_write h] at hplace
  refine bind_eq_ok.mpr ⟨target, hplace, ?_⟩
  rw [put_self htarget]
  rfl

end Write

theorem readText_writeText {disk written : Disk} {path : Path} {text : String}
    (h : disk.writeText path text = .ok written) : written.readText path = .ok text := by
  have hagain : String.fromUTF8? text.toUTF8 = some text := by
    unfold String.fromUTF8?
    exact dif_pos text.isValidUTF8
  exact readText_eq_ok.mpr ⟨text.toUTF8, node_write h, hagain⟩

end Disk

end Fieldwise
