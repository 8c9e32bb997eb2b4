import ImemReplay.FileTree
import ImemReplay.Proofs.CutTexts

/-!
# The places of written files

A file can be written under a path when the names in front of the last one lead to a directory.
The written file stands in that directory under the last name of the path, so two paths that
differ only in how they end lead to different places, and a file that is written under one of them
leaves the other as writable as it was.

Main results:

- Theorem `target_eq_ok`: a file is written into a directory, under the last name of its path.
- Theorem `target_insert`: a file that is written changes the place of no other path.
- Theorem `write_eq_ok`: what is read after a file was written.
- Theorem `target_ne`: files under one beginning and different endings have different places.
- Theorem `Rewrites.read_ending`: such files do not change each other.
-/

namespace ImemReplay

namespace Text

/-- What is added to a text without a separator goes to its last part. -/
theorem exists_parts_append (separator : Char) (cs : List Char) :
    ∃ front last, ∀ back, separator ∉ back →
      parts separator (cs ++ back) = front ++ [last ++ back] := by
  induction cs with
  | nil => exact ⟨[], [], fun back hback => parts_of_not_mem hback⟩
  | cons c cs ih =>
    rcases ih with ⟨front, last, hparts⟩
    by_cases hc : c = separator
    · refine ⟨[] :: front, last, ?_⟩
      intro back hback
      rw [List.cons_append, parts, if_pos hc, hparts back hback, List.cons_append]
    · cases front with
      | nil =>
        refine ⟨[], c :: last, ?_⟩
        intro back hback
        rw [List.cons_append, parts, if_neg hc, hparts back hback]
        rfl
      | cons part front =>
        refine ⟨(c :: part) :: front, last, ?_⟩
        intro back hback
        rw [List.cons_append, parts, if_neg hc, hparts back hback]
        rfl

end Text

namespace FileTree

variable {t : FileTree}

/-! ## Directories -/

/-- What is on the way to a directory is a directory. -/
theorem isDirectory_of_before {place before : List String} (h : t.isDirectory place = true)
    (hbefore : before <+: place) : t.isDirectory before = true := by
  simp only [isDirectory, Bool.or_eq_true, List.any_eq_true, Bool.and_eq_true, decide_eq_true_eq,
    List.isPrefixOf_iff_prefix] at h ⊢
  rcases h with (hhere | ⟨directory, hmem, hdirectory⟩) | ⟨file, hmem, hfile, hne⟩
  · exact Or.inl (Or.inl (hbefore.trans hhere))
  · exact Or.inl (Or.inr ⟨directory, hmem, hbefore.trans hdirectory⟩)
  · refine Or.inr ⟨file, hmem, hbefore.trans hfile, ?_⟩
    rintro rfl
    exact hne (hfile.eq_of_length_le hbefore.length_le)

/-- The places of files after a text was stored. -/
theorem mem_map_store {place other : List String} {text : String}
    {files : List (List String × String)} :
    other ∈ (store place text files).map (·.1) ↔ other = place ∨ other ∈ files.map (·.1) := by
  induction files with
  | nil => simp [store]
  | cons file files ih =>
    by_cases hfile : file.1 = place
    · simp [store, hfile]
    · simp only [store, hfile, if_false, List.map_cons, List.mem_cons, ih]
      exact or_left_comm

/-- A place is a directory on the way to a file. -/
theorem any_files_iff {files : List (List String × String)} {place : List String} :
    (files.any fun file => place.isPrefixOf file.1 && place ≠ file.1) = true ↔
      ∃ other ∈ files.map (·.1), place <+: other ∧ place ≠ other := by
  simp [List.any_eq_true]

/-- A file that is stored in a directory makes no directory. -/
theorem isDirectory_insert {directory : List String} {name : String} (text : String)
    (h : t.isDirectory directory = true) (place : List String) :
    (t.insert (directory ++ [name]) text).isDirectory place = t.isDirectory place := by
  have hcases : ∀ files, FileTree.isDirectory { t with files } place = true ↔
      (place.isPrefixOf t.here || t.directories.any place.isPrefixOf) = true ∨
        ∃ other ∈ files.map (·.1), place <+: other ∧ place ≠ other := by
    intro files
    rw [isDirectory, Bool.or_eq_true, any_files_iff]
  rw [Bool.eq_iff_iff, insert, hcases, hcases t.files]
  constructor
  · rintro (hold | ⟨other, hmem, hprefix, hne⟩)
    · exact Or.inl hold
    · rcases mem_map_store.1 hmem with rfl | hfile
      · -- A place on the way to the stored file is on the way to its directory.
        have hbefore : place <+: directory := by
          rcases List.prefix_concat_iff.1 hprefix with heq | hbefore
          · exact absurd heq hne
          · exact hbefore
        exact (hcases t.files).1 (isDirectory_of_before h hbefore)
      · exact Or.inr ⟨other, hfile, hprefix, hne⟩
  · rintro (hold | ⟨other, hfile, hprefix, hne⟩)
    · exact Or.inl hold
    · exact Or.inr ⟨other, mem_map_store.2 (Or.inr hfile), hprefix, hne⟩

/-! ## Following a path -/

/-- Names are followed one after the other. -/
theorem follow_append {place : List String} {front back : List String} :
    t.follow place (front ++ back) =
      (t.follow place front).bind fun next => t.follow next back := by
  induction front generalizing place with
  | nil => rfl
  | cons name front ih =>
    simp only [List.cons_append, follow]
    split
    · split
      · rfl
      · exact ih
    · split <;> rfl

/-- A path leads where it led before a file was stored in a directory. -/
theorem follow_insert {directory : List String} {name : String} (text : String)
    (h : t.isDirectory directory = true) {place names reached : List String} :
    (t.insert (directory ++ [name]) text).follow place names = .ok reached ↔
      t.follow place names = .ok reached := by
  induction names generalizing place with
  | nil => rfl
  | cons next names ih =>
    simp only [follow, isDirectory_insert text h]
    by_cases hplace : t.isDirectory place = true
    · simp only [if_pos hplace]
      by_cases hsize : nameLimit < byteSize next
      · simp only [if_pos hsize]
      · simp only [if_neg hsize, ih]
    · -- The fault may differ, since the stored file may stand in the way.
      simp only [if_neg hplace]
      split <;> split <;> simp

/-- The names on the way of a written path, and where they are followed from. -/
theorem placeOf_eq_ok_iff {path : String} {place : List String} :
    t.placeOf path = .ok place ↔
      t.follow (if PathStart.ofChars path.toList = .here then t.here else [])
          ((Text.parts '/' path.toList).map String.ofList) = .ok place ∧
        FileTree.encodingFault? 0 (Text.codePoints path.toList) = none ∧
        '\x00' ∉ path.toList ∧ path ≠ "" ∧ ¬pathLimit < byteSize path := by
  unfold placeOf
  cases hencoding : encodingFault? 0 (Text.codePoints path.toList) with
  | some fault => simp
  | none =>
    by_cases hterminator : '\x00' ∈ path.toList
    · simp [hterminator]
    · by_cases hempty : path = ""
      · simp [hempty]
      · by_cases hsize : pathLimit < byteSize path
        · simp [hterminator, hempty, hsize]
        · simp only [if_neg hterminator, if_neg hempty, if_neg hsize]
          exact ⟨fun h => ⟨h, trivial, hterminator, hempty, hsize⟩, fun h => h.1⟩

/-- A file is written where its path leads, if no directory is there. -/
theorem target_eq_ok_iff {path : String} {place : List String} :
    t.target path = .ok place ↔ t.placeOf path = .ok place ∧ t.isDirectory place = false := by
  unfold target
  cases hplace : t.placeOf path with
  | error fault => simp [bind, Except.bind]
  | ok reached =>
    simp only [bind, Except.bind, Except.ok.injEq]
    by_cases hdirectory : t.isDirectory reached = true
    · simp only [if_pos hdirectory]
      constructor
      · intro h
        contradiction
      · rintro ⟨rfl, hfile⟩
        rw [hdirectory] at hfile
        contradiction
    · simp only [if_neg hdirectory, pure, Except.pure, Except.ok.injEq]
      constructor
      · rintro rfl
        exact ⟨rfl, by simpa using hdirectory⟩
      · exact fun h => h.1

/-- The last name of a path is followed from a directory. -/
theorem follow_concat_eq_ok {place reached : List String} {front : List String} {name : String}
    (h : t.follow place (front ++ [name]) = .ok reached) :
    ∃ directory, t.isDirectory directory = true ∧ reached = child directory name := by
  rw [follow_append] at h
  cases hfront : t.follow place front with
  | error fault => simp [hfront, Except.bind] at h
  | ok directory =>
    simp only [hfront, Except.bind, follow] at h
    split at h
    · next hdirectory =>
      split at h
      · contradiction
      · exact ⟨directory, hdirectory, (Except.ok.inj h).symm⟩
    · split at h <;> contradiction

/-- A name that leads to no directory leads on from where it is followed. -/
theorem child_eq_concat {directory : List String} {name : String}
    (h : t.isDirectory directory = true) (hfile : ¬t.isDirectory (child directory name) = true) :
    child directory name = directory ++ [name] := by
  unfold child at hfile ⊢
  split
  · next hstays => exact absurd (by rwa [if_pos hstays]) hfile
  · next hstays =>
    split
    · next hback =>
      rw [if_neg hstays, if_pos hback] at hfile
      exact absurd (isDirectory_of_before h (List.dropLast_prefix _)) hfile
    · rfl

/-- A file is written into a directory, under the last name of its path. -/
theorem target_eq_ok {path : String} {place : List String} (h : t.target path = .ok place) :
    ∃ directory name, ((Text.parts '/' path.toList).map String.ofList).getLast? = some name ∧
      place = directory ++ [name] ∧ t.isDirectory directory = true := by
  rcases target_eq_ok_iff.1 h with ⟨hplace, hfile⟩
  have hnames : (Text.parts '/' path.toList).map String.ofList ≠ [] := by
    simpa using Text.parts_ne_nil '/' path.toList
  have hfollow := (placeOf_eq_ok_iff.1 hplace).1
  rw [← List.dropLast_concat_getLast hnames] at hfollow
  rcases follow_concat_eq_ok hfollow with ⟨directory, hdirectory, rfl⟩
  exact ⟨directory, _, List.getLast?_eq_some_getLast hnames,
    child_eq_concat hdirectory (Bool.eq_false_iff.1 hfile), hdirectory⟩

/-! ## Writing and reading -/

/-- A file that was written takes the place of no other path, and gives none a place. -/
theorem target_insert {path other : String} {place written : List String} (text : String)
    (hwritten : t.target other = .ok written) :
    (t.insert written text).target path = .ok place ↔ t.target path = .ok place := by
  rcases target_eq_ok hwritten with ⟨directory, name, -, rfl, hdirectory⟩
  have hhere : (t.insert (directory ++ [name]) text).here = t.here := rfl
  rw [target_eq_ok_iff, target_eq_ok_iff, placeOf_eq_ok_iff, placeOf_eq_ok_iff, hhere,
    follow_insert text hdirectory, isDirectory_insert text hdirectory]

/-- What is read under a path that a file can be written under. -/
theorem read_eq_of_target {path : String} {place : List String} (h : t.target path = .ok place) :
    t.read path = match t.find? place with
      | some text => .ok text
      | none => .error .fileMissing := by
  rcases target_eq_ok_iff.1 h with ⟨hplace, hfile⟩
  unfold read
  rw [hplace]
  simp only [bind, Except.bind, hfile]
  cases t.find? place with
  | none => rfl
  | some text => rfl

/-- Files were written under some paths: every path leads where it led before, and at other places
nothing has changed. -/
structure Rewrites (before after : FileTree) (paths : List String) : Prop where
  target_iff : ∀ {path : String} {place : List String},
    after.target path = .ok place ↔ before.target path = .ok place
  find?_eq : ∀ {place : List String}, (∀ path ∈ paths, before.target path ≠ .ok place) →
    after.find? place = before.find? place

/-- Files that were written in two steps were written under the paths of both. -/
theorem Rewrites.trans {before middle after : FileTree} {first second : List String}
    (hfirst : before.Rewrites middle first) (hsecond : middle.Rewrites after second) :
    before.Rewrites after (first ++ second) := by
  constructor
  case target_iff =>
    intro path place
    rw [hsecond.target_iff, hfirst.target_iff]
  case find?_eq =>
    intro place hplace
    have hold : ∀ path ∈ first, before.target path ≠ .ok place :=
      fun path hpath => hplace path (List.mem_append_left second hpath)
    have hnew : ∀ path ∈ second, middle.target path ≠ .ok place := by
      intro path hpath htarget
      exact hplace path (List.mem_append_right first hpath) (hfirst.target_iff.1 htarget)
    rw [hsecond.find?_eq hnew, hfirst.find?_eq hold]

/-- What is read under a path does not change unless a file is written at its place. -/
theorem Rewrites.read_eq {before after : FileTree} {paths : List String} {path : String}
    {place : List String} (h : before.Rewrites after paths)
    (hplace : before.target path = .ok place)
    (hother : ∀ written ∈ paths, before.target written ≠ .ok place) :
    after.read path = before.read path := by
  rw [read_eq_of_target hplace, read_eq_of_target (h.target_iff.2 hplace), h.find?_eq hother]

/-- A file can be written under a path that leads to a place for it. -/
theorem write_of_target {path : String} {place : List String} (text : String)
    (h : t.target path = .ok place) : t.write path text = .ok (t.insert place text) := by
  rw [write, h]
  rfl

/-- A file that was written had a place. -/
theorem exists_target_of_write {after : FileTree} {path text : String}
    (h : t.write path text = .ok after) : ∃ place, t.target path = .ok place := by
  cases hplace : t.target path with
  | error fault => simp [write, hplace, Except.map] at h
  | ok place => exact ⟨place, rfl⟩

/-- A text that was written under a path is read under it, and nothing else has changed. -/
theorem write_eq_ok {after : FileTree} {path text : String} (h : t.write path text = .ok after) :
    after.read path = .ok text ∧ t.Rewrites after [path] := by
  rcases exists_target_of_write h with ⟨place, hplace⟩
  rw [write_of_target text hplace] at h
  cases h
  have hafter : (t.insert place text).target path = .ok place :=
    (target_insert text hplace).2 hplace
  constructor
  · rw [read_eq_of_target hafter, find?_insert_self]
  · refine ⟨target_insert text hplace, ?_⟩
    intro other hother
    have hne : other ≠ place := by
      rintro rfl
      exact hother path List.mem_cons_self hplace
    exact find?_insert_of_ne hne

/-! ## Paths with one beginning -/

/-- Files that are written under one beginning have names with one stem. -/
theorem exists_stem (t : FileTree) (beginning : String) :
    ∃ stem : String, ∀ {ending : String} {place : List String}, '/' ∉ ending.toList →
      t.target (beginning ++ ending) = .ok place → place.getLast? = some (stem ++ ending) := by
  rcases Text.exists_parts_append '/' beginning.toList with ⟨front, last, hparts⟩
  refine ⟨String.ofList last, ?_⟩
  intro ending place hending h
  rcases target_eq_ok h with ⟨directory, name, hname, rfl, -⟩
  rw [String.toList_append, hparts ending.toList hending] at hname
  have hlast : name = String.ofList last ++ ending := by
    have heq : String.ofList (last ++ ending.toList) = name := by simpa using hname
    rw [← heq, String.ofList_append, String.ofList_toList]
  rw [List.getLast?_concat, hlast]

/-- Files that are written under one beginning and different endings have different places. -/
theorem target_ne {beginning ending other : String} {place written : List String}
    (hending : '/' ∉ ending.toList) (hother : '/' ∉ other.toList) (hne : ending ≠ other)
    (h : t.target (beginning ++ ending) = .ok place)
    (hwritten : t.target (beginning ++ other) = .ok written) : place ≠ written := by
  rintro rfl
  rcases t.exists_stem beginning with ⟨stem, hstem⟩
  have hlast : some (stem ++ ending) = some (stem ++ other) := by
    rw [← hstem hending h, hstem hother hwritten]
  exact hne (String.append_right_inj stem |>.1 (Option.some.inj hlast))

/-- What is read under a path does not change as files under the same beginning and other endings
are written. -/
theorem Rewrites.read_ending {before after : FileTree} {beginning ending : String}
    {endings : List String} {place : List String}
    (h : before.Rewrites after (endings.map (beginning ++ ·)))
    (hending : '/' ∉ ending.toList) (hendings : ∀ other ∈ endings, '/' ∉ other.toList)
    (hnot : ending ∉ endings) (hplace : before.target (beginning ++ ending) = .ok place) :
    after.read (beginning ++ ending) = before.read (beginning ++ ending) := by
  apply h.read_eq hplace
  intro written hwritten htarget
  rcases List.mem_map.1 hwritten with ⟨other, hother, rfl⟩
  have hne : ending ≠ other := fun heq => hnot (heq ▸ hother)
  exact target_ne hending (hendings other hother) hne hplace htarget rfl

end FileTree
end ImemReplay
