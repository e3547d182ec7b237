import ItemComposition.Proofs.Storage.Edits

/-!
# Regular files in a directory

The path of a file below a directory leads to the place of the file in the place of the directory, if
no link lies there: what is read and what is inspected is then the entry at that place. An edit
elsewhere, which leaves the directory where it is, leaves the file as it is; an edit at the place is
one that the time of the file tells of.

## Key results

- `FilePath.ofText_below`, `FileTree.walk_concat`: paths below a directory
- `FileTree.RegularAt.read`, `FileTree.RegularAt.placeOf`: the entry at the place
- `RegularEdit.alike`, `RegularEdit.hasFile`, `RegularEdit.told`: what an edit does to the file
-/

namespace ItemComposition

open Cache

namespace FilePath

theorem ofText_append_slash {path directory name : String}
    (hPath : path.toList = directory.toList ++ '/' :: name.toList) :
    ofText path = ofText directory ++ ofText name := by
  rw [ofText, hPath, List.splitOn_append_cons_self, List.map_append, List.filter_append]
  rfl

theorem ofText_name {name : String} (plain : '/' ∉ name.toList) (hEmpty : name ≠ "")
    (hDot : name ≠ ".") : ofText name = [name] := by
  rw [ofText, List.splitOn_eq_singleton plain]
  simp [hEmpty, hDot]

/-- The names in a path below a directory. -/
theorem ofText_below {name : String} (directory : String) (plain : '/' ∉ name.toList)
    (hEmpty : name ≠ "") (hDot : name ≠ ".") :
    ofText (below directory name) = ofText directory ++ [name] := by
  rw [← ofText_name plain hEmpty hDot]
  unfold below
  split
  · rename_i h
    rw [Bool.or_eq_true, decide_eq_true_eq, decide_eq_true_eq] at h
    rcases h with rfl | hSlash
    · rw [String.empty_append]
      rfl
    · -- the slash at the end separates nothing
      obtain ⟨before, hBefore⟩ := List.getLast?_eq_some_iff.1 hSlash
      have hDirectory : directory.toList =
          (String.ofList before).toList ++ '/' :: "".toList := by
        rw [hBefore, String.toList_ofList]
        rfl
      have hBelow : (directory ++ name).toList =
          (String.ofList before).toList ++ '/' :: name.toList := by
        rw [String.toList_append, hBefore, String.toList_ofList, List.append_assoc]
        rfl
      have hNone : ofText "" = [] := by decide
      rw [ofText_append_slash hBelow, ofText_append_slash hDirectory, hNone, List.append_nil]
  · apply ofText_append_slash
    rw [String.toList_append, String.toList_append, List.append_assoc]
    rfl

theorem isAbsolute_below {directory : String} (name : String) (hEmpty : directory ≠ "") :
    isAbsolute (below directory name) = isAbsolute directory := by
  have hSome : directory.toList ≠ [] := fun hNil => hEmpty (String.toList_eq_nil_iff.1 hNil)
  obtain ⟨c, rest, hChars⟩ := List.exists_cons_of_ne_nil hSome
  unfold below isAbsolute
  split <;> simp [hChars]

end FilePath

namespace FileTree

variable {tree : FileTree}

/-- One name more: what stops the way stops it all the same, an end at a file is not the end any
more, and otherwise the way goes on from where it led to. -/
theorem walk_concat_cases (tree : FileTree) (links : Nat) (here : FilePath) (names : List String)
    (name : String) :
    (∃ fault, tree.walk links here names = .error fault ∧
      tree.walk links here (names ++ [name]) = .error fault) ∨
    ∃ place, tree.walk links here names = .ok place ∧
      ((∃ e bytes, tree.find? place = some e ∧ e.node = .file bytes ∧
        tree.walk links here (names ++ [name]) = .error .notDirectory) ∨
      ∃ left, tree.walk links here (names ++ [name]) = tree.walk left place [name]) := by
  induction links, here, names using FileTree.walk.induct tree with
  | case1 links here => exact .inr ⟨here, by rw [walk], .inr ⟨links, rfl⟩⟩
  | case2 links here rest ih =>
    rw [List.cons_append, walk, walk, if_pos rfl, if_pos rfl]
    exact ih
  | case3 links here first rest hUp hNone =>
    left
    refine ⟨.notFound, ?_, ?_⟩ <;> simp only [List.cons_append, walk, if_neg hUp, hNone]
  | case4 links here first rest hUp entry hEntry hDirectory ih =>
    rw [List.cons_append, walk, walk, if_neg hUp, if_neg hUp, hEntry]
    simp only [hDirectory]
    exact ih
  | case5 links here first rest hUp entry hEntry bytes hFile hLast =>
    -- the way ends at a file
    right
    obtain rfl := List.isEmpty_iff.1 hLast
    refine ⟨here ++ [first], ?_, .inl ⟨entry, bytes, hEntry, hFile, ?_⟩⟩ <;>
      simp [walk, if_neg hUp, hEntry, hFile]
  | case6 links here first rest hUp entry hEntry bytes hFile hMore =>
    left
    refine ⟨.notDirectory, ?_, ?_⟩ <;> rw [Bool.not_eq_true] at hMore <;>
      simp [walk, if_neg hUp, hEntry, hFile, hMore]
  | case7 here first rest hUp entry hEntry target hLink =>
    left
    refine ⟨.tooManyLinks, ?_, ?_⟩ <;> simp only [List.cons_append, walk, if_neg hUp, hEntry, hLink]
  | case8 here first rest hUp entry hEntry target hLink links start ih =>
    rw [List.cons_append, walk, walk, if_neg hUp, if_neg hUp, hEntry]
    simp only [hLink]
    rw [← List.append_assoc]
    exact ih

/-- One name more, after a way that does not end at a file. -/
theorem walk_concat {links : Nat} {here place : FilePath} {names : List String}
    (h : tree.walk links here names = .ok place)
    (hNode : ∀ e, tree.find? place = some e → e.node = .directory) (name : String) :
    ∃ left, tree.walk links here (names ++ [name]) = tree.walk left place [name] := by
  rcases tree.walk_concat_cases links here names name with
    ⟨fault, hError, -⟩ | ⟨other, hPlace, ⟨e, bytes, hEntry, hFile, -⟩ | hLeft⟩
  · cases hError.symm.trans h
  · obtain rfl := Except.ok.inj (hPlace.symm.trans h)
    cases (hNode e hEntry).symm.trans hFile
  · obtain rfl := Except.ok.inj (hPlace.symm.trans h)
    exact hLeft

/-- A name that can stand in a directory. -/
structure PlainName (name : String) : Prop where
  single : '/' ∉ name.toList
  ne_empty : name ≠ ""
  ne_here : name ≠ "."
  ne_up : name ≠ ".."

/-- A directory leads to a place, and under a name there is at most a regular file in it. -/
structure RegularAt (tree : FileTree) (directory : String) (place : FilePath) (name : String) :
    Prop where
  resolve : tree.resolve directory = .ok place
  isDirectory : ∀ e, tree.find? place = some e → e.node = .directory
  isFile : ∀ e, tree.find? (place ++ [name]) = some e → ∃ bytes, e.node = .file bytes

namespace RegularAt

variable {directory : String} {place : FilePath} {name : String}

theorem walk_directory (h : tree.RegularAt directory place name) : directory ≠ "" ∧
    tree.walk maxLinks (tree.start directory) (FilePath.ofText directory) = .ok place := by
  have hResolve := h.resolve
  unfold FileTree.resolve at hResolve
  split at hResolve
  · cases hResolve
  · exact ⟨‹_›, hResolve⟩

theorem start_below (h : tree.RegularAt directory place name) :
    tree.start (FilePath.below directory name) = tree.start directory := by
  rw [start, start, FilePath.isAbsolute_below name h.walk_directory.1]

/-- The file is inspected at its place. -/
theorem placeOf (h : tree.RegularAt directory place name) (plain : PlainName name) :
    tree.placeOf (FilePath.below directory name) = .ok (place ++ [name]) := by
  unfold FileTree.placeOf
  rw [FilePath.ofText_below directory plain.single plain.ne_empty plain.ne_here, h.start_below]
  simp only [List.getLast?_concat, List.dropLast_concat, h.walk_directory.2]

/-- The file is read at its place. -/
theorem read (h : tree.RegularAt directory place name) (plain : PlainName name) :
    tree.read (FilePath.below directory name) =
      match (tree.find? (place ++ [name])).map FileEntry.node with
      | some (.file bytes) => .ok bytes
      | _ => .error .notFound := by
  have hNames := FilePath.ofText_below directory plain.single plain.ne_empty plain.ne_here
  have hEmpty : FilePath.below directory name ≠ "" := by
    intro hEmpty
    have hNone : FilePath.ofText "" = [] := by decide
    rw [hEmpty, hNone] at hNames
    exact List.cons_ne_nil _ _ (List.append_eq_nil_iff.1 hNames.symm).2
  -- the path walks through the directory without a link, and the name is its last step
  obtain ⟨left, hWalk⟩ := walk_concat h.walk_directory.2 h.isDirectory name
  rw [FileTree.read, FileTree.resolve, if_neg hEmpty, hNames, h.start_below, hWalk, walk,
    if_neg plain.ne_up]
  cases hEntry : tree.find? (place ++ [name]) with
  | none => rfl
  | some e =>
    obtain ⟨bytes, hFile⟩ := h.isFile e hEntry
    simp [hFile, hEntry]

/-- What the directory holds under a name is what lies at its place. -/
theorem entries (h : tree.RegularAt directory place name) : ∃ found,
    tree.entries directory = .ok found ∧
      ∀ other e, (other, e) ∈ found ↔ e ∈ tree.all ∧ e.path = place ++ [other] := by
  refine ⟨tree.all.filterMap fun e =>
    if e.path.length = place.length + 1 && place.isPrefixOf e.path then
      e.path.getLast?.map fun name => (name, e)
    else none, ?_, fun other e => ?_⟩
  · rw [FileTree.entries, h.resolve]
    cases hEntry : tree.find? place with
    | none => simp only [Option.map_none, hEntry]
    | some e => simp only [Option.map_some, hEntry, h.isDirectory e hEntry]
  · rw [List.mem_filterMap]
    constructor
    · rintro ⟨e', he, hSome⟩
      -- the path of an entry is that of the directory with one name behind it
      have hPath := path_of_entry hSome
      obtain rfl : e' = e := by
        split at hSome
        · obtain ⟨last, -, hPair⟩ := Option.map_eq_some_iff.1 hSome
          exact (Prod.mk.inj hPair).2
        · cases hSome
      exact ⟨he, hPath⟩
    · rintro ⟨he, hPath⟩
      refine ⟨e, he, ?_⟩
      simp [hPath]

end RegularAt

/-- An edit that leaves a directory where it is, and at most a regular file under a name in it. -/
structure RegularEdit (tree : FileTree) (directory : String) (place : FilePath) (name : String)
    (entry : FileEntry) : Prop where
  before : tree.RegularAt directory place name
  after : (tree.insert entry).RegularAt directory place name

namespace RegularEdit

variable {directory : String} {place : FilePath} {name : String} {entry : FileEntry}

/-- An edit at another place leaves the file as it is. -/
theorem alike (h : tree.RegularEdit directory place name entry) (plain : PlainName name)
    (elsewhere : entry.path ≠ place ++ [name]) :
    tree.Alike (FilePath.below directory name) (tree.insert entry) := by
  have hSame := tree.find?_insert_of_ne elsewhere.symm
  refine ⟨?_, ?_⟩
  · rw [h.after.read plain, h.before.read plain, hSame]
  · rw [modified, modified, h.after.placeOf plain, h.before.placeOf plain]
    dsimp only
    rw [hSame]

/-- An edit at the place of the file is made at the entry that is inspected. -/
theorem told (h : tree.RegularEdit directory place name entry) (plain : PlainName name)
    (here : entry.path = place ++ [name]) : tree.Told entry (FilePath.below directory name) :=
  .inr (here ▸ h.after.placeOf plain)

/-- After an edit at another place the directory still holds the file. -/
theorem mem_entries (h : tree.RegularEdit directory place name entry)
    (elsewhere : entry.path ≠ place ++ [name]) {found : List (String × FileEntry)} {e : FileEntry}
    (hFound : tree.entries directory = .ok found) (he : (name, e) ∈ found) :
    ∃ found', (tree.insert entry).entries directory = .ok found' ∧ (name, e) ∈ found' := by
  obtain ⟨before, hBefore, hMem⟩ := h.before.entries
  obtain ⟨after, hAfter, hMem'⟩ := h.after.entries
  obtain rfl := Except.ok.inj (hFound.symm.trans hBefore)
  obtain ⟨hIn, hPath⟩ := (hMem name e).1 he
  refine ⟨after, hAfter, (hMem' name e).2 ⟨?_, hPath⟩⟩
  rw [insert, List.mem_append, List.mem_filter, hPath]
  exact .inl ⟨hIn, decide_eq_true elsewhere.symm⟩

end RegularEdit

end FileTree

/-! ## Template files -/

/-- The name of a template file in its directory. -/
def TemplateFile.name (file : TemplateFile) : String := file.id ++ "." ++ templateExtension

theorem TemplateFile.toList_name (file : TemplateFile) :
    file.name.toList = file.id.toList ++ '.' :: templateExtension.toList := by
  rw [name, String.toList_append, String.toList_append, List.append_assoc]
  rfl

/-- A key without a slash makes a name. -/
theorem TemplateFile.plainName {file : TemplateFile} (plain : '/' ∉ file.id.toList) :
    FileTree.PlainName file.name := by
  have hLetter : 'y' ∈ file.name.toList := by
    rw [toList_name]
    exact List.mem_append_right _ (by decide)
  have hShort : ∀ other : String, 'y' ∉ other.toList → file.name ≠ other := by
    rintro other hNot rfl
    exact hNot hLetter
  refine ⟨?_, hShort _ (by decide), hShort _ (by decide), hShort _ (by decide)⟩
  rw [toList_name, List.mem_append, not_or]
  exact ⟨plain, by decide⟩

/-- A directory holds a template file under its name. -/
theorem LocalStorage.hasFile_iff {ν σ : Type} {s : LocalStorage ν σ} {x : σ} {file : TemplateFile} :
    s.HasFile x file ↔ ∃ found entry, (s.files x).entries s.directory = .ok found ∧
      (file.name, entry) ∈ found ∧ entry.node ≠ .directory ∧ file.id ≠ "" ∧
      file.path = FilePath.below s.directory file.name := by
  constructor
  · rintro ⟨found, name, entry, hFound, hIn, hNode, hId, hName, hPath⟩
    obtain rfl : name = file.name := String.toList_injective (hName.trans file.toList_name.symm)
    exact ⟨found, entry, hFound, hIn, hNode, hId, hPath⟩
  · rintro ⟨found, entry, hFound, hIn, hNode, hId, hPath⟩
    exact ⟨found, file.name, entry, hFound, hIn, hNode, hId, file.toList_name, hPath⟩

variable {ε : Type} {engine : Engine ε} {directory : String} {place : FilePath} {entry : FileEntry}
variable {file : TemplateFile} {x y : Workspace ε}

/-- An edit at another place does not take the file from its directory. -/
theorem FileTree.RegularEdit.hasFile (h : x.files.RegularEdit directory place file.name entry)
    (elsewhere : entry.path ≠ place ++ [file.name]) (same : y.files = x.files.insert entry)
    (hFile : (engine.localStorage directory).HasFile x file) :
    (engine.localStorage directory).HasFile y file := by
  obtain ⟨found, e, hFound, he, rest⟩ := LocalStorage.hasFile_iff.1 hFile
  obtain ⟨found', hFound', he'⟩ := h.mem_entries elsewhere hFound he
  refine LocalStorage.hasFile_iff.2 ⟨found', e, ?_, he', rest⟩
  show y.files.entries directory = .ok found'
  rw [same, hFound']

end ItemComposition
