import ItemComposition.Storage.Local

/-!
# Template files and their keys

The template files of a directory are its entries under a key and a fixed extension. A tree holds
each place once, and so do its operations leave it; the names in a directory are then distinct, and
so are the keys of its template files.

## Key results

- `FileTree.Distinct.put`, `FileTree.Distinct.touch`, `FileTree.Distinct.remove`: each place once
- `splitExtension_eq_some`, `splitExtension_of_toList`: a name is its stem, a dot and its extension
- `LocalStorage.mem_templateFiles_iff`: which the template files are
- `LocalStorage.nodup_templateFiles`: each key once
-/

namespace ItemComposition

namespace FileTree

variable {tree : FileTree}

/-- Each place is in the tree once. -/
def Distinct (tree : FileTree) : Prop := (tree.all.map FileEntry.path).Nodup

theorem distinct_empty (home : FilePath) : (empty home).Distinct := List.nodup_nil

theorem Distinct.insert (h : tree.Distinct) (entry : FileEntry) : (tree.insert entry).Distinct := by
  have hOthers : ((tree.all.filter (·.path ≠ entry.path)).map FileEntry.path).Nodup :=
    h.sublist (List.filter_sublist.map _)
  simp only [Distinct, FileTree.insert, List.map_append, List.map_cons, List.map_nil]
  rw [List.nodup_append]
  refine ⟨hOthers, List.pairwise_singleton _ _, ?_⟩
  intro place hPlace other hOther
  obtain ⟨e, he, rfl⟩ := List.mem_map.1 hPlace
  rw [List.mem_singleton.1 hOther]
  exact of_decide_eq_true (List.mem_filter.1 he).2

theorem Distinct.makeDirectories (h : tree.Distinct) (path : FilePath) (time : Int) :
    (tree.makeDirectories path time).Distinct := by
  unfold FileTree.makeDirectories
  generalize (List.range path.length).map (fun n => path.take (n + 1)) = places
  induction places generalizing tree with
  | nil => exact h
  | cons place rest ih =>
    rw [List.foldl_cons]
    split
    · exact ih h
    · exact ih (h.insert _)

theorem Distinct.put (h : tree.Distinct) (path : String) (node : FileNode) (time : Int) :
    (tree.put path node time).Distinct := by
  unfold FileTree.put
  cases node with
  | directory => exact h.makeDirectories _ time
  | file bytes => exact (h.makeDirectories _ time).insert _
  | link target => exact (h.makeDirectories _ time).insert _

theorem Distinct.touch (h : tree.Distinct) (path : String) (time : Int) :
    (tree.touch path time).Distinct := by
  unfold FileTree.touch
  split
  · exact h
  · rename_i place _
    have hPaths : (tree.all.map fun e => if e.path = place then { e with modified := time } else e).map
        FileEntry.path = tree.all.map FileEntry.path := by
      rw [List.map_map]
      refine List.map_congr_left fun e _ => ?_
      by_cases hPlace : e.path = place <;> simp [hPlace]
    rw [Distinct, hPaths]
    exact h

theorem Distinct.remove (h : tree.Distinct) (path : String) : (tree.remove path).Distinct :=
  h.sublist (List.filter_sublist.map _)

/-- The place of an entry of a directory is below that of the directory. -/
theorem path_of_entry {place : FilePath} {e : FileEntry} {found : String × FileEntry}
    (h : (if e.path.length = place.length + 1 && place.isPrefixOf e.path then
      e.path.getLast?.map fun name => (name, e) else none) = some found) :
    e.path = place ++ [found.1] := by
  split at h
  · rename_i hBelow
    rw [Bool.and_eq_true, decide_eq_true_eq, List.isPrefixOf_iff_prefix] at hBelow
    obtain ⟨hLength, below, hPath⟩ := hBelow
    rw [← hPath, List.length_append, Nat.add_left_cancel_iff] at hLength
    obtain ⟨name, rfl⟩ := List.length_eq_one_iff.1 hLength
    rw [← hPath, List.getLast?_concat, Option.map_some, Option.some.injEq] at h
    rw [← hPath, ← h]
  · cases h

/-- The names in a directory are distinct. -/
theorem Distinct.nodup_entries (distinct : tree.Distinct) {path : String}
    {found : List (String × FileEntry)} (h : tree.entries path = .ok found) :
    (found.map Prod.fst).Nodup := by
  unfold entries at h
  split at h
  · cases h
  split at h
  · cases h
  rw [Except.ok.injEq] at h
  rw [← h, List.Nodup, List.pairwise_map, List.pairwise_filterMap]
  refine (List.pairwise_map.1 distinct).imp ?_
  intro a b hPaths x hx y hy hNames
  -- two entries of one name have one path, which is the directory's with that name
  rw [path_of_entry hx, path_of_entry hy, hNames] at hPaths
  exact hPaths rfl

end FileTree

/-! ## Names -/

/-- A name with an extension is what is before the last dot, the dot and the extension. -/
theorem splitExtension_eq_some {name stem ext : String}
    (h : splitExtension name = some (stem, ext)) :
    stem ≠ "" ∧ name.toList = stem.toList ++ '.' :: ext.toList := by
  unfold splitExtension at h
  generalize hBack : name.toList.reverse = back at h
  dsimp only at h
  split at h
  · cases h
  rename_i hStem
  rw [Option.some.injEq, Prod.mk.injEq] at h
  obtain ⟨rfl, rfl⟩ := h
  rw [Bool.or_eq_true, not_or] at hStem
  have hSplit := List.takeWhile_append_dropWhile (p := (· ≠ '.')) (l := back)
  generalize back.takeWhile (· ≠ '.') = last at hStem hSplit ⊢
  cases hRest : back.dropWhile (· ≠ '.') with
  | nil =>
    -- without a dot nothing is before the extension
    rw [hRest, List.append_nil] at hSplit
    simp [hSplit] at hStem
  | cons dot before =>
    have hDot : dot = '.' := by
      have hHead := List.head?_dropWhile_not (· ≠ '.') back
      rw [hRest] at hHead
      simpa using hHead
    rw [hRest] at hSplit
    have hName : name.toList = back.reverse := by rw [← hBack, List.reverse_reverse]
    rw [hName, ← hSplit, hDot]
    rw [← hSplit] at hStem
    constructor
    · rw [Ne, ← String.toList_inj]
      simpa using hStem.1
    · simp

/-- What is before a dot and an extension without dots is the stem of a name. -/
theorem splitExtension_of_toList {name stem ext : String}
    (h : name.toList = stem.toList ++ '.' :: ext.toList) (hStem : stem ≠ "")
    (hExt : '.' ∉ ext.toList) (hNot : name ≠ "..") : splitExtension name = some (stem, ext) := by
  -- the extension is searched for from the end, so the name is looked at backwards
  have hBack : name.toList.reverse = ext.toList.reverse ++ '.' :: stem.toList.reverse := by
    rw [h]
    simp
  have hLast : (ext.toList.reverse ++ '.' :: stem.toList.reverse).takeWhile (· ≠ '.') =
      ext.toList.reverse := by
    rw [List.takeWhile_append_of_pos]
    · simp
    · intro c hc
      have hIn : c ∈ ext.toList := List.mem_reverse.1 hc
      exact decide_eq_true fun hDot => hExt (hDot ▸ hIn)
  have hDrop : (ext.toList.reverse ++ '.' :: stem.toList.reverse).drop
      (ext.toList.reverse.length + 1) = stem.toList.reverse := by
    rw [List.drop_append]
    simp
  have hSome : stem.toList.isEmpty = false := by
    rw [← Bool.not_eq_true, List.isEmpty_iff, String.toList_eq_nil_iff]
    exact hStem
  simp only [splitExtension, hBack, hLast, hDrop, List.reverse_reverse, hSome, hNot,
    decide_false, Bool.or_self, Bool.false_eq_true, if_false, String.ofList_toList]

/-- The template file that an entry is: no directory, and named by a key and the extension. -/
theorem TemplateFile.ofEntry?_eq_some_iff {directory : String} {entry : String × FileEntry}
    {file : TemplateFile} : TemplateFile.ofEntry? directory entry = some file ↔
      entry.2.node ≠ .directory ∧ file.id ≠ "" ∧
      entry.1.toList = file.id.toList ++ '.' :: templateExtension.toList ∧
      file.path = FilePath.below directory entry.1 := by
  constructor
  · intro h
    unfold TemplateFile.ofEntry? at h
    split at h
    · cases h
    · rename_i hSplit hNode
      split at h
      · rename_i hExt
        rw [Option.some.injEq] at h
        obtain ⟨hStem, hName⟩ := splitExtension_eq_some hSplit
        rw [hExt] at hName
        rw [← h]
        exact ⟨hNode, hStem, hName, rfl⟩
      · cases h
    · cases h
  · rintro ⟨hNode, hStem, hName, hPath⟩
    -- the only name that is refused for its dots has no letters
    have hNot : entry.1 ≠ ".." := by
      intro hDots
      have hLetter : 'y' ∈ entry.1.toList := by
        rw [hName]
        exact List.mem_append_right _ (by decide)
      rw [hDots] at hLetter
      exact absurd hLetter (by decide)
    have hSplit := splitExtension_of_toList hName hStem (by decide) hNot
    obtain ⟨id, path⟩ := file
    dsimp only at hPath hSplit
    subst hPath
    unfold TemplateFile.ofEntry?
    rw [hSplit]
    cases hKind : entry.2.node with
    | directory => exact absurd hKind hNode
    | file bytes => rfl
    | link target => rfl

/-! ## Directories -/

namespace LocalStorage

variable {ν σ : Type} {s : LocalStorage ν σ} {x : σ} {files : List TemplateFile}

/-- The directory holds a template file: any entry but a directory, under a key and the
extension. -/
def HasFile (s : LocalStorage ν σ) (x : σ) (file : TemplateFile) : Prop :=
  ∃ found name entry, (s.files x).entries s.directory = .ok found ∧ (name, entry) ∈ found ∧
    entry.node ≠ .directory ∧ file.id ≠ "" ∧
    name.toList = file.id.toList ++ '.' :: templateExtension.toList ∧
    file.path = FilePath.below s.directory name

/-- The template files are those that the directory holds. -/
theorem mem_templateFiles_iff (h : s.templateFiles x = .ok files) {file : TemplateFile} :
    file ∈ files ↔ s.HasFile x file := by
  unfold templateFiles at h
  split at h
  · cases h
  rename_i found hFound
  rw [Except.ok.injEq] at h
  -- sorting changes the order of the files, not which ones they are
  rw [← h, List.mem_mergeSort, List.mem_filterMap]
  constructor
  · rintro ⟨⟨name, entry⟩, hIn, hFile⟩
    exact ⟨found, name, entry, hFound, hIn, TemplateFile.ofEntry?_eq_some_iff.1 hFile⟩
  · rintro ⟨others, name, entry, hOthers, hIn, hFile⟩
    rw [hFound, Except.ok.injEq] at hOthers
    exact ⟨(name, entry), hOthers ▸ hIn, TemplateFile.ofEntry?_eq_some_iff.2 hFile⟩

/-- The keys of the template files of a directory are distinct. -/
theorem nodup_templateFiles (distinct : (s.files x).Distinct)
    (h : s.templateFiles x = .ok files) : (files.map TemplateFile.id).Nodup := by
  unfold templateFiles at h
  split at h
  · cases h
  rename_i found hFound
  rw [Except.ok.injEq] at h
  have hSorted := List.mergeSort_perm (found.filterMap (TemplateFile.ofEntry? s.directory))
    (fun a b => a.id ≤ b.id)
  rw [h] at hSorted
  rw [(hSorted.map _).nodup_iff, List.Nodup, List.pairwise_map, List.pairwise_filterMap]
  -- the identifier gives the name back, for the extension is always the same
  refine (List.pairwise_map.1 (distinct.nodup_entries hFound)).imp ?_
  intro a b hNames x hx y hy hKeys
  obtain ⟨-, -, ha, -⟩ := TemplateFile.ofEntry?_eq_some_iff.1 hx
  obtain ⟨-, -, hb, -⟩ := TemplateFile.ofEntry?_eq_some_iff.1 hy
  exact hNames (by rw [← String.toList_inj, ha, hb, hKeys])

/-- The template files are in ascending order of their keys. -/
theorem pairwise_templateFiles (distinct : (s.files x).Distinct)
    (h : s.templateFiles x = .ok files) : files.Pairwise fun a b => a.id < b.id := by
  have hNodup := nodup_templateFiles distinct h
  rw [List.Nodup, List.pairwise_map] at hNodup
  have hSorted : files.Pairwise fun a b => decide (a.id ≤ b.id) = true := by
    unfold templateFiles at h
    split at h
    · cases h
    · rw [Except.ok.injEq] at h
      rw [← h]
      refine List.pairwise_mergeSort (fun a b c hab hbc => ?_) (fun a b => ?_) _
      · exact decide_eq_true (String.le_trans (of_decide_eq_true hab) (of_decide_eq_true hbc))
      · simpa using String.le_total a.id b.id
  refine hSorted.imp₂ (fun a b hLe hNe => String.not_le.1 fun hGe => ?_) hNodup
  exact hNe (String.le_antisymm (of_decide_eq_true hLe) hGe)

end LocalStorage

end ItemComposition
