import ItemComposition.Proofs.Storage.RegularFiles
import ItemComposition.Proofs.Storage.Turns

/-!
# What goes wrong with a template file

A full refresh inspects a file whose key is stored, and reads and parses it unless the key has a stamp
after its last change. What goes wrong with a file depends on the directory and on this stamp alone
(`fault?`).

## Key results

- `FileTree.read_of_modified`: what cannot be inspected cannot be read
- `LocalStorage.exists_fault?_iff`: a file fails exactly if it is looked at and broken
-/

namespace ItemComposition

open Cache

/-! ## What cannot be inspected -/

/-- The last name in a path that ends neither in a slash nor in a dot is one that leads down. -/
theorem FilePath.exists_ofText_concat {path : String} {before : List Char} {c : Char}
    (hPath : path.toList = before ++ [c]) (hSlash : c ≠ '/') (hDot : c ≠ '.') :
    ∃ names name, FilePath.ofText path = names ++ [name] ∧ name ≠ ".." := by
  -- a name with this character in it is not empty and does not consist of dots
  have hProper : ∀ name : String, c ∈ name.toList → name ≠ "" ∧ name ≠ "." ∧ name ≠ ".." := by
    intro name hMem
    refine ⟨?_, ?_, ?_⟩ <;> rintro rfl <;> simp at hMem
    · exact hDot hMem
    · exact hDot hMem
  by_cases hBelow : '/' ∈ path.toList.reverse
  · obtain ⟨last, front, hSplit, hPlain⟩ := List.eq_append_cons_of_mem hBelow
    have hLast : c ∈ last := by
      cases last with
      | nil => simp [hPath, hSlash] at hSplit
      | cons d rest =>
        rw [hPath, List.reverse_append, List.cons_append] at hSplit
        have hHead := (List.cons.inj hSplit).1
        rw [hHead]
        exact List.mem_cons_self
    have hChars : path.toList = (String.ofList front.reverse).toList ++
        '/' :: (String.ofList last.reverse).toList := by
      rw [String.toList_ofList, String.toList_ofList, ← List.reverse_reverse path.toList, hSplit]
      simp
    have hName : c ∈ (String.ofList last.reverse).toList := by simpa using hLast
    obtain ⟨hEmpty, hHere, hUp⟩ := hProper _ hName
    refine ⟨ofText (String.ofList front.reverse), _, ?_, hUp⟩
    rw [ofText_append_slash hChars, ofText_name (by simpa using hPlain) hEmpty hHere]
  · have hName : c ∈ path.toList := by simp [hPath]
    obtain ⟨hEmpty, hHere, hUp⟩ := hProper _ hName
    exact ⟨[], path, ofText_name (by simpa using hBelow) hEmpty hHere, hUp⟩

/-- What cannot be inspected cannot be read. -/
theorem FileTree.read_of_modified {tree : FileTree} {path : String} {before : List Char} {c : Char}
    {fault : FileFault} (hPath : path.toList = before ++ [c]) (hSlash : c ≠ '/') (hDot : c ≠ '.')
    (h : tree.modified path = .error fault) : ∃ fault', tree.read path = .error fault' := by
  obtain ⟨names, name, hNames, hUp⟩ := FilePath.exists_ofText_concat hPath hSlash hDot
  have hEmpty : path ≠ "" := by
    rintro rfl
    simp at hPath
  -- the way to the entry itself is the way that is read along, but for the last name
  suffices hResolve : ∃ fault', tree.resolve path = .error fault' by
    obtain ⟨fault', hResolve⟩ := hResolve
    exact ⟨fault', by rw [FileTree.read, hResolve]⟩
  rw [FileTree.resolve, if_neg hEmpty, hNames]
  rcases tree.walk_concat_cases maxLinks (tree.start path) names name with
    ⟨fault', -, hWhole⟩ | ⟨place, hPlace, ⟨-, -, -, -, hWhole⟩ | ⟨left, hWhole⟩⟩
  · exact ⟨fault', hWhole⟩
  · exact ⟨_, hWhole⟩
  · have hEntry : tree.placeOf path = .ok (place ++ [name]) := by
      unfold FileTree.placeOf
      rw [hNames]
      simp only [List.getLast?_concat, List.dropLast_concat, hPlace]
    rw [FileTree.modified, hEntry] at h
    dsimp only at h
    cases hFind : tree.find? (place ++ [name]) with
    | none => exact ⟨.notFound, by rw [hWhole, walk, if_neg hUp, hFind]⟩
    | some entry =>
      rw [hFind] at h
      cases h

namespace LocalStorage

variable {ν σ : Type} {s : LocalStorage ν σ} {file : TemplateFile}
variable {w : Workplace String ν σ} {store : BackgroundStore String ν}

theorem HasFile.read_of_modified (h : s.HasFile w.surroundings file) {fault : FileFault}
    (hModified : (s.files w.surroundings).modified file.path = .error fault) :
    ∃ fault', (s.files w.surroundings).read file.path = .error fault' := by
  obtain ⟨-, -, -, -, -, -, hPath⟩ := hasFile_iff.1 h
  -- the path ends as the name does
  obtain ⟨front, hFront⟩ : ∃ front : String, file.path = front ++ file.name := by
    rw [hPath, FilePath.below]
    split
    · exact ⟨_, rfl⟩
    · exact ⟨_, rfl⟩
  have hChars : file.path.toList =
      (front.toList ++ file.id.toList ++ ['.', 'y', 'a', 'm']) ++ ['l'] := by
    rw [hFront, String.toList_append, TemplateFile.toList_name]
    simp [templateExtension]
  exact FileTree.read_of_modified hChars (by decide) (by decide) hModified

/-! ## What goes wrong with a file -/

/-- A key is stored under a stamp that is later than the last change of its file. -/
def Stands (s : LocalStorage ν σ) (w : Workplace String ν σ) (store : BackgroundStore String ν)
    (file : TemplateFile) : Prop :=
  ∃ e, store.find? file.id = some e ∧ s.IsCurrent w file e.stamp

/-- A file cannot be inspected, or not be read, or not be parsed. -/
def Broken (s : LocalStorage ν σ) (x : σ) (file : TemplateFile) : Prop :=
  (∃ fault, (s.files x).modified file.path = .error fault) ∨
    (∃ fault, (s.files x).read file.path = .error fault) ∨
    ∃ bytes cause, (s.files x).read file.path = .ok bytes ∧ (s.parse bytes x).1 = .error cause

/-- What goes wrong when a file is loaded, if anything. -/
def loadFault? (s : LocalStorage ν σ) (x : σ) (file : TemplateFile) : Option StorageError :=
  match (s.files x).read file.path with
  | .error fault => some (.file .readFile file.path fault)
  | .ok bytes =>
    match (s.parse bytes x).1 with
    | .error cause => some (.parse file.id cause)
    | .ok _ => none

/-- What goes wrong with a file whose key has a stamp or none, if anything. Only a file whose key is
stored is inspected, and one that was not changed since is not loaded. -/
def fault? (s : LocalStorage ν σ) (x : σ) (stamp : Option Int) (file : TemplateFile) :
    Option StorageError :=
  match stamp with
  | none => s.loadFault? x file
  | some old =>
    match (s.files x).modified file.path with
    | .error fault => some (.file .inspect file.path fault)
    | .ok modified => if modified < old then none else s.loadFault? x file

theorem not_stands_iff : ¬s.Stands w store file ↔
    ∀ old, store.lastUpdated? file.id = some old → ¬s.IsCurrent w file old := by
  unfold Stands BackgroundStore.lastUpdated?
  cases store.find? file.id <;> simp

/-- A file of the directory fails exactly if it has to be looked at and is broken. -/
theorem exists_fault?_iff (h : s.HasFile w.surroundings file) :
    (∃ error, s.fault? w.surroundings (store.lastUpdated? file.id) file = some error) ↔
      ¬s.Stands w store file ∧ s.Broken w.surroundings file := by
  -- what cannot be inspected fails to load as well
  have hLoad : (∃ error, s.loadFault? w.surroundings file = some error) ↔
      s.Broken w.surroundings file := by
    unfold loadFault? Broken
    cases hRead : (s.files w.surroundings).read file.path with
    | error fault => simp
    | ok bytes =>
      have hModified : ∀ fault, (s.files w.surroundings).modified file.path ≠ .error fault := by
        intro fault hFault
        obtain ⟨fault', hError⟩ := h.read_of_modified hFault
        cases hRead.symm.trans hError
      cases hParse : (s.parse bytes w.surroundings).1 <;> simp [hModified, hParse]
  unfold fault?
  cases hStored : store.lastUpdated? file.id with
  | none =>
    have hNot : ¬s.Stands w store file := not_stands_iff.2 fun old hOld => by
      cases hStored.symm.trans hOld
    simp [hNot, hLoad]
  | some old =>
    have hStands : s.Stands w store file ↔ s.IsCurrent w file old := by
      rw [← not_iff_not, not_stands_iff, hStored]
      simp
    rw [hStands, IsCurrent]
    cases hModified : (s.files w.surroundings).modified file.path with
    | error fault => simp [Broken, hModified]
    | ok modified =>
      by_cases hCurrent : modified < old
      · simp [hCurrent]
      · simp [hCurrent, hLoad]

/-- A file of the directory that can be read and parsed is not broken. -/
theorem HasFile.not_broken (h : s.HasFile w.surroundings file) {bytes : List UInt8} {value : ν}
    (hRead : (s.files w.surroundings).read file.path = .ok bytes)
    (hParse : (s.parse bytes w.surroundings).1 = .ok value) : ¬s.Broken w.surroundings file := by
  rintro (⟨fault, hFault⟩ | ⟨fault, hFault⟩ | ⟨bytes', cause, hBytes, hCause⟩)
  · obtain ⟨fault', hError⟩ := h.read_of_modified hFault
    cases hRead.symm.trans hError
  · cases hRead.symm.trans hFault
  · obtain rfl := Except.ok.inj (hRead.symm.trans hBytes)
    cases hParse.symm.trans hCause

end LocalStorage

end ItemComposition
