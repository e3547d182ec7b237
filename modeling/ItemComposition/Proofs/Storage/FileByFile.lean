import ItemComposition.Proofs.Storage.Edits
import ItemComposition.Proofs.Storage.Fates

/-!
# A full refresh, file by file

A full refresh of a directory that can be read and does not change has an effect on each of its files
that does not depend on the others. It reports one error for each file that failed, in the order of the
keys.

## Key results

- `LocalStorage.failures`: the files that fail and their errors
- `LocalStorage.full_file_by_file`: what a full refresh stores and reports
-/

namespace ItemComposition

open Cache

namespace LocalStorage

variable {ν σ : Type} {s : LocalStorage ν σ} {file : TemplateFile} {files : List TemplateFile}
variable {store : BackgroundStore String ν}

/-! ## The report -/

/-- The template files that fail, each with its error, in the order of the files. -/
def failures (s : LocalStorage ν σ) (x : σ) (store : BackgroundStore String ν)
    (files : List TemplateFile) : List (TemplateFile × StorageError) :=
  files.filterMap fun file =>
    (s.fault? x (store.lastUpdated? file.id) file).map fun error => (file, error)

variable {x : σ}

theorem map_snd_failures : (s.failures x store files).map Prod.snd =
    files.filterMap (fun file => s.fault? x (store.lastUpdated? file.id) file) := by
  simp [failures, List.map_filterMap, Option.map_map, Function.comp_def]

theorem mem_failures_iff {error : StorageError} : (file, error) ∈ s.failures x store files ↔
    file ∈ files ∧ s.fault? x (store.lastUpdated? file.id) file = some error := by
  simp only [failures, List.mem_filterMap, Option.map_eq_some_iff, Prod.mk.injEq]
  constructor
  · rintro ⟨other, hIn, e, hFault, rfl, rfl⟩
    exact ⟨hIn, hFault⟩
  · rintro ⟨hIn, hFault⟩
    exact ⟨file, hIn, error, hFault, rfl, rfl⟩

theorem pairwise_failures (h : files.Pairwise fun a b => a.id < b.id) :
    (s.failures x store files).Pairwise fun a b => a.1.id < b.1.id := by
  refine List.pairwise_filterMap.2 (h.imp fun hLt p hp q hq => ?_)
  obtain ⟨e, -, rfl⟩ := Option.map_eq_some_iff.1 hp
  obtain ⟨e', -, rfl⟩ := Option.map_eq_some_iff.1 hq
  exact hLt

/-- The answer to errors, by their number. -/
theorem collect_cases (errors : List StorageError) :
    (errors = [] → StorageError.collect errors = .ok ()) ∧
    (∀ error, errors = [error] → StorageError.collect errors = .error error) ∧
    (1 < errors.length → StorageError.collect errors = .error (.multiple errors)) := by
  refine ⟨?_, ?_, fun hMany => ?_⟩
  · rintro rfl
    rfl
  · rintro error rfl
    rfl
  · match errors with
    | [] => cases hMany
    | [error] => exact absurd hMany (by simp)
    | _ :: _ :: _ => rfl

/-- In a full refresh of a directory that can be read and does not change, the store keeps the value of
each file whose key has a stamp after the file's last change, and stamps it with the current time. Of the
other files it takes up, with the time from which they were read, what each one that can be read and
parsed is parsed to; those that cannot be inspected, read or parsed, and the keys of no file, stay as they
were. What is reported is nothing, or the error of the file that failed, or one error for each file that
failed, in ascending order of the keys. -/
theorem full_file_by_file {ε : Type} (engine : Engine ε) (directory : String)
    {w w' : Workplace String (List Instruction) (Workspace ε)}
    {store : BackgroundStore String (List Instruction)} {files : List TemplateFile}
    {trace : Refresh.Trace String (List Instruction) (Workspace ε) (Except StorageError Unit)}
    {answer : Except StorageError Unit} (distinct : w.surroundings.files.Distinct)
    (unbounded : w.store = .background store)
    (readable : (engine.localStorage directory).templateFiles w.surroundings = .ok files)
    (run : (engine.localStorage directory).full.RunsVia Workplace.Elapses w trace answer w') :
    ∃ store' failed, w'.store = .background store' ∧
      (∀ q ∈ trace, w.clock.wall ≤ q.2.clock.wall ∧ q.2.clock.wall ≤ w'.clock.wall) ∧
      (∀ file, (engine.localStorage directory).HasFile w.surroundings file →
        (∀ e, store.find? file.id = some e →
          (engine.localStorage directory).IsCurrent w file e.stamp →
          ∃ m, Refresh.Begins trace (stampNow file.id e.value) m ∧
            store'.find? file.id = some ⟨file.id, e.value, m.clock.wall⟩) ∧
        (¬(engine.localStorage directory).Stands w store file →
          (∀ bytes value, w.surroundings.files.read file.path = .ok bytes →
            (engine.parse bytes w.surroundings).1 = .ok value →
            ∃ m m', Refresh.Begins trace ((engine.localStorage directory).load file) m ∧
              Refresh.Begins trace ((engine.localStorage directory).readFile file) m' ∧
              m.clock.wall ≤ m'.clock.wall ∧
              store'.find? file.id = some ⟨file.id, value, m.clock.wall⟩) ∧
          ((engine.localStorage directory).Broken w.surroundings file →
            store'.find? file.id = store.find? file.id))) ∧
      (∀ key, (∀ file, (engine.localStorage directory).HasFile w.surroundings file → file.id ≠ key) →
        store'.find? key = store.find? key) ∧
      (∀ file error, (file, error) ∈ failed ↔
        (engine.localStorage directory).HasFile w.surroundings file ∧
        (engine.localStorage directory).fault? w.surroundings (store.lastUpdated? file.id) file =
          some error) ∧
      (∀ file, (∃ error, (file, error) ∈ failed) ↔
        (engine.localStorage directory).HasFile w.surroundings file ∧
        ¬(engine.localStorage directory).Stands w store file ∧
        (engine.localStorage directory).Broken w.surroundings file) ∧
      failed.Pairwise (fun a b => a.1.id < b.1.id) ∧
      (failed = [] → answer = .ok ()) ∧
      (∀ file error, failed = [(file, error)] → answer = .error error) ∧
      (1 < failed.length → answer = .error (.multiple (failed.map Prod.snd))) := by
  have hMem : ∀ file, file ∈ files ↔ (engine.localStorage directory).HasFile w.surroundings file :=
    fun file => mem_templateFiles_iff readable
  obtain ⟨store', hStore', hAnswer, hFates, hUntouched⟩ := fates_of_full (fun _ _ => rfl)
    engine.parse_congr unbounded readable (nodup_templateFiles distinct readable) run
  rw [← map_snd_failures] at hAnswer
  obtain ⟨hNone, hOne, hMany⟩ := collect_cases
    (((engine.localStorage directory).failures w.surroundings store files).map Prod.snd)
  rw [← hAnswer] at hNone hOne hMany
  refine ⟨store', (engine.localStorage directory).failures w.surroundings store files, hStore',
    fun q hq => run.wall_mem hq, fun file hFile => ?_, fun key hKey => ?_, fun file error => ?_,
    fun file => ?_, pairwise_failures (pairwise_templateFiles distinct readable), fun hEq => ?_,
    fun file error hEq => ?_, fun hLong => hMany (by rwa [List.length_map])⟩
  · have hFate := hFates file ((hMem file).2 hFile)
    exact ⟨fun e hStored hCurrent => hFate.of_current hFile hStored hCurrent,
      fun hNeeded => ⟨fun bytes value hRead hParse => hFate.of_parsed hFile hNeeded hRead hParse,
        hFate.of_broken hFile hNeeded⟩⟩
  · -- no file has the name, so no fate is about it
    refine hUntouched key fun hIn => ?_
    obtain ⟨file, hFile, hId⟩ := List.mem_map.1 hIn
    exact hKey file ((hMem file).1 hFile) hId
  · rw [mem_failures_iff, hMem]
  · simp only [mem_failures_iff, hMem, exists_and_left]
    exact and_congr_right fun hFile => exists_fault?_iff hFile
  · exact hNone (by rw [hEq]; rfl)
  · exact hOne error (by rw [hEq]; rfl)

end LocalStorage

/-! ## A directory with a link that leads nowhere

Two template files that hold an empty stream and a link between them. The first file is stored since
13, after its last change. At 20 there is a full refresh. -/

namespace Desk

open LocalStorage

/-- The three template files `card`, `gone` and `page`. -/
def mixed : FileTree where
  all := [⟨["t"], .directory, 0⟩, ⟨["t", "card.yaml"], .file [], 0⟩,
    ⟨["t", "gone.yaml"], .link "/away", 0⟩, ⟨["t", "page.yaml"], .file [], 0⟩]
  home := []

def mixedPlace : Workplace String (List Instruction) (Workspace Endpoint) :=
  ⟨⟨0, 20⟩, ⟨mixed, .empty⟩, .background stored⟩

theorem walk_mixed (links : Nat) (rest : List String) :
    mixed.walk links [] ("t" :: rest) = mixed.walk links ["t"] rest := by
  rw [FileTree.walk]
  simp [mixed, FileTree.find?]

theorem templateFiles_mixed : (parser.localStorage "t").templateFiles mixedPlace.surroundings =
    .ok [⟨"card", "t/card.yaml"⟩, ⟨"gone", "t/gone.yaml"⟩, ⟨"page", "t/page.yaml"⟩] := by
  -- the directory has no links in its own path, so it is found where its name says
  have hPlace : mixed.resolve "t" = .ok ["t"] := by
    rw [FileTree.resolve, if_neg (by decide), show FilePath.ofText "t" = ["t"] by decide,
      show mixed.start "t" = [] by decide, walk_mixed, FileTree.walk]
  have hEntries : ((parser.localStorage "t").files mixedPlace.surroundings).entries
      (parser.localStorage "t").directory =
      .ok [("card.yaml", ⟨["t", "card.yaml"], .file [], 0⟩),
        ("gone.yaml", ⟨["t", "gone.yaml"], .link "/away", 0⟩),
        ("page.yaml", ⟨["t", "page.yaml"], .file [], 0⟩)] := by
    show mixed.entries "t" = _
    rw [FileTree.entries, hPlace]
    rfl
  have hList : [("card.yaml", (⟨["t", "card.yaml"], .file [], 0⟩ : FileEntry)),
      ("gone.yaml", ⟨["t", "gone.yaml"], .link "/away", 0⟩),
      ("page.yaml", ⟨["t", "page.yaml"], .file [], 0⟩)].filterMap
      (TemplateFile.ofEntry? (parser.localStorage "t").directory) =
      [⟨"card", "t/card.yaml"⟩, ⟨"gone", "t/gone.yaml"⟩, ⟨"page", "t/page.yaml"⟩] := by decide
  rw [templateFiles, hEntries]
  dsimp only
  rw [hList, List.mergeSort_of_pairwise]
  simp

theorem modified_mixed : mixed.modified "t/card.yaml" = .ok 0 := by
  have hNames : FilePath.ofText "t/card.yaml" = ["t", "card.yaml"] := by decide
  have hPlace : mixed.placeOf "t/card.yaml" = .ok ["t", "card.yaml"] := by
    rw [FileTree.placeOf, hNames, show mixed.start "t/card.yaml" = [] by decide]
    simp [walk_mixed, FileTree.walk]
  rw [FileTree.modified, hPlace]
  rfl

theorem read_page : mixed.read "t/page.yaml" = .ok [] := by
  have hNames : FilePath.ofText "t/page.yaml" = ["t", "page.yaml"] := by decide
  have hResolve : mixed.resolve "t/page.yaml" = .ok ["t", "page.yaml"] := by
    rw [FileTree.resolve, if_neg (by decide), hNames,
      show mixed.start "t/page.yaml" = [] by decide, walk_mixed, FileTree.walk]
    simp [mixed, FileTree.find?]
  rw [FileTree.read, hResolve]
  rfl

/-- The link cannot be read. -/
theorem read_gone : mixed.read "t/gone.yaml" = .error .notFound := by
  have hNames : FilePath.ofText "t/gone.yaml" = ["t", "gone.yaml"] := by decide
  have hTarget : FilePath.ofText "/away" = ["away"] := by decide
  have hResolve : mixed.resolve "t/gone.yaml" = .error .notFound := by
    rw [FileTree.resolve, if_neg (by decide), hNames,
      show mixed.start "t/gone.yaml" = [] by decide, walk_mixed, FileTree.walk]
    simp [mixed, FileTree.find?, FileTree.maxLinks, hTarget, FilePath.isAbsolute, FileTree.walk]
  rw [FileTree.read, hResolve]

/-- Nothing but the card is stored. -/
theorem find?_stored_of_ne {key : String} (h : key ≠ "card") : stored.find? key = none :=
  BackgroundStore.find?_set_of_ne _ _ _ h

/-- Of the three files only the link fails. -/
theorem fault?_mixed {file : TemplateFile} {error : StorageError}
    (hFile : (parser.localStorage "t").HasFile mixedPlace.surroundings file)
    (hFault : (parser.localStorage "t").fault? mixedPlace.surroundings
      (stored.lastUpdated? file.id) file = some error) :
    (file, error) = (⟨"gone", "t/gone.yaml"⟩, .file .readFile "t/gone.yaml" .notFound) := by
  have hIn := (mem_templateFiles_iff templateFiles_mixed).2 hFile
  simp only [List.mem_cons, List.not_mem_nil, or_false] at hIn
  rcases hIn with rfl | rfl | rfl
  · have hModified : ((parser.localStorage "t").files mixedPlace.surroundings).modified
        "t/card.yaml" = .ok 0 := modified_mixed
    rw [lastUpdated?_stored, fault?, hModified] at hFault
    cases hFault
  · have hRead : ((parser.localStorage "t").files mixedPlace.surroundings).read
        "t/gone.yaml" = .error .notFound := read_gone
    rw [BackgroundStore.lastUpdated?, find?_stored_of_ne (by decide), Option.map_none, fault?,
      loadFault?, hRead] at hFault
    rw [← Option.some.inj hFault]
  · have hRead : ((parser.localStorage "t").files mixedPlace.surroundings).read
        "t/page.yaml" = .ok [] := read_page
    rw [BackgroundStore.lastUpdated?, find?_stored_of_ne (by decide), Option.map_none, fault?,
      loadFault?, hRead] at hFault
    cases hFault

end Desk

section

open Desk LocalStorage

/-- The stored card is stamped anew and the page is stored although the link between them fails. -/
theorem full_file_by_file_mixed : mixedPlace.surroundings.files.Distinct ∧
    ∃ trace answer w' store', (parser.localStorage "t").full.RunsVia Workplace.Elapses mixedPlace
        trace answer w' ∧ w'.store = .background store' ∧
      (∃ now, 20 ≤ now ∧ store'.find? "card" = some ⟨"card", [], now⟩) ∧
      store'.find? "gone" = none ∧
      (∃ now, 20 ≤ now ∧ store'.find? "page" = some ⟨"page", [], now⟩) ∧
      answer = .error (.file .readFile "t/gone.yaml" .notFound) := by
  have hDistinct : mixedPlace.surroundings.files.Distinct := by unfold FileTree.Distinct; decide
  have hCard : (parser.localStorage "t").HasFile mixedPlace.surroundings ⟨"card", "t/card.yaml"⟩ :=
    (mem_templateFiles_iff templateFiles_mixed).1 (by simp)
  have hGone : (parser.localStorage "t").HasFile mixedPlace.surroundings ⟨"gone", "t/gone.yaml"⟩ :=
    (mem_templateFiles_iff templateFiles_mixed).1 (by simp)
  have hPage : (parser.localStorage "t").HasFile mixedPlace.surroundings ⟨"page", "t/page.yaml"⟩ :=
    (mem_templateFiles_iff templateFiles_mixed).1 (by simp)
  have hNew : ∀ file : TemplateFile, file.id ≠ "card" →
      ¬(parser.localStorage "t").Stands mixedPlace stored file := by
    rintro file hId ⟨e, hStored, -⟩
    cases (find?_stored_of_ne hId).symm.trans hStored
  obtain ⟨trace, hRun⟩ := Refresh.exists_runsVia
    (Refresh.runs_run Workplace.Elapses (parser.localStorage "t").full mixedPlace)
  obtain ⟨store', failed, hStore', hTimes, hFiles, -, hFailed, hBroken, hAscending, -, hOne, -⟩ :=
    full_file_by_file parser "t" hDistinct rfl templateFiles_mixed hRun
  have hLate : ∀ {β : Type} {part : Refresh String (List Instruction) (Workspace Endpoint) β}
      {m : Workplace String (List Instruction) (Workspace Endpoint)},
      Refresh.Begins trace part m → 20 ≤ m.clock.wall := by
    rintro β part m ⟨rest, hIn⟩
    exact (hTimes _ hIn).1
  have hLost : (parser.localStorage "t").Broken mixedPlace.surroundings ⟨"gone", "t/gone.yaml"⟩ :=
    .inr (.inl ⟨.notFound, read_gone⟩)
  obtain ⟨m, hStamped, hKept⟩ := (hFiles _ hCard).1 _ find?_stored ⟨0, modified_mixed, by decide⟩
  obtain ⟨n, -, hBegan, -, -, hTaken⟩ :=
    ((hFiles _ hPage).2 (hNew _ (by decide))).1 [] [] read_page (by rw [parse_empty])
  have hSame := ((hFiles _ hGone).2 (hNew _ (by decide))).2 hLost
  refine ⟨hDistinct, trace, _, _, store', hRun, hStore', ⟨_, hLate hStamped, hKept⟩,
    hSame.trans (find?_stored_of_ne (by decide)), ⟨_, hLate hBegan, hTaken⟩, ?_⟩
  -- nothing else fails, and each file is reported once
  have hOnly : ∀ p ∈ failed,
      p = (⟨"gone", "t/gone.yaml"⟩, .file .readFile "t/gone.yaml" .notFound) := by
    rintro ⟨file, error⟩ hIn
    obtain ⟨hFile, hFault⟩ := (hFailed file error).1 hIn
    exact fault?_mixed hFile hFault
  obtain ⟨error, hIn⟩ := (hBroken ⟨"gone", "t/gone.yaml"⟩).2 ⟨hGone, hNew _ (by decide), hLost⟩
  match failed, hIn, hOnly, hAscending, hOne with
  | [p], _, hOnly, _, hOne => exact hOne _ _ (by rw [hOnly p List.mem_cons_self])
  | p :: q :: rest, _, hOnly, hAscending, _ =>
    have hLt := List.rel_of_pairwise_cons hAscending List.mem_cons_self
    rw [hOnly p List.mem_cons_self, hOnly q (List.mem_cons_of_mem _ List.mem_cons_self)] at hLt
    exact absurd hLt (String.lt_irrefl _)

end

end ItemComposition
