import ItemComposition.Proofs.Storage.RegularFiles

/-!
# Writes while a refresh runs

Regular files are written at any moment, also between two actions of a full refresh. A write while
a file is read is told of by its time, as the file is stored under a time before the reading. A write
after a file has been found unchanged, and before the time is taken that its key is stamped anew
with, is not: the stamp is then newer than the file, and so it stays. That is the only moment at which
a write can be lost.

## Key results

- `ChangeDetection.permits_writes`: what writes do to a refresh that runs
- `served_after_last_write`: no write at another moment is lost
- `not_served_after_last_write`: a write at that moment is
-/

namespace ItemComposition

open Cache

namespace ChangeDetection

variable {ε : Type} {engine : Engine ε} {directory : String} {place : FilePath} {file : TemplateFile}
variable {s : Site ε} {entry : FileEntry}

/-- An edit at another place can happen at any moment. -/
theorem calm_of_elsewhere {quiet : Prop} (hPath : file.path = FilePath.below directory file.name)
    (plain : '/' ∉ file.id.toList) (edit : s.files.RegularEdit directory place file.name entry)
    (elsewhere : entry.path ≠ place ++ [file.name]) :
    (others engine file directory quiet).calm s.place (s.edit entry).place := by
  refine ⟨⟨Int.le_refl _, rfl, ?_⟩, fun _ => edit.hasFile elsewhere rfl⟩
  rw [hPath]
  exact edit.alike (TemplateFile.plainName plain) elsewhere

/-- An edit of the file is told of by its time. -/
theorem noticed_of_here (hPath : file.path = FilePath.below directory file.name)
    (plain : '/' ∉ file.id.toList) (edit : s.files.RegularEdit directory place file.name entry)
    (here : entry.path = place ++ [file.name]) (now : entry.modified = s.place.clock.wall) :
    Noticed file s.place (s.edit entry).place := by
  refine noticed_of_told now ?_
  rw [hPath]
  exact edit.told (TemplateFile.plainName plain) here

/-- Any file may be written at any moment, but for the file while its key is about to be stamped
anew. -/
theorem permits_writes (hPath : file.path = FilePath.below directory file.name)
    (plain : '/' ∉ file.id.toList) : Permits engine file directory False fun s entry =>
      s.files.RegularEdit directory place file.name entry ∧
        (entry.path = place ++ [file.name] →
          ∀ r, s.running = some r → ¬ r.Restamps file.id) := by
  rintro s entry now ⟨hEdit, hWindow⟩
  by_cases here : entry.path = place ++ [file.name]
  · have hRough : (others engine file directory False).rough s.place (s.edit entry).place :=
      ⟨noticed_of_here hPath plain hEdit here now, False.elim⟩
    exact ⟨hRough, fun r hRunning => .inr ⟨hWindow here r hRunning, hRough⟩⟩
  · have hCalm : (others engine file directory False).calm s.place (s.edit entry).place :=
      calm_of_elsewhere hPath plain hEdit here
    exact ⟨(others engine file directory False).rough_of_calm hCalm, fun _ _ => .inl hCalm⟩

/-- Once the file is not written any more, what is written elsewhere does not matter. -/
theorem permits_elsewhere (hPath : file.path = FilePath.below directory file.name)
    (plain : '/' ∉ file.id.toList) : Permits engine file directory True fun s entry =>
      s.files.RegularEdit directory place file.name entry ∧ entry.path ≠ place ++ [file.name] := by
  rintro s entry - ⟨hEdit, elsewhere⟩
  have hCalm : (others engine file directory True).calm s.place (s.edit entry).place :=
    calm_of_elsewhere hPath plain hEdit elsewhere
  exact ⟨(others engine file directory True).rough_of_calm hCalm, fun _ _ => .inl hCalm⟩

end ChangeDetection

namespace Desk

theorem regularAt_linked (bytes : List UInt8) (time : Int) :
    (linked bytes time).RegularAt "a" ["a"] card.name := by
  refine ⟨resolve_linked bytes time (.inl rfl), fun e he => ?_, fun e he => ?_⟩
  · obtain rfl : ⟨["a"], .directory, 0⟩ = e := Option.some.inj he
    rfl
  · obtain rfl : ⟨["a", "card.yaml"], .file bytes, time⟩ = e := Option.some.inj he
    exact ⟨bytes, rfl⟩

/-- Rewriting the card leaves it a regular file. -/
theorem regularEdit_linked (bytes : List UInt8) (time now : Int) :
    (linked bytes time).RegularEdit "a" ["a"] card.name
      ⟨["a", "card.yaml"], .file viewBytes, now⟩ :=
  ⟨regularAt_linked bytes time, regularAt_linked viewBytes now⟩

end Desk

/-! ## What is served after the last write -/

/-- Regular files are written at any moment, but for a file while its key is about to be stamped anew,
and the clock never stands still. Once the file is not written any more, every full refresh that
starts from then on and succeeds leaves what the file is parsed to under its key. -/
theorem served_after_last_write {ε : Type} (engine : Engine ε) (directory : String) (place : FilePath)
    (file : TemplateFile) (plain : '/' ∉ file.id.toList) {s₀ s t : Site ε} (blank : s₀.Blank)
    (past : Steps engine directory (· < ·) (fun s entry =>
      s.files.RegularEdit directory place file.name entry ∧
        (entry.path = place ++ [file.name] → ∀ r, s.running = some r → ¬ r.Restamps file.id)) s₀ s)
    (idle : s.running = none)
    (listed : (engine.localStorage directory).HasFile s.place.surroundings file)
    (last : Steps engine directory (· < ·) (fun s entry =>
      s.files.RegularEdit directory place file.name entry ∧
        entry.path ≠ place ++ [file.name]) s t)
    (refreshed : t.Refreshed) : ChangeDetection.Served engine file t.place := by
  have hPath : file.path = FilePath.below directory file.name := by
    obtain ⟨-, -, -, -, -, -, hPath⟩ := LocalStorage.hasFile_iff.1 listed
    exact hPath
  exact ChangeDetection.served_of_steps blank (fun _ _ => Int.le_of_lt)
    (ChangeDetection.permits_writes hPath plain) past idle listed
    (ChangeDetection.permits_elsewhere hPath plain) last refreshed

section

open Desk LocalStorage

/-- The card is rewritten when a refresh has just read it, and the next refresh reads it again. -/
theorem served_after_last_write_read :
    Steps parser "a" (· < ·) (fun s entry => s.files.RegularEdit "a" ["a"] card.name entry ∧
        (entry.path = ["a"] ++ [card.name] → ∀ r, s.running = some r → ¬ r.Restamps card.id))
        ⟨none, site [] 0 10 (.empty 60)⟩ ⟨none, site viewBytes 15 20 stored⟩ ∧
      (parser.localStorage "a").HasFile ⟨linked viewBytes 15, .empty⟩ card ∧
      ∃ t, Steps parser "a" (· < ·) (fun s entry => s.files.RegularEdit "a" ["a"] card.name entry ∧
          entry.path ≠ ["a"] ++ [card.name]) ⟨none, site viewBytes 15 20 stored⟩ t ∧
        t.Refreshed ∧ ChangeDetection.Served parser card t.place := by
  have ticks : ∀ a : Int, a < a + 1 := fun a => by omega
  obtain ⟨value, -, hParse⟩ := parse_view
  obtain ⟨r, hRead, hWindow, hRest⟩ := act_load 0 11 (.background (.empty 60))
    (templateFiles_card [] 0 .empty) rfl (read_card [] 0) fun z => by rw [parse_empty]
  -- the file is read empty, and rewritten while that refresh is under way; the next one reads it
  -- again
  have hPast : Steps parser "a" (· < ·) (fun s entry =>
      s.files.RegularEdit "a" ["a"] card.name entry ∧
        (entry.path = ["a"] ++ [card.name] → ∀ r, s.running = some r → ¬ r.Restamps card.id))
      ⟨none, site [] 0 10 (.empty 60)⟩ ⟨none, site viewBytes 15 20 stored⟩ := by
    refine .head ((Event.start _).step ticks) (.trans (hRead ▸ steps_act ticks 4 _) ?_)
    refine .head (step_rewritten ticks ⟨regularEdit_linked [] 0 15, fun _ r' hRunning => ?_⟩) ?_
    · exact Option.some.inj hRunning ▸ hWindow
    · exact .tail (hRest 16 ⟨linked viewBytes 15, .empty⟩ ▸ steps_act ticks 3 _)
        ((Event.stop _ _).step ticks)
  have hListed : (parser.localStorage "a").HasFile ⟨linked viewBytes 15, .empty⟩ card :=
    (mem_templateFiles_iff (templateFiles_card viewBytes 15 .empty)).1 List.mem_cons_self
  have hReload := act_reload 0 21 stored (templateFiles_card viewBytes 15 .empty)
    lastUpdated?_stored (modified_card viewBytes 15) (by decide) (read_card viewBytes 15) hParse
  have hLast : Steps parser "a" (· < ·) (fun s entry =>
      s.files.RegularEdit "a" ["a"] card.name entry ∧ entry.path ≠ ["a"] ++ [card.name])
      ⟨none, site viewBytes 15 20 stored⟩ _ := steps_of_act ticks hReload
  exact ⟨hPast, hListed, _, hLast, rfl, served_after_last_write parser "a" ["a"] card
    (by decide) blank_site hPast rfl hListed hLast rfl⟩

/-- The card is rewritten when a refresh has just found it unchanged, and no refresh reads it any
more. -/
theorem not_served_after_last_write : ¬ ∀ (engine : Engine Endpoint) (directory : String)
    (place : FilePath) (file : TemplateFile) (s₀ s t : Site Endpoint), '/' ∉ file.id.toList →
    s₀.Blank → Steps engine directory (· < ·)
      (fun s entry => s.files.RegularEdit directory place file.name entry) s₀ s →
    s.running = none → (engine.localStorage directory).HasFile s.place.surroundings file →
    Steps engine directory (· < ·) (fun s entry =>
      s.files.RegularEdit directory place file.name entry ∧
        entry.path ≠ place ++ [file.name]) s t →
    t.Refreshed → ChangeDetection.Served engine file t.place := by
  intro hClaim
  have ticks : ∀ a : Int, a < a + 1 := fun a => by omega
  obtain ⟨r, hLook, hRest⟩ := act_restamp 0 20 stored (templateFiles_card [] 0 .empty)
    find?_stored (modified_card [] 0) (by decide)
  have hPast : Steps parser "a" (· < ·) (fun s entry => s.files.RegularEdit "a" ["a"] card.name entry)
      ⟨none, site [] 0 10 (.empty 60)⟩ ⟨none, site viewBytes 23 28 (stored.set "card" [] 25)⟩ := by
    refine .trans (steps_stored ticks (templateFiles_card [] 0 .empty) rfl (read_card [] 0)) ?_
    refine .head ((Event.start _).step ticks) (.trans (hLook ▸ steps_act ticks 3 _) ?_)
    refine .head (step_rewritten ticks (regularEdit_linked [] 0 23)) ?_
    exact .tail (hRest 24 ⟨linked viewBytes 23, .empty⟩ ▸ steps_act ticks 3 _)
      ((Event.stop _ _).step ticks)
  have hListed : (parser.localStorage "a").HasFile ⟨linked viewBytes 23, .empty⟩ card :=
    (mem_templateFiles_iff (templateFiles_card viewBytes 23 .empty)).1 List.mem_cons_self
  -- the stamp is newer than the file
  obtain ⟨r', hLook', hRest'⟩ := act_restamp 0 29 (stored.set "card" [] 25)
    (templateFiles_card viewBytes 23 .empty) (stored.find?_set_self "card" [] 25)
    (modified_card viewBytes 23) (by decide)
  have hLast : Steps parser "a" (· < ·) (fun s entry =>
      s.files.RegularEdit "a" ["a"] card.name entry ∧ entry.path ≠ ["a"] ++ [card.name])
      ⟨none, site viewBytes 23 28 (stored.set "card" [] 25)⟩ _ :=
    steps_of_act ticks ((congrArg Site.act^[3] hLook').trans (hRest' 32 _))
  have hServed := hClaim parser "a" ["a"] card _ _ _ (by decide) blank_site hPast rfl hListed
    hLast rfl
  exact not_served (read_card viewBytes 23) hServed

end

end ItemComposition
