import ItemComposition.Proofs.Storage.ChangeDetection
import Mathlib.Logic.Function.Iterate

/-!
# Histories of a directory of templates

A directory of templates is filled into one unbounded store by full refreshes, one at a time. Files
are edited, and each edit is stamped with the time that it is made at. A history is a sequence of such
events: an action of the refresh that runs, its start or end, an edit, or a sweep of the store. After
each event the clock goes on. Which edits there are, and when, is up to a rule.

## Key results

- `Kept.step`: one event; `Kept.steps`: a history
- `ChangeDetection.served_of_steps`: what is served when a refresh has succeeded
-/

namespace ItemComposition

open Cache

variable {ε : Type}

/-- A store that is filled from a directory: what is left of the full refresh that runs, if one does,
and what it works on. -/
structure Site (ε : Type) where
  running : Option
    (Refresh String (List Instruction) (Workspace ε) (Except StorageError Unit))
  place : Workplace String (List Instruction) (Workspace ε)

namespace Site

/-- The files. -/
abbrev files (s : Site ε) : FileTree := s.place.surroundings.files

/-- Puts an entry at its place, over an earlier one. -/
def edit (s : Site ε) (entry : FileEntry) : Site ε :=
  { s with place.surroundings.files := s.files.insert entry }

/-- No refresh runs yet, and the store is empty. -/
def Blank (s : Site ε) : Prop :=
  s.running = none ∧ ∃ ttl, s.place.store = .background (.empty ttl)

/-- The full refresh that runs has come to its end without an error. -/
def Refreshed (s : Site ε) : Prop := s.running = some (.done (.ok ()))

end Site

section

variable (engine : Engine ε) (directory : String) (tick : Int → Int → Prop)
variable (rule : Site ε → FileEntry → Prop)

/-- What may happen. A refresh may end before it is over. -/
inductive Event : Site ε → Site ε → Prop
  | start (w : Workplace String (List Instruction) (Workspace ε)) :
    Event ⟨none, w⟩ ⟨some (engine.localStorage directory).full, w⟩
  | act (r : Refresh String (List Instruction) (Workspace ε) (Except StorageError Unit))
    (w : Workplace String (List Instruction) (Workspace ε)) :
    Event ⟨some r, w⟩ ⟨some (r.step w).1, (r.step w).2⟩
  | stop (r : Refresh String (List Instruction) (Workspace ε) (Except StorageError Unit))
    (w : Workplace String (List Instruction) (Workspace ε)) : Event ⟨some r, w⟩ ⟨none, w⟩
  | edit (s : Site ε) (entry : FileEntry) (now : entry.modified = s.place.clock.wall)
    (allowed : rule s entry) : Event s (s.edit entry)
  | sweep (w : Workplace String (List Instruction) (Workspace ε)) :
    Event ⟨none, w⟩ ⟨none, { w with store := (w.store.cleanUp w.clock.wall).1 }⟩

/-- Something happens, and the clock goes on. -/
inductive Step : Site ε → Site ε → Prop
  | mk {s t : Site ε} (event : Event engine directory rule s t) (clock : Clock)
    (later : tick t.place.clock.wall clock.wall) : Step s { t with place.clock := clock }

/-- A part of a history. -/
abbrev Steps : Site ε → Site ε → Prop := Relation.ReflTransGen (Step engine directory tick rule)

end

/-! ## A clock that ticks once for each event -/

namespace Site

/-- The clock goes on by one. -/
def tick (s : Site ε) : Site ε := { s with place.clock.wall := s.place.clock.wall + 1 }

/-- The next action of the refresh that runs. -/
def act (s : Site ε) : Site ε :=
  match s.running with
  | none => s
  | some r => tick ⟨some (r.step s.place).1, (r.step s.place).2⟩

end Site

section

variable {engine : Engine ε} {directory : String} {tick : Int → Int → Prop}
variable {rule : Site ε → FileEntry → Prop} {s t : Site ε}

theorem Event.step (ticks : ∀ a, tick a (a + 1)) (event : Event engine directory rule s t) :
    Step engine directory tick rule s t.tick := .mk event _ (ticks _)

/-- The next actions of the refresh that runs. -/
theorem steps_act (ticks : ∀ a, tick a (a + 1)) (n : Nat) (s : Site ε) :
    Steps engine directory tick rule s (Site.act^[n] s) := by
  induction n generalizing s with
  | zero => exact .refl
  | succ n ih =>
    rw [Function.iterate_succ_apply]
    refine .trans ?_ (ih s.act)
    obtain ⟨running, w⟩ := s
    cases running with
    | none => exact .refl
    | some r => exact .single ((Event.act r w).step ticks)

/-- A refresh starts, and takes so many actions, and so many more. -/
theorem steps_of_act {w : Workplace String (List Instruction) (Workspace ε)} {m n : Nat}
    (ticks : ∀ a, tick a (a + 1))
    (h : Site.act^[m] (Site.act^[n] (Site.tick ⟨some (engine.localStorage directory).full, w⟩)) = t) :
    Steps engine directory tick rule ⟨none, w⟩ t := by
  rw [← h]
  exact .head ((Event.start w).step ticks) ((steps_act ticks n _).trans (steps_act ticks m _))

end

namespace ChangeDetection

variable (engine : Engine ε) (file : TemplateFile) (directory : String) (quiet : Prop)

/-- The edits of a rule are such as a refresh can stand. -/
def Permits (rule : Site ε → FileEntry → Prop) : Prop :=
  ∀ s entry, entry.modified = s.place.clock.wall → rule s entry →
    (others engine file directory quiet).rough s.place (s.edit entry).place ∧
      ∀ r, s.running = some r →
        (others engine file directory quiet).May r s.place (s.edit entry).place

/-- What every event keeps: the stamps of the file's key can be relied on, and the refresh that runs
leaves them so. If the file is not changed, it is served as soon as that refresh has succeeded. -/
structure Kept (s : Site ε) : Prop where
  watched : Watched engine file directory quiet s.place
  guarded : ∀ r, s.running = some r →
    Upholds engine file directory quiet (Settles engine file quiet) r s.place

variable {engine file directory quiet} {tick : Int → Int → Prop}
variable {rule : Site ε → FileEntry → Prop} {s t : Site ε}

/-- While nothing but the clock moves, the file stays as it is. -/
theorem calm_clock {w : Workplace String (List Instruction) (Workspace ε)} {clock : Clock}
    (later : w.clock.wall ≤ clock.wall) :
    (others engine file directory quiet).calm w { w with clock } :=
  ⟨⟨later, rfl, .refl _ _⟩, fun _ => id⟩

/-- Others have been at work, as they may. -/
theorem Kept.later (kept : Kept engine file directory quiet s) (running : t.running = s.running)
    (rough : (others engine file directory quiet).rough s.place t.place)
    (may : ∀ r, s.running = some r → (others engine file directory quiet).May r s.place t.place) :
    Kept engine file directory quiet t :=
  ⟨kept.watched.rough rough, fun r hRunning =>
    have hRunning' := running.symm.trans hRunning
    (kept.guarded r hRunning').later (may r hRunning')⟩

section

variable (named : ∃ name : String, name.toList = file.id.toList ++ '.' :: templateExtension.toList ∧
  file.path = FilePath.below directory name)
variable (permits : Permits engine file directory quiet rule)

include named permits

theorem Kept.event (kept : Kept engine file directory quiet s)
    (event : Event engine directory rule s t) : Kept engine file directory quiet t := by
  obtain ⟨hWatched, hGuarded⟩ := kept
  cases event with
  | start w =>
    refine ⟨hWatched, fun r hRunning => ?_⟩
    obtain rfl := Option.some.inj hRunning
    exact guarded_full named
  | act r w =>
    obtain ⟨hKeeps, hRest⟩ := (hGuarded r rfl).step hWatched
    refine ⟨hKeeps, fun r' hRunning => ?_⟩
    obtain rfl := Option.some.inj hRunning
    exact hRest
  | stop r w =>
    -- a refresh that is cut off leaves no stamp behind that cannot be relied on
    exact ⟨hWatched, nofun⟩
  | edit s entry now allowed =>
    obtain ⟨hRough, hMay⟩ := permits s entry now allowed
    exact Kept.later ⟨hWatched, hGuarded⟩ rfl hRough hMay
  | sweep w => exact ⟨⟨hWatched.tracked.cleanUp, hWatched.listed⟩, nofun⟩

variable (forward : ∀ a b, tick a b → a ≤ b)

include forward

theorem Kept.step (kept : Kept engine file directory quiet s)
    (step : Step engine directory tick rule s t) : Kept engine file directory quiet t := by
  cases step with
  | @mk u event clock later =>
    have hCalm : (others engine file directory quiet).calm u.place { u.place with clock } :=
      calm_clock (forward _ _ later)
    exact (kept.event named permits event).later rfl
      ((others engine file directory quiet).rough_of_calm hCalm) fun _ _ => .inl hCalm

theorem Kept.steps (kept : Kept engine file directory quiet s)
    (steps : Steps engine directory tick rule s t) : Kept engine file directory quiet t := by
  induction steps with
  | refl => exact kept
  | tail _ step ih => exact ih.step named permits forward step

end

theorem kept_of_blank (blank : s.Blank) : Kept engine file directory False s := by
  obtain ⟨hIdle, ttl, hStore⟩ := blank
  refine ⟨⟨⟨.empty ttl, hStore, fun e he => ?_⟩, False.elim⟩, fun r hRunning => ?_⟩
  · exact absurd he List.not_mem_nil
  · exact nomatch hIdle.symm.trans hRunning

/-- Between two refreshes, what was kept while the file was changed is kept while it is not. -/
theorem Kept.idle (kept : Kept engine file directory False s) (idle : s.running = none)
    (listed : (engine.localStorage directory).HasFile s.place.surroundings file) :
    Kept engine file directory True s :=
  ⟨⟨kept.watched.tracked, fun _ => listed⟩, fun _ hRunning => nomatch idle.symm.trans hRunning⟩

theorem Kept.served (kept : Kept engine file directory True t) (refreshed : t.Refreshed) :
    Served engine file t.place :=
  (kept.guarded _ refreshed).of_done kept.watched trivial rfl

/-- A history that starts with an empty store, and then a part of it in which the file is not changed
and a refresh starts and succeeds: what the file is parsed to is served. -/
theorem served_of_steps {s₀ : Site ε} {rule' : Site ε → FileEntry → Prop} (blank : s₀.Blank)
    (forward : ∀ a b, tick a b → a ≤ b) (permits : Permits engine file directory False rule)
    (past : Steps engine directory tick rule s₀ s) (idle : s.running = none)
    (listed : (engine.localStorage directory).HasFile s.place.surroundings file)
    (permits' : Permits engine file directory True rule')
    (last : Steps engine directory tick rule' s t) (refreshed : t.Refreshed) :
    Served engine file t.place := by
  have hNamed : ∃ name : String, name.toList = file.id.toList ++ '.' :: templateExtension.toList ∧
      file.path = FilePath.below directory name := by
    obtain ⟨-, name, -, -, -, -, -, hName⟩ := listed
    exact ⟨name, hName⟩
  have hPast := (kept_of_blank blank).steps hNamed permits forward past
  exact ((hPast.idle idle listed).steps hNamed permits' forward last).served refreshed

end ChangeDetection

end ItemComposition
