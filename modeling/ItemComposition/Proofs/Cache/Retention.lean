import ItemComposition.Proofs.Cache.Entries
import ItemComposition.Proofs.Cache.Happenings

/-!
# How long an unbounded store keeps its entries

An unbounded store changes an entry only when its key is written, and drops it only in a sweep at
which it is older than ten lifetimes. So whatever happens to a cache and around it, a look-up gives
the value that was written last, unless a sweep since then came so late; and a refresh that fails or
is cut off leaves every entry that it did not write itself.

## Key results

- `BackgroundStore.find?_after`, `BackgroundStore.get_after_set`: an entry through a row of calls
- `State.Unbounded.kept`, `State.Unbounded.kept_or_call`: what leaves an entry alone
- `State.retained`: what a cache serves after all that happened, and what becomes of its entries
-/

namespace ItemComposition.Cache

variable {κ ν : Type}

/-- A call writes a key. -/
def StoreCall.Writes (key : κ) (call : StoreCall κ ν) : Prop :=
  ∃ value stamp, call = .set key value stamp

/-- A call is a sweep at which an entry with a stamp is older than it may be. -/
def Drops (expiry stamp : Int) (c : Int × StoreCall κ ν) : Prop :=
  c.2 = .cleanUp ∧ expiry < c.1 - stamp

variable [DecidableEq κ]

namespace BackgroundStore

variable {s : BackgroundStore κ ν} {key : κ} {e : Entry κ ν}

/-- An entry is its key with the value and the stamp that the store tells. -/
theorem find?_eq_some_iff_told {value : ν} {stamp : Int} :
    s.find? key = some ⟨key, value, stamp⟩ ↔
      s.get key = some value ∧ s.lastUpdated? key = some stamp := by
  rw [get, lastUpdated?]
  constructor
  · intro hFind
    rw [hFind]
    exact ⟨rfl, rfl⟩
  · rintro ⟨hValue, hStamp⟩
    obtain ⟨e, hFind, rfl⟩ := Option.map_eq_some_iff.1 hValue
    rw [hFind, Option.map_some, Option.some.injEq] at hStamp
    obtain rfl : e.key = key := by simpa using List.find?_some hFind
    rw [hFind, ← hStamp]

/-- The store after a call. -/
def afterCall (s : BackgroundStore κ ν) (now : Int) : StoreCall κ ν → BackgroundStore κ ν
  | .set key value stamp => s.set key value stamp
  | .cleanUp => (s.cleanUp now).1
  | _ => s

/-- The store after a row of calls, each at its time. -/
def after (s : BackgroundStore κ ν) : List (Int × StoreCall κ ν) → BackgroundStore κ ν
  | [] => s
  | (now, call) :: rest => (s.afterCall now call).after rest

theorem expiry_afterCall (s : BackgroundStore κ ν) (now : Int) (call : StoreCall κ ν) :
    (s.afterCall now call).expiry = s.expiry := by
  cases call <;> rfl

theorem Distinct.afterCall (h : s.Distinct) (now : Int) (call : StoreCall κ ν) :
    (s.afterCall now call).Distinct := by
  cases call with
  | set key value stamp => exact h.set key value stamp
  | cleanUp => exact h.cleanUp now
  | get | lastUpdated | size => exact h

/-- A call that does not write a key keeps its entry, unless it is a sweep that comes too late. -/
theorem find?_afterCall (h : s.Distinct) {now : Int} {call : StoreCall κ ν}
    (other : ¬ call.Writes key) : (s.afterCall now call).find? key = some e ↔
      s.find? key = some e ∧ ¬ Drops s.expiry e.stamp (now, call) := by
  cases call with
  | set written value stamp =>
    have hne : key ≠ written := by
      rintro rfl
      exact other ⟨value, stamp, rfl⟩
    simp [BackgroundStore.afterCall, find?_set_of_ne s value stamp hne, Drops]
  | cleanUp =>
    rw [BackgroundStore.afterCall, find?_cleanUp h, age, Int.toNat_le]
    simp [Drops]
  | get | lastUpdated | size => simp [BackgroundStore.afterCall, Drops]

/-- Calls that do not write a key keep its entry, unless a sweep among them comes too late. -/
theorem find?_after (h : s.Distinct) {calls : List (Int × StoreCall κ ν)}
    (others : ∀ c ∈ calls, ¬ c.2.Writes key) : (s.after calls).find? key = some e ↔
      s.find? key = some e ∧ ∀ c ∈ calls, ¬ Drops s.expiry e.stamp c := by
  induction calls generalizing s with
  | nil => simp [after]
  | cons c rest ih =>
    obtain ⟨hFirst, hRest⟩ := List.forall_mem_cons.1 others
    rw [after, ih (h.afterCall c.1 c.2) hRest, find?_afterCall h hFirst, expiry_afterCall,
      List.forall_mem_cons, and_assoc]

theorem after_append (before rest : List (Int × StoreCall κ ν)) :
    s.after (before ++ rest) = (s.after before).after rest := by
  induction before generalizing s with
  | nil => rfl
  | cons c before ih => exact ih

theorem Distinct.after (h : s.Distinct) (calls : List (Int × StoreCall κ ν)) :
    (s.after calls).Distinct := by
  induction calls generalizing s with
  | nil => exact h
  | cons c rest ih => exact ih (h.afterCall c.1 c.2)

theorem expiry_after (calls : List (Int × StoreCall κ ν)) : (s.after calls).expiry = s.expiry := by
  induction calls generalizing s with
  | nil => rfl
  | cons c rest ih => exact ih.trans (s.expiry_afterCall c.1 c.2)

/-- After a key was written last, its entry is the one that was written, unless a sweep since then
came too late. -/
theorem find?_after_set (h : s.Distinct) {before rest : List (Int × StoreCall κ ν)} {time : Int}
    {value : ν} {stamp : Int} (last : ∀ c ∈ rest, ¬ c.2.Writes key) :
    (s.after (before ++ (time, .set key value stamp) :: rest)).find? key = some e ↔
      ⟨key, value, stamp⟩ = e ∧ ∀ c ∈ rest, ¬ Drops s.expiry stamp c := by
  rw [after_append, BackgroundStore.after, find?_after ((h.after before).afterCall time _) last,
    expiry_afterCall, expiry_after, afterCall, find?_set_self, Option.some.injEq]
  refine and_congr_right ?_
  rintro rfl
  rfl

/-- Where nothing was written, nothing is served. -/
theorem get_after_of_unwritten (ttl : Nat) {calls : List (Int × StoreCall κ ν)}
    (others : ∀ c ∈ calls, ¬ c.2.Writes key) : ((empty ttl).after calls).get key = none := by
  rw [get, Option.map_eq_none_iff, Option.eq_none_iff_forall_ne_some]
  intro e hFind
  cases ((find?_after (distinct_empty ttl) others).1 hFind).1

/-- What was written last is served, unless a sweep since then came too late. -/
theorem get_after_set (h : s.Distinct) {before rest : List (Int × StoreCall κ ν)} {time : Int}
    {value : ν} {stamp : Int} (last : ∀ c ∈ rest, ¬ c.2.Writes key) :
    let served := (s.after (before ++ (time, .set key value stamp) :: rest)).get key
    ((∀ c ∈ rest, ¬ Drops s.expiry stamp c) → served = some value) ∧
      ((∃ c ∈ rest, Drops s.expiry stamp c) → served = none) := by
  constructor
  · intro hInTime
    rw [get, (find?_after_set h last).2 ⟨rfl, hInTime⟩]
    rfl
  · rintro ⟨c, hc, hDrops⟩
    rw [get, Option.map_eq_none_iff, Option.eq_none_iff_forall_ne_some]
    exact fun e hFind => ((find?_after_set h last).1 hFind).2 c hc hDrops

end BackgroundStore

/-- An unbounded store answers calls, and stays one. -/
theorem Store.serve_background (s : BackgroundStore κ ν) (calls : List (Int × StoreCall κ ν)) :
    (serve Store.answer (.background s) calls).1 = .background (s.after calls) := by
  induction calls generalizing s with
  | nil => rfl
  | cons c rest ih =>
    obtain ⟨now, call⟩ := c
    cases call <;> exact ih _

namespace State

variable {σ : Type} {source : Source κ ν σ} {s s' first : State κ ν σ}

/-- No action of a task writes a key, in all that happens. -/
def Unwritten (source : Source κ ν σ) (s : State κ ν σ) (es : List (Happening κ σ)) (id : Nat)
    (key : κ) : Prop :=
  ∀ before after m, es = before ++ .event (.work id) :: after →
    s.happenAll source before = some m →
      ∀ call, m.call? (.event (.work id)) = some call → ¬ call.Writes key

/-- What happens while a task is in a refresh writes a key only by an action of the task. -/
theorem others_of_throughout (h : Orderly s) {id : Nat} {key : κ} {es : List (Happening κ σ)}
    (hAll : s.happenAll source es = some s')
    (refreshing : Throughout source (·.Refreshing id) s es)
    (unwritten : s.Unwritten source es id key) : ∀ c ∈ s.calls source es, ¬ c.2.Writes key := by
  induction es generalizing s with
  | nil => exact nofun
  | cons e rest ih =>
    obtain ⟨hNow, hLater⟩ := refreshing
    rw [happenAll, Option.bind_eq_some_iff] at hAll
    obtain ⟨next, hNext, hRest⟩ := hAll
    have hUnwritten : next.Unwritten source rest id key := by
      intro before after m hSplit hBefore
      refine unwritten (e :: before) after m (by rw [hSplit]; rfl) ?_
      rw [happenAll, hNext]
      exact hBefore
    intro c hc
    simp only [calls, hNext, List.mem_append, Option.mem_toList, Option.map_eq_some_iff] at hc
    -- a call that writes the key belongs to the refresh, and that one is not to write it
    rcases hc with ⟨call, hCall, rfl⟩ | hc
    · intro hWrites
      obtain ⟨value, stamp, rfl⟩ := hWrites
      obtain rfl := hNow.work_of_set h hNext hCall
      exact unwritten [] rest s rfl rfl _ hCall ⟨value, stamp, rfl⟩
    · exact ih (h.happen hNext) hRest (hLater next hNext) hUnwritten c hc

/-- A cache with an unbounded store, which keeps its entries up to an age. -/
structure Unbounded (expiry : Int) (s : State κ ν σ) (b : BackgroundStore κ ν) : Prop where
  orderly : Orderly s
  store : s.place.store = .background b
  distinct : b.Distinct
  keeps : (b.expiry : Int) = expiry

namespace Unbounded

variable {expiry : Int} {b : BackgroundStore κ ν} {key : κ} {value : ν} {stamp : Int}
variable {es : List (Happening κ σ)}

omit [DecidableEq κ] in
theorem of_make {options : CacheOptions} {surroundings : σ} {clock : Clock}
    (hMake : make options surroundings clock = .ok first) (policy : options.policy = .background) :
    Unbounded (min (10 * options.ttl) longestDuration : Nat) first (.empty options.ttl) := by
  refine ⟨.of_make hMake, ?_, BackgroundStore.distinct_empty _, rfl⟩
  unfold make at hMake
  split at hMake
  · cases hMake
  · obtain rfl := Except.ok.inj hMake
    simp only [Store.empty, policy]

/-- What is left of the store after all that happened. -/
theorem happenAll (h : Unbounded expiry s b) (hAll : s.happenAll source es = some s') :
    Unbounded expiry s' (b.after (s.calls source es)) where
  orderly := h.orderly.happenAll hAll
  store := by rw [store_of_happenAll h.orderly hAll, h.store, Store.serve_background]
  distinct := h.distinct.after _
  keeps := by rw [BackgroundStore.expiry_after, h.keeps]

theorem get_eq (h : Unbounded expiry s b) (now : Int) :
    (s.place.store.get key now).2 = b.get key := by
  rw [h.store]
  rfl

theorem told_iff (h : Unbounded expiry s b) (now : Int) :
    (s.place.store.get key now).2 = some value ∧ s.place.store.lastUpdated? key = some stamp ↔
      b.find? key = some ⟨key, value, stamp⟩ := by
  rw [BackgroundStore.find?_eq_some_iff_told, h.store]
  rfl

/-- If no call writes a key, and no sweep comes too late for it, then it is told as before. -/
theorem kept (h : Unbounded expiry s b) (hAll : s.happenAll source es = some s')
    (others : ∀ c ∈ s.calls source es, ¬ c.2.Writes key)
    (inTime : ∀ c ∈ s.calls source es, ¬ Drops expiry stamp c) {now : Int}
    (hValue : (s.place.store.get key now).2 = some value)
    (hStamp : s.place.store.lastUpdated? key = some stamp) (later : Int) :
    (s'.place.store.get key later).2 = some value ∧
      s'.place.store.lastUpdated? key = some stamp := by
  have hFind := (h.told_iff now).1 ⟨hValue, hStamp⟩
  refine ((h.happenAll hAll).told_iff later).2
    ((BackgroundStore.find?_after h.distinct others).2 ⟨hFind, ?_⟩)
  rwa [h.keeps]

/-- What happens keeps an entry, unless it is a call that writes the key, or a sweep too late. -/
theorem kept_or_call (h : Unbounded expiry s b) {e : Happening κ σ}
    (hHappen : s.happen source e = some s') {now : Int}
    (hValue : (s.place.store.get key now).2 = some value)
    (hStamp : s.place.store.lastUpdated? key = some stamp) (later : Int) :
    ((s'.place.store.get key later).2 = some value ∧
      s'.place.store.lastUpdated? key = some stamp) ∨
    ∃ call, s.call? e = some call ∧
      (call.Writes key ∨ Drops expiry stamp (s.place.clock.wall, call)) := by
  by_cases hEffect : ∃ call, s.call? e = some call ∧
      (call.Writes key ∨ Drops expiry stamp (s.place.clock.wall, call))
  · exact .inr hEffect
  · -- one thing that happens is a run of length one, so the statement about runs decides it
    have hAll : s.happenAll source [e] = some s' := by
      rw [State.happenAll, hHappen]
      rfl
    have hCalls : ∀ c ∈ s.calls source [e],
        ¬ (c.2.Writes key ∨ Drops expiry stamp c) := by
      intro c hc hDoes
      simp only [calls, hHappen, List.append_nil, Option.mem_toList,
        Option.map_eq_some_iff] at hc
      obtain ⟨call, hCall, rfl⟩ := hc
      exact hEffect ⟨call, hCall, hDoes⟩
    exact .inl (h.kept hAll (fun c hc hWrites => hCalls c hc (.inl hWrites))
      (fun c hc hDrops => hCalls c hc (.inr hDrops)) hValue hStamp later)

end Unbounded

/-- Whatever happens to an unbounded cache and around it: a look-up gives the value that was written
last, unless a sweep since then found its stamp more than ten lifetimes old, and nothing where none
was written. However a refresh ends, and at whatever point it is cut off, it leaves every entry that
it did not write, if no sweep comes too late for it. And an entry is dropped only by a sweep that
comes too late for it. -/
theorem retained {options : CacheOptions} {surroundings : σ} {clock : Clock}
    {es : List (Happening κ σ)} (hMake : make options surroundings clock = .ok first)
    (policy : options.policy = .background) (hAll : first.happenAll source es = some s) :
    let expiry : Int := (min (10 * options.ttl) longestDuration : Nat)
    let wall := s.place.clock.wall
    (∀ key, (∀ c ∈ first.calls source es, ¬ c.2.Writes key) →
      (s.place.store.get key wall).2 = none) ∧
    (∀ key value stamp time before after,
      first.calls source es = before ++ (time, .set key value stamp) :: after →
      (∀ c ∈ after, ¬ c.2.Writes key) →
      ((∀ c ∈ after, ¬ Drops expiry stamp c) → (s.place.store.get key wall).2 = some value) ∧
      ((∃ c ∈ after, Drops expiry stamp c) → (s.place.store.get key wall).2 = none)) ∧
    (∀ id key value stamp es' s', s.happenAll source es' = some s' →
      Throughout source (·.Refreshing id) s es' → s.Unwritten source es' id key →
      (∀ c ∈ s.calls source es', ¬ Drops expiry stamp c) →
      (s.place.store.get key wall).2 = some value → s.place.store.lastUpdated? key = some stamp →
      (s'.place.store.get key s'.place.clock.wall).2 = some value ∧
        s'.place.store.lastUpdated? key = some stamp) ∧
    ∀ e next key value stamp, s.happen source e = some next →
      (s.place.store.get key wall).2 = some value → s.place.store.lastUpdated? key = some stamp →
      ((next.place.store.get key next.place.clock.wall).2 = some value ∧
        next.place.store.lastUpdated? key = some stamp) ∨
      ∃ call, s.call? e = some call ∧ (call.Writes key ∨ Drops expiry stamp (wall, call)) := by
  intro expiry wall
  -- a background cache is never too full, so only writes and sweeps change what it holds
  have hFirst := Unbounded.of_make hMake policy
  have hUnbounded := hFirst.happenAll hAll
  refine ⟨fun key others => ?_, fun key value stamp time before after hSplit last => ?_,
    fun id key value stamp es' s' hAll' hRefreshing hUnwritten hInTime hValue hStamp => ?_,
    fun e next key value stamp hHappen hValue hStamp =>
      hUnbounded.kept_or_call hHappen hValue hStamp _⟩
  · rw [hUnbounded.get_eq]
    exact BackgroundStore.get_after_of_unwritten _ others
  · rw [hUnbounded.get_eq, hSplit]
    exact BackgroundStore.get_after_set hFirst.distinct last
  · exact hUnbounded.kept hAll'
      (others_of_throughout hUnbounded.orderly hAll' hRefreshing hUnwritten) hInTime hValue hStamp _

/-- A refresh that writes one key and fails, at a time when the other key has outlived its age. -/
theorem retained_failing_source :
    let options : CacheOptions := ⟨"notes", .background, 10, 0⟩
    let source : Source String Nat Bool :=
      ⟨.look fun fails => if fails then .set "b" 2 110 (.done (.error "gone"))
        else .clock fun c => .set "a" 1 c.wall (.done (.ok ())), fun _ => .done (.ok ())⟩
    let es : List (Happening String Bool) :=
      [.event .start, .event (.enter 0), .event (.work 0), .event (.work 0), .event (.work 0),
        .event (.work 0), .event (.pass 110 110), .event (.tick 1), .event (.enter 1),
        .outside fun _ => true, .event (.work 1), .event (.work 1), .event (.work 1),
        .event (.sweep 1)]
    ∃ first s, make options false ⟨0, 0⟩ = .ok first ∧ first.happenAll source es = some s ∧
      first.calls source es = [(0, .set "a" 1 0), (110, .set "b" 2 110), (110, .cleanUp)] ∧
      (s.place.store.get "a" 110).2 = none ∧ (s.place.store.get "b" 110).2 = some 2 ∧
      (s.place.store.get "c" 110).2 = none := by
  intro options source es
  have hCourse : (make options false ⟨0, 0⟩).toOption.map (fun first =>
      (first.calls source es, (first.happenAll source es).map (·.place.clock.wall))) =
      some ([(0, .set "a" 1 0), (110, .set "b" 2 110), (110, .cleanUp)], some 110) := by
    decide +kernel
  cases hMake : make options false ⟨0, 0⟩ with
  | error cause =>
    rw [hMake] at hCourse
    cases hCourse
  | ok first =>
    rw [hMake] at hCourse
    obtain ⟨hCalls, hEnd⟩ := Prod.mk.inj (Option.some.inj hCourse)
    obtain ⟨s, hAll, hWall⟩ := Option.map_eq_some_iff.1 hEnd
    obtain ⟨hNever, hLast, -⟩ := retained hMake rfl hAll
    rw [hWall] at hNever hLast
    have hExpiry : min (10 * 10) longestDuration = 100 := by decide
    -- the entry of "a" is older than ten times the lifetime when the sweep comes, that of "b" is
    -- not
    have hLate : ((min (10 * 10) longestDuration : Nat) : Int) < 110 - 0 := by
      rw [hExpiry]
      decide
    refine ⟨first, s, rfl, hAll, hCalls, ?_, ?_, hNever "c" ?_⟩
    · refine (hLast "a" 1 0 0 [] _ hCalls ?_).2 ⟨(110, .cleanUp), by simp, rfl, hLate⟩
      simp [StoreCall.Writes]
    · refine (hLast "b" 2 110 110 [(0, .set "a" 1 0)] [(110, .cleanUp)] hCalls ?_).1 ?_
      · simp [StoreCall.Writes]
      · simp [Drops]
    · rw [hCalls]
      simp [StoreCall.Writes]

end State

end ItemComposition.Cache
