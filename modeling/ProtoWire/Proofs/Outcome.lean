import ProtoWire.Wire.Error

/-!
Contract: laws of runs that end with a value or with the first error.

Owns:
- when a run of two steps succeeds and when it fails;
- what a run over a list keeps, when it succeeds.

Does not own: any step of the library.
-/

namespace ProtoWire.Outcome

variable {ε α β σ : Type}

@[simp] theorem ok_bind (value : α) (next : α → Except ε β) :
    (Except.ok value >>= next) = next value := rfl

@[simp] theorem error_bind (cause : ε) (next : α → Except ε β) :
    (Except.error cause >>= next) = .error cause := rfl

@[simp] theorem map_ok (f : α → β) (value : α) :
    f <$> (Except.ok value : Except ε α) = .ok (f value) := rfl

@[simp] theorem map_error (f : α → β) (cause : ε) :
    f <$> (Except.error cause : Except ε α) = .error cause := rfl

theorem map_map {γ : Type} (f : α → β) (g : β → γ) (outcome : Except ε α) :
    g <$> f <$> outcome = (fun value => g (f value)) <$> outcome := by
  cases outcome <;> rfl

theorem mapError_eq_ok {γ : Type} {f : ε → γ} {outcome : Except ε α} {value : α} :
    outcome.mapError f = .ok value ↔ outcome = .ok value := by
  cases outcome with
  | error cause => constructor <;> rintro ⟨⟩
  | ok result => constructor <;> rintro ⟨⟩ <;> rfl

theorem bind_eq_ok {first : Except ε α} {next : α → Except ε β} {result : β} :
    (first >>= next) = .ok result ↔ ∃ value, first = .ok value ∧ next value = .ok result := by
  cases first with
  | error cause => simp
  | ok value => simp

theorem map_eq_ok {f : α → β} {outcome : Except ε α} {result : β} :
    f <$> outcome = .ok result ↔ ∃ value, outcome = .ok value ∧ f value = result := by
  cases outcome with
  | error cause => simp
  | ok value => simp

theorem map_eq_error {f : α → β} {outcome : Except ε α} {cause : ε} :
    f <$> outcome = .error cause ↔ outcome = .error cause := by
  cases outcome with
  | error first => simp
  | ok value => simp

/-- The results of a run can be compared, whatever its errors are. -/
theorem eq_ok_of_toOption {outcome : Except ε α} {result : α}
    (returned : outcome.toOption = some result) :
    outcome = .ok result := by
  cases outcome with
  | error cause => cases returned
  | ok other => exact congrArg Except.ok (Option.some.inj returned)

theorem mapM_cons_eq_ok {f : α → Except ε β} {item : α} {others : List α} {results : List β} :
    (item :: others).mapM f = .ok results ↔
      ∃ first rest, f item = .ok first ∧ others.mapM f = .ok rest ∧ first :: rest = results := by
  rw [List.mapM_cons, bind_eq_ok]
  constructor
  · rintro ⟨first, firstOk, rest⟩
    obtain ⟨tail, tailOk, equal⟩ := bind_eq_ok.mp rest
    exact ⟨first, tail, firstOk, tailOk, Except.ok.inj equal⟩
  · rintro ⟨first, rest, firstOk, restOk, rfl⟩
    exact ⟨first, firstOk, bind_eq_ok.mpr ⟨rest, restOk, rfl⟩⟩

/-- Runs whose steps end alike end alike. -/
theorem mapM_of_map
    {γ : Type}
    {f : α → Except ε γ}
    {g : β → Except ε γ}
    {firsts : List α}
    {seconds : List β}
    (same : firsts.map f = seconds.map g) :
    firsts.mapM f = seconds.mapM g := by
  have first := List.mapM_map (l := firsts) (f := f) (g := id)
  have second := List.mapM_map (l := seconds) (f := g) (g := id)
  rw [same, second] at first
  exact first.symm

/-! ### Outcomes that look alike -/

/-- Two outcomes look alike if both fail with one cause, or if both succeed with values that look
alike. -/
theorem map_eq_map
    {γ : Type}
    {f : α → γ}
    {g : β → γ}
    {first : Except ε α}
    {second : Except ε β} :
    f <$> first = g <$> second ↔
      (∃ cause, first = .error cause ∧ second = .error cause) ∨
        ∃ value other, first = .ok value ∧ second = .ok other ∧ f value = g other := by
  cases first <;> cases second <;> simp [eq_comm]

/-- Runs whose steps look alike look alike. -/
theorem mapM_alike
    {γ δ : Type}
    {f : α → Except ε β}
    {g : α → Except ε γ}
    {view : β → δ}
    {other : γ → δ}
    {items : List α}
    (alike : ∀ item ∈ items, view <$> f item = other <$> g item) :
    List.map view <$> items.mapM f = List.map other <$> items.mapM g := by
  induction items with
  | nil => rfl
  | cons item others inductionHypothesis =>
      have rest := inductionHypothesis fun later member =>
        alike later (List.mem_cons_of_mem item member)
      rw [List.mapM_cons, List.mapM_cons]
      obtain ⟨cause, firstError, secondError⟩ | ⟨value, another, firstOk, secondOk, same⟩ :=
        map_eq_map.mp (alike item List.mem_cons_self)
      · rw [firstError, secondError]
        rfl
      · rw [firstOk, secondOk, ok_bind, ok_bind]
        obtain ⟨cause, firstError, secondError⟩ | ⟨values, more, firstRun, secondRun, sameRest⟩ :=
          map_eq_map.mp rest
        · rw [firstError, secondError]
          rfl
        · rw [firstRun, secondRun]
          change Except.ok (view value :: values.map view) =
            Except.ok (other another :: more.map other)
          rw [same, sameRest]

theorem flatten_mapM_alike
    {γ δ : Type}
    {f : α → Except ε (List β)}
    {g : α → Except ε (List γ)}
    {view : β → δ}
    {other : γ → δ}
    {items : List α}
    (alike : ∀ item ∈ items, List.map view <$> f item = List.map other <$> g item) :
    List.map view <$> List.flatten <$> items.mapM f =
      List.map other <$> List.flatten <$> items.mapM g := by
  obtain ⟨cause, firstError, secondError⟩ | ⟨values, more, firstRun, secondRun, same⟩ :=
    map_eq_map.mp (mapM_alike alike)
  · rw [firstError, secondError]
    rfl
  · rw [firstRun, secondRun]
    change Except.ok (values.flatten.map view) = Except.ok (more.flatten.map other)
    rw [List.map_flatten, List.map_flatten, same]

/-! ### Successful runs -/

/-- A run over a list that succeeds has succeeded at each of its items. -/
theorem exists_of_mapM
    {f : α → Except ε β}
    {items : List α}
    {results : List β}
    (run : items.mapM f = .ok results)
    {item : α}
    (member : item ∈ items) :
    ∃ result, f item = .ok result := by
  induction items generalizing results with
  | nil => cases member
  | cons head others inductionHypothesis =>
      obtain ⟨first, rest, firstOk, restOk, -⟩ := mapM_cons_eq_ok.mp run
      rcases List.mem_cons.mp member with rfl | later
      · exact ⟨first, firstOk⟩
      · exact inductionHypothesis restOk later

/-- A run over a list succeeds if it succeeds at each of its items. -/
theorem exists_mapM
    {f : α → Except ε β}
    {items : List α}
    (each : ∀ item ∈ items, ∃ result, f item = .ok result) :
    ∃ results, items.mapM f = .ok results := by
  induction items with
  | nil => exact ⟨[], rfl⟩
  | cons item others inductionHypothesis =>
      obtain ⟨first, firstOk⟩ := each item List.mem_cons_self
      obtain ⟨rest, restOk⟩ := inductionHypothesis fun other member =>
        each other (List.mem_cons_of_mem item member)
      exact ⟨first :: rest, mapM_cons_eq_ok.mpr ⟨first, rest, firstOk, restOk, rfl⟩⟩

/-- The parts of the results of a run are the parts of the results of its steps. -/
theorem mem_flatten_mapM
    {f : α → Except ε (List β)}
    {items : List α}
    {results : List (List β)}
    (run : items.mapM f = .ok results)
    {part : β} :
    part ∈ results.flatten ↔ ∃ item ∈ items, ∃ result, f item = .ok result ∧ part ∈ result := by
  induction items generalizing results with
  | nil =>
      obtain rfl : [] = results := Except.ok.inj run
      simp
  | cons item others inductionHypothesis =>
      obtain ⟨first, rest, firstOk, restOk, rfl⟩ := mapM_cons_eq_ok.mp run
      rw [List.flatten_cons, List.mem_append, inductionHypothesis restOk]
      simp only [List.mem_cons, exists_eq_or_imp, firstOk, Except.ok.injEq, exists_eq_left']

theorem forM_eq_ok {check : α → Except ε Unit} {items : List α} :
    items.forM check = .ok () ↔ ∀ item ∈ items, check item = .ok () := by
  induction items with
  | nil => simp [pure, Except.pure]
  | cons item others inductionHypothesis =>
      change (check item >>= fun _ => others.forM check) = .ok () ↔ _
      rw [bind_eq_ok, List.forall_mem_cons]
      constructor
      · rintro ⟨⟨⟩, first, rest⟩
        exact ⟨first, inductionHypothesis.mp rest⟩
      · rintro ⟨first, rest⟩
        exact ⟨(), first, inductionHypothesis.mpr rest⟩

/-- What each result of a successful run over a list is made of, the whole run is made of. -/
theorem flatten_mapM
    {γ δ : Type}
    {f : α → Except ε (List γ)}
    {view : γ → δ}
    {consumed : α → List δ}
    {items : List α}
    {results : List (List γ)}
    (each : ∀ item ∈ items, ∀ result, f item = .ok result → result.map view = consumed item)
    (run : items.mapM f = .ok results) :
    results.flatten.map view = items.flatMap consumed := by
  induction items generalizing results with
  | nil =>
      obtain rfl : [] = results := Except.ok.inj run
      rfl
  | cons item others inductionHypothesis =>
      obtain ⟨first, tail, firstOk, tailOk, rfl⟩ := mapM_cons_eq_ok.mp run
      rw [List.flatten_cons, List.map_append, List.flatMap_cons,
        each item List.mem_cons_self first firstOk,
        inductionHypothesis (fun other member => each other (List.mem_cons_of_mem item member))
          tailOk]

/-- What holds of the results of each step holds of the results of a successful run. -/
theorem forall_mem_flatten_mapM
    {γ : Type}
    {f : α → Except ε (List γ)}
    {items : List α}
    {results : List (List γ)}
    (Holds : γ → Prop)
    (each : ∀ item ∈ items, ∀ result, f item = .ok result → ∀ part ∈ result, Holds part)
    (run : items.mapM f = .ok results) :
    ∀ part ∈ results.flatten, Holds part := by
  induction items generalizing results with
  | nil =>
      obtain rfl : [] = results := Except.ok.inj run
      exact nofun
  | cons item others inductionHypothesis =>
      obtain ⟨first, tail, firstOk, tailOk, rfl⟩ := mapM_cons_eq_ok.mp run
      intro part member
      rw [List.flatten_cons, List.mem_append] at member
      rcases member with inside | later
      · exact each item List.mem_cons_self first firstOk part inside
      · exact inductionHypothesis
          (fun other member => each other (List.mem_cons_of_mem item member)) tailOk part later

/-- Steps whose changes do not depend on earlier changes can all be found at the start. -/
theorem foldlM_eq_map_mapM
    {step : σ → α → Except ε σ}
    {γ : Type}
    {changes : σ → α → Except ε (List γ)}
    {apply : σ → γ → σ}
    (steps : ∀ state item,
      step state item = (fun added => added.foldl apply state) <$> changes state item)
    (stable : ∀ state added item, changes (apply state added) item = changes state item)
    (items : List α)
    (state : σ) :
    items.foldlM step state =
      (fun added => added.flatten.foldl apply state) <$> items.mapM (changes state) := by
  have stableAll (state : σ) (added : List γ) : changes (added.foldl apply state) = changes state := by
    funext item
    induction added generalizing state with
    | nil => rfl
    | cons first others inductionHypothesis =>
        rw [List.foldl_cons, inductionHypothesis, stable]
  induction items generalizing state with
  | nil => rfl
  | cons item others inductionHypothesis =>
      rw [List.foldlM_cons, List.mapM_cons, steps]
      cases changes state item with
      | error cause => rfl
      | ok first =>
          rw [map_ok, ok_bind, ok_bind, inductionHypothesis, stableAll]
          cases others.mapM (changes state) with
          | error cause => rfl
          | ok rest =>
              change Except.ok (rest.flatten.foldl apply (first.foldl apply state)) =
                Except.ok ((first :: rest).flatten.foldl apply state)
              rw [List.flatten_cons, List.foldl_append]

/-- A relation between a state and the items before it, kept by every step, holds at the end of
a run that succeeds. -/
theorem foldlM_tracks
    {step : σ → α → Except ε σ}
    (Tracks : σ → List α → Prop)
    (kept : ∀ state past item next,
      Tracks state past → step state item = .ok next → Tracks next (past ++ [item]))
    {items : List α}
    {state result : σ}
    {past : List α}
    (start : Tracks state past)
    (run : items.foldlM step state = .ok result) :
    Tracks result (past ++ items) := by
  induction items generalizing state past with
  | nil =>
      obtain rfl : state = result := Except.ok.inj run
      simpa using start
  | cons item others inductionHypothesis =>
      rw [List.foldlM_cons] at run
      obtain ⟨next, stepped, rest⟩ := bind_eq_ok.mp run
      have tail := inductionHypothesis (kept state past item next start stepped) rest
      rwa [List.append_assoc, List.singleton_append] at tail

end ProtoWire.Outcome
