import QueryCompiler.Proofs.Lists

/-!
# Outcomes of computations that may fail

What it takes for a sequence of steps to end without a failure, and what each step has given then.
If there is a failure, it is that of the first step that fails.
-/

namespace QueryCompiler.Outcome

variable {ε δ α β : Type}

/-- Two steps succeed if the first does, and the second on what the first has given. -/
theorem bind_eq_ok_iff {x : Except ε α} {f : α → Except ε β} {b : β} :
    x >>= f = .ok b ↔ ∃ a, x = .ok a ∧ f a = .ok b := by
  cases x with
  | error e => simp [bind, Except.bind]
  | ok a => simp [bind, Except.bind]

theorem pure_eq_ok_iff {a b : α} : (pure a : Except ε α) = .ok b ↔ a = b := by
  simp [pure, Except.pure]

theorem map_eq_ok_iff {x : Except ε α} {f : α → β} {b : β} :
    x.map f = .ok b ↔ ∃ a, x = .ok a ∧ f a = b := by
  cases x with
  | error e => simp [Except.map]
  | ok a => simp [Except.map]

/-- Renaming failures leaves successes as they are. -/
theorem mapError_eq_ok_iff {x : Except ε α} {f : ε → δ} {a : α} :
    x.mapError f = .ok a ↔ x = .ok a := by
  cases x with
  | error e => simp [Except.mapError]
  | ok b => simp [Except.mapError]

theorem toOption_eq_some_iff {x : Except ε α} {a : α} : x.toOption = some a ↔ x = .ok a := by
  cases x with
  | error e => simp [Except.toOption]
  | ok b => simp [Except.toOption]

/-- A step is taken on every member of a list if each of them succeeds, with the results in the
order of the members. -/
theorem mapM_eq_ok_iff {f : α → Except ε β} {as : List α} {bs : List β} :
    as.mapM f = .ok bs ↔ List.Forall₂ (fun a b => f a = .ok b) as bs := by
  induction as generalizing bs with
  | nil =>
      rw [List.mapM_nil, pure_eq_ok_iff, List.forall₂_nil_left_iff]
      exact eq_comm
  | cons a as ih =>
      simp only [List.mapM_cons, bind_eq_ok_iff, pure_eq_ok_iff, List.forall₂_cons_left_iff, ih]
      constructor
      · rintro ⟨b, hb, rest, hrest, rfl⟩
        exact ⟨b, rest, hb, hrest, rfl⟩
      · rintro ⟨b, rest, hb, hrest, rfl⟩
        exact ⟨b, hb, rest, hrest, rfl⟩

/-- A step can be taken on every member of a list exactly if it succeeds on each. -/
theorem exists_mapM_eq_ok_iff {f : α → Except ε β} {as : List α} :
    (∃ bs, as.mapM f = .ok bs) ↔ ∀ a ∈ as, ∃ b, f a = .ok b := by
  induction as with
  | nil => simp [pure_eq_ok_iff]
  | cons a as ih =>
      rw [List.forall_mem_cons, ← ih]
      simp only [List.mapM_cons, bind_eq_ok_iff, pure_eq_ok_iff]
      constructor
      · rintro ⟨_, b, hb, rest, hrest, rfl⟩
        exact ⟨⟨b, hb⟩, rest, hrest⟩
      · rintro ⟨⟨b, hb⟩, rest, hrest⟩
        exact ⟨b :: rest, b, hb, rest, hrest, rfl⟩

/-- A list passes a check exactly if each of its members does. -/
theorem forM_eq_ok_iff {f : α → Except ε Unit} {as : List α} :
    as.forM f = .ok () ↔ ∀ a ∈ as, f a = .ok () := by
  induction as with
  | nil => simp [List.forM, pure_eq_ok_iff]
  | cons first rest ih =>
      rw [List.forM, bind_eq_ok_iff, List.forall_mem_cons, ← ih]
      exact ⟨fun ⟨_, hfirst, hrest⟩ => ⟨hfirst, hrest⟩, fun ⟨hfirst, hrest⟩ => ⟨(), hfirst, hrest⟩⟩

/-- A result of a step taken on a list comes from one of its members. -/
theorem mem_of_mapM_eq_ok {f : α → Except ε β} {as : List α} {bs : List β}
    (h : as.mapM f = .ok bs) {b : β} (hb : b ∈ bs) : ∃ a ∈ as, f a = .ok b :=
  exists_of_forall₂_of_mem_right (mapM_eq_ok_iff.mp h) hb

/-- A step on the values of entries gives an entry under the key of the old one. -/
theorem mapEntry_eq_ok_iff {κ : Type} {f : α → Except ε β} {entry : κ × α} {result : κ × β} :
    (do return (entry.1, ← f entry.2)) = .ok result ↔
      entry.1 = result.1 ∧ f entry.2 = .ok result.2 := by
  obtain ⟨key, a⟩ := entry
  obtain ⟨other, b⟩ := result
  simp only [bind_eq_ok_iff, pure_eq_ok_iff, Prod.mk.injEq]
  constructor
  · rintro ⟨_, ha, rfl, rfl⟩
    exact ⟨rfl, ha⟩
  · rintro ⟨rfl, ha⟩
    exact ⟨b, ha, rfl, rfl⟩

/-- Entries are all computed if each value is. -/
theorem exists_mapM_entries_eq_ok_iff {κ : Type} {f : α → Except ε β} {entries : List (κ × α)} :
    (∃ results, (entries.mapM fun (key, a) => do return (key, ← f a)) = .ok results) ↔
      ∀ a ∈ entries.map Prod.snd, ∃ b, f a = .ok b := by
  rw [exists_mapM_eq_ok_iff]
  simp only [mapEntry_eq_ok_iff, List.mem_map]
  constructor
  · rintro h _ ⟨entry, hentry, rfl⟩
    obtain ⟨result, _, hresult⟩ := h entry hentry
    exact ⟨_, hresult⟩
  · intro h entry hentry
    obtain ⟨b, hb⟩ := h entry.2 ⟨entry, hentry, rfl⟩
    exact ⟨(entry.1, b), rfl, hb⟩

/-- A computed entry comes from one with the same key. -/
theorem mem_of_mapM_entries_eq_ok {κ : Type} {f : α → Except ε β} {entries : List (κ × α)}
    {results : List (κ × β)}
    (h : (entries.mapM fun (key, a) => do return (key, ← f a)) = .ok results) {result : κ × β}
    (hresult : result ∈ results) : ∃ a, (result.1, a) ∈ entries ∧ f a = .ok result.2 := by
  obtain ⟨⟨key, a⟩, hentry, hstep⟩ := mem_of_mapM_eq_ok h hresult
  obtain ⟨hkey, ha⟩ := (@mapEntry_eq_ok_iff _ _ _ _ f (key, a) result).mp hstep
  exact ⟨a, hkey ▸ hentry, ha⟩

/-- A step on the values of entries keeps their keys, in order. -/
theorem map_fst_of_mapM_entries_eq_ok {κ : Type} {f : α → Except ε β} {entries : List (κ × α)}
    {results : List (κ × β)}
    (h : (entries.mapM fun (key, a) => do return (key, ← f a)) = .ok results) :
    results.map Prod.fst = entries.map Prod.fst := by
  symm
  apply map_eq_map_of_forall₂ (mapM_eq_ok_iff.mp h)
  intro entry result hstep
  exact ((@mapEntry_eq_ok_iff _ _ _ _ f entry result).mp hstep).1

/-- A step on the values of entries gives a result for each of them. -/
theorem exists_mem_of_mapM_entries_eq_ok {κ : Type} {f : α → Except ε β} {entries : List (κ × α)}
    {results : List (κ × β)}
    (h : (entries.mapM fun (key, a) => do return (key, ← f a)) = .ok results) {entry : κ × α}
    (hentry : entry ∈ entries) : ∃ b, (entry.1, b) ∈ results ∧ f entry.2 = .ok b := by
  obtain ⟨result, hresult, hstep⟩ := exists_of_forall₂_of_mem_left (mapM_eq_ok_iff.mp h) hentry
  obtain ⟨hkey, hb⟩ := (@mapEntry_eq_ok_iff _ _ _ _ f entry result).mp hstep
  exact ⟨result.2, hkey ▸ hresult, hb⟩

/-! ### Failures -/

/-- Two steps fail if the first does, or else the second on what the first has given. -/
theorem bind_eq_error_iff {x : Except ε α} {f : α → Except ε β} {e : ε} :
    x >>= f = .error e ↔ x = .error e ∨ ∃ a, x = .ok a ∧ f a = .error e := by
  cases x with
  | error d => simp [bind, Except.bind]
  | ok a => simp [bind, Except.bind]

theorem pure_ne_error {a : α} {e : ε} : (pure a : Except ε α) ≠ .error e := nofun

/-- What a step fails with. -/
def failure? : Except ε α → Option ε
  | .ok _ => none
  | .error e => some e

theorem failure?_eq_some_iff {x : Except ε α} {e : ε} : failure? x = some e ↔ x = .error e := by
  cases x with
  | error d => simp [failure?]
  | ok a => simp [failure?]

/-- A computation without a failure has a result. -/
theorem failure?_eq_none_iff {x : Except ε α} : failure? x = none ↔ ∃ a, x = .ok a := by
  cases x with
  | error d => simp [failure?]
  | ok a => simp [failure?]

/-- A function of the result adds no failure. -/
theorem failure?_bind_pure (x : Except ε α) (f : α → β) :
    failure? (x >>= fun a => pure (f a)) = failure? x := by
  cases x <;> rfl

/-- Of two steps that do not depend on each other, the first one that fails counts. -/
theorem failure?_bind_bind {γ : Type} (x : Except ε α) (y : Except ε β) (f : α → β → γ) :
    failure? (x >>= fun a => y >>= fun b => pure (f a b)) = (failure? x).or (failure? y) := by
  cases x with
  | error d => rfl
  | ok a => cases y <;> rfl

theorem mapError_eq_error_iff {x : Except ε α} {f : ε → δ} {e : δ} :
    x.mapError f = .error e ↔ ∃ d, x = .error d ∧ f d = e := by
  cases x with
  | error d => simp [Except.mapError]
  | ok a => simp [Except.mapError]

/-- A step that is taken on the members of a list fails on the first member on which it fails. -/
theorem mapM_eq_error_iff {f : α → Except ε β} {as : List α} {e : ε} :
    as.mapM f = .error e ↔ ∃ before a after, as = before ++ a :: after ∧
      (∀ earlier ∈ before, ∃ b, f earlier = .ok b) ∧ f a = .error e := by
  induction as with
  | nil => simp [pure_ne_error]
  | cons first rest ih =>
      simp only [List.mapM_cons, bind_eq_error_iff, pure_ne_error, and_false, exists_false,
        or_false, ih]
      constructor
      · rintro (hfirst | ⟨b, hfirst, before, a, after, rfl, hbefore, ha⟩)
        · exact ⟨[], first, rest, rfl, nofun, hfirst⟩
        · have hall := List.forall_mem_cons.mpr ⟨⟨b, hfirst⟩, hbefore⟩
          exact ⟨first :: before, a, after, rfl, hall, ha⟩
      · rintro ⟨before, a, after, hsplit, hbefore, ha⟩
        cases before with
        | nil =>
            obtain ⟨rfl, _⟩ := List.cons.inj hsplit
            exact Or.inl ha
        | cons earlier others =>
            obtain ⟨rfl, hrest⟩ := List.cons.inj hsplit
            obtain ⟨⟨b, hfirst⟩, hothers⟩ := List.forall_mem_cons.mp hbefore
            exact Or.inr ⟨b, hfirst, others, a, after, hrest, hothers, ha⟩

/-- If a list does not pass a check, then one of its members does not. -/
theorem exists_of_forM_eq_error {f : α → Except ε Unit} {as : List α} {e : ε}
    (h : as.forM f = .error e) : ∃ a ∈ as, f a = .error e := by
  induction as with
  | nil => cases h
  | cons first rest ih =>
      rw [List.forM, bind_eq_error_iff] at h
      rcases h with hfirst | ⟨_, _, hrest⟩
      · exact ⟨first, List.mem_cons_self, hfirst⟩
      · obtain ⟨a, ha, herror⟩ := ih hrest
        exact ⟨a, List.mem_cons_of_mem _ ha, herror⟩

private theorem mapEntry_eq_error_iff {κ : Type} {f : α → Except ε β} {entry : κ × α} {e : ε} :
    (do return (entry.1, ← f entry.2)) = .error e ↔ f entry.2 = .error e := by
  simp only [bind_eq_error_iff, pure_ne_error, and_false, exists_false, or_false]

/-- A step on the values of entries fails on the first value on which it fails. -/
theorem mapM_entries_eq_error_iff {κ : Type} {f : α → Except ε β} {entries : List (κ × α)} {e : ε} :
    (entries.mapM fun (key, a) => do return (key, ← f a)) = .error e ↔
      ∃ before a after, entries.map Prod.snd = before ++ a :: after ∧
        (∀ earlier ∈ before, ∃ b, f earlier = .ok b) ∧ f a = .error e := by
  have hok : ∀ entry : κ × α, (∃ result, (do return (entry.1, ← f entry.2)) = Except.ok result) ↔
      ∃ b, f entry.2 = .ok b := by
    intro entry
    simp only [mapEntry_eq_ok_iff]
    exact ⟨fun ⟨result, _, hb⟩ => ⟨result.2, hb⟩, fun ⟨b, hb⟩ => ⟨(entry.1, b), rfl, hb⟩⟩
  rw [mapM_eq_error_iff]
  constructor
  · rintro ⟨before, entry, after, rfl, hbefore, hentry⟩
    refine ⟨before.map Prod.snd, entry.2, after.map Prod.snd, by simp, ?_,
      mapEntry_eq_error_iff.mp hentry⟩
    intro earlier hearlier
    obtain ⟨other, hother, rfl⟩ := List.mem_map.mp hearlier
    exact (hok other).mp (hbefore other hother)
  · rintro ⟨_, _, _, hsplit, hbefore, ha⟩
    obtain ⟨before, rest, rfl, rfl, hrest⟩ := List.map_eq_append_iff.mp hsplit
    obtain ⟨entry, after, rfl, rfl, rfl⟩ := List.map_eq_cons_iff.mp hrest
    refine ⟨before, entry, after, rfl, ?_, mapEntry_eq_error_iff.mpr ha⟩
    intro other hother
    exact (hok other).mpr (hbefore other.2 (List.mem_map_of_mem hother))

end QueryCompiler.Outcome
