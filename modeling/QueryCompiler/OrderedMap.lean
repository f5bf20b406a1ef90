/-!
# Ordered maps

A finite map that remembers the order in which its keys were first inserted. Writing to a key that
is present replaces the value and keeps the position; `insertNew` leaves a present key as it is.
-/

namespace QueryCompiler

/-- A finite map whose keys are listed in the order of their first insertion. -/
structure OrderedMap (κ : Type) (ν : Type) where
  /-- The keys with their values, in order. -/
  entries : List (κ × ν)
  /-- No key is listed twice. -/
  nodup : (entries.map Prod.fst).Nodup

namespace OrderedMap

variable {κ ν : Type}

/-- The map without keys. -/
def empty : OrderedMap κ ν := ⟨[], List.nodup_nil⟩

instance : Inhabited (OrderedMap κ ν) := ⟨empty⟩

instance [DecidableEq κ] [DecidableEq ν] : DecidableEq (OrderedMap κ ν) :=
  fun a b =>
    match decEq a.entries b.entries with
    | isTrue h => isTrue (by cases a; cases b; cases h; rfl)
    | isFalse h => isFalse fun e => h (congrArg entries e)

/-- The keys in order. -/
def keys (m : OrderedMap κ ν) : List κ := m.entries.map Prod.fst

/-- The values in the order of their keys. -/
def values (m : OrderedMap κ ν) : List ν := m.entries.map Prod.snd

/-- The number of keys. -/
def size (m : OrderedMap κ ν) : Nat := m.entries.length

/-- Whether there is no key at all. -/
def isEmpty (m : OrderedMap κ ν) : Bool := m.entries.isEmpty

variable [DecidableEq κ]

/-- The value under a key. -/
def get? (m : OrderedMap κ ν) (key : κ) : Option ν := m.entries.lookup key

/-- Whether a key is present. -/
def contains (m : OrderedMap κ ν) (key : κ) : Bool := (m.get? key).isSome

/-- Put a value under a key: at the key's position if it is present, at the end otherwise. -/
def place (key : κ) (value : ν) : List (κ × ν) → List (κ × ν)
  | [] => [(key, value)]
  | entry :: rest =>
      if entry.1 = key then (key, value) :: rest else entry :: place key value rest

/-- A present key keeps its place and a new one comes last. -/
theorem map_fst_place (key : κ) (value : ν) (entries : List (κ × ν)) :
    (place key value entries).map Prod.fst =
      if key ∈ entries.map Prod.fst then entries.map Prod.fst
      else entries.map Prod.fst ++ [key] := by
  induction entries with
  | nil => simp [place]
  | cons entry rest ih =>
      rw [place]
      by_cases h : entry.1 = key
      · simp [h]
      · have hne : ¬ key = entry.1 := fun e => h e.symm
        simp only [h, ite_false, List.map_cons, ih, List.mem_cons, hne, false_or]
        split <;> simp

private theorem nodup_map_fst_place {key : κ} {value : ν} {entries : List (κ × ν)}
    (h : (entries.map Prod.fst).Nodup) : ((place key value entries).map Prod.fst).Nodup := by
  rw [map_fst_place]
  split
  · exact h
  next hnot =>
    rw [List.nodup_append]
    refine ⟨h, by simp, ?_⟩
    intro a ha b hb
    simp only [List.mem_singleton] at hb
    subst hb
    intro e
    exact hnot (e ▸ ha)

/-- Put a value under a key, replacing the value of a key that is present. -/
def insert (m : OrderedMap κ ν) (key : κ) (value : ν) : OrderedMap κ ν :=
  ⟨place key value m.entries, nodup_map_fst_place m.nodup⟩

/-- `List.lookup` on a nonempty list, said with a proposition in place of a boolean test. -/
theorem lookup_cons_eq_ite (k : κ) (entry : κ × ν) (rest : List (κ × ν)) :
    (entry :: rest).lookup k = if k = entry.1 then some entry.2 else rest.lookup k := by
  rw [List.lookup_cons]
  by_cases h : k = entry.1
  · simp [h]
  · simp only [beq_eq_false_iff_ne.2 h, h, ite_false]

private theorem lookup_place (key : κ) (value : ν) (entries : List (κ × ν)) (k : κ) :
    (place key value entries).lookup k = if k = key then some value else entries.lookup k := by
  induction entries with
  | nil => rw [place, lookup_cons_eq_ite]
  | cons entry rest ih =>
      rw [place, lookup_cons_eq_ite]
      by_cases hentry : entry.1 = key
      · by_cases h : k = key <;> simp [hentry, h, lookup_cons_eq_ite]
      · by_cases h : k = entry.1 <;> simp [hentry, h, lookup_cons_eq_ite, ih]

/-- What is looked up after an insertion. -/
theorem get?_insert (m : OrderedMap κ ν) (key : κ) (value : ν) (k : κ) :
    (m.insert key value).get? k = if k = key then some value else m.get? k :=
  lookup_place key value m.entries k

theorem contains_insert (m : OrderedMap κ ν) (key : κ) (value : ν) (k : κ) :
    (m.insert key value).contains k = (decide (k = key) || m.contains k) := by
  by_cases h : k = key <;> simp [contains, get?_insert, h]

/-- A key with a value is among the keys. -/
theorem mem_keys_of_get?_eq_some {m : OrderedMap κ ν} {key : κ} {value : ν}
    (h : m.get? key = some value) : key ∈ m.keys := by
  have hlookup : ∀ entries : List (κ × ν),
      entries.lookup key = some value → key ∈ entries.map Prod.fst := by
    intro entries
    induction entries with
    | nil => simp
    | cons entry rest ih =>
        intro hrest
        rw [lookup_cons_eq_ite] at hrest
        by_cases hk : key = entry.1
        · simp [hk]
        · exact List.mem_cons_of_mem _ (ih (by simpa [hk] using hrest))
  exact hlookup m.entries h

/-- Put a value under a key, unless the key is present. -/
def insertNew (m : OrderedMap κ ν) (key : κ) (value : ν) : OrderedMap κ ν :=
  if m.contains key then m else m.insert key value

/-- Insert entries one after the other. -/
def insertAll (m : OrderedMap κ ν) (entries : List (κ × ν)) : OrderedMap κ ν :=
  entries.foldl (fun m entry => m.insert entry.1 entry.2) m

/-- Insert entries one after the other, keeping what is present. -/
def insertAllNew (m : OrderedMap κ ν) (entries : List (κ × ν)) : OrderedMap κ ν :=
  entries.foldl (fun m entry => m.insertNew entry.1 entry.2) m

/-- The map that results from inserting the entries in order. -/
def ofList (entries : List (κ × ν)) : OrderedMap κ ν := empty.insertAll entries

/-- Put a member at the end of the list under a key. -/
def push {α : Type} (m : OrderedMap κ (List α)) (key : κ) (a : α) : OrderedMap κ (List α) :=
  m.insert key ((m.get? key).getD [] ++ [a])

end OrderedMap

end QueryCompiler
