import Mathlib.Computability.Primrec.List
import Mathlib.Data.List.Basic
import Mathlib.Data.List.Induction
import Mathlib.Data.List.Permutation
import QueryCompiler.OrderedMap
import QueryCompiler.Proofs.Lists

/-!
# Laws of ordered maps

Looking up a key and finding its entry in the list are the same thing, because no key is listed
twice. Everything that an ordered map holds was put into it.

The equations of `List.lookup` that evaluate concrete maps are those of
`Mathlib.Computability.Primrec.List`.
-/

namespace QueryCompiler.OrderedMap

variable {κ ν : Type} [DecidableEq κ]

@[simp] theorem get?_empty (key : κ) : (empty : OrderedMap κ ν).get? key = none := rfl

/-- A look-up finds an entry exactly if the entry is listed. -/
theorem get?_eq_some_iff {m : OrderedMap κ ν} {key : κ} {value : ν} :
    m.get? key = some value ↔ (key, value) ∈ m.entries := by
  obtain ⟨entries, hnodup⟩ := m
  simp only [get?]
  induction entries with
  | nil => simp
  | cons entry rest ih =>
      obtain ⟨hfresh, hrest⟩ := List.nodup_cons.mp hnodup
      rw [lookup_cons_eq_ite, List.mem_cons]
      by_cases h : key = entry.1
      · have hnot : (key, value) ∉ rest := by
          intro hmem
          exact hfresh (h ▸ List.mem_map_of_mem hmem)
        rw [if_pos h, Option.some.injEq, or_iff_left hnot, Prod.ext_iff]
        exact ⟨fun hv => ⟨h, hv.symm⟩, fun he => he.2.symm⟩
      · have hne : (key, value) ≠ entry := by
          intro he
          exact h (congrArg Prod.fst he)
        simp only [h, ite_false, hne, false_or]
        exact ih hrest

/-- The keys of a map are those with a value. -/
theorem contains_iff {m : OrderedMap κ ν} {key : κ} :
    m.contains key = true ↔ ∃ value, m.get? key = some value := by
  rw [contains, Option.isSome_iff_exists]

/-- The keys are those under which a look-up finds something. -/
theorem mem_keys_iff {m : OrderedMap κ ν} {key : κ} :
    key ∈ m.keys ↔ ∃ value, m.get? key = some value := by
  simp only [keys, List.mem_map, get?_eq_some_iff]
  constructor
  · rintro ⟨⟨_, value⟩, hmem, rfl⟩
    exact ⟨value, hmem⟩
  · rintro ⟨value, hmem⟩
    exact ⟨(key, value), hmem, rfl⟩

/-- The values of a map are those under a key. -/
theorem mem_values_iff {m : OrderedMap κ ν} {value : ν} :
    value ∈ m.values ↔ ∃ key, m.get? key = some value := by
  simp only [values, List.mem_map, get?_eq_some_iff]
  constructor
  · rintro ⟨⟨key, _⟩, hmem, rfl⟩
    exact ⟨key, hmem⟩
  · rintro ⟨key, hmem⟩
    exact ⟨(key, value), hmem, rfl⟩

/-- A value is put under a key only where there was none. -/
theorem get?_insertNew (m : OrderedMap κ ν) (key : κ) (value : ν) (k : κ) :
    (m.insertNew key value).get? k = (m.get? k).or (if k = key then some value else none) := by
  unfold insertNew
  by_cases hkey : m.contains key = true
  · obtain ⟨old, hold⟩ := contains_iff.mp hkey
    by_cases h : k = key
    · simp [h, hold, hkey]
    · simp [h, hkey]
  · have hnone : m.get? key = none := by simpa [contains] using hkey
    by_cases h : k = key
    · simp [h, hkey, hnone, get?_insert]
    · simp [h, hkey, get?_insert]

/-- Entries are added only under keys that had none, the first of each key. -/
theorem get?_insertAllNew (m : OrderedMap κ ν) (entries : List (κ × ν)) (k : κ) :
    (m.insertAllNew entries).get? k = (m.get? k).or (entries.lookup k) := by
  induction entries generalizing m with
  | nil => simp [insertAllNew]
  | cons entry rest ih =>
      have hrest : m.insertAllNew (entry :: rest) =
          (m.insertNew entry.1 entry.2).insertAllNew rest := rfl
      rw [hrest, ih, get?_insertNew, Option.or_assoc, lookup_cons_eq_ite]
      by_cases h : k = entry.1
      · simp [h]
      · simp [h]

/-- The keys after new entries were put in. -/
theorem mem_keys_insertAllNew_iff {m : OrderedMap κ ν} {entries : List (κ × ν)} {key : κ} :
    key ∈ (m.insertAllNew entries).keys ↔ key ∈ m.keys ∨ key ∈ entries.map Prod.fst := by
  have hlookup : (entries.lookup key).isSome = true ↔ key ∈ entries.map Prod.fst := by
    simp only [List.lookup_isSome_iff, beq_iff_eq, List.mem_map, @eq_comm κ key]
  rw [← hlookup, mem_keys_iff, mem_keys_iff, get?_insertAllNew]
  simp only [← Option.isSome_iff_exists, Option.isSome_or, Bool.or_eq_true]

/-- Adding entries under new keys adds no others. -/
theorem mem_entries_insertAllNew {m : OrderedMap κ ν} {entries : List (κ × ν)} {entry : κ × ν}
    (h : entry ∈ (m.insertAllNew entries).entries) : entry ∈ m.entries ∨ entry ∈ entries := by
  have hget := get?_eq_some_iff.mpr h
  rw [get?_insertAllNew, Option.or_eq_some_iff] at hget
  rcases hget with hold | ⟨_, hnew⟩
  · exact Or.inl (get?_eq_some_iff.mp hold)
  · right
    obtain ⟨before, after, hentries, _⟩ := List.lookup_eq_some_iff.mp hnew
    rw [hentries]
    exact List.mem_append_right _ List.mem_cons_self

/-- Putting an entry into a map adds no other entry. -/
theorem mem_entries_insert {m : OrderedMap κ ν} {key : κ} {value : ν} {entry : κ × ν}
    (h : entry ∈ (m.insert key value).entries) : entry ∈ m.entries ∨ entry = (key, value) := by
  have hget := get?_eq_some_iff.mpr h
  rw [get?_insert] at hget
  by_cases hk : entry.1 = key
  · right
    rw [if_pos hk, Option.some.injEq] at hget
    exact Prod.ext hk hget.symm
  · left
    rw [if_neg hk] at hget
    exact get?_eq_some_iff.mp hget

/-- Entries that were put in are all that is added. -/
theorem mem_entries_insertAll {m : OrderedMap κ ν} {entries : List (κ × ν)} {entry : κ × ν}
    (h : entry ∈ (m.insertAll entries).entries) : entry ∈ m.entries ∨ entry ∈ entries := by
  induction entries generalizing m with
  | nil => exact Or.inl h
  | cons first rest ih =>
      rcases ih h with hm | hrest
      · rcases mem_entries_insert hm with hold | rfl
        · exact Or.inl hold
        · exact Or.inr List.mem_cons_self
      · exact Or.inr (List.mem_cons_of_mem _ hrest)

/-- Of several entries under one key the last counts, and the old value only if there is none. -/
theorem get?_insertAll_eq_some_iff {m : OrderedMap κ ν} {entries : List (κ × ν)} {key : κ}
    {value : ν} :
    (m.insertAll entries).get? key = some value ↔
      (∃ before after, entries = before ++ (key, value) :: after ∧ key ∉ after.map Prod.fst) ∨
        key ∉ entries.map Prod.fst ∧ m.get? key = some value := by
  induction entries generalizing m with
  | nil => simp [insertAll]
  | cons first rest ih =>
      have hrest : m.insertAll (first :: rest) = (m.insert first.1 first.2).insertAll rest := rfl
      rw [hrest, ih, get?_insert, List.map_cons, List.mem_cons, not_or]
      constructor
      · rintro (⟨before, after, rfl, hafter⟩ | ⟨hnew, hget⟩)
        · exact Or.inl ⟨first :: before, after, rfl, hafter⟩
        · by_cases hkey : key = first.1
          · rw [if_pos hkey, Option.some.injEq] at hget
            exact Or.inl ⟨[], rest, by rw [hkey, ← hget, List.nil_append], hnew⟩
          · rw [if_neg hkey] at hget
            exact Or.inr ⟨⟨hkey, hnew⟩, hget⟩
      · rintro (⟨before, after, hsplit, hafter⟩ | ⟨⟨hkey, hnew⟩, hget⟩)
        · cases before with
          | nil =>
              obtain ⟨rfl, rfl⟩ := List.cons.inj hsplit
              exact Or.inr ⟨hafter, if_pos rfl⟩
          | cons _ others =>
              obtain ⟨_, hothers⟩ := List.cons.inj hsplit
              exact Or.inl ⟨others, after, hothers, hafter⟩
        · exact Or.inr ⟨hnew, by rw [if_neg hkey, hget]⟩

/-- The keys after entries were put in. -/
theorem mem_keys_insertAll_iff {m : OrderedMap κ ν} {entries : List (κ × ν)} {key : κ} :
    key ∈ (m.insertAll entries).keys ↔ key ∈ m.keys ∨ key ∈ entries.map Prod.fst := by
  induction entries generalizing m with
  | nil => simp [insertAll]
  | cons first rest ih =>
      have hrest : m.insertAll (first :: rest) = (m.insert first.1 first.2).insertAll rest := rfl
      have hfirst : key ∈ (m.insert first.1 first.2).keys ↔ key = first.1 ∨ key ∈ m.keys := by
        simp only [mem_keys_iff, ← contains_iff, contains_insert, Bool.or_eq_true,
          decide_eq_true_eq]
      rw [hrest, ih, hfirst, List.map_cons, List.mem_cons, or_assoc, or_left_comm]

/-- A map that was built from a list holds no other entries than those of the list. -/
theorem mem_entries_ofList {entries : List (κ × ν)} {entry : κ × ν}
    (h : entry ∈ (ofList entries).entries) : entry ∈ entries := by
  rcases mem_entries_insertAll h with hempty | hmem
  · simp [empty] at hempty
  · exact hmem

/-- An entry with a new key comes last. -/
theorem place_of_notMem {key : κ} {value : ν} {entries : List (κ × ν)}
    (h : key ∉ entries.map Prod.fst) : place key value entries = entries ++ [(key, value)] := by
  induction entries with
  | nil => rfl
  | cons entry rest ih =>
      rw [List.map_cons, List.mem_cons, not_or] at h
      rw [place, if_neg (Ne.symm h.1), ih h.2, List.cons_append]

/-- Entries under new keys are listed behind those that were there. -/
theorem entries_insertAll {m : OrderedMap κ ν} {entries : List (κ × ν)}
    (h : ((m.entries ++ entries).map Prod.fst).Nodup) :
    (m.insertAll entries).entries = m.entries ++ entries := by
  induction entries generalizing m with
  | nil => simp [insertAll]
  | cons entry rest ih =>
      have hfresh : entry.1 ∉ m.entries.map Prod.fst := by
        rw [List.map_append, List.nodup_append] at h
        intro hmem
        exact h.2.2 _ hmem _ List.mem_cons_self rfl
      have hentries : (m.insert entry.1 entry.2).entries = m.entries ++ [entry] :=
        place_of_notMem hfresh
      have hrest : (m.insertAll (entry :: rest)).entries =
          ((m.insert entry.1 entry.2).insertAll rest).entries := rfl
      rw [hrest, ih, hentries, List.append_assoc, List.singleton_append]
      rw [hentries, List.append_assoc, List.singleton_append]
      exact h

/-- A map that was built from entries under different keys lists just these entries. -/
theorem entries_ofList {entries : List (κ × ν)} (h : (entries.map Prod.fst).Nodup) :
    (ofList entries).entries = entries :=
  entries_insertAll h

/-- Entries are put in one list after the other. -/
theorem insertAll_append (m : OrderedMap κ ν) (as bs : List (κ × ν)) :
    m.insertAll (as ++ bs) = (m.insertAll as).insertAll bs :=
  List.foldl_append

private theorem ofList_append_singleton (entries : List (κ × ν)) (entry : κ × ν) :
    ofList (entries ++ [entry]) = (ofList entries).insert entry.1 entry.2 :=
  insertAll_append empty entries [entry]

/-- The keys stand in the order of their first occurrences. -/
theorem keys_ofList (entries : List (κ × ν)) :
    (ofList entries).keys = (entries.map Prod.fst).eraseDups := by
  induction entries using List.reverseRecOn with
  | nil => rfl
  | append_singleton entries entry ih =>
      have hinsert : ((ofList entries).insert entry.1 entry.2).keys =
          if entry.1 ∈ (ofList entries).keys then (ofList entries).keys
          else (ofList entries).keys ++ [entry.1] :=
        map_fst_place _ _ _
      rw [ofList_append_singleton, hinsert, ih, List.map_append, List.map_singleton,
        eraseDups_append_one]
      by_cases hentry : entry.1 ∈ entries.map Prod.fst
      · rw [if_pos (List.mem_eraseDups.mpr hentry), if_pos hentry, List.append_nil]
      · rw [if_neg (mt List.mem_eraseDups.mp hentry), if_neg hentry]

/-- Of the entries under one key the last one counts. -/
theorem get?_ofList_eq_some_iff {entries : List (κ × ν)} {key : κ} {value : ν} :
    (ofList entries).get? key = some value ↔
      ∃ before after, entries = before ++ (key, value) :: after ∧ key ∉ after.map Prod.fst := by
  rw [ofList, get?_insertAll_eq_some_iff, or_iff_left]
  rintro ⟨_, hempty⟩
  cases hempty

omit [DecidableEq κ] in
/-- Entries with the same keys in the same order are the same if those under one key are. -/
theorem entries_ext {as bs : List (κ × ν)} (hkeys : as.map Prod.fst = bs.map Prod.fst)
    (h : ∀ a ∈ as, ∀ b ∈ bs, a.1 = b.1 → a = b) : as = bs := by
  induction as generalizing bs with
  | nil => exact (List.map_eq_nil_iff.mp hkeys.symm).symm
  | cons a as ih =>
      cases bs with
      | nil => cases hkeys
      | cons b bs =>
          obtain ⟨hkey, hrest⟩ := List.cons.inj hkeys
          have hfirst := h a List.mem_cons_self b List.mem_cons_self hkey
          have hothers := ih hrest fun a ha b hb =>
            h a (List.mem_cons_of_mem _ ha) b (List.mem_cons_of_mem _ hb)
          rw [hfirst, hothers]

/-- A key can be listed behind those of a map if it is not among them. -/
theorem nodup_append_singleton_iff {m : OrderedMap κ ν} {entry : κ × ν} :
    ((m.entries ++ [entry]).map Prod.fst).Nodup ↔ ¬ m.contains entry.1 = true := by
  rw [contains_iff, ← mem_keys_iff, keys, List.map_append, List.nodup_append]
  constructor
  · rintro ⟨_, _, hnew⟩ hmem
    exact hnew _ hmem _ List.mem_cons_self rfl
  · intro hnew
    refine ⟨m.nodup, by simp, ?_⟩
    rintro key hkey other hother rfl
    rw [List.map_singleton, List.mem_singleton] at hother
    exact hnew (hother ▸ hkey)

/-- Entries have new and different keys if the first of them do and the others do behind these. -/
theorem nodup_append_insertAll_iff {m : OrderedMap κ ν} {as bs : List (κ × ν)} :
    ((m.entries ++ (as ++ bs)).map Prod.fst).Nodup ↔
      ((m.entries ++ as).map Prod.fst).Nodup ∧
        (((m.insertAll as).entries ++ bs).map Prod.fst).Nodup := by
  rw [← List.append_assoc]
  constructor
  · intro h
    have hfirst : ((m.entries ++ as).map Prod.fst).Nodup := by
      rw [List.map_append, List.nodup_append] at h
      exact h.1
    exact ⟨hfirst, by rwa [entries_insertAll hfirst]⟩
  · rintro ⟨hfirst, hall⟩
    rwa [entries_insertAll hfirst] at hall

/-- Maps that list the same entries in different orders are the same maps. -/
theorem get?_eq_of_perm {a b : OrderedMap κ ν} (h : a.entries.Perm b.entries) (key : κ) :
    a.get? key = b.get? key := by
  apply Option.ext
  intro value
  rw [get?_eq_some_iff, get?_eq_some_iff, h.mem_iff]

/-! ### Lists under keys -/

section Push

variable {α : Type}

/-- A key that is new comes at the end, and one that is present stays where it is. -/
theorem keys_push (m : OrderedMap κ (List α)) (key : κ) (a : α) :
    (m.push key a).keys = if key ∈ m.keys then m.keys else m.keys ++ [key] :=
  map_fst_place key _ m.entries

/-- What is under a key after a member was put to the end of a list. -/
theorem get?_push (m : OrderedMap κ (List α)) (key : κ) (a : α) (k : κ) :
    (m.push key a).get? k = if k = key then some ((m.get? key).getD [] ++ [a]) else m.get? k :=
  get?_insert m key _ k

/-- The values are what the keys lead to, in order. -/
theorem values_eq_map_keys (m : OrderedMap κ (List α)) :
    m.values = m.keys.map fun key => (m.get? key).getD [] := by
  rw [values, keys, List.map_map, List.map_inj_left]
  intro entry hentry
  rw [Function.comp_apply, get?_eq_some_iff.mpr hentry, Option.getD_some]

end Push

end QueryCompiler.OrderedMap
