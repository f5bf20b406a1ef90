import QueryCompiler.Constant
import QueryCompiler.Proofs.Lists

/-!
# Constants on the wire

A constant is written directly, or by way of the JSON value that is built for it. Both ways give the
text that the rules of the format ask for: items and entries in the order in which they are listed,
with commas between them, and `null` in the place of a number that is not finite.
-/

namespace QueryCompiler

/-! ### Commas -/

namespace Json

/-- A writer that puts a comma behind each text but the last one. -/
theorem eq_intercalate {α : Type} {writeOne : α → String} {writeAll : List α → String}
    (hnil : writeAll [] = "") (hone : ∀ a, writeAll [a] = writeOne a)
    (hcons : ∀ a b rest, writeAll (a :: b :: rest) = writeOne a ++ "," ++ writeAll (b :: rest))
    (as : List α) : writeAll as = ",".intercalate (as.map writeOne) := by
  induction as with
  | nil => rw [hnil, List.map_nil, String.intercalate_nil]
  | cons a rest ih =>
      cases rest with
      | nil => rw [hone, List.map_singleton, String.intercalate_singleton]
      | cons b others =>
          have hsplit : ",".intercalate ((a :: b :: others).map writeOne) =
              writeOne a ++ "," ++ ",".intercalate ((b :: others).map writeOne) :=
            String.intercalate_cons_cons
          rw [hcons, ih, hsplit]

/-- The text of a member: its key as a string, a colon and the text of its value. -/
def memberText (key : String) (text : String) : String := Text.quoteJson key ++ ":" ++ text

private theorem writeItems_eq (items : List Json) :
    writeItems items = ",".intercalate (items.map write) :=
  eq_intercalate rfl (fun _ => rfl) (fun _ _ _ => rfl) items

private theorem writeMembers_eq (members : List (String × Json)) :
    writeMembers members =
      ",".intercalate (members.map fun member => memberText member.1 member.2.write) :=
  eq_intercalate rfl (fun _ => rfl) (fun _ _ _ => rfl) members

end Json

namespace Constant

private theorem writeItems_eq (items : List Constant) :
    writeItems items = ",".intercalate (items.map write) :=
  Json.eq_intercalate rfl (fun _ => rfl) (fun _ _ _ => rfl) items

private theorem writeEntries_eq (entries : List (Name × Constant)) :
    writeEntries entries =
      ",".intercalate (entries.map fun entry => Json.memberText entry.1 entry.2.write) :=
  Json.eq_intercalate rfl (fun _ => rfl) (fun _ _ _ => rfl) entries

private theorem toJsonItems_eq_map (items : List Constant) :
    toJsonItems items = items.map toJson := by
  induction items with
  | nil => rfl
  | cons item rest ih => rw [toJsonItems, ih, List.map_cons]

private theorem toJsonEntries_eq_map (entries : List (Name × Constant)) :
    toJsonEntries entries = entries.map fun entry => (entry.1, entry.2.toJson) := by
  induction entries with
  | nil => rfl
  | cons entry rest ih => rw [toJsonEntries, ih, List.map_cons]

/-! ### The rules of the format -/

/-- Induction over a constant: the items of a list and the values of a map may be taken for
granted. -/
@[elab_as_elim, induction_eliminator]
theorem induction {motive : Constant → Prop} (null : motive .null)
    (bool : ∀ value, motive (.bool value)) (int : ∀ value, motive (.int value))
    (float : ∀ value, motive (.float value)) (string : ∀ text, motive (.string text))
    (list : ∀ items, (∀ item ∈ items, motive item) → motive (.list items))
    (map : ∀ entries, (∀ entry ∈ entries, motive entry.2) → motive (.map entries))
    (constant : Constant) : motive constant := by
  refine @Constant.rec motive (fun items => ∀ item ∈ items, motive item)
    (fun entries => ∀ entry ∈ entries, motive entry.2) (fun entry => motive entry.2)
    null bool int float string list map ?_ ?_ ?_ ?_ ?_ constant
  · simp
  · intro first rest hfirst hrest
    exact List.forall_mem_cons.mpr ⟨hfirst, hrest⟩
  · simp
  · intro first rest hfirst hrest
    exact List.forall_mem_cons.mpr ⟨hfirst, hrest⟩
  · intro name value hvalue
    exact hvalue

/-- A text writes a constant by the rules of the format. -/
inductive Spells : Constant → String → Prop
  | null : Spells null "null"
  | true : Spells (bool true) "true"
  | false : Spells (bool false) "false"
  | int {i : Int} : Spells (int i) (toString i)
  | float {x : Binary64} : x.isFinite = Bool.true → Spells (float x) x.text
  | notFinite {x : Binary64} : x.isFinite = Bool.false → Spells (float x) "null"
  | string {s : String} : Spells (string s) (Text.quoteJson s)
  | list {items : List Constant} {texts : List String} : List.Forall₂ Spells items texts →
      Spells (list items) ("[" ++ ",".intercalate texts ++ "]")
  | map {entries : List (Name × Constant)} {texts : List String} :
      List.Forall₂ Spells (entries.map Prod.snd) texts →
      Spells (map entries) ("\x7b" ++
        ",".intercalate (List.zipWith Json.memberText (entries.map Prod.fst) texts) ++ "\x7d")

/-- Constants whose texts alone spell them are spelled, member by member, by the list of their
texts alone. -/
theorem forall₂_spells_iff {constants : List Constant} {texts : List String}
    (h : ∀ constant ∈ constants, ∀ text, constant.Spells text ↔ constant.write = text) :
    List.Forall₂ Spells constants texts ↔ constants.map write = texts := by
  rw [forall₂_congr_left h, ← List.forall₂_map_left_iff, List.forall₂_eq_eq_eq]

/-- The text that is written for a constant spells it, and no other text does. -/
theorem spells_iff_write_eq {constant : Constant} {text : String} :
    constant.Spells text ↔ constant.write = text := by
  induction constant generalizing text with
  | null => exact ⟨fun | .null => rfl, fun h => h ▸ .null⟩
  | bool value =>
      cases value with
      | true => exact ⟨fun | .true => rfl, fun h => h ▸ .true⟩
      | false => exact ⟨fun | .false => rfl, fun h => h ▸ .false⟩
  | int i => exact ⟨fun | .int => rfl, fun h => h ▸ .int⟩
  | string s => exact ⟨fun | .string => rfl, fun h => h ▸ .string⟩
  | float x =>
      -- Exactly one of the two rules for these numbers applies.
      rw [write, Json.writeFloat]
      cases hfinite : x.isFinite with
      | true =>
          rw [if_pos rfl]
          constructor
          · rintro (_ | _ | _ | _ | _ | hnot)
            · rfl
            · rw [hfinite] at hnot
              cases hnot
          · rintro rfl
            exact .float hfinite
      | false =>
          rw [if_neg (by simp)]
          constructor
          · rintro (_ | _ | _ | _ | hnot | _)
            · rw [hfinite] at hnot
              cases hnot
            · rfl
          · rintro rfl
            exact .notFinite hfinite
  | list items ih =>
      have hitems (texts : List String) :
          List.Forall₂ Spells items texts ↔ items.map write = texts :=
        forall₂_spells_iff fun item hitem _ => ih item hitem
      rw [write, writeItems_eq]
      constructor
      · rintro (_ | _ | _ | _ | _ | _ | _ | htexts)
        rw [(hitems _).mp htexts]
      · rintro rfl
        exact .list ((hitems _).mpr rfl)
  | map entries ih =>
      have hvalues (texts : List String) :
          List.Forall₂ Spells (entries.map Prod.snd) texts ↔
            entries.map (fun entry => entry.2.write) = texts := by
        rw [forall₂_spells_iff, List.map_map]
        · rfl
        · intro value hvalue text
          obtain ⟨entry, hentry, rfl⟩ := List.mem_map.mp hvalue
          exact ih entry hentry
      -- The rule has names and texts in two lists, the writer goes over pairs.
      have hmembers :
          List.zipWith Json.memberText (entries.map Prod.fst)
              (entries.map fun entry => entry.2.write) =
            entries.map fun entry => Json.memberText entry.1 entry.2.write := by
        rw [List.zipWith_map, List.zipWith_self]
      rw [write, writeEntries_eq, ← hmembers]
      constructor
      · rintro (_ | _ | _ | _ | _ | _ | _ | _ | htexts)
        rw [(hvalues _).mp htexts]
      · rintro rfl
        exact .map ((hvalues _).mpr rfl)

/-! ### By way of a JSON value -/

/-- A constant is written as the JSON value that it is turned into. -/
theorem write_toJson (constant : Constant) : constant.toJson.write = constant.write := by
  induction constant with
  | null => rfl
  | bool value => rfl
  | int value => rfl
  | string text => rfl
  | float x =>
      -- What the JSON value has in the place of such a number is what the number is written as.
      rw [toJson, write, Json.writeFloat]
      split
      next hfinite => rw [Json.write, Json.writeFloat, if_pos hfinite]
      next => rw [Json.write]
  | list items ih =>
      have htexts : (items.map toJson).map Json.write = items.map write := by
        rw [List.map_map, List.map_inj_left]
        exact ih
      rw [toJson, toJsonItems_eq_map, Json.write, write, Json.writeItems_eq, writeItems_eq, htexts]
  | map entries ih =>
      have htexts :
          (entries.map fun entry => (entry.1, entry.2.toJson)).map
              (fun member => Json.memberText member.1 member.2.write) =
            entries.map fun entry => Json.memberText entry.1 entry.2.write := by
        rw [List.map_map, List.map_inj_left]
        intro entry hentry
        rw [Function.comp_apply, ih entry hentry]
      rw [toJson, toJsonEntries_eq_map, Json.write, write, Json.writeMembers_eq, writeEntries_eq,
        htexts]

/-- Both ways of writing a constant give the same text, and it is the one text that writes the
constant by the rules of the format. -/
theorem writers_agree (constant : Constant) :
    constant.toJson.write = constant.write ∧
      ∀ text, constant.Spells text ↔ constant.toJson.write = text := by
  refine ⟨constant.write_toJson, fun text => ?_⟩
  rw [constant.write_toJson]
  exact spells_iff_write_eq

-- Entries stay in their order, and the zero keeps its sign.
example :
    (map [("b", list [float Binary64.nan, map []]), ("a", float ⟨0x8000000000000000⟩)]).write =
      "\x7b\"b\":[null,\x7b\x7d],\"a\":-0.0\x7d" := by
  decide +kernel

end Constant

end QueryCompiler
