import QueryCompiler.Proofs.Binary64.Nearest
import QueryCompiler.Proofs.Constant
import QueryCompiler.Proofs.OrderedMap

/-!
# The constant of a value

What the constant of a value is. The relation `Encodes` has one rule for each kind of value.
-/

namespace QueryCompiler

open Outcome

/-- A number literal that denotes a finite number, and the double-precision number nearest to it. -/
def NearestLiteral (literal : String) (x : Binary64) : Prop :=
  ∃ d, Decimal.Numeral literal.toList d ∧ |d.value| < Binary64.overflow ∧ x.Rounds d

namespace Constant

/-- Every name once, in the order of first occurrences, with what stands last under it. -/
def LastByName (fields entries : List (Name × Constant)) : Prop :=
  entries.map Prod.fst = (fields.map Prod.fst).eraseDups ∧
    ∀ entry ∈ entries, ∃ before after,
      fields = before ++ entry :: after ∧ entry.1 ∉ after.map Prod.fst

/-- The constant of a value, by the kind of the value. -/
inductive Encodes : Value → Constant → Prop
  | null {location : Option Location} : Encodes (.atom location .null) null
  | bool {location : Option Location} {value : Bool} :
      Encodes (.atom location (.bool value)) (bool value)
  | string {location : Option Location} {text : String} :
      Encodes (.atom location (.string text)) (string text)
  | enum {location : Option Location} {name : Name} :
      Encodes (.atom location (.enum name)) (string name)
  | int {location : Option Location} {literal : String} {i : Int} : WholeLiteral literal i →
      Encodes (.atom location (.int literal)) (int i)
  | wideInt {location : Option Location} {literal : String} {x : Binary64} :
      (∀ i, ¬ WholeLiteral literal i) → NearestLiteral literal x →
      Encodes (.atom location (.int literal)) (float x)
  | float {location : Option Location} {literal : String} {x : Binary64} :
      NearestLiteral literal x → Encodes (.atom location (.float literal)) (float x)
  | list {location : Option Location} {items : List Value} {constants : List Constant} :
      List.Forall₂ Encodes items constants → Encodes (.list location items) (list constants)
  | object {location : Option Location} {fields : List (Name × Value)}
      {constants : List Constant} {entries : List (Name × Constant)} :
      List.Forall₂ Encodes (fields.map Prod.snd) constants →
      LastByName ((fields.map Prod.fst).zip constants) entries →
      Encodes (.object location fields) (map entries)

/-- What a map is made from determines its entries. -/
theorem entries_ofList_eq_iff {fields entries : List (Name × Constant)} :
    (OrderedMap.ofList fields).entries = entries ↔ LastByName fields entries := by
  have hown : LastByName fields (OrderedMap.ofList fields).entries :=
    ⟨OrderedMap.keys_ofList fields, fun _ hentry =>
      OrderedMap.get?_ofList_eq_some_iff.mp (OrderedMap.get?_eq_some_iff.mpr hentry)⟩
  constructor
  · rintro rfl
    exact hown
  · rintro ⟨hkeys, hlast⟩
    -- The names agree, and what stands last under a name is unique.
    refine OrderedMap.entries_ext (hown.1.trans hkeys.symm) ?_
    rintro ⟨name, first⟩ hfirst ⟨_, second⟩ hsecond rfl
    have hget := OrderedMap.get?_ofList_eq_some_iff.mpr (hown.2 _ hfirst)
    have hget' := OrderedMap.get?_ofList_eq_some_iff.mpr (hlast _ hsecond)
    rw [hget] at hget'
    rw [Option.some.inj hget']

/-- Fields are converted value by value, each under its name. -/
theorem ofFields_eq_ok_iff {fields : List (Name × Value)} {entries : List (Name × Constant)} :
    ofFields fields = .ok entries ↔ ∃ constants,
      List.Forall₂ (fun value constant => ofValue value = .ok constant) (fields.map Prod.snd)
        constants ∧ (fields.map Prod.fst).zip constants = entries := by
  induction fields generalizing entries with
  | nil =>
      constructor
      · rintro ⟨⟩
        exact ⟨[], .nil, rfl⟩
      · rintro ⟨_, _, rfl⟩
        rfl
  | cons field rest ih =>
      obtain ⟨name, value⟩ := field
      simp only [ofFields, bind_eq_ok_iff, pure_eq_ok_iff, ih, List.map_cons,
        List.forall₂_cons_left_iff]
      constructor
      · rintro ⟨constant, hconstant, _, ⟨constants, hconstants, rfl⟩, rfl⟩
        exact ⟨_, ⟨constant, constants, hconstant, hconstants, rfl⟩, rfl⟩
      · rintro ⟨_, ⟨constant, constants, hconstant, hconstants, rfl⟩, rfl⟩
        exact ⟨constant, hconstant, _, ⟨constants, hconstants, rfl⟩, rfl⟩

/-- A number literal is converted to the number that is nearest to what it denotes. -/
theorem ofFloat_eq_ok_iff {location : Option Location} {literal : String} {constant : Constant} :
    ofFloat location literal = .ok constant ↔
      ∃ x, NearestLiteral literal x ∧ float x = constant := by
  simp only [NearestLiteral, ← Binary64.readFinite?_eq_some_iff_rounds]
  unfold ofFloat
  cases Binary64.readFinite? literal <;> simp

/-- A literal of a whole number is read as one where it fits, and else as any other number. -/
theorem ofAtom_int_eq_ok_iff {location : Option Location} {literal : String}
    {constant : Constant} :
    ofAtom location (.int literal) = .ok constant ↔
      Encodes (.atom location (.int literal)) constant := by
  rw [ofAtom]
  cases hint : readInt64? literal with
  | some i =>
      have hwhole := readInt64?_eq_some_iff.mp hint
      constructor
      · rintro ⟨⟩
        exact .int hwhole
      · intro h
        cases h with
        | int hother =>
            rw [readInt64?_eq_some_iff.mpr hother] at hint
            rw [Option.some.inj hint]
        | wideInt hnot _ => exact absurd hwhole (hnot i)
  | none =>
      have hnot (i : Int) : ¬ WholeLiteral literal i := by
        intro hwhole
        rw [readInt64?_eq_some_iff.mpr hwhole] at hint
        cases hint
      dsimp only
      rw [ofFloat_eq_ok_iff]
      constructor
      · rintro ⟨x, hnearest, rfl⟩
        exact .wideInt hnot hnearest
      · intro h
        cases h with
        | int hwhole => exact absurd hwhole (hnot _)
        | wideInt _ hnearest => exact ⟨_, hnearest, rfl⟩

/-- A leaf is converted to the constant that encodes it. -/
theorem ofAtom_eq_ok_iff {location : Option Location} {content : Atom} {constant : Constant} :
    ofAtom location content = .ok constant ↔ Encodes (.atom location content) constant := by
  cases content with
  | null => exact ⟨fun | rfl => .null, fun | .null => rfl⟩
  | enum name => exact ⟨fun | rfl => .enum, fun | .enum => rfl⟩
  | string text => exact ⟨fun | rfl => .string, fun | .string => rfl⟩
  | bool value => exact ⟨fun | rfl => .bool, fun | .bool => rfl⟩
  | var name => exact ⟨nofun, nofun⟩
  | int literal => exact ofAtom_int_eq_ok_iff
  | float literal =>
      rw [ofAtom, ofFloat_eq_ok_iff]
      constructor
      · rintro ⟨x, hnearest, rfl⟩
        exact .float hnearest
      · intro h
        cases h with
        | float hnearest => exact ⟨_, hnearest, rfl⟩

/-- The constant of a value is the one that the rules give it. -/
theorem ofValue_eq_ok_iff {value : Value} {constant : Constant} :
    ofValue value = .ok constant ↔ Encodes value constant := by
  induction value generalizing constant with
  | atom location content => exact ofAtom_eq_ok_iff
  | list location items ih =>
      simp only [ofValue, bind_eq_ok_iff, pure_eq_ok_iff, ofItems_eq_mapM, mapM_eq_ok_iff,
        forall₂_congr_left fun item hitem constant => ih item hitem]
      constructor
      · rintro ⟨constants, hconstants, rfl⟩
        exact .list hconstants
      · intro h
        cases h with
        | list hconstants => exact ⟨_, hconstants, rfl⟩
  | object location fields ih =>
      have hvalues : ∀ value ∈ fields.map Prod.snd, ∀ constant,
          ofValue value = .ok constant ↔ Encodes value constant := by
        rw [List.forall_mem_map]
        exact fun field hfield constant => ih field hfield
      simp only [ofValue, bind_eq_ok_iff, pure_eq_ok_iff, ofFields_eq_ok_iff,
        forall₂_congr_left hvalues]
      constructor
      · rintro ⟨_, ⟨constants, hconstants, rfl⟩, rfl⟩
        exact .object hconstants (entries_ofList_eq_iff.mp rfl)
      · intro h
        cases h with
        | object hconstants hlast =>
            exact ⟨_, ⟨_, hconstants, rfl⟩, congrArg map (entries_ofList_eq_iff.mpr hlast)⟩

/-- None of the nodes of a value offends exactly if no variable stands in it and all of its number
literals denote finite numbers. -/
theorem forall_not_offends_iff {value : Value} :
    (∀ (node : Value) (violation : Violation), node.PartOf value → ¬ node.Offends violation) ↔
      (∀ location name, ¬ (Value.atom location (.var name)).PartOf value) ∧
        ∀ location literal, (Value.atom location (.int literal)).PartOf value ∨
          (Value.atom location (.float literal)).PartOf value → FiniteLiteral literal := by
  constructor
  · intro h
    constructor
    · intro location name hpart
      exact h _ _ hpart (.atom .var)
    · rintro location literal (hpart | hpart)
      · exact not_not.mp fun hliteral => h _ _ hpart (.atom (.int hliteral))
      · exact not_not.mp fun hliteral => h _ _ hpart (.atom (.float hliteral))
  · rintro ⟨hvar, hliterals⟩ node violation hpart ⟨hflaw⟩
    cases hflaw with
    | var => exact hvar _ _ hpart
    | int hliteral => exact hliteral (hliterals _ _ (.inl hpart))
    | float hliteral => exact hliteral (hliterals _ _ (.inr hpart))

/-- A value has a constant exactly if no variable stands anywhere in it and every number literal in
it denotes a finite number, those under names that are given again included. Otherwise the first
node that offends, in the order in which the nodes are written, is reported where it stands. The
constant is the one that the rules give. -/
theorem ofValue_exact (value : Value) :
    ((∃ constant, ofValue value = .ok constant) ↔
      (∀ location name, ¬ (Value.atom location (.var name)).PartOf value) ∧
        ∀ location literal, (Value.atom location (.int literal)).PartOf value ∨
          (Value.atom location (.float literal)).PartOf value → FiniteLiteral literal) ∧
    (∀ finding, ofValue value = .error finding ↔
      ∃ before node after violation, value.nodes = before ++ node :: after ∧
        (∀ earlier ∈ before, ∀ other, ¬ Value.Offends earlier other) ∧
          node.Offends violation ∧ ⟨node.location, none, violation⟩ = finding) ∧
    ∀ constant, ofValue value = .ok constant ↔ Encodes value constant :=
  ⟨exists_ofValue_iff_forall_not_offends.trans forall_not_offends_iff,
    fun _ => ofValue_eq_error_iff, fun _ => ofValue_eq_ok_iff⟩

/-- A whole number with a sign and leading zeros, one beyond 64 bits, and a number with a point and
a power of ten. A name that is given again keeps its place and has its last value, and a number that
is not finite is reported in front of a variable behind it. -/
theorem ofValue_exact_numbers :
    Encodes (.atom none (.int "-0042")) (int (-42)) ∧
    Encodes
      (.object none [("a", .atom none (.int "7")),
        ("b", .list none [.atom none (.int "9223372036854775808"), .atom none (.float "1.5e3")]),
        ("a", .atom none (.enum "RED"))])
      (map [("a", string "RED"),
        ("b", list [float ⟨0x43E0000000000000⟩, float ⟨0x4097700000000000⟩])]) ∧
    ∃ before node after violation,
      Value.nodes (.list none [.atom (some ⟨0, 1, 6⟩) (.float "1e400"), .atom none (.var "x")]) =
        before ++ node :: after ∧
      (∀ earlier ∈ before, ∀ other, ¬ Value.Offends earlier other) ∧ node.Offends violation ∧
      (⟨node.location, none, violation⟩ : Finding) =
        ⟨some ⟨0, 1, 6⟩, none, .invalidNumber "1e400"⟩ := by
  have hnegative : readInt64? "-0042" = some (-42) := by decide +kernel
  have hseven : readInt64? "7" = some 7 := by decide +kernel
  have hbeyond : readInt64? "9223372036854775808" = none := by decide +kernel
  have hwide : Binary64.readFinite? "9223372036854775808" = some ⟨0x43E0000000000000⟩ := by
    decide +kernel
  have hpointed : Binary64.readFinite? "1.5e3" = some ⟨0x4097700000000000⟩ := by decide +kernel
  have hinfinite : Binary64.readFinite? "1e400" = none := by decide +kernel
  refine ⟨((ofValue_exact _).2.2 _).mp ?_, ((ofValue_exact _).2.2 _).mp ?_,
    ((ofValue_exact _).2.1 _).mp ?_⟩
  · simp only [ofValue, ofAtom, hnegative]
  · simp only [ofValue, ofFields, ofItems, ofAtom, ofFloat, hseven, hbeyond, hwide, hpointed]
    rfl
  · simp only [ofValue, ofItems, ofAtom, ofFloat, hinfinite]
    rfl

/-- A variable is reported even where its name is given again. -/
example (here there : Option Location) :
    ofValue (.object none [("a", .atom here (.var "x")), ("a", .atom there .null)]) =
      .error ⟨here, none, .variableInConstValue "x"⟩ := rfl

end Constant

end QueryCompiler
