import QueryCompiler.Constant
import QueryCompiler.Proofs.Binary64
import QueryCompiler.Proofs.Document.Locations
import QueryCompiler.Proofs.Outcome

/-!
# Values that are constants

A value has a constant exactly if no variable stands anywhere in it and every number literal in it
denotes a finite number. A value without a constant is reported for the first node in it that is a
variable or a number literal that denotes no finite number, where the nodes stand in the order in
which they are written.
-/

namespace QueryCompiler

open Outcome

/-! ### Number literals -/

/-- A number literal that denotes a finite number. -/
def FiniteLiteral (literal : String) : Prop :=
  ∃ d, Decimal.Numeral literal.toList d ∧ |d.value| < Binary64.overflow

/-- A number literal that denotes a whole number of 64 bits with a sign. -/
def WholeLiteral (literal : String) (i : Int) : Prop :=
  Decimal.WholeText literal.toList i ∧ -2 ^ 63 ≤ i ∧ i < 2 ^ 63

/-- The literals that are read are those that denote a finite number. -/
theorem exists_readFinite?_iff {literal : String} :
    (∃ x, Binary64.readFinite? literal = some x) ↔ FiniteLiteral literal := by
  simp only [Binary64.readFinite?_eq_some_iff]
  constructor
  · rintro ⟨_, d, hnumeral, hbound, _⟩
    exact ⟨d, hnumeral, hbound⟩
  · rintro ⟨d, hnumeral, hbound⟩
    exact ⟨_, d, hnumeral, hbound, rfl⟩

/-- The literals that are refused are the others. -/
theorem readFinite?_eq_none_iff {literal : String} :
    Binary64.readFinite? literal = none ↔ ¬ FiniteLiteral literal := by
  rw [← exists_readFinite?_iff, ← Option.isSome_iff_exists, Option.not_isSome_iff_eq_none]

/-- The reader of whole numbers reads the whole literals of 64 bits. -/
theorem Constant.readInt64?_eq_some_iff {literal : String} {i : Int} :
    readInt64? literal = some i ↔ WholeLiteral literal i := by
  have hbound : intBound = 2 ^ 63 := rfl
  simp only [readInt64?, Option.filter_eq_some_iff, Decimal.readInt?_eq_some_iff, Bool.and_eq_true,
    decide_eq_true_iff, hbound, WholeLiteral]

/-- A whole number of 64 bits is a finite number. -/
theorem WholeLiteral.finite {literal : String} {i : Int} (h : WholeLiteral literal i) :
    FiniteLiteral literal := by
  obtain ⟨htext, hlow, hhigh⟩ := h
  obtain ⟨d, hnumeral, hvalue⟩ := htext.exists_numeral
  refine ⟨d, hnumeral, ?_⟩
  have habs : |i| ≤ 2 ^ 63 := abs_le.mpr ⟨hlow, hhigh.le⟩
  have hpow : (2 : ℚ) ^ 63 < 2 ^ 1023 := pow_lt_pow_right₀ one_lt_two (by decide)
  calc
    |d.value| = (|i| : ℤ) := by rw [hvalue, Int.cast_abs]
    _ ≤ 2 ^ 63 := by exact_mod_cast habs
    _ < 2 ^ 1023 := hpow
    _ ≤ Binary64.overflow := Binary64.le_overflow

/-! ### Flaws -/

/-- An atomic value that can be sent: no variable, and no number that is not finite. -/
def Atom.IsConstant : Atom → Prop
  | .var _ => False
  | .int literal => FiniteLiteral literal
  | .float literal => FiniteLiteral literal
  | _ => True

/-- What is wrong with an atomic value that cannot be sent: it is a variable, or a number that is
not finite. -/
inductive Atom.Flaw : Atom → Violation → Prop
  | var {name : Name} : Flaw (.var name) (.variableInConstValue name)
  | int {literal : String} : ¬ FiniteLiteral literal → Flaw (.int literal) (.invalidNumber literal)
  | float {literal : String} : ¬ FiniteLiteral literal →
      Flaw (.float literal) (.invalidNumber literal)

/-- What is wrong with a node: it is atomic and has a flaw. -/
inductive Value.Offends : Value → Violation → Prop
  | atom {location : Option Location} {content : Atom} {violation : Violation} :
      content.Flaw violation → Offends (.atom location content) violation

/-- A value all of whose atomic parts can be sent. -/
inductive Value.IsConstant : Value → Prop
  | atom {location : Option Location} {content : Atom} : content.IsConstant →
      IsConstant (.atom location content)
  | list {location : Option Location} {items : List Value} :
      (∀ item ∈ items, IsConstant item) → IsConstant (.list location items)
  | object {location : Option Location} {fields : List (Name × Value)} :
      (∀ field ∈ fields, IsConstant field.2) → IsConstant (.object location fields)

/-- A literal of a whole number has a flaw if it denotes no finite number. -/
theorem Atom.flaw_int_iff {literal : String} {violation : Violation} :
    (Atom.int literal).Flaw violation ↔
      ¬ FiniteLiteral literal ∧ .invalidNumber literal = violation := by
  constructor
  · intro h
    cases h with
    | int hliteral => exact ⟨hliteral, rfl⟩
  · rintro ⟨hliteral, rfl⟩
    exact .int hliteral

/-- So has a literal of any other number. -/
theorem Atom.flaw_float_iff {literal : String} {violation : Violation} :
    (Atom.float literal).Flaw violation ↔
      ¬ FiniteLiteral literal ∧ .invalidNumber literal = violation := by
  constructor
  · intro h
    cases h with
    | float hliteral => exact ⟨hliteral, rfl⟩
  · rintro ⟨hliteral, rfl⟩
    exact .float hliteral

/-- An atomic value can be sent exactly if it has no flaw. -/
theorem Atom.isConstant_iff {content : Atom} :
    content.IsConstant ↔ ∀ violation, ¬ content.Flaw violation := by
  cases content with
  | null => exact iff_of_true trivial nofun
  | enum name => exact iff_of_true trivial nofun
  | string text => exact iff_of_true trivial nofun
  | bool value => exact iff_of_true trivial nofun
  | var name => exact iff_of_false id fun h => h _ .var
  | int literal => simp [IsConstant, flaw_int_iff]
  | float literal => simp [IsConstant, flaw_float_iff]

/-- All atomic parts of a value can be sent exactly if none of its nodes offends. -/
theorem Value.isConstant_iff {value : Value} :
    value.IsConstant ↔
      ∀ (node : Value) (violation : Violation), node.PartOf value → ¬ node.Offends violation := by
  constructor
  · intro h node violation hpart hoffends
    induction hpart with
    | here =>
        cases hoffends with
        | atom hflaw =>
            cases h with
            | atom hconstant => exact Atom.isConstant_iff.mp hconstant _ hflaw
    | item hmem _ ih =>
        cases h with
        | list hitems => exact ih (hitems _ hmem)
    | field hmem _ ih =>
        cases h with
        | object hfields => exact ih (hfields _ hmem)
  · intro h
    induction value with
    | atom location content =>
        exact .atom (Atom.isConstant_iff.mpr fun violation hflaw => h _ _ .here (.atom hflaw))
    | list location items ih =>
        exact .list fun item hmem => ih item hmem fun node violation hpart =>
          h node violation (.item hmem hpart)
    | object location fields ih =>
        exact .object fun field hmem => ih field hmem fun node violation hpart =>
          h node violation (.field hmem hpart)

/-! ### Nodes -/

namespace Value

mutual

/-- A value and all values in it, in the order in which they are written. -/
def nodes : Value → List Value
  | atom location content => [atom location content]
  | list location items => list location items :: nodesItems items
  | object location fields => object location fields :: nodesFields fields

/-- The nodes in list items. -/
def nodesItems : List Value → List Value
  | [] => []
  | item :: rest => item.nodes ++ nodesItems rest

/-- The nodes in object fields. -/
def nodesFields : List (Name × Value) → List Value
  | [] => []
  | (_, value) :: rest => value.nodes ++ nodesFields rest

end

/-- The nodes of a list are those of its items, one item after the other. -/
theorem nodesItems_eq_flatMap (items : List Value) : nodesItems items = items.flatMap nodes := by
  induction items with
  | nil => rfl
  | cons item rest ih => rw [nodesItems, ih, List.flatMap_cons]

/-- The nodes of an object are those of its field values, one field after the other. -/
theorem nodesFields_eq_flatMap (fields : List (Name × Value)) :
    nodesFields fields = (fields.map Prod.snd).flatMap nodes := by
  induction fields with
  | nil => rfl
  | cons field rest ih => rw [nodesFields, ih, List.map_cons, List.flatMap_cons]

/-- The nodes are the parts of a value. -/
theorem mem_nodes_iff {part value : Value} : part ∈ value.nodes ↔ part.PartOf value := by
  constructor
  · intro h
    induction value with
    | atom location content =>
        obtain rfl := List.mem_singleton.mp h
        exact .here
    | list location items ih =>
        rw [nodes, nodesItems_eq_flatMap, List.mem_cons, List.mem_flatMap] at h
        rcases h with rfl | ⟨item, hitem, hpart⟩
        · exact .here
        · exact .item hitem (ih item hitem hpart)
    | object location fields ih =>
        rw [nodes, nodesFields_eq_flatMap, List.mem_cons, List.flatMap_map, List.mem_flatMap] at h
        rcases h with rfl | ⟨field, hfield, hpart⟩
        · exact .here
        · exact .field hfield (ih field hfield hpart)
  · intro h
    induction h with
    | here => cases part <;> simp [nodes]
    | item hmem _ ih =>
        rw [nodes, nodesItems_eq_flatMap]
        exact List.mem_cons_of_mem _ (List.mem_flatMap_of_mem hmem ih)
    | field hmem _ ih =>
        rw [nodes, nodesFields_eq_flatMap, List.flatMap_map]
        exact List.mem_cons_of_mem _ (List.mem_flatMap_of_mem hmem ih)

end Value

/-! ### Failures -/

namespace Constant

/-- A number literal is refused, as an invalid number, if it denotes no finite number. -/
theorem ofFloat_eq_error_iff {location : Option Location} {literal : String} {finding : Finding} :
    ofFloat location literal = .error finding ↔
      ¬ FiniteLiteral literal ∧ ⟨location, none, .invalidNumber literal⟩ = finding := by
  rw [← readFinite?_eq_none_iff]
  unfold ofFloat
  cases Binary64.readFinite? literal <;> simp

/-- A whole number of 64 bits is finite anyway, so what a literal must denote is the same for whole
numbers and others. -/
theorem ofAtom_int_eq_error_iff {location : Option Location} {literal : String}
    {finding : Finding} :
    ofAtom location (.int literal) = .error finding ↔
      ¬ FiniteLiteral literal ∧ ⟨location, none, .invalidNumber literal⟩ = finding := by
  rw [ofAtom]
  cases hint : readInt64? literal with
  | some i =>
      -- What fits into 64 bits is finite and does not fail.
      have hfinite := (readInt64?_eq_some_iff.mp hint).finite
      constructor
      · rintro ⟨⟩
      · rintro ⟨hnot, _⟩
        exact absurd hfinite hnot
  | none => exact ofFloat_eq_error_iff

/-- An atomic value fails exactly if it has a flaw, and is reported where it stands. -/
theorem ofAtom_eq_error_iff {location : Option Location} {content : Atom} {finding : Finding} :
    ofAtom location content = .error finding ↔
      ∃ violation, content.Flaw violation ∧ ⟨location, none, violation⟩ = finding := by
  cases content with
  | null => exact iff_of_false nofun (by rintro ⟨_, ⟨⟩, _⟩)
  | enum name => exact iff_of_false nofun (by rintro ⟨_, ⟨⟩, _⟩)
  | string text => exact iff_of_false nofun (by rintro ⟨_, ⟨⟩, _⟩)
  | bool value => exact iff_of_false nofun (by rintro ⟨_, ⟨⟩, _⟩)
  | var name =>
      constructor
      · rintro ⟨⟩
        exact ⟨_, .var, rfl⟩
      · rintro ⟨_, ⟨⟩, rfl⟩
        rfl
  | int literal => simp [ofAtom_int_eq_error_iff, Atom.flaw_int_iff, and_assoc]
  | float literal => simp [ofAtom, ofFloat_eq_error_iff, Atom.flaw_float_iff, and_assoc]

/-- The items of a list are converted one after the other. -/
theorem ofItems_eq_mapM (items : List Value) : ofItems items = items.mapM ofValue := by
  induction items with
  | nil => rfl
  | cons item rest ih => rw [ofItems, ih, List.mapM_cons]

/-- The failure of a node by itself. -/
def nodeFailure? : Value → Option Finding
  | .atom location content => failure? (ofAtom location content)
  | .list _ _ => none
  | .object _ _ => none

/-- A row of values fails at the first node that does, if each of them does. -/
theorem failure?_mapM_ofValue {values : List Value}
    (h : ∀ value ∈ values, failure? (ofValue value) = value.nodes.findSome? nodeFailure?) :
    failure? (values.mapM ofValue) = (values.flatMap Value.nodes).findSome? nodeFailure? := by
  induction values with
  | nil => rfl
  | cons value rest ih =>
      obtain ⟨hvalue, hrest⟩ := List.forall_mem_cons.mp h
      rw [List.mapM_cons, failure?_bind_bind, List.flatMap_cons, List.findSome?_append, hvalue,
        ih hrest]

/-- The names of fields cannot fail. -/
theorem failure?_ofFields (fields : List (Name × Value)) :
    failure? (ofFields fields) = failure? ((fields.map Prod.snd).mapM ofValue) := by
  induction fields with
  | nil => rfl
  | cons field rest ih =>
      rw [ofFields, failure?_bind_bind, ih, List.map_cons, List.mapM_cons, failure?_bind_bind]

/-- A value fails with the first failure of a node in it. -/
theorem failure?_ofValue (value : Value) :
    failure? (ofValue value) = value.nodes.findSome? nodeFailure? := by
  induction value with
  | atom location content =>
      rw [ofValue, Value.nodes, List.findSome?_singleton, nodeFailure?]
  | list location items ih =>
      rw [ofValue, failure?_bind_pure, ofItems_eq_mapM, failure?_mapM_ofValue ih, Value.nodes,
        Value.nodesItems_eq_flatMap, List.findSome?_cons, nodeFailure?]
  | object location fields ih =>
      have hvalues : ∀ value ∈ fields.map Prod.snd,
          failure? (ofValue value) = value.nodes.findSome? nodeFailure? := by
        rw [List.forall_mem_map]
        exact ih
      rw [ofValue, failure?_bind_pure, failure?_ofFields, failure?_mapM_ofValue hvalues,
        Value.nodes, Value.nodesFields_eq_flatMap, List.findSome?_cons, nodeFailure?]

/-- A node fails by itself exactly if it offends, and is reported where it stands. -/
theorem nodeFailure?_eq_some_iff {node : Value} {finding : Finding} :
    nodeFailure? node = some finding ↔
      ∃ violation, node.Offends violation ∧ ⟨node.location, none, violation⟩ = finding := by
  cases node with
  | list location items => exact iff_of_false nofun (by rintro ⟨_, ⟨⟩, _⟩)
  | object location fields => exact iff_of_false nofun (by rintro ⟨_, ⟨⟩, _⟩)
  | atom location content =>
      rw [nodeFailure?, failure?_eq_some_iff, ofAtom_eq_error_iff]
      constructor
      · rintro ⟨violation, hflaw, hfinding⟩
        exact ⟨violation, .atom hflaw, hfinding⟩
      · rintro ⟨violation, ⟨hflaw⟩, hfinding⟩
        exact ⟨violation, hflaw, hfinding⟩

/-- The nodes that do not fail are those that offend against nothing. -/
theorem nodeFailure?_eq_none_iff {node : Value} :
    nodeFailure? node = none ↔ ∀ violation, ¬ node.Offends violation := by
  constructor
  · intro h violation hoffends
    have hsome := nodeFailure?_eq_some_iff.mpr ⟨violation, hoffends, rfl⟩
    rw [h] at hsome
    cases hsome
  · intro h
    rw [Option.eq_none_iff_forall_ne_some]
    intro finding hsome
    obtain ⟨violation, hoffends, _⟩ := nodeFailure?_eq_some_iff.mp hsome
    exact h violation hoffends

/-- A value has a constant exactly if none of its nodes offends. -/
theorem exists_ofValue_iff_forall_not_offends {value : Value} :
    (∃ constant, ofValue value = .ok constant) ↔
      ∀ (node : Value) (violation : Violation), node.PartOf value → ¬ node.Offends violation := by
  rw [← failure?_eq_none_iff, failure?_ofValue, List.findSome?_eq_none_iff]
  simp only [nodeFailure?_eq_none_iff, Value.mem_nodes_iff]
  exact forall_congr' fun node => forall_comm

/-- A value without a constant is reported for the first node that offends. -/
theorem ofValue_eq_error_iff {value : Value} {finding : Finding} :
    ofValue value = .error finding ↔
      ∃ before node after violation, value.nodes = before ++ node :: after ∧
        (∀ earlier ∈ before, ∀ other, ¬ Value.Offends earlier other) ∧
          node.Offends violation ∧ ⟨node.location, none, violation⟩ = finding := by
  rw [← failure?_eq_some_iff, failure?_ofValue, List.findSome?_eq_some_iff]
  simp only [nodeFailure?_eq_some_iff, nodeFailure?_eq_none_iff]
  constructor
  · rintro ⟨before, node, after, hnodes, ⟨violation, hoffends, hfinding⟩, hbefore⟩
    exact ⟨before, node, after, violation, hnodes, hbefore, hoffends, hfinding⟩
  · rintro ⟨before, node, after, violation, hnodes, hbefore, hoffends, hfinding⟩
    exact ⟨before, node, after, hnodes, ⟨violation, hoffends, hfinding⟩, hbefore⟩

/-- A value has a constant exactly if all of its atomic parts can be sent. -/
theorem exists_ofValue_eq_ok_iff {value : Value} :
    (∃ constant, ofValue value = .ok constant) ↔ value.IsConstant :=
  exists_ofValue_iff_forall_not_offends.trans Value.isConstant_iff.symm

/-- A value that has no constant is reported for a flaw of one of its atomic parts, where that part
stands. -/
theorem flaw_of_ofValue {value : Value} {finding : Finding}
    (h : ofValue value = .error finding) :
    ∃ location content violation, (Value.atom location content).PartOf value ∧
      content.Flaw violation ∧ ⟨location, none, violation⟩ = finding := by
  obtain ⟨before, node, after, violation, hnodes, _, hoffends, hfinding⟩ :=
    ofValue_eq_error_iff.mp h
  have hpart : node.PartOf value := by
    rw [← Value.mem_nodes_iff, hnodes]
    exact List.mem_append_right _ List.mem_cons_self
  cases hoffends with
  | atom hflaw => exact ⟨_, _, violation, hpart, hflaw, hfinding⟩

end Constant

end QueryCompiler
