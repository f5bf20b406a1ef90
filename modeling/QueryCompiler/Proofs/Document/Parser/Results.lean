import QueryCompiler.Proofs.Document.Parser.Stays

/-!
# What parsers give

A condition on what a parser gives is put together from conditions on what its parts give, in the
way in which the parser is put together from them. The condition may depend on where the parser is
run, through a condition on cursors that taking tokens does not change.
-/

namespace QueryCompiler.Parser

variable {α β : Type}

/-- A condition on cursors that taking tokens does not change. -/
class Kept (I : Cursor → Prop) : Prop where
  kept : ∀ {c c'}, c.Passes c' → I c → I c'

/-- Whatever a parser gives at a cursor of some kind satisfies a condition. -/
def Gives (p : Parser α) (I : Cursor → Prop) (P : α → Prop) : Prop :=
  ∀ c a c', I c → p c = some (a, c') → P a

variable {I : Cursor → Prop} {P : α → Prop} {Q : β → Prop} {p q : Parser α} {f : α → Parser β}

/-- Giving a value gives that value. -/
theorem gives_pure {a : α} (h : P a) : (pure a : Parser α).Gives I P := by
  intro c b c' _ hb
  obtain ⟨rfl, _⟩ := Prod.mk.inj (Option.some.inj hb)
  exact h

/-- A parser that fails gives nothing. -/
theorem gives_fail : (fail : Parser α).Gives I P := nofun

/-- A node satisfies a condition if it does so wherever it stands. -/
theorem gives_located {p : Parser (Location → α)}
    (hp : p.Gives I fun build => ∀ location, P (build location)) : (located p).Gives I P := by
  intro c a c' hI h
  obtain ⟨token, _, build, between, _, hbuild, hresult⟩ := located_eq_some_iff.mp h
  obtain ⟨rfl, _⟩ := Prod.mk.inj hresult
  exact hp c build between hI hbuild _

/-- A choice gives what both of its sides give. -/
theorem gives_ite {wanted : Prop} [Decidable wanted] (hp : p.Gives I P) (hq : q.Gives I P) :
    (if wanted then p else q).Gives I P := by
  by_cases h : wanted
  · rwa [if_pos h]
  · rwa [if_neg h]

variable [hkept : Kept I]

/-- One parser after the other, where the first one keeps what is assumed. -/
theorem gives_bind [hstays : p.Stays] (hp : p.Gives I P) (hf : ∀ a, P a → (f a).Gives I Q) :
    (p >>= f).Gives I Q := by
  intro c b c' hI h
  obtain ⟨a, between, hfirst, hrest⟩ := bind_eq_some_iff.mp h
  have hbetween : I between := hkept.kept (hstays.passes hfirst) hI
  exact hf a (hp c a between hI hfirst) between b c' hbetween hrest

/-- Nothing need be known of what is read before. -/
theorem gives_after [p.Stays] (hf : ∀ a, (f a).Gives I Q) : (p >>= f).Gives I Q := by
  have hp : p.Gives I fun _ => True := fun _ _ _ _ _ => trivial
  exact gives_bind hp fun a _ => hf a

/-- An option gives what is read or what stands for it. -/
theorem gives_whenNext {wanted : TokenKind → Bool} {otherwise : α} (hp : p.Gives I P)
    (h : P otherwise) : (whenNext wanted p otherwise).Gives I P :=
  gives_after fun _ => gives_ite hp (gives_pure h)

/-- Items in a row are each as one is. -/
theorem gives_many {wanted : TokenKind → Bool} [p.Stays] (hp : p.Gives I P) :
    (many wanted p).Gives I fun as => ∀ a ∈ as, P a := by
  have hrepeat (fuel : List Token) :
      (repeatWhile wanted p fuel).Gives I fun as => ∀ a ∈ as, P a := by
    induction fuel with
    | nil => exact gives_pure (List.forall_mem_nil _)
    | cons _ fuel ih =>
        refine gives_after fun _ => gives_ite ?_ (gives_pure (List.forall_mem_nil _))
        refine gives_bind hp fun a ha => gives_bind ih fun as has => ?_
        exact gives_pure (List.forall_mem_cons.mpr ⟨ha, has⟩)
  exact fun c as c' hI h => hrepeat c.rest c as c' hI h

/-- The same for a row with at least one item. -/
theorem gives_many1 {wanted : TokenKind → Bool} [p.Stays] (hp : p.Gives I P) :
    (many1 wanted p).Gives I fun as => ∀ a ∈ as, P a := by
  refine gives_bind hp fun a ha => gives_bind (gives_many hp) fun as has => ?_
  exact gives_pure (List.forall_mem_cons.mpr ⟨ha, has⟩)

/-- Going deeper gives what is given there. -/
theorem gives_deeper {room : Nat} (hp : p.Gives I P) : (deeper room p).Gives I P :=
  fun c a c' hI h => hp { c with room := min c.room room } a c' (hkept.kept .here hI) h

/-! ### Definitions -/

section Definitions

variable {D : Definition → Prop} {room : Nat}

/-- A definition that is still to be told its location satisfies a condition wherever it stands. -/
abbrev Built (D : Definition → Prop) (build : Location → Definition) : Prop :=
  ∀ location, D (build location)

private theorem gives_typeSystemBody
    (h : ∀ description, Built D fun location => .typeSystem (some location) description) :
    (typeSystemBody room).Gives I (Built D) := by
  refine gives_after fun keyword => gives_ite ?_ ?_
  · exact gives_after fun _ => gives_pure (h _)
  · split
    · exact gives_after fun _ => gives_pure (h _)
    · exact gives_fail

private theorem gives_typeSystemExtension
    (h : ∀ description, Built D fun location => .typeSystem (some location) description) :
    (typeSystemExtension room).Gives I D := by
  refine gives_located (gives_after fun _ => gives_after fun _ => ?_)
  dsimp only
  refine gives_ite nofun (gives_after fun keyword => ?_)
  split
  · exact gives_after fun _ => gives_pure (h _)
  · exact gives_fail

/-- A condition holds of all definitions if it holds of operations, of fragments behind their first
token, and of whatever belongs to a schema. -/
theorem gives_definition (hoperation : (operation room).Gives I D)
    (hfragment : (fragmentBody room).Gives I (Built D))
    (h : ∀ description, Built D fun location => .typeSystem (some location) description) :
    (definition room).Gives I D := by
  refine gives_after fun _ => gives_ite ?_ ?_
  · refine gives_located (gives_after fun _ => gives_after fun _ => gives_ite gives_fail ?_)
    exact gives_after fun _ => gives_ite hfragment (gives_typeSystemBody h)
  · refine gives_after fun _ => gives_ite ?_ ?_
    · exact gives_located (gives_after fun _ => hfragment)
    · refine gives_after fun _ => gives_ite (gives_typeSystemExtension h) ?_
      exact gives_after fun _ => gives_ite hoperation (gives_located (gives_typeSystemBody h))

end Definitions

end QueryCompiler.Parser
