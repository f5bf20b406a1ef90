import QueryCompiler.Proofs.Document.Parser.Stays

/-!
# Where parsers lead

A parser is sure to succeed if the tokens that are left are of the right kinds. The kinds that it
needs, and those that it leaves, are put together in the way in which the parser is put together
from its parts.
-/

namespace QueryCompiler

/-- The kinds of the tokens that are left. -/
def Cursor.kinds (c : Cursor) : List TokenKind := c.rest.map Token.kind

namespace Parser

variable {α β : Type}

/-- Wherever tokens of some kinds are left, a parser succeeds, leaves tokens of other kinds, and
what it gives satisfies a condition. -/
def Leads (p : Parser α) (before after : List TokenKind) (P : α → Prop) : Prop :=
  ∀ c : Cursor, c.kinds = before → ∃ a c', p c = some (a, c') ∧ c'.kinds = after ∧ P a

variable {P : α → Prop} {Q : β → Prop} {p : Parser α} {f : α → Parser β}
  {wanted : TokenKind → Bool} {before between after : List TokenKind} {kind : TokenKind}

/-- Giving a value reads nothing. -/
theorem leads_pure {a : α} (h : P a) : (pure a : Parser α).Leads after after P :=
  fun c hc => ⟨a, c, rfl, hc, h⟩

/-- One parser after the other reads one row after the other. -/
theorem leads_bind (hp : p.Leads before between P) (hf : ∀ a, P a → (f a).Leads between after Q) :
    (p >>= f).Leads before after Q := by
  intro c hc
  obtain ⟨a, c', hfirst, hc', ha⟩ := hp c hc
  obtain ⟨b, c'', hsecond, hc'', hb⟩ := hf a ha c' hc'
  exact ⟨b, c'', bind_eq_some_iff.mpr ⟨a, c', hfirst, hsecond⟩, hc'', hb⟩

/-- Nothing need be known of what is read before. -/
theorem leads_after (hp : p.Leads before between P) (hf : ∀ a, (f a).Leads between after Q) :
    (p >>= f).Leads before after Q :=
  leads_bind hp fun a _ => hf a

/-- A parser that gives one value only goes on with it. -/
theorem leads_with {a : α} (hp : p.Leads before between (· = a))
    (hf : (f a).Leads between after Q) : (p >>= f).Leads before after Q := by
  refine leads_bind hp ?_
  rintro _ rfl
  exact hf

/-- A parser that gives what is wanted gives what follows from it. -/
theorem Leads.imp {R : α → Prop} (hp : p.Leads before after P) (h : ∀ a, P a → R a) :
    p.Leads before after R := by
  intro c hc
  obtain ⟨a, c', ha, hc', hP⟩ := hp c hc
  exact ⟨a, c', ha, hc', h a hP⟩

/-- One token is read as it stands. -/
theorem leads_take : take.Leads (kind :: after) after (· = kind) := by
  intro c hc
  obtain ⟨token, rest, hrest, hkind, hafter⟩ := List.map_eq_cons_iff.mp hc
  refine ⟨kind, { c with rest := rest, stop := token.stop }, ?_, hafter, rfl⟩
  exact take_eq_some_iff.mpr ⟨token, rest, hrest, by rw [hkind]⟩

/-- A punctuator is read where it stands. -/
theorem leads_mark (m : Punctuator) :
    (mark m).Leads (.punctuator m :: after) after fun _ => True :=
  leads_with leads_take (by rw [if_pos rfl]; exact leads_pure trivial)

/-- A name is read where it stands. -/
theorem leads_name (n : Name) : name.Leads (.name n :: after) after (· = n) :=
  leads_with leads_take (leads_pure rfl)

/-- Looking at the next token reads nothing. -/
theorem leads_nextIs {found : Bool} (h : after.head?.any wanted = found) :
    (nextIs wanted).Leads after after (· = found) := by
  intro c hc
  refine ⟨_, c, rfl, hc, ?_⟩
  rw [← h, ← hc, Cursor.kinds, List.head?_map, Option.any_map]

/-- A token of another kind is not directly next either. -/
theorem leads_directlyNextIs (h : after.head?.any wanted = false) :
    (directlyNextIs wanted).Leads after after (· = false) := by
  intro c hc
  refine ⟨_, c, rfl, hc, ?_⟩
  rw [← hc, Cursor.kinds, List.head?_map, Option.any_map] at h
  cases hnext : c.rest.head? with
  | none => rfl
  | some token =>
      rw [hnext] at h
      have htoken : wanted token.kind = false := h
      rw [Option.any_some, htoken, Bool.false_and]

/-- An option is read where its first token stands. -/
theorem leads_whenNext {otherwise : α} (h : before.head?.any wanted = true)
    (hp : p.Leads before after P) : (whenNext wanted p otherwise).Leads before after P :=
  leads_with (leads_nextIs h) (by rwa [if_pos rfl])

/-- An option is left out where its first token does not stand. -/
theorem leads_otherwise {otherwise : α} (h : after.head?.any wanted = false) (ho : P otherwise) :
    (whenNext wanted p otherwise).Leads after after P :=
  leads_with (leads_nextIs h) (by rw [if_neg Bool.false_ne_true]; exact leads_pure ho)

/-! ### Repetition -/

private theorem leads_repeatWhile_none {fuel : List Token} (h : after.head?.any wanted = false) :
    (repeatWhile wanted p fuel).Leads after after (· = []) := by
  cases fuel with
  | nil => exact leads_pure rfl
  | cons token fuel =>
      exact leads_with (leads_nextIs h) (by rw [if_neg Bool.false_ne_true]; exact leads_pure rfl)

/-- No item is read where none starts. -/
theorem leads_many_none (h : after.head?.any wanted = false) :
    (many wanted p).Leads after after (· = []) :=
  fun c hc => leads_repeatWhile_none h c hc

/-- A parser that is run again only if more follows is run once. -/
theorem leads_many_one (hfirst : before.head?.any wanted = true) (hp : p.Leads before after P)
    (hlast : after.head?.any wanted = false) :
    (many wanted p).Leads before after fun as => ∃ a, as = [a] ∧ P a := by
  intro c hc
  cases hrest : c.rest with
  | nil =>
      rw [← hc, Cursor.kinds, hrest] at hfirst
      cases hfirst
  | cons token fuel =>
      have hrepeat : (repeatWhile wanted p (token :: fuel)).Leads before after
          fun as => ∃ a, as = [a] ∧ P a := by
        refine leads_with (leads_nextIs hfirst) ?_
        rw [if_pos rfl]
        exact leads_bind hp fun a ha =>
          leads_with (leads_repeatWhile_none hlast) (leads_pure ⟨a, rfl, ha⟩)
      rw [many, hrest]
      exact hrepeat c hc

/-- One item is read where no further one starts. -/
theorem leads_many1_one (hp : p.Leads before after P) (hlast : after.head?.any wanted = false) :
    (many1 wanted p).Leads before after fun as => ∃ a, as = [a] ∧ P a :=
  leads_bind hp fun a ha => leads_with (leads_many_none hlast) (leads_pure ⟨a, rfl, ha⟩)

/-! ### Nodes -/

/-- Going deeper reads what is read there. -/
theorem leads_deeper {room : Nat} (hp : p.Leads before after P) :
    (deeper room p).Leads before after P :=
  fun c hc => hp { c with room := min c.room room } hc

/-- A node is read with its place put in. -/
theorem leads_located {p : Parser (Location → α)} (hbefore : before ≠ [])
    (hp : p.Leads before after fun build => ∀ location, P (build location)) :
    (located p).Leads before after P := by
  intro c hc
  obtain ⟨build, c', hbuild, hc', hP⟩ := hp c hc
  cases hrest : c.rest with
  | nil =>
      rw [Cursor.kinds, hrest] at hc
      exact absurd hc.symm hbefore
  | cons token rest =>
      exact ⟨_, c', located_eq_some_iff.mpr ⟨token, rest, build, c', hrest, hbuild, rfl⟩, hc', hP _⟩

end Parser

end QueryCompiler
