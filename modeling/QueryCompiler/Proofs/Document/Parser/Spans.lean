import QueryCompiler.Proofs.Document.Outline
import QueryCompiler.Proofs.Document.Parser.Stays

/-!
# What parsers span

The nodes that a parser gives stand, one behind the other, between the first token that the parser
may take and the last one that it has taken. The rows of nodes are put together in the way in which
the parser is put together from its parts, and a node with a location of its own closes the row of
the nodes inside it.
-/

namespace QueryCompiler

variable {text : String}

/-! ### Cursors in a text -/

namespace Cursor

/-- Where the next token begins, or where the last one has ended if none is left. -/
def front (c : Cursor) : Nat := (c.rest.head?.map Token.start).getD c.stop

/-- The front of a cursor is the start of its next token. -/
theorem front_of_rest {c : Cursor} {token : Token} {rest : List Token}
    (h : c.rest = token :: rest) : c.front = token.start := by
  rw [front, h, List.head?_cons, Option.map_some, Option.getD_some]

/-- The next token starts behind the last one. -/
theorem stop_le_front {c : Cursor} (h : Laid text c.stop c.rest) : c.stop ≤ c.front := by
  unfold front
  generalize c.rest = rest at h
  cases h with
  | nil => exact Nat.le_refl _
  | cons hstart _ _ _ _ => exact hstart

namespace Passes

variable {c c' : Cursor}

/-- Passing tokens leaves the others laid behind the last one. -/
theorem laid (h : c.Passes c') (hlaid : Laid text c.stop c.rest) : Laid text c'.stop c'.rest := by
  induction h with
  | here => exact hlaid
  | take _ hrest ih =>
      rw [hrest] at ih
      cases ih with
      | cons _ _ _ _ hothers => exact hothers

/-- Taking a token moves the stop behind the token's start, and the front behind its stop. -/
theorem moved (h : c.Passes c') (hlaid : Laid text c.stop c.rest) :
    c.stop ≤ c'.stop ∧ c.front ≤ c'.front := by
  induction h with
  | here => exact ⟨Nat.le_refl _, Nat.le_refl _⟩
  | @take between token rest hbefore hrest ih =>
      have hfront := stop_le_front ((hbefore.take hrest).laid hlaid)
      have hbetween := hbefore.laid hlaid
      rw [front_of_rest hrest] at ih
      rw [hrest] at hbetween
      cases hbetween with
      | cons hstart hstop _ _ _ =>
          dsimp only at hfront ⊢
          omega

/-- A parser that has taken a token ends behind the place where it began, between characters. -/
theorem lands (h : c.Passes c') (hlaid : Laid text c.stop c.rest)
    (htaken : c'.rest.length < c.rest.length) : c.front < c'.stop ∧ Boundary text c'.stop := by
  cases h with
  | here => exact absurd htaken (Nat.lt_irrefl _)
  | take hbefore hrest =>
      have hfront := (hbefore.moved hlaid).2
      have hbetween := hbefore.laid hlaid
      rw [front_of_rest hrest] at hfront
      rw [hrest] at hbetween
      cases hbetween with
      | cons _ hstop _ hboundary _ => exact ⟨Nat.lt_of_le_of_lt hfront hstop, hboundary⟩

end Passes

end Cursor

namespace Parser

variable {α β : Type} {file : FileId}

/-! ### Parsers that take a token -/

/-- A parser that takes at least one token. -/
class Takes (p : Parser α) : Prop extends Stays p where
  takes : ∀ {c a c'}, p c = some (a, c') → c'.rest.length < c.rest.length

/-- Two parsers take a token if the first one does. -/
theorem takes_bind {p : Parser α} {f : α → Parser β} (hp : p.Takes) (hf : ∀ a, (f a).Stays) :
    (p >>= f).Takes where
  toStays := stays_bind hp.toStays hf
  takes h := by
    obtain ⟨a, between, hfirst, hrest⟩ := bind_eq_some_iff.mp h
    exact Nat.lt_of_le_of_lt ((hf a).passes hrest).length_le (hp.takes hfirst)

instance {p : Parser α} {f : α → Parser β} [hp : p.Takes] [hf : ∀ a, (f a).Stays] :
    (p >>= f).Takes :=
  takes_bind hp hf

instance : take.Takes where
  takes h := by
    obtain ⟨token, rest, hrest, hresult⟩ := take_eq_some_iff.mp h
    obtain ⟨_, rfl⟩ := Prod.mk.inj hresult
    rw [hrest]
    exact Nat.lt_succ_self _

instance (m : Punctuator) : (mark m).Takes := by
  unfold mark
  infer_instance

instance (w : Name) : (word w).Takes := by
  unfold word
  infer_instance

instance : name.Takes := by
  apply takes_bind inferInstance
  intro kind
  split <;> infer_instance

instance : fieldName.Takes := by
  unfold fieldName
  infer_instance

instance : operationKind.Takes := by
  apply takes_bind inferInstance
  intro kind
  split <;> infer_instance

instance {item : Parser TypeRef} [item.Stays] : (typeOver item).Takes := by
  unfold typeOver
  apply takes_bind inferInstance
  intro kind
  split <;> infer_instance

instance (room : Nat) : (type room).Takes := by
  cases room with
  | zero =>
      unfold type
      infer_instance
  | succ room =>
      unfold type
      infer_instance

/-! ### Rows of what is given -/

/-- Wherever the tokens of a source stand in a text, a parser takes at least so many of them, and
what it gives has a row of nodes there. -/
def Spans (p : Parser α) (least : Nat) (text : String) (file : FileId)
    (Q : α → List Outline → Prop) : Prop :=
  ∀ c a c', c.file = file → Laid text c.stop c.rest → p c = some (a, c') →
    c.Passes c' ∧ c'.rest.length + least ≤ c.rest.length ∧
      ∃ row, Q a row ∧ Outline.Row text file c.front c'.stop row

section Spans

variable {P Q : α → List Outline → Prop} {R : β → List Outline → Prop} {p q : Parser α}
  {f : α → Parser β} {least : Nat} {out : α → Outline}

/-- Giving a value spans no trees. -/
theorem spans_pure {a : α} (h : Q a []) : (pure a : Parser α).Spans 0 text file Q := by
  intro c b c' _ _ hb
  obtain ⟨rfl, rfl⟩ := Prod.mk.inj (Option.some.inj hb)
  exact ⟨.refl _, Nat.le_refl _, [], h, .nil⟩

/-- A parser that fails spans anything. -/
theorem spans_fail : (fail : Parser α).Spans least text file Q := nofun

/-- A parser may give the same row for another reason. -/
theorem Spans.imp (hp : p.Spans least text file P) (h : ∀ a row, P a row → Q a row) :
    p.Spans least text file Q := by
  intro c a c' hfile hlaid ha
  obtain ⟨hpasses, hleast, row, hP, hrow⟩ := hp c a c' hfile hlaid ha
  exact ⟨hpasses, hleast, row, h a row hP, hrow⟩

/-- The rows of two parsers, one behind the other, are a row. -/
theorem spans_bind_add {m n : Nat} (hp : p.Spans m text file P)
    (hf : ∀ a row, P a row → (f a).Spans n text file fun b rest => R b (row ++ rest)) :
    (p >>= f).Spans (m + n) text file R := by
  intro c b c' hfile hlaid h
  obtain ⟨a, between, hfirst, hsecond⟩ := bind_eq_some_iff.mp h
  obtain ⟨hpasses, hm, row, hP, hrow⟩ := hp c a between hfile hlaid hfirst
  have hlaid' := hpasses.laid hlaid
  obtain ⟨hpasses', hn, rest, hR, hrest⟩ :=
    hf a row hP between b c' (hpasses.file_eq.trans hfile) hlaid' hsecond
  refine ⟨hpasses.trans hpasses', by omega, row ++ rest, hR, ?_⟩
  exact hrow.append hrest (Cursor.stop_le_front hlaid') (hpasses.moved hlaid).2
    (hpasses'.moved hlaid').1

/-- What spans some tokens spans any number. -/
theorem Spans.any (hp : p.Spans least text file Q) : p.Spans 0 text file Q := by
  intro c a c' hfile hlaid ha
  obtain ⟨hpasses, _, hrow⟩ := hp c a c' hfile hlaid ha
  exact ⟨hpasses, hpasses.length_le, hrow⟩

/-- One parser after the other spans one row after the other. -/
theorem spans_bind (hp : p.Spans 0 text file P)
    (hf : ∀ a row, P a row → (f a).Spans 0 text file fun b rest => R b (row ++ rest)) :
    (p >>= f).Spans 0 text file R :=
  spans_bind_add hp hf

/-- A parser without nodes has the empty row. -/
theorem spans_of_stays [hstays : p.Stays] : p.Spans 0 text file fun _ row => [] = row := by
  intro c a c' _ _ ha
  have hpasses := hstays.passes ha
  exact ⟨hpasses, hpasses.length_le, [], rfl, .nil⟩

/-- A parser that takes a token spans it, without trees. -/
theorem spans_of_takes [htakes : p.Takes] : p.Spans 1 text file fun _ row => [] = row := by
  intro c a c' _ _ ha
  exact ⟨htakes.passes ha, htakes.takes ha, [], rfl, .nil⟩

/-- What is read before a node does not belong to its row. -/
theorem spans_after [p.Stays] (hf : ∀ a, (f a).Spans least text file R) :
    (p >>= f).Spans least text file R := by
  have hadd : (p >>= f).Spans (0 + least) text file R := by
    refine spans_bind_add spans_of_stays ?_
    rintro a _ rfl
    exact hf a
  rwa [Nat.zero_add] at hadd

/-- What takes a token in front of the rest takes one altogether. -/
theorem spans_first (hp : p.Spans 1 text file P)
    (hf : ∀ a row, P a row → (f a).Spans 0 text file fun b rest => R b (row ++ rest)) :
    (p >>= f).Spans 1 text file R :=
  @spans_bind_add _ _ _ _ _ _ _ _ 1 0 hp hf

/-- A token before what is spanned adds no tree. -/
theorem spans_token [p.Takes] (hf : ∀ a, (f a).Spans 0 text file R) :
    (p >>= f).Spans 1 text file R := by
  refine spans_first spans_of_takes ?_
  rintro a _ rfl
  exact hf a

/-- A choice spans what both of its sides span. -/
theorem spans_ite {wanted : Prop} [Decidable wanted] (hp : p.Spans least text file Q)
    (hq : q.Spans least text file Q) : (if wanted then p else q).Spans least text file Q := by
  by_cases h : wanted
  · rwa [if_pos h]
  · rwa [if_neg h]

/-- An option spans what is read, or nothing. -/
theorem spans_whenNext {wanted : TokenKind → Bool} {otherwise : α} (hp : p.Spans 0 text file Q)
    (h : Q otherwise []) : (whenNext wanted p otherwise).Spans 0 text file Q :=
  spans_after fun _ => spans_ite hp (spans_pure h)

/-- Going deeper spans what is spanned there. -/
theorem spans_deeper {room : Nat} (hp : p.Spans least text file Q) :
    (deeper room p).Spans least text file Q := by
  intro c a c' hfile hlaid h
  obtain ⟨hpasses, hrest⟩ := hp { c with room := min c.room room } a c' hfile hlaid h
  exact ⟨(Cursor.Passes.withRoom (.refl _) _).trans hpasses, hrest⟩

/-- The rows of what a parser gives again and again are a row. -/
theorem spans_many {wanted : TokenKind → Bool} {out : α → List Outline}
    (hp : p.Spans 0 text file fun a row => out a = row) :
    (many wanted p).Spans 0 text file fun as row => as.flatMap out = row := by
  have hrepeat (fuel : List Token) :
      (repeatWhile wanted p fuel).Spans 0 text file fun as row => as.flatMap out = row := by
    induction fuel with
    | nil => exact spans_pure rfl
    | cons _ fuel ih =>
        refine spans_after fun _ => spans_ite ?_ (spans_pure rfl)
        refine spans_bind hp fun a row ha => spans_bind ih fun as rest has => spans_pure ?_
        rw [List.flatMap_cons, ha, has, List.append_nil]
  exact fun c as c' hfile hlaid h => hrepeat c.rest c as c' hfile hlaid h

/-- Items in a row, at least one, span the trees of each. -/
theorem spans_many1 {wanted : TokenKind → Bool} {out : α → List Outline}
    (hp : p.Spans 0 text file fun a row => out a = row) :
    (many1 wanted p).Spans 0 text file fun as row => as.flatMap out = row := by
  refine spans_bind hp fun a row ha => spans_bind (spans_many hp) fun as rest has => spans_pure ?_
  rw [List.flatMap_cons, ha, has, List.append_nil]

/-- Nodes in a row span one tree each. -/
theorem spans_manyNodes {wanted : TokenKind → Bool}
    (hp : p.Spans 0 text file fun a row => [out a] = row) :
    (many wanted p).Spans 0 text file fun as row => as.map out = row := by
  refine (spans_many hp).imp fun as row h => ?_
  rw [← h, List.map_eq_flatMap]

/-- The same for a row with at least one node. -/
theorem spans_many1Nodes {wanted : TokenKind → Bool}
    (hp : p.Spans 0 text file fun a row => [out a] = row) :
    (many1 wanted p).Spans 0 text file fun as row => as.map out = row := by
  refine (spans_many1 hp).imp fun as row h => ?_
  rw [← h, List.map_eq_flatMap]

/-- A node closes the row of the nodes inside it: it begins at the first token that its parser takes
and ends at the last. -/
theorem spans_located {p : Parser (Location → α)}
    (hp : p.Spans 1 text file fun build row => ∀ location,
      Q (build location) [.node (some location) row]) : (located p).Spans 0 text file Q := by
  intro c a c' hfile hlaid h
  obtain ⟨token, rest, build, between, hrest, hbuild, hresult⟩ := located_eq_some_iff.mp h
  obtain ⟨rfl, rfl⟩ := Prod.mk.inj hresult
  obtain ⟨hpasses, htaken, row, hQ, hrow⟩ := hp c build between hfile hlaid hbuild
  obtain ⟨hstop, hboundary⟩ := hpasses.lands hlaid htaken
  have hfront := Cursor.front_of_rest hrest
  rw [hfront] at hstop hrow
  have hstart : Boundary text token.start := by
    rw [hrest] at hlaid
    cases hlaid with
    | cons _ _ hfirst _ _ => exact hfirst
  refine ⟨hpasses, hpasses.length_le, _, hQ _, ?_⟩
  have hplaced : Location.Placed text file ⟨c.file, token.start, between.stop⟩ :=
    ⟨hfile, hstop, hboundary.le, hstart, hboundary⟩
  exact .cons hplaced (Nat.le_of_eq hfront) (Nat.le_refl _) hrow .nil

/-- What may stand behind a mark has its row if it is there. -/
theorem spans_behind {m : Punctuator} (hp : p.Spans 0 text file Q) :
    (whenNext (isMark m) (do mark m; return some (← p)) none).Spans 0 text file fun found row =>
      ∀ a ∈ found, Q a row := by
  refine spans_whenNext (spans_after fun _ => spans_bind hp fun a row ha => spans_pure ?_) nofun
  rintro _ ⟨⟩
  rwa [List.append_nil]

/-- The nodes inside a node have a row where the node has one. -/
theorem spans_children (hp : p.Spans least text file fun a row => [out a] = row) :
    p.Spans least text file fun a row => (out a).children = row := by
  intro c a c' hfile hlaid h
  obtain ⟨hpasses, hleast, _, rfl, hrow⟩ := hp c a c' hfile hlaid h
  exact ⟨hpasses, hleast, _, rfl, hrow.children⟩

/-- Where nothing is found, there is nothing in the row. -/
theorem spans_optional {p : Parser (Option α)}
    (hp : p.Spans least text file fun found row => ∀ a ∈ found, [out a] = row) :
    p.Spans least text file fun found row => (found.map out).toList = row := by
  intro c found c' hfile hlaid h
  obtain ⟨hpasses, hleast, row, hfound, hrow⟩ := hp c found c' hfile hlaid h
  refine ⟨hpasses, hleast, _, rfl, ?_⟩
  cases found with
  | none => exact .nil
  | some a =>
      rw [Option.map_some, Option.toList_some, hfound a rfl]
      exact hrow

end Spans

end Parser

end QueryCompiler
