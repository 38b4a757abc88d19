import DynScript.Proofs.Progress

/-!
# Strict and lenient parses

A strict parse and a lenient one of the same tokens go through the same states up to the first error
that a declaration recovers from.

Main declarations: `ParseResult.Parts`, `Parse.Built.parting`.
-/

namespace DynScript

open List

/-- How a strict and a lenient parse from `s` end: alike and without a new error, or the strict one
canceled by the first error new to the lenient one. -/
inductive ParseResult.Parts {α : Type} (s : ParseState) : ParseResult α → ParseResult α → Prop where
  | together {r : ParseResult α} (errors : r.state.errors = s.errors) : Parts s r r
  | canceled {e} {t : ParseState} {lenient : ParseResult α}
    (errors : t.errors = s.errors ++ [e]) (first : t.errors <+: lenient.state.errors) :
    Parts s (.error (.canceled e) t) lenient

namespace ParseResult

variable {α β : Type}

lemma errors_andThen {r : ParseResult α} (q : α → Parse β) (c) :
    r.state.errors <+: (r.andThen fun a t => (q a).run c t).state.errors := by
  cases r with
  | ok a t => exact ((q a).onward c t).errors
  | error e t => exact prefix_refl _

namespace Parts

variable {s t : ParseState} {strict lenient : ParseResult α}

lemma of_errors (h : Parts t strict lenient) (he : t.errors = s.errors) :
    Parts s strict lenient := by
  cases h with
  | together errors => exact .together (errors.trans he)
  | canceled errors first => exact .canceled (he ▸ errors) first

lemma andThen (h : Parts s strict lenient) (q : α → Parse β) {c c'}
    (hq : ∀ a t, Parts t ((q a).run c t) ((q a).run c' t)) :
    Parts s (strict.andThen fun a t => (q a).run c t)
      (lenient.andThen fun a t => (q a).run c' t) := by
  cases h with
  | together errors =>
    cases strict with
    | ok a t => exact (hq a t).of_errors errors
    | error e t => exact .together errors
  | canceled errors first => exact .canceled errors (first.trans (errors_andThen q c'))

end Parts

end ParseResult

namespace Parse

open ParseResult

variable {α β : Type} {p : Parse α} {q : α → Parse β}

/-- One run is strict, the other lenient: they part at the first error, if at all. -/
def Parting (p : Parse α) : Prop :=
  ∀ (c : ParseContext) (s : ParseState),
    Parts s (p.run { c with strict := true } s) (p.run { c with strict := false } s)

namespace Parting

lemma bind (hp : p.Parting) (hq : ∀ a, (q a).Parting) : (p >>= q).Parting :=
  fun c s => (hp c s).andThen q fun a t => hq a c t

lemma pure (a : α) : (Pure.pure a : Parse α).Parting :=
  fun _ _ => .together rfl

lemma advance : Parse.advance.Parting := by
  refine fun c s => .together ?_
  simp only [Parse.advance]
  split <;> rfl

lemma accept? (kind) : (Parse.accept? kind).Parting := by
  have check : (Parse.check kind).Parting := fun _ _ => .together rfl
  refine check.bind fun found => ?_
  split
  · exact advance.bind fun t => .pure _
  · exact .pure _

lemma inScope {kind : ScopeKind} {hk : kind.isRoot = false} (h : p.Parting) :
    (Parse.inScope kind p hk).Parting := by
  intro c s
  have inside := h c { s with scopes := s.scopes.enter kind }
  rw [run_inScope, run_inScope]
  generalize p.run { c with strict := true } { s with scopes := s.scopes.enter kind } = strict
    at inside ⊢
  generalize p.run { c with strict := false } { s with scopes := s.scopes.enter kind } = lenient
    at inside ⊢
  cases inside with
  | together errors => cases strict <;> exact .together errors
  | canceled errors first => cases lenient <;> exact .canceled errors first

lemma recovering {declaration : Parse (Option Stmt)} (h : declaration.Parting) :
    (Parse.recovering declaration).Parting := by
  intro c s
  have before := h c s
  rw [run_recovering, run_recovering]
  generalize declaration.run { c with strict := true } s = strict at before ⊢
  generalize declaration.run { c with strict := false } s = lenient at before ⊢
  cases before with
  | together errors =>
    cases strict with
    | ok a t => exact .together errors
    | error e t =>
      cases e with
      | error e =>
        have recorded : t.errors ++ [e] = s.errors ++ [e] := congrArg (· ++ [e]) errors
        exact .canceled recorded (prefix_refl _)
      | canceled | scopes | exhausted => exact .together errors
  | canceled errors first =>
    cases lenient with
    | ok a t => exact .canceled errors first
    | error e t =>
      cases e with
      | error e => exact .canceled errors (first.trans (prefix_append _ _))
      | canceled | scopes | exhausted => exact .canceled errors first

variable {g : Grammar} (h : g.declaration.Parting)
include h

lemma declarations (fuel : Nat) : (g.declarations fuel).Parting := by
  induction fuel with
  | zero => exact fun _ _ => .together rfl
  | succ fuel ih =>
    have check : (Parse.check .rightBrace).Parting := fun _ _ => .together rfl
    have atEnd : Parse.atEnd.Parting := fun _ _ => .together rfl
    refine check.bind fun closed => atEnd.bind fun ended => ?_
    split
    · exact .pure _
    · exact h.bind fun _ => ih.bind fun _ => .pure _

lemma block (brace) : (g.block brace).Parting := by
  have announced : Parse.announceLabels.Parting := fun _ _ => .together rfl
  refine .inScope (announced.bind fun _ c s => ?_)
  refine ((declarations h c.bound).bind fun statements => ?_) c s
  refine .bind (.bind (.accept? _) fun o => ?_) fun _ _ _ => .together rfl
  cases o with
  | none => exact fun _ _ => .together rfl
  | some t => exact .pure t

lemma unit (fuel : Nat) : (g.unit fuel).Parting := by
  induction fuel with
  | zero => exact fun _ _ => .together rfl
  | succ fuel ih =>
    have atEnd : Parse.atEnd.Parting := fun _ _ => .together rfl
    refine atEnd.bind fun ended => ?_
    split
    · exact .pure _
    · exact h.bind fun _ => ih.bind fun _ => .pure _

end Parting

/-- **Strict and lenient runs of a parser part at the first error**, if at all. -/
theorem Built.parting {n : Nat} {d : Bool} {stance} {p q : Parse α} (h : Built 0 d stance n p q) :
    p.Parting := by
  induction h with
  | le _ _ ih | opened _ ih | ahead _ ih => exact ih
  | pure | fail | exhausted | check | scopes | granted | hiddenSlot => exact fun _ _ => .together rfl
  | bind _ _ ih ihf | after _ _ ih ihf => exact ih.bind ihf
  | accept? _ _ _ ih ihn =>
    refine .bind (.accept? _) fun o => ?_
    cases o with
    | none => exact ihn
    | some t => exact ih t
  | acceptVar _ _ ih ihr =>
    refine .bind (.bind (.accept? _) fun _ => .pure _) fun b => ?_
    split
    · exact ih
    · exact ihr
  | lookAt _ _ ih _ | lookFor _ _ ih | lookAhead _ ih => exact fun c s => ih _ c s
  | advance _ ih => exact Parting.advance.bind ih
  | failAfterNext fault => exact Parting.advance.bind fun _ _ _ => .together rfl
  | natives same _ ih =>
    intro c s
    have alike : { c with strict := true }.natives = { c with strict := false }.natives := rfl
    simp only [run_bind, run_context, andThen_ok]
    rw [← same _ _ alike]
    exact ih _ _ rfl c s
  | rounds hn _ ih =>
    exact fun c s => ih c.bound c.bound (Nat.le_trans hn (Nat.zero_le _)) (Nat.le_refl _) c s
  | resolve _ =>
    refine fun c s => .together ?_
    simp only [Parse.resolve]
    split <;> rfl
  | inScope _ ih => exact ih.inScope
  | block _ _ _ brace ih _ => exact ih.block brace
  | recovering _ ih => exact ih.recovering

lemma parting_parseUnit (depth : Nat) : (parseUnit depth).Parting := by
  have announced : Parse.announceLabels.Parting := fun _ _ => .together rfl
  have declaration := (Grammar.built_self 0 depth).declaration.parting
  exact announced.bind fun _ c s => declaration.unit c.bound c s

end Parse

lemma exists_parse_eq (tokens : List Token) : ∃ body eof,
    (∀ last ∈ tokens.getLast?, last = eof) ∧ ∀ options natives linked supply,
      parse tokens options natives linked supply =
        parse (body ++ [eof]) options natives linked supply := by
  rcases eq_nil_or_concat tokens with rfl | ⟨body, eof, rfl⟩
  · exact ⟨[], default, (fun _ h => by cases h), fun _ _ _ _ => rfl⟩
  · refine ⟨body, eof, fun last hl => ?_, fun _ _ _ _ => by rw [concat_eq_append]⟩
    simpa using hl.symm

lemma ParseResult.Parts.compilations {options options' : CompileOptions} {place : Location}
    (hf : options.file = options'.file) {s : ParseState} (hs : s.errors = []) {r r'}
    (h : Parts s r r') : let strict := Compilation.ofResult options place r
    let lenient := Compilation.ofResult options' place r'
    (strict = lenient ∧ ∀ u, lenient.result = .ok u → u.errors = []) ∨
    ∃ e, strict.result = .error (.canceled e) ∧ strict.log = e.log ∧
      ∀ u, lenient.result = .ok u → u.errors.head? = some e := by
  cases h with
  | together errors =>
    left
    cases r with
    | ok l t =>
      refine ⟨by simp only [Compilation.ofResult, hf], fun u hu => ?_⟩
      cases hu
      exact errors.trans hs
    | error e t => exact ⟨rfl, nofun⟩
  | @canceled e t _ errors first =>
    right
    rw [hs, nil_append] at errors
    refine ⟨e, rfl, ?_, fun u hu => ?_⟩
    · simp [Compilation.ofResult, errors]
    · cases r' with
      | ok l t' =>
        cases hu
        obtain ⟨later, hl⟩ := first
        have all : t'.errors = e :: later := by rw [← singleton_append, ← errors]; exact hl.symm
        exact congrArg List.head? all
      | error e t' => cases hu

lemma strict_parse_cases (body : List Token) (eof : Token) (options : CompileOptions)
    (natives : Registry) (linked : List Slot) (supply : Supply) :
    let strict := parse (body ++ [eof]) { options with strict := true } natives linked supply
    let lenient := parse (body ++ [eof]) { options with strict := false } natives linked supply
    (strict = lenient ∧ ∀ u, lenient.result = .ok u → u.errors = []) ∨
    ∃ e, strict.result = .error (.canceled e) ∧ strict.log = e.log ∧
      ∀ u, lenient.result = .ok u → u.errors.head? = some e := by
  have parts := Parse.parting_parseUnit (body.length + 1) (.ofUnit body eof options natives)
    (.start body eof linked supply)
  rw [parse_eq, parse_eq]
  exact parts.compilations rfl rfl

/-- **Strict and lenient parses agree up to the first error.**  A strict parse gives a unit just where
a lenient one does without an error, and then the two come to the same, with the program, the
exported names and the numbers to go on from.  Where the lenient one reports errors, the first of
them cancels the strict parse, and it is the only one of which there are messages.  A lenient parse
of tokens up to the end of the input always gives a unit. -/
theorem strict_parse_agrees (tokens : List Token) (options : CompileOptions) (natives : Registry)
    (linked : List Slot) (supply : Supply) :
    let strict := parse tokens { options with strict := true } natives linked supply
    let lenient := parse tokens { options with strict := false } natives linked supply
    ((∃ v, strict.result = .ok v) ↔ ∃ u, lenient.result = .ok u ∧ u.errors = []) ∧
    (∀ u, lenient.result = .ok u → u.errors = [] → strict = lenient) ∧
    (∀ u e later, lenient.result = .ok u → u.errors = e :: later →
      strict.result = .error (.canceled e) ∧ e.cancellation.token = e.token ∧
        strict.log = e.log) ∧
    ((tokens.getLast?.any fun last => last.kind = .endOfInput) → ∃ u, lenient.result = .ok u) := by
  obtain ⟨body, eof, last, same⟩ := exists_parse_eq tokens
  simp only [same]
  have total (h : tokens.getLast?.any fun last => last.kind = .endOfInput) :
      ∃ u, (parse (body ++ [eof]) { options with strict := false } natives linked supply).result =
        .ok u := by
    obtain ⟨t, ht, kind⟩ := (Option.any_eq_true _ _).1 h
    have he : eof.kind = .endOfInput := by simpa [last t ht] using kind
    have lenient : { options with strict := false }.strict = false := rfl
    obtain ⟨u, hu, -⟩ := exists_unit_of_lenient body he lenient natives linked supply
    exact ⟨u, hu⟩
  have ends := strict_parse_cases body eof options natives linked supply
  generalize parse (body ++ [eof]) { options with strict := true } natives linked supply =
    strict at ends ⊢
  generalize parse (body ++ [eof]) { options with strict := false } natives linked supply =
    lenient at ends total ⊢
  rcases ends with ⟨rfl, clean⟩ | ⟨e, result, log, first⟩
  · refine ⟨⟨fun ⟨v, hv⟩ => ⟨v, hv, clean v hv⟩, fun ⟨u, hu, _⟩ => ⟨u, hu⟩⟩, fun _ _ _ => rfl,
      fun u e later hu some => ?_, total⟩
    rw [clean u hu] at some
    cases some
  · have dirty (u : CompiledUnit) (hu : lenient.result = .ok u) : u.errors ≠ [] := by
      intro empty
      have head := first u hu
      rw [empty] at head
      cases head
    refine ⟨⟨fun ⟨v, hv⟩ => ?_, fun ⟨u, hu, empty⟩ => absurd empty (dirty u hu)⟩,
      fun u hu empty => absurd empty (dirty u hu), fun u e' later hu some => ?_, total⟩
    · rw [result] at hv
      cases hv
    · have head := first u hu
      rw [some] at head
      cases head
      exact ⟨result, rfl, log⟩

/-- In `{ { 1 ++ ; } ) ; }` the first error is two blocks deep, and comes with a note. -/
theorem strict_parse_agrees_nested :
    let token (kind : TokenKind) : Token := { kind := kind, lexeme := "", location := default }
    let tokens := [TokenKind.leftBrace, .leftBrace, .number, .increment, .semicolon, .rightBrace,
      .rightParen, .semicolon, .rightBrace, .endOfInput].map token
    let strict := parse tokens { strict := true } .standard [] {}
    ∃ u e later, (parse tokens {} .standard [] {}).result = .ok u ∧ u.errors = e :: later ∧
      later.length = 1 ∧ strict.result = .error (.canceled e) ∧ strict.log = e.log ∧
      e.log.length = 2 := by
  intro token tokens strict
  obtain ⟨-, -, canceled, total⟩ := strict_parse_agrees tokens {} .standard [] {}
  obtain ⟨u, hu⟩ := total rfl
  have counts : (match (parse tokens {} .standard [] {}).result with
      | .ok u => u.errors.map (·.log.length)
      | .error _ => []) = [2, 1] := by decide +kernel
  simp only [hu] at counts
  obtain ⟨e, later, he, he', hl⟩ := map_eq_cons_iff.1 counts
  obtain ⟨result, -, log⟩ := canceled u e later hu he
  refine ⟨u, e, later, hu, he, ?_, result, log, he'⟩
  simpa using congrArg List.length hl

end DynScript
