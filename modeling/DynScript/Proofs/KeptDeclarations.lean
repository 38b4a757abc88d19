import DynScript.Proofs.LongerParses

/-!
# Declarations behind errors

After an error the parser passes over tokens up to the next boundary, and over one of them at least, so
that it gets on.
-/

namespace DynScript

open Parse List ParseResult Grammar

namespace Grammar

/-- Whether the declaration that stands here fails with no token left to pass over. -/
def stranded (g : Grammar) (c : ParseContext) (s : ParseState) : Bool :=
  match g.attempt.run c s with
  | .error (.error _) t => t.rest.isEmpty
  | _ => false

/-- Whether one of the declarations that stand here, at most `fuel` of them, fails with no token left to
pass over. -/
def failsAtEnd (g : Grammar) (c : ParseContext) : (fuel : Nat) → ParseState → Bool
  | 0, _ => false
  | fuel + 1, s => !s.rest.isEmpty &&
    (g.stranded c s || g.failsAtEnd c fuel (g.declarationRule.run c s).state)

end Grammar

/-- Whether one of the declarations of a unit fails with no token left to pass over. -/
def failsAtEnd (body : List Token) (eof : Token) (options : CompileOptions) (natives : Registry)
    (linked : List Slot) (supply : Supply) : Bool :=
  (unrolled body.length).failsAtEnd (.ofUnit body eof options natives) (body.length + 1)
    (.announced body eof linked supply)

/-! ### One declaration -/

namespace Longer

variable {L : Longer} {n m : Nat} {s t : ParseState}

/-- **A declaration that does not strand is read in the same way on a longer input.** -/
theorem declaration_same (hn : n ≤ m) (hs : s.rest ≠ [])
    (free : (unrolled n).stranded L.first s = false) {a}
    (h : (unrolled (n + 1)).declaration.run L.first s = .ok a t) :
    (unrolled (m + 1)).declaration.run L.second (s.append L.tail) = .ok a (t.append L.tail) := by
  change (recovering (unrolled n).attempt).run L.first s = _ at h
  change (recovering (unrolled m).attempt).run L.second _ = _
  rw [run_recovering L.lenient] at h
  rw [run_recovering L.lenient']
  have follows := L.follows_attempt hn s hs
  unfold stranded at free
  cases hr : (unrolled n).attempt.run L.first s with
  | ok b u =>
    rw [hr] at h follows
    cases h
    cases follows with
    | exhausted _ h => cases h
    | same h =>
      rw [h]
      rfl
    | ended _ failed => exact (failed.elim id id).elim
  | error e u =>
    rw [hr] at h follows free
    cases e with
    | error e =>
      -- With a token left, both parses pass over the same tokens.
      have some : u.rest ≠ [] := by simpa using free
      cases h
      cases follows with
      | exhausted _ h => cases h
      | same h =>
        rw [h]
        exact congrArg (ParseResult.ok none) (recovered_append _ e some)
      | ended rest => exact absurd rest some
    | canceled | scopes | exhausted => cases h

/-- **Where a declaration strands, the longer parse does not come to stand in front of the further
tokens.** -/
theorem declaration_past (hn : n ≤ m) (hs : s.rest ≠ [])
    (strands : (unrolled n).stranded L.first s = true) :
    L.Past ((unrolled (m + 1)).declaration.run L.second (s.append L.tail)) := by
  change L.Past ((recovering (unrolled m).attempt).run L.second _)
  rw [run_recovering L.lenient']
  have follows := L.follows_attempt hn s hs
  unfold stranded at strands
  cases hr : (unrolled n).attempt.run L.first s with
  | ok b u =>
    rw [hr] at strands
    cases strands
  | error e u =>
    rw [hr] at follows strands
    cases e with
    | error e =>
      have none : u.rest = [] := by simpa using strands
      cases follows with
      | exhausted _ h => cases h
      | same h =>
        have failed : L.Past ((unrolled m).attempt.run L.second (s.append L.tail)) := by
          rw [h]
          refine ⟨?_, .inl trivial⟩
          simp [ParseResult.append, ParseResult.state, ParseState.append, none]
        exact failed.recover _
      | ended _ _ past => exact past.recover _
    | canceled | scopes | exhausted => cases strands

/-! ### The declarations of a unit -/

variable {c : ParseContext}

lemma run_unit_nil (g : Grammar) (hs : s.rest = []) (fuel : Nat) :
    (g.unit (fuel + 1)).run c s = .ok [] s := by
  unfold unit
  rw [run_bind, run_atEnd, hs]
  rfl

lemma run_unit_cons (g : Grammar) (hs : s.rest ≠ []) (fuel : Nat) :
    (g.unit (fuel + 1)).run c s = (g.declaration.run c s).andThen fun a t =>
      ((g.unit fuel).run c t).andThen fun l u => .ok (a.toList ++ l) u := by
  have some : s.rest.isEmpty = false := by simpa using hs
  conv_lhs => unfold unit
  rw [run_bind, run_atEnd, some]
  rfl

lemma state_unit_of_ok {g : Grammar} (hs : s.rest ≠ []) {a} (h : g.declaration.run c s = .ok a t)
    (fuel : Nat) : ((g.unit (fuel + 1)).run c s).state = ((g.unit fuel).run c t).state := by
  rw [run_unit_cons g hs, h, andThen_ok]
  cases (g.unit fuel).run c t <;> rfl

lemma state_unit_of_error {g : Grammar} (hs : s.rest ≠ []) {e}
    (h : g.declaration.run c s = .error e t) (fuel : Nat) :
    ((g.unit (fuel + 1)).run c s).state = t := by
  rw [run_unit_cons g hs, h]
  rfl

/-- **If no declaration strands, the longer parse stands in front of the further tokens** when the other
one is at its end, and all is the same until then. -/
theorem unit_same (hn : n ≤ m) {fuel : Nat} {l}
    (free : (unrolled n).failsAtEnd L.first fuel s = false)
    (h : ((unrolled (n + 1)).unit fuel).run L.first s = .ok l t) :
    t.rest = [] ∧ ∃ j, ∀ k, ((unrolled (m + 1)).unit (fuel + k)).run L.second (s.append L.tail) =
      (((unrolled (m + 1)).unit (j + 1 + k)).run L.second (t.append L.tail)).andThen
        fun l' u => .ok (l ++ l') u := by
  induction fuel generalizing s l with
  | zero => cases h
  | succ fuel ih =>
    by_cases hs : s.rest = []
    · rw [run_unit_nil _ hs] at h
      cases h
      refine ⟨hs, fuel, fun k => ?_⟩
      generalize ((unrolled (m + 1)).unit (fuel + 1 + k)).run L.second (t.append L.tail) = r
      cases r <;> rfl
    · rw [run_unit_cons _ hs] at h
      obtain ⟨first, u, hd, h⟩ := andThen_eq_ok.1 h
      obtain ⟨rest, v, hu, h⟩ := andThen_eq_ok.1 h
      cases h
      have some : s.rest.isEmpty = false := by simpa using hs
      simp only [Grammar.failsAtEnd, some, Bool.not_false, Bool.true_and, Bool.or_eq_false_iff] at free
      obtain ⟨here, later⟩ := free
      rw [show (unrolled n).declarationRule.run L.first s = .ok first u from hd] at later
      obtain ⟨ends, j, goes⟩ := ih (s := u) later hu
      refine ⟨ends, j, fun k => ?_⟩
      have ahead : (s.append L.tail).rest ≠ [] := by simp [ParseState.append, hs]
      rw [show fuel + 1 + k = fuel + k + 1 by omega, run_unit_cons _ ahead,
        declaration_same hn hs here hd, andThen_ok, goes k]
      generalize ((unrolled (m + 1)).unit (j + 1 + k)).run L.second (t.append L.tail) = r
      cases r with
      | ok l' w => simp
      | error e w => rfl

end Longer

/-! ### Names -/

namespace Parse

variable {s t : ParseState} {name : String}

/-- A name is not declared in the current scope. -/
def Lacks (name : String) (s : ParseState) : Prop :=
  ∀ slot ∈ s.scopes.current.slots, slot.name ≠ name

lemma Lacks.of_namesAt {N : String → Prop} (h : Lacks name s) (names : NamesAt N s t)
    (hN : ¬ N name) : Lacks name t := by
  obtain ⟨new, slots, names⟩ := names
  intro slot hs
  rw [slots] at hs
  rcases mem_append.1 hs with hs | hs
  · exact h slot hs
  · rintro rfl
    exact hN (names slot hs)

lemma Lacks.slot?_eq_none (h : Lacks name s) : s.scopes.current.slot? name = none :=
  find?_eq_none.2 fun slot hs => by simpa using h slot hs

/-- Among the tokens the name is not that of a variable. -/
def Free (name : String) (tokens : List Token) : Prop :=
  ∀ t ∈ tokens, t.kind = .identifier → t.lexeme ≠ name

instance (name : String) (tokens : List Token) : Decidable (Free name tokens) :=
  inferInstanceAs (Decidable (∀ t ∈ tokens, _))

lemma Free.not_secondName {tokens} (h : Free name tokens) : ¬ Grammar.SecondName tokens name := by
  rintro ⟨first, t, rest, rfl, hk, rfl⟩
  exact h t (by simp) hk rfl

end Parse

namespace Longer

variable {L : Longer} {n m : Nat} {s t : ParseState} {name : String}

lemma not_secondName_append (hs : s.rest ≠ []) (h : Free name s.rest) :
    ¬ Grammar.SecondName (s.append L.tail).rest name := by
  rintro ⟨first, t, rest, hr, hk, rfl⟩
  cases hs' : s.rest with
  | nil => exact hs hs'
  | cons a l =>
    rw [hs'] at h
    cases l with
    | nil =>
      simp only [ParseState.append, hs', tail, cons_append, nil_append, List.cons.injEq] at hr
      rw [← hr.2.1, L.kind] at hk
      cases hk
    | cons b l =>
      simp only [ParseState.append, hs', cons_append, List.cons.injEq] at hr
      exact h b (by simp) (hr.2.1 ▸ hk) (hr.2.1 ▸ rfl)

lemma lacks_unit {c} (h : ∀ l, l <:+ s.rest → ¬ Grammar.SecondName l name) (lacks : Lacks name s)
    (fuel : Nat) : Lacks name (((unrolled m).unit fuel).run c s).state := by
  induction fuel generalizing s with
  | zero => exact lacks
  | succ fuel ih =>
    by_cases hs : s.rest = []
    · rw [run_unit_nil _ hs]
      exact lacks
    · have names := lacks.of_namesAt (names_declaration (c := c) m s) (h _ suffix_rfl)
      have onward := ((unrolled m).declaration.onward c s).rest
      cases hr : (unrolled m).declaration.run c s with
      | error e t =>
        rw [hr] at names
        rw [state_unit_of_error hs hr]
        exact names
      | ok a t =>
        rw [hr] at names onward
        rw [state_unit_of_ok hs hr]
        exact ih (fun l hl => h l (hl.trans onward)) names

/-- **If a declaration strands, the name behind it is not declared.** -/
theorem lacks_of_failsAtEnd (hn : n ≤ m) (hm : ∀ l, l <:+ L.more → ¬ Grammar.SecondName l name)
    {fuel : Nat} {l} (fails : (unrolled n).failsAtEnd L.first fuel s = true)
    (h : ((unrolled (n + 1)).unit fuel).run L.first s = .ok l t) (free : Free name s.rest)
    (lacks : Lacks name s) (k : Nat) :
    Lacks name (((unrolled (m + 1)).unit k).run L.second (s.append L.tail)).state := by
  -- The declarations in front of the one that strands are read alike, and do not declare the name.
  induction fuel generalizing s t l k with
  | zero => cases fails
  | succ fuel ih =>
    cases k with
    | zero => exact lacks
    | succ k =>
      simp only [Grammar.failsAtEnd, Bool.and_eq_true, Bool.not_eq_true', Bool.or_eq_true] at fails
      obtain ⟨some, fails⟩ := fails
      have hs : s.rest ≠ [] := by simpa using some
      have ahead : (s.append L.tail).rest ≠ [] := by simp [ParseState.append, hs]
      rw [run_unit_cons _ hs] at h
      obtain ⟨first, u, hd, h⟩ := andThen_eq_ok.1 h
      obtain ⟨rest, v, hu, -⟩ := andThen_eq_ok.1 h
      by_cases here : (unrolled n).stranded L.first s = true
      -- From here on the name is in first place or has been passed over.
      · have past := declaration_past hn hs here
        have names := Lacks.of_namesAt (s := s.append L.tail) lacks
          (names_declaration (c := L.second) (m + 1) _) (not_secondName_append hs free)
        cases hr : (unrolled (m + 1)).declaration.run L.second (s.append L.tail) with
        | error e w =>
          rw [hr] at names
          rw [state_unit_of_error ahead hr]
          exact names
        | ok a w =>
          rw [hr] at names past
          rw [state_unit_of_ok ahead hr]
          have within := suffix_more past.rest (past.past.resolve_left id)
          exact lacks_unit (fun l hl => hm l (hl.trans within)) names k
      · have later := fails.resolve_left here
        rw [show (unrolled n).declarationRule.run L.first s = .ok first u from hd] at later
        have names := lacks.of_namesAt (names_declaration (c := L.first) (n + 1) s)
          free.not_secondName
        have onward := ((unrolled (n + 1)).declaration.onward L.first s).rest
        rw [hd] at names onward
        rw [state_unit_of_ok ahead (declaration_same hn hs (by simpa using here) hd)]
        exact ih later hu (fun x hx => free x (onward.subset hx)) names k

end Longer

/-! ### The declaration that follows -/

section Following

variable {v x z : Token} (hv : v.kind = .kwVar) (hx : x.kind = .identifier) (hz : z.kind = .semicolon)

include hv hx hz

lemma run_attempt_var {c} {s : ParseState} (hs : s.rest = [v, x, z]) (lacks : Lacks x.lexeme s)
    (g : Grammar) :
    ∃ a u slot, g.attempt.run c s = .ok (some a) u ∧ u.rest = [] ∧ u.errors = s.errors ∧
      slot.name = x.lexeme ∧
      u.scopes = { s.scopes with nextSlot := s.scopes.nextSlot + 1 }.setCurrent
        (s.scopes.current.addSlot slot) := by
  let named : ParseState := { s with last := x, rest := [z] }
  let slot : Slot := ⟨x.lexeme, false, x.location, s.scopes.nextSlot⟩
  let declared : ParseState := { named with
    scopes := { s.scopes with nextSlot := s.scopes.nextSlot + 1 }.setCurrent
      (s.scopes.current.addSlot slot) }
  have expected (message : String) :
      (expect .identifier message).run c { s with last := v, rest := [x, z] } = .ok x named :=
    run_expect_cons rfl hx
  have declares : (declare x).run c named = .ok slot declared :=
    run_declareAs x false _ lacks.slot?_eq_none
  -- No value is given, since a semicolon follows.
  have initial : (g.initialValue x).run c declared = .ok (.literal .null x.location) declared := by
    simp [initialValue, accept, run_accept?, declared, named, hz]
  have ended (message : String) :
      (expect .semicolon message).run c declared = .ok z { declared with last := z, rest := [] } :=
    run_expect_cons rfl hz
  let initial' : Expr := .literal .null x.location
  refine ⟨.declare slot initial'.boxed x.location, { declared with last := z, rest := [] }, slot, ?_,
    rfl, rfl, rfl, rfl⟩
  simp only [attempt, run_bind, run_peek, hs, headD_cons, andThen_ok, hv,
    run_advance_cons hs, run_map, varDeclaration, expected, declares, initial, ended, run_pure]
  rfl

lemma run_unit_var {c} {s : ParseState} (hs : s.rest = [v, x, z]) (lacks : Lacks x.lexeme s)
    (m k : Nat) :
    ∃ l u slot, ((unrolled (m + 1)).unit (k + 2)).run c s = .ok l u ∧ u.errors = s.errors ∧
      slot.name = x.lexeme ∧ u.scopes.current.slots = s.scopes.current.slots ++ [slot] := by
  obtain ⟨a, u, slot, hr, rest, errors, name, scopes⟩ :=
    run_attempt_var hv hx hz (c := c) hs lacks (unrolled m)
  have declaration : (unrolled (m + 1)).declaration.run c s = .ok (some a) u := by
    change (recovering (unrolled m).attempt).run c s = _
    simp [recovering, hr]
  refine ⟨[a], u, slot, ?_, errors, name, ?_⟩
  · rw [Longer.run_unit_cons _ (by simp [hs]), declaration, andThen_ok,
      Longer.run_unit_nil _ rest]
    rfl
  · rw [scopes, ScopeTable.current_setCurrent]
    rfl

lemma labelsAhead_append (depth : Nat) (rest) :
    labelsAhead depth (rest ++ [v, x, z]) = labelsAhead depth rest := by
  induction rest generalizing depth with
  | nil => simp [labelsAhead, hv, hx, hz]
  | cons t rest ih =>
    rw [cons_append]
    unfold labelsAhead
    split
    · exact ih _
    · split
      · rfl
      · exact ih _
    · split
      · rw [ih]
        cases rest with
        | nil => simp [hv]
        | cons _ _ => rfl
      · exact ih _
    · exact ih _

end Following

/-! ### Units -/

lemma ScopeTable.current_of_around {t : ScopeTable} (h : t.around = []) : t.current = t.globals := by
  unfold around stack at h
  unfold current
  cases hi : t.inner with
  | nil => rfl
  | cons _ _ => simp [hi] at h

lemma slots_announced (names : List Token) (t) :
    (names.foldl announced t).current.slots = t.current.slots := by
  induction names generalizing t with
  | nil => rfl
  | cons name names ih =>
    rw [foldl_cons, ih]
    unfold announced ScopeTable.announce
    rw [ScopeTable.defineLabel_eq]
    split
    · rfl
    · simp [*, Scope.addLabel]

section Units

variable (body : List Token) {eof eof' v x z : Token} (he : eof.kind = .endOfInput)
  (he' : eof'.kind = .endOfInput) (hv : v.kind = .kwVar) (hx : x.kind = .identifier)
  (hz : z.kind = .semicolon) {options : CompileOptions} (hs : options.strict = false)
  (natives : Registry) (linked : List Slot) (supply : Supply)

/-- The parse of a unit, and that of a unit with a declaration behind it. -/
def Longer.ofUnit : Longer where
  first := .ofUnit body eof options natives
  second := .ofUnit (body ++ [v, x, z]) eof' options natives
  keyword := v
  more := [x, z]
  eof_kind := he
  eof_kind' := he'
  lenient := hs
  lenient' := hs
  natives := rfl
  bound_le := by simp [ParseContext.ofUnit]
  kind := hv
  labels := labelsAhead_append hv hx hz

lemma around_announced : (ParseState.announced body eof linked supply).scopes.around = [] :=
  (onward_announced _ _).around

lemma lacks_announced (name) : Lacks name (.announced body eof linked supply) := by
  unfold Lacks ParseState.announced
  dsimp only
  rw [slots_announced]
  exact forall_mem_nil _

variable {natives linked supply}

variable {body} (eof) in
include hv hx hz in
lemma announced_append (hb : body ≠ []) :
    ParseState.announced (body ++ [v, x, z]) eof' linked supply =
      (ParseState.announced body eof linked supply).append [v, x, z] := by
  cases body with
  | nil => exact absurd rfl hb
  | cons t rest =>
    unfold ParseState.announced
    rw [labelsAhead_append hv hx hz]
    rfl

include hv hx hz in
lemma run_unit_behind {c} {s t : ParseState} (rest : s.rest = [v, x, z])
    (scopes : s.scopes = t.scopes) (errors : s.errors = t.errors) (around : t.scopes.around = [])
    (lacks : Lacks x.lexeme t) (m k : Nat) :
    ∃ l u slot, ((unrolled (m + 1)).unit (k + 2)).run c s = .ok l u ∧ u.errors = t.errors ∧
      slot.name = x.lexeme ∧ u.scopes.globals.slots = t.scopes.globals.slots ++ [slot] := by
  obtain ⟨l, u, slot, hr, he, name, slots⟩ := run_unit_var hv hx hz (c := c) (s := s) rest
    (by rw [Lacks, scopes]; exact lacks) m k
  have around' : u.scopes.around = [] := by
    rw [(onward_of_ok hr).scopes.around, scopes, around]
  rw [scopes, ScopeTable.current_of_around around, ScopeTable.current_of_around around'] at slots
  exact ⟨l, u, slot, hr, he.trans errors, name, slots⟩

variable {l : List Stmt} {t : ParseState}
  (run : (parseUnit (body.length + 1)).run (.ofUnit body eof options natives)
    (.start body eof linked supply) = .ok l t)
  (free : Free x.lexeme body)

include he he' hv hx hz hs run free

/-- **A declaration is kept** behind tokens that do not fail at their end. -/
theorem kept_of_not_failsAtEnd (fails : failsAtEnd body eof options natives linked supply = false) :
    ∃ l' u slot, (parseUnit (body.length + 4)).run (.ofUnit (body ++ [v, x, z]) eof' options natives)
        (.start (body ++ [v, x, z]) eof' linked supply) = .ok l' u ∧ u.errors = t.errors ∧
      slot.name = x.lexeme ∧ u.scopes.globals.slots = t.scopes.globals.slots ++ [slot] := by
  rw [run_parseUnit] at run ⊢
  rw [show (body ++ [v, x, z]).length + 1 = body.length + 1 + 3 by simp]
  have around : t.scopes.around = [] := by
    rw [(onward_of_ok run).scopes.around, around_announced]
  have lacks : Lacks x.lexeme (ParseResult.ok l t).state := by
    rw [← run]
    exact Longer.lacks_unit (fun _ hl => Free.not_secondName fun y hy => free y (hl.subset hy))
      (lacks_announced body linked supply x.lexeme) _
  by_cases hb : body = []
  · subst hb
    rw [Longer.run_unit_nil _ rfl] at run
    cases run
    refine run_unit_behind hv hx hz (s := .announced [v, x, z] eof' linked supply)
      (t := .announced [] eof linked supply) rfl ?_ rfl around lacks 3 2
    exact congrArg (List.foldl announced _) (labelsAhead_append hv hx hz 0 [])
  · obtain ⟨ends, j, goes⟩ := Longer.unit_same (L := .ofUnit body he he' hv hx hz hs natives)
      (m := body.length + 3) (Nat.le_add_right _ _) fails run
    obtain ⟨l', u, slot, hr, kept⟩ := run_unit_behind hv hx hz (s := t.append [v, x, z]) (t := t)
      (c := .ofUnit (body ++ [v, x, z]) eof' options natives) (by simp [ParseState.append, ends])
      rfl rfl around lacks (body.length + 3) (j + 2)
    refine ⟨l ++ l', u, slot, ?_, kept⟩
    rw [announced_append eof hv hx hz hb]
    refine (goes 3).trans ?_
    rw [show j + 1 + 3 = j + 2 + 2 by omega]
    exact congrArg (ParseResult.andThen · fun l' u => .ok (l ++ l') u) hr

/-- **A declaration is lost** behind tokens that fail at their end. -/
theorem lost_of_failsAtEnd (fails : failsAtEnd body eof options natives linked supply = true) :
    ∀ slot ∈ ((parseUnit (body.length + 4)).run (.ofUnit (body ++ [v, x, z]) eof' options natives)
      (.start (body ++ [v, x, z]) eof' linked supply)).state.scopes.globals.slots,
      slot.name ≠ x.lexeme := by
  rw [run_parseUnit] at run ⊢
  have hb : body ≠ [] := by
    rintro rfl
    cases fails
  -- Behind the keyword only the semicolon comes in second place.
  have none : ∀ l, l <:+ [x, z] → ¬ Grammar.SecondName l x.lexeme := by
    rintro l hl ⟨first, y, rest, rfl, hk, -⟩
    simp only [suffix_cons_iff, List.cons.injEq, suffix_nil] at hl
    rcases hl with ⟨-, rfl, -⟩ | ⟨-, h⟩ | h
    · rw [hz] at hk
      cases hk
    · cases h
    · cases h
  have lacks := Longer.lacks_of_failsAtEnd (L := .ofUnit body he he' hv hx hz hs natives)
    (m := body.length + 3) (Nat.le_add_right _ _) none fails run free
    (lacks_announced body linked supply x.lexeme) ((body ++ [v, x, z]).length + 1)
  rw [announced_append eof hv hx hz hb]
  have around := (((unrolled (body.length + 4)).unit ((body ++ [v, x, z]).length + 1)).onward
    (.ofUnit (body ++ [v, x, z]) eof' options natives)
    ((ParseState.announced body eof linked supply).append [v, x, z])).scopes.around
  rw [← ScopeTable.current_of_around (around.trans (around_announced body linked supply))]
  exact lacks

end Units

/-- **Declarations behind errors.**  Whatever the tokens, as long as the name is not among them, a parse
that is not strict exports a name that is declared behind them if and only if they do not fail at their
end.  Then the declaration adds no errors to those of the tokens, and its name is exported behind
theirs. -/
theorem exported_behind_errors (body : List Token) {eof eof' v x z : Token}
    (he : eof.kind = .endOfInput) (he' : eof'.kind = .endOfInput) (hv : v.kind = .kwVar)
    (hx : x.kind = .identifier) (hz : z.kind = .semicolon) (free : Free x.lexeme body)
    {options : CompileOptions} (hs : options.strict = false) (natives : Registry) (linked : List Slot)
    (supply : Supply) :
    ∃ u u', (parse (body ++ [eof]) options natives linked supply).result = .ok u ∧
      (parse (body ++ [v, x, z] ++ [eof']) options natives linked supply).result = .ok u' ∧
      ((∃ slot ∈ u'.exported, slot.name = x.lexeme) ↔
        failsAtEnd body eof options natives linked supply = false) ∧
      (failsAtEnd body eof options natives linked supply = false → u'.errors = u.errors ∧
        ∃ slot, u'.exported = u.exported ++ [slot] ∧ slot.name = x.lexeme) := by
  obtain ⟨l, t, run, -⟩ := ok_parseUnit_of_lenient body he hs natives linked supply
  obtain ⟨l', t', run', -⟩ := ok_parseUnit_of_lenient (body ++ [v, x, z]) he' hs natives linked supply
  rw [parse_eq, parse_eq, run, run']
  refine ⟨_, _, rfl, rfl, ?_⟩
  rw [show (body ++ [v, x, z]).length + 1 = body.length + 4 by simp] at run'
  cases fails : failsAtEnd body eof options natives linked supply with
  | false =>
    obtain ⟨l'', u, slot, hr, errors, name, slots⟩ :=
      kept_of_not_failsAtEnd body he he' hv hx hz hs run free fails
    cases run'.symm.trans hr
    refine ⟨⟨fun _ => rfl, fun _ => ⟨slot, ?_, name⟩⟩, fun _ => ⟨errors, slot, slots, name⟩⟩
    simp [slots]
  | true =>
    have lost := lost_of_failsAtEnd body he he' hv hx hz hs run free fails
    rw [run'] at lost
    refine ⟨⟨fun ⟨slot, exported, name⟩ => absurd name (lost slot exported), ?_⟩, ?_⟩ <;> simp

/-- In `var ; { ) ; }` there are two errors, but none at the end. -/
theorem exported_behind_errors_block :
    let token (kind : TokenKind) : Token := { kind := kind, lexeme := "x", location := default }
    let body := [TokenKind.kwVar, .semicolon, .leftBrace, .rightParen, .semicolon, .rightBrace].map token
    let declaration := [TokenKind.kwVar, .identifier, .semicolon].map token
    failsAtEnd body (token .endOfInput) {} .standard [] {} = false ∧
      ∃ u, (parse (body ++ declaration ++ [token .endOfInput]) {} .standard [] {}).result = .ok u ∧
        (∃ slot ∈ u.exported, slot.name = "x") ∧ u.errors.length = 2 := by
  intro token body declaration
  have fails : failsAtEnd body (token .endOfInput) {} .standard [] {} = false := by decide +kernel
  have free : Free "x" body := by decide
  obtain ⟨u, u', hu, hu', exported, kept⟩ := exported_behind_errors body
    (rfl : (token .endOfInput).kind = .endOfInput) (rfl : (token .endOfInput).kind = .endOfInput)
    (rfl : (token .kwVar).kind = .kwVar) (rfl : (token .identifier).kind = .identifier)
    (rfl : (token .semicolon).kind = .semicolon) free (rfl : ({} : CompileOptions).strict = false)
    .standard [] {}
  have count : (parse (body ++ [token .endOfInput]) {} .standard [] {}).result.toOption.map
      (·.errors.length) = some 2 := by decide +kernel
  rw [hu] at count
  exact ⟨fails, u', hu', exported.2 fails, (kept fails).1 ▸ Option.some.inj count⟩

/-- Behind `for ( ;`, which has no braces and ends in a semicolon, a declaration is lost: the error is met
in front of its keyword, which is passed over. -/
theorem declaration_lost_behind_for :
    let token (kind : TokenKind) : Token := { kind := kind, lexeme := "x", location := default }
    let body := [TokenKind.kwFor, .leftParen, .semicolon].map token
    let declaration := [TokenKind.kwVar, .identifier, .semicolon].map token
    Free "x" body ∧ failsAtEnd body (token .endOfInput) {} .standard [] {} = true ∧
      (parse (body ++ declaration ++ [token .endOfInput]) {} .standard [] {}).result.toOption.map
        (·.exported) = some [] := by
  decide +kernel

end DynScript
