import DynScript.Code
import DynScript.Grammar.ParseError
import DynScript.Grammar.Recovery
import DynScript.Scope.Onward

/-!
# Parsing

A parser reads tokens from the front of a list, resolves names in a scope table as it goes, and either
gives a result or fails.  A failure keeps what has been read and declared so far: the declaration in
which it happens recovers from it (`recovering`), unless parsing is strict.
-/

namespace DynScript

/-- What stays the same while a unit is parsed: the token at the end of the input, whether the first
error ends everything, the native functions, and a number above that of the tokens. -/
structure ParseContext where
  eof : Token
  strict : Bool := false
  natives : Registry
  bound : Nat

/-- What changes while a unit is parsed: the token read last, the tokens to come, the scopes, and
the errors so far. -/
structure ParseState where
  last : Token
  rest : List Token
  scopes : ScopeTable
  errors : List ParseError := []

/-- Why a parser gives no result: an error that the enclosing declaration recovers from, an error
that ends a strict parse, an objection of the scope table that no rule of the grammar expects, or nesting
beyond the depth that the grammar was unrolled to. -/
inductive ParseFailure where
  | error (e : ParseError)
  | canceled (cause : ParseError)
  | scopes (e : ScopeError)
  | exhausted

/-- A state is reached from another one by reading on. -/
structure ParseState.Onward (s t : ParseState) : Prop where
  rest : t.rest <:+ s.rest
  errors : s.errors <+: t.errors
  scopes : s.scopes.Onward t.scopes

namespace ParseState.Onward

variable {s t u : ParseState}

theorem refl (s : ParseState) : s.Onward s :=
  ⟨List.suffix_refl _, List.prefix_refl _, .refl _⟩

theorem trans (h : s.Onward t) (k : t.Onward u) : s.Onward u :=
  ⟨k.rest.trans h.rest, h.errors.trans k.errors, h.scopes.trans k.scopes⟩

end ParseState.Onward

/-- How a parse ends: with a result or a failure, and the state then. -/
inductive ParseResult (α : Type) where
  | ok (a : α) (s : ParseState)
  | error (e : ParseFailure) (s : ParseState)

/-- The state that a parse ends in. -/
def ParseResult.state {α : Type} : ParseResult α → ParseState
  | ok _ s | error _ s => s

/-- Goes on from a result. -/
def ParseResult.andThen {α β : Type} (r : ParseResult α) (f : α → ParseState → ParseResult β) :
    ParseResult β :=
  match r with
  | ok a s => f a s
  | error e s => .error e s

/-- A parser, which only ever reads on. -/
structure Parse (α : Type) where
  run : ParseContext → ParseState → ParseResult α
  onward : ∀ (c : ParseContext) (s : ParseState), s.Onward (run c s).state

namespace Parse

variable {α β : Type}

/-- Gives a result without reading. -/
protected def pure (a : α) : Parse α where
  run _ s := .ok a s
  onward _ s := .refl s

/-- One parser after the other. -/
protected def bind (p : Parse α) (q : α → Parse β) : Parse β where
  run c s := (p.run c s).andThen fun a s => (q a).run c s
  onward c s := by
    have h := p.onward c s
    cases hp : p.run c s with
    | ok a t =>
      rw [hp] at h
      exact h.trans ((q a).onward c t)
    | error e t =>
      rw [hp] at h
      exact h

instance : Monad Parse where
  pure := Parse.pure
  bind := Parse.bind

/-- Fails. -/
def stop (e : ParseFailure) : Parse α where
  run _ s := .error e s
  onward _ s := .refl s

/-- The context of the parse. -/
def context : Parse ParseContext where
  run c s := .ok c s
  onward _ s := .refl s

/-- The present state. -/
def state : Parse ParseState where
  run _ s := .ok s s
  onward _ s := .refl s

/-! ### Tokens -/

/-- Fails at a token. -/
def fail (fault : ParseFault) (token : Token) : Parse α :=
  stop (.error { fault := fault, token := token })

/-- The next token. -/
def peek : Parse Token := do
  return (← state).rest.headD (← context).eof

/-- Whether a token of a kind comes next. -/
def check (kind : TokenKind) : Parse Bool := do
  return (← state).rest.head?.any (·.kind = kind)

/-- Whether all tokens have been read. -/
def atEnd : Parse Bool := do
  return (← state).rest.isEmpty

/-- Reads a token; at the end of the input the token read last is given again. -/
def advance : Parse Token where
  run _ s :=
    match s.rest with
    | [] => .ok s.last s
    | t :: rest => .ok t { s with last := t, rest := rest }
  onward _ s := by
    split
    · exact .refl s
    · rename_i t rest h
      refine ⟨?_, List.prefix_refl _, .refl _⟩
      rw [h]
      exact List.suffix_cons t rest

/-- Reads a token of a kind, if it comes next. -/
def accept? (kind : TokenKind) : Parse (Option Token) := do
  if ← check kind then return some (← advance) else return none

/-- Reads a token if it has the given kind, and tells whether it did. -/
def accept (kind : TokenKind) : Parse Bool := do
  return (← accept? kind).isSome

/-- Reads a token of a kind or fails. -/
def expect (kind : TokenKind) (message : String) : Parse Token := do
  match ← accept? kind with
  | some t => return t
  | none => fail (.expected (.token kind) message) (← peek)

/-- A bound on the number of rounds of a loop that reads a token in each of them. -/
def rounds : Parse Nat := do
  return (← context).bound

/-- Reads items with commas between. -/
def commaSeparated (item : Parse α) : Nat → Parse (List α)
  | 0 => stop .exhausted
  | fuel + 1 => do
    let a ← item
    if ← accept .comma then return a :: (← commaSeparated item fuel) else return [a]

/-- Reads items separated by commas in front of a closing token; there may be none. -/
def listed (item : Parse α) (close : TokenKind) : Parse (List α) := do
  if ← check close then return [] else commaSeparated item (← rounds)

/-- Reads items separated by commas and the closing token behind them. -/
def enclosed (item : Parse α) (close : TokenKind) (message : String) : Parse (List α) := do
  let items ← listed item close
  let _ ← expect close message
  return items

/-! ### Scopes -/

/-- Runs an operation of the scope table, which moves on, given what is made of its objections. -/
def resolve (operation : ScopeTable → Except ScopeError α × ScopeTable)
    (h : ∀ t : ScopeTable, t.Onward (operation t).2) (objection : ScopeError → ParseFailure) :
    Parse α where
  run _ s :=
    match operation s.scopes with
    | (.ok a, scopes) => .ok a { s with scopes := scopes }
    | (.error e, scopes) => .error (objection e) { s with scopes := scopes }
  onward _ s := by
    have h := h s.scopes
    rcases ho : operation s.scopes with ⟨_ | _, scopes⟩ <;> rw [ho] at h <;>
      exact ⟨List.suffix_refl _, List.prefix_refl _, h⟩

/-- The error that a second declaration of a name is. -/
def redeclared (name : Token) (e : ScopeError) : ParseFailure :=
  .error { fault := .redeclared e, token := name }

/-- Declares a variable of the given name at a token. -/
def declareAs (name : String) (token : Token) (constant : Bool)
    (objection : ScopeError → ParseFailure) : Parse Slot :=
  resolve (·.define name token.location constant) (·.onward_define _ _ _) objection

/-- Declares a variable that the script names. -/
def declare (name : Token) (constant : Bool := false) : Parse Slot :=
  declareAs name.lexeme name constant (redeclared name)

/-- Declares a variable that the language names, in a scope that is new. -/
def declareOwn (name : String) (token : Token) : Parse Slot :=
  declareAs name token false .scopes

/-- A slot that no name leads to. -/
def hiddenSlot (name : String) (place : Location) : Parse Slot where
  run _ s :=
    let (slot, scopes) := s.scopes.newSlot name place false
    .ok slot { s with scopes := scopes }
  onward _ s := ⟨List.suffix_refl _, List.prefix_refl _, s.scopes.onward_newSlot name place false⟩

/-- Binds the end of a loop, the step of a loop or the end of a call. -/
def reserve (kind : LabelKind) : Parse Label := do
  return (← resolve (·.reserve kind) (·.onward_reserve _) .scopes).label

/-- Places an announced label. -/
def placeLabel (name : Token) : Parse Label := do
  return (← resolve (·.place name.lexeme name.location) (·.onward_place _ _) (redeclared name)).label

/-- The scope table. -/
def scopes : Parse ScopeTable := do
  return (← state).scopes

/-- The slots of the innermost scope. -/
def currentSlots : Parse (List Slot) := do
  return (← scopes).current.slots

/-- Takes the scope table of a state down to `depth`. -/
def unwind (depth : Nat) (s : ParseState) : ParseState :=
  { s with scopes := (s.scopes.unwindTo depth).1 }

/-- Takes the scope table down to `depth` and goes on; where a scope cannot be left, the parse ends. -/
def leaving (depth : Nat) (s : ParseState) (next : ParseState → ParseResult α) : ParseResult α :=
  match (s.scopes.unwindTo depth).2 with
  | none => next (unwind depth s)
  | some e => .error (.scopes e) (unwind depth s)

theorem leaving_of_onward_enter {kind : ScopeKind} (hk : kind.isRoot = false) {s t : ParseState}
    (h : ParseState.Onward { s with scopes := s.scopes.enter kind } t)
    (next : ParseState → ParseResult α) :
    leaving s.scopes.depth t next = next (unwind s.scopes.depth t) := by
  simp only [leaving, ScopeTable.unwindTo_of_onward_enter hk h.scopes]

/-- The state after a section of the parse that started in `s` and came to `t`. -/
theorem onward_unwind_enter {kind : ScopeKind} (hk : kind.isRoot = false) {s t : ParseState}
    (h : ParseState.Onward { s with scopes := s.scopes.enter kind } t) :
    s.Onward (unwind s.scopes.depth t) := by
  refine ⟨h.rest, h.errors, ?_⟩
  simp only [unwind, ScopeTable.unwindTo_of_onward_enter hk h.scopes]
  exact s.scopes.onward_numbers h.scopes.nextSlot h.scopes.nextLabel

/-- Parses in a new scope, which is left however the parse ends. -/
def inScope (kind : ScopeKind) (body : Parse α)
    (hk : kind.isRoot = false := by exact @rfl Bool false) : Parse α where
  run context s :=
    match body.run context { s with scopes := s.scopes.enter kind } with
    | .ok a t => leaving s.scopes.depth t (.ok a)
    | .error e t => leaving s.scopes.depth t (.error e)
  onward c s := by
    have h := body.onward c { s with scopes := s.scopes.enter kind }
    cases hb : body.run c { s with scopes := s.scopes.enter kind } with
    | ok a t | error e t =>
      rw [hb] at h
      change s.Onward (leaving s.scopes.depth t _).state
      rw [leaving_of_onward_enter (t := t) hk h]
      exact onward_unwind_enter hk h

/-- **A new scope can always be left.** -/
theorem run_inScope (kind : ScopeKind) (body : Parse α) (hk : kind.isRoot = false) (c)
    (s : ParseState) : (inScope kind body hk).run c s =
      match body.run c { s with scopes := s.scopes.enter kind } with
      | .ok a t => .ok a (unwind s.scopes.depth t)
      | .error e t => .error e (unwind s.scopes.depth t) := by
  have h := body.onward c { s with scopes := s.scopes.enter kind }
  unfold inScope
  cases hb : body.run c { s with scopes := s.scopes.enter kind } with
  | ok a t | error e t =>
    rw [hb] at h
    simp only [hb]
    exact leaving_of_onward_enter hk h _

/-- The names of the labels declared directly in the block that starts here, up to its closing
brace; `depth` braces have been opened on the way. -/
def labelsAhead : Nat → List Token → List Token
  | _, [] => []
  | depth, t :: rest =>
    match t.kind with
    | .leftBrace => labelsAhead (depth + 1) rest
    | .rightBrace => if depth = 0 then [] else labelsAhead (depth - 1) rest
    | .kwLabel =>
      if depth = 0 then
        (rest.head?.filter (·.kind = .identifier)).toList ++ labelsAhead depth rest
      else labelsAhead depth rest
    | _ => labelsAhead depth rest

/-- Announces a label in the current scope unless it has one of that name. -/
def announced (t : ScopeTable) (name : Token) : ScopeTable :=
  if (t.current.label? name.lexeme).isSome then t else (t.announce name.lexeme name.location).2

theorem onward_announced (names : List Token) (t : ScopeTable) :
    t.Onward (names.foldl announced t) := by
  induction names generalizing t with
  | nil => exact .refl t
  | cons name names ih =>
    have h : t.Onward (announced t name) := by
      unfold announced
      split
      · exact .refl t
      · exact t.onward_announce _ _
    exact h.trans (ih _)

/-- Announces the labels of the block that starts here, so that jumps can lead forward to them. -/
def announceLabels : Parse Unit where
  run _ s := .ok () { s with scopes := (labelsAhead 0 s.rest).foldl announced s.scopes }
  onward _ _ := ⟨List.suffix_refl _, List.prefix_refl _, onward_announced _ _⟩

/-! ### Recovery -/

/-- The state after the tokens up to the next boundary. -/
def resumed (s : ParseState) : ParseState :=
  let (last, rest) := resumption s.last s.rest
  { s with last := last, rest := rest }

/-- The state in which parsing goes on after an error: the error is on record, the scopes opened
since are left, and the tokens up to the next boundary are passed over. -/
def recovered (depth : Nat) (e : ParseError) (s : ParseState) : ParseState :=
  resumed (unwind depth { s with errors := s.errors ++ [e] })

theorem depth_eq_of_onward {s t : ParseState} (h : s.Onward t) : s.scopes.depth = t.scopes.depth := by
  rw [ScopeTable.depth_eq, ScopeTable.depth_eq, h.scopes.around]

theorem leaving_of_onward {s t : ParseState} (h : s.Onward t) (errors)
    (next : ParseState → ParseResult α) : leaving s.scopes.depth { t with errors := errors } next =
      next (unwind s.scopes.depth { t with errors := errors }) := by
  simp only [leaving, depth_eq_of_onward h, ScopeTable.unwindTo_depth]

theorem scopes_recovered {s t : ParseState} (h : s.Onward t) (e) :
    (recovered s.scopes.depth e t).scopes = t.scopes := by
  simp only [recovered, resumed, unwind, depth_eq_of_onward h, ScopeTable.unwindTo_depth]

theorem onward_recovered (e) {s t : ParseState} (h : s.Onward t) :
    s.Onward (recovered s.scopes.depth e t) := by
  refine ⟨(resumption_suffix t.last t.rest).trans h.rest,
    h.errors.trans (List.prefix_append _ _), ?_⟩
  rw [scopes_recovered h]
  exact h.scopes

/-- What a declaration gives after an error in it: nothing, and a strict parse is canceled. -/
def recovery (strict : Bool) (e : ParseError) (s : ParseState) : ParseResult (Option Stmt) :=
  if strict then .error (.canceled e) s else .ok none s

/-- Recovers from an error in a declaration. -/
def recovering (declaration : Parse (Option Stmt)) : Parse (Option Stmt) where
  run context s :=
    match declaration.run context s with
    | .error (.error e) t =>
      leaving s.scopes.depth { t with errors := t.errors ++ [e] } fun t =>
        recovery context.strict e (resumed t)
    | result => result
  onward c s := by
    have h := declaration.onward c s
    cases hd : declaration.run c s with
    | ok a t =>
      rw [hd] at h
      exact h
    | error e t =>
      rw [hd] at h
      cases e with
      | error e =>
        change s.Onward (leaving s.scopes.depth { t with errors := _ } _).state
        rw [leaving_of_onward (t := t) h]
        unfold recovery
        split <;> exact onward_recovered e h
      | canceled | scopes | exhausted => exact h

/-- **The scopes of a failed declaration can always be left.** -/
theorem run_recovering (declaration c s) :
    (recovering declaration).run c s =
      match declaration.run c s with
      | .error (.error e) t => recovery c.strict e (recovered s.scopes.depth e t)
      | result => result := by
  have h := declaration.onward c s
  unfold recovering
  cases hd : declaration.run c s with
  | ok a t => simp only [hd]
  | error e t =>
    rw [hd] at h
    cases e with
    | error e =>
      simp only [hd]
      exact leaving_of_onward h _ _
    | canceled | scopes | exhausted => simp only [hd]

end Parse

/-- The rules of the grammar that others call recursively. -/
structure Grammar where
  unary : Parse Expr
  expression : Parse Expr
  statement : Parse Stmt
  declaration : Parse (Option Stmt)

end DynScript
