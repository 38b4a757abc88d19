import DynScript.Proofs.ParseRuns

/-!
# What parsers are built from

Every rule of the grammar is put together from a few primitive parsers, and so is the same rule of a
grammar that is unrolled further, with more rounds for its loops.

Main declarations: `Parse.Built`, `Grammar.built_unrolled`.
-/

namespace DynScript

open Grammar

namespace Parse

lemma ext {α : Type} {p q : Parse α} (h : ∀ c s, p.run c s = q.run c s) : p = q := by
  cases p
  cases q
  simp only [Parse.mk.injEq]
  exact funext fun c => funext (h c)

lemma accept_bind {α : Type} (kind) (f : Bool → Parse α) :
    accept kind >>= f = accept? kind >>= fun o => f o.isSome := by
  refine ext fun c s => ?_
  simp only [accept, run_bind]
  cases (accept? kind).run c s <;> rfl

/-! ### Names of the language -/

/-- An operation of the scope table that gives something also where the table objects. -/
def granted {α : Type} (operation : ScopeTable → Except ScopeError α × ScopeTable)
    (h : ∀ t : ScopeTable, t.Onward (operation t).2) (other : α) : Parse α where
  run _ s := .ok ((operation s.scopes).1.toOption.getD other) { s with scopes := (operation s.scopes).2 }
  onward _ s := ⟨List.suffix_refl _, List.prefix_refl _, h s.scopes⟩

/-- `declareOwn`, in a scope where the name is new. -/
def ownSlot (name : String) (token : Token) : Parse Slot :=
  granted (·.define name token.location false) (·.onward_define _ _ _) default

/-- `reserve`, in a scope where the label is new. -/
def ownLabel (kind : LabelKind) : Parse Label := do
  return (← granted (·.reserve kind) (·.onward_reserve _) default).label

lemma run_declareOwn {c} {s : ParseState} {name} (token)
    (new : s.scopes.current.slot? name = none) :
    (declareOwn name token).run c s = (ownSlot name token).run c s := by
  rw [declareOwn, run_declareAs token false .scopes new]
  simp [ownSlot, granted, ScopeTable.define_eq, new, Except.toOption]

lemma run_reserve {c} {s : ParseState} {kind : LabelKind}
    (new : s.scopes.current.label? kind.word = none) :
    (reserve kind).run c s = (ownLabel kind).run c s := by
  simp [reserve, ownLabel, run_bind, resolve, granted, ScopeTable.reserve, ScopeTable.defineLabel_eq, new,
    Except.toOption]

lemma inScope_congr {α : Type} {kind : ScopeKind} {hk : kind.isRoot = false} {p q : Parse α}
    (h : ∀ c (s : ParseState), p.run c { s with scopes := s.scopes.enter kind } =
      q.run c { s with scopes := s.scopes.enter kind }) : inScope kind p hk = inScope kind q hk := by
  refine ext fun c s => ?_
  rw [run_inScope, run_inScope, h]

section

variable {α : Type} {kind : ScopeKind} {hk : kind.isRoot = false}

lemma inScope_declareOwn (name token) (f : Slot → Parse α) :
    inScope kind (declareOwn name token >>= f) hk = inScope kind (ownSlot name token >>= f) hk := by
  refine inScope_congr fun c s => ?_
  rw [run_bind, run_bind, run_declareOwn token rfl]

lemma inScope_reserve (k) (f : Label → Parse α) :
    inScope kind (reserve k >>= f) hk = inScope kind (ownLabel k >>= f) hk := by
  refine inScope_congr fun c s => ?_
  rw [run_bind, run_bind, run_reserve rfl]

lemma inScope_declareOwn_reserve (name token k) (f : Slot → Label → Parse α) :
    inScope kind (declareOwn name token >>= fun x => reserve k >>= f x) hk =
      inScope kind (ownSlot name token >>= fun x => ownLabel k >>= f x) hk := by
  refine inScope_congr fun c s => ?_
  rw [run_bind, run_bind, run_declareOwn token rfl]
  simp only [ownSlot, granted, ParseResult.andThen, run_bind]
  rw [run_reserve]
  rfl

lemma inScope_reserve_reserve {k k' : LabelKind} (ne : k.word ≠ k'.word) (f : Label → Label → Parse α) :
    inScope kind (reserve k >>= fun x => reserve k' >>= f x) hk =
      inScope kind (ownLabel k >>= fun x => ownLabel k' >>= f x) hk := by
  refine inScope_congr fun c s => ?_
  rw [run_bind, run_bind, run_reserve rfl]
  change ((reserve k').run c { s with scopes := ((s.scopes.enter kind).reserve k).2 }).andThen _ = _
  rw [run_reserve]
  · rfl
  · simp [ScopeTable.reserve, ScopeTable.defineLabel_eq, Scope.label?, Scope.addLabel, ne]

end

/-- How a parser is called: as a part of a declaration, perhaps as the one that opens it, either anywhere
or in front of a token; or as a declaration, in front of a token. -/
inductive Stance where
  | part (opening ahead : Bool)
  | declaration

/-- Two parsers that are put together alike.  The flag says whether they may declare names in the current
scope, and the number that fewer tokens than that are to come, which is what the rounds of the first one,
`bound` at least, are enough for. -/
inductive Built (bound : Nat) : Bool → Stance → Nat → {α : Type} → Parse α → Parse α → Prop where
  | le {d x m n α} {p q : Parse α} (h : Built bound d x n p q) (hm : m ≤ n) : Built bound d x m p q
  | opened {d a n α} {p q : Parse α} (h : Built bound d (.part true a) n p q) :
    Built bound d (.part false a) n p q
  | ahead {d o n α} {p q : Parse α} (h : Built bound d (.part o false) n p q) :
    Built bound d (.part o true) n p q
  | pure {d n} {α} (a : α) : Built bound d (.part false false) n (Pure.pure a) (Pure.pure a)
  | fail {d o n} {α} (fault : ParseFault) (token : Token) :
    Built bound d (.part o false) n (Parse.fail fault token : Parse α) (Parse.fail fault token)
  -- Fewer than no tokens are never to come.
  | exhausted {d x α} (q : Parse α) : Built bound d x 0 (Parse.stop .exhausted) q
  | bind {d n α β} {p q} {f g : α → Parse β} (h : Built bound d (.part false false) n p q)
    (hf : ∀ a, Built bound d (.part false false) n (f a) (g a)) :
    Built bound d (.part false false) n (p >>= f) (q >>= g)
  | after {d n α β} {p q} {f g : α → Parse β} (h : Built bound d (.part true false) n p q)
    (hf : ∀ a, Built bound d (.part false false) (n - 1) (f a) (g a)) :
    Built bound d (.part true false) n (p >>= f) (q >>= g)
  | check {d n} {kind} (hk : (kind == .kwVar) = false) :
    Built bound d (.part false false) n (Parse.check kind) (Parse.check kind)
  | accept? {d o n α} {kind} {f g : Option Token → Parse α}
    (hk : (kind == .kwVar) = false)
    (some : ∀ t, Built bound d (.part false false) (n - 1) (f (some t)) (g (some t)))
    (none : Built bound d (.part o false) n (f none) (g none)) :
    Built bound d (.part o false) n (Parse.accept? kind >>= f) (Parse.accept? kind >>= g)
  -- What stands in place of a declaration does not succeed at the end of the input.
  | acceptVar {d n α} {p q r r' : Parse α} (h : Built bound d (.part false false) n p q)
    (hr : Built bound d (.part true false) n r r') : Built bound d (.part false false) n
      (Parse.accept .kwVar >>= fun b => if b then p else r)
      (Parse.accept .kwVar >>= fun b => if b then q else r')
  -- A token that is looked at: one in front, or the end of the input and what may follow there.
  | lookAt {d o n α} {f g : Token → Parse α} (h : ∀ t, Built bound d (.part o true) n (f t) (g t))
    (he : ∀ t t', t.kind = .endOfInput → t'.kind = .kwVar →
      Built bound d (.part o false) n (f t) (g t')) :
    Built bound d (.part o false) n (Parse.peek >>= f) (Parse.peek >>= g)
  | lookFor {d o n α} {f g : Token → Parse α} (h : ∀ t, Built bound d (.part o true) n (f t) (g t))
    (he : ∀ t t', t.kind = .endOfInput → t'.kind = .kwVar →
      (∃ fault u, f t = Parse.fail fault u) ∧ ∃ fault u, g t' = Parse.fail fault u) :
    Built bound d (.part o false) n (Parse.peek >>= f) (Parse.peek >>= g)
  | lookAhead {d o n α} {f g : Token → Parse α}
    (h : ∀ t, Built bound d (.part o true) n (f t) (g t)) :
    Built bound d (.part o true) n (Parse.peek >>= f) (Parse.peek >>= g)
  | advance {d o n α} {f g : Token → Parse α}
    (h : ∀ t, Built bound d (.part false false) (n - 1) (f t) (g t)) :
    Built bound d (.part o true) n (Parse.advance >>= f) (Parse.advance >>= g)
  | failAfterNext {d n} {α} (fault : ParseFault) : Built bound d (.part false false) n
      (Parse.advance >>= fun t => (Parse.fail fault t : Parse α))
      (Parse.advance >>= fun t => Parse.fail fault t)
  | natives {d n α} {f g : ParseContext → Parse α} (same : ∀ c c', c.natives = c'.natives → f c = f c')
    (h : ∀ c c', c.natives = c'.natives → Built bound d (.part false false) n (f c) (g c')) :
    Built bound d (.part false false) n (Parse.context >>= f) (Parse.context >>= g)
  | rounds {d n α} {f g : Nat → Parse α} (hn : n ≤ bound)
    (h : ∀ i j, n ≤ i → i ≤ j → Built bound d (.part false false) n (f i) (g j)) :
    Built bound d (.part false false) n (Parse.rounds >>= f) (Parse.rounds >>= g)
  | scopes {d n} : Built bound d (.part false false) n Parse.scopes Parse.scopes
  -- Names are declared by `Parse.resolve` and `Parse.granted`, and those of an inner scope are gone with it.
  | resolve {d n α} {operation : ScopeTable → Except ScopeError α × ScopeTable}
    {h : ∀ t : ScopeTable, t.Onward (operation t).2} {name}
    (hd : d = false → ∀ t : ScopeTable, (operation t).2.current.slots = t.current.slots) :
    Built bound d (.part false false) n (Parse.resolve operation h (redeclared name))
      (Parse.resolve operation h (redeclared name))
  | granted {n α} {operation : ScopeTable → Except ScopeError α × ScopeTable}
    {h : ∀ t : ScopeTable, t.Onward (operation t).2} {other : α} :
    Built bound true (.part false false) n (Parse.granted operation h other)
      (Parse.granted operation h other)
  | hiddenSlot {d n} (name : String) (place : Location) : Built bound d (.part false false) n
      (Parse.hiddenSlot name place) (Parse.hiddenSlot name place)
  | inScope {d n α} {kind : ScopeKind} {p q : Parse α} {hk : kind.isRoot = false}
    (h : Built bound true (.part false false) n p q) : Built bound d (.part false false) n
      (Parse.inScope kind p hk) (Parse.inScope kind q hk)
  -- The declarations of a block are a loop too, each round of which reads a token.
  | block {d n} {g g' : Grammar} (hn : n ≤ bound)
    (h : Built bound true .declaration n g.declaration g'.declaration)
    (h' : Built bound true .declaration 0 g'.declaration g'.declaration) (brace : Token) :
    Built bound d (.part false false) n (g.block brace) (g'.block brace)
  | recovering {n} {p q} (h : Built bound true (.part true true) n p q) :
    Built bound true .declaration n (Parse.recovering p) (Parse.recovering q)

variable {bound n : Nat} {d : Bool} {α β : Type} {p q : Parse α}

/-- Two parsers that are put together alike and may be called anywhere in a declaration. -/
abbrev Goes (bound : Nat) (d : Bool) (n : Nat) (p q : Parse α) : Prop :=
  Built bound d (.part false false) n p q

/-- Two parsers that are put together alike and read a token before all else. -/
abbrev Starts (bound : Nat) (d : Bool) (n : Nat) (p q : Parse α) : Prop :=
  Built bound d (.part true false) n p q

namespace Built

lemma map (f : α → β) (h : Goes bound d n p q) : Goes bound d n (f <$> p) (f <$> q) :=
  h.bind fun a => .pure (f a)

/-! ### Tokens -/

variable {kind : TokenKind}

section

variable (hk : (kind == .kwVar) = false)
include hk

variable {f g : Bool → Parse α}

lemma accept {o : Bool} (yes : Goes bound d (n - 1) (f true) (g true))
    (no : Built bound d (.part o false) n (f false) (g false)) :
    Built bound d (.part o false) n (Parse.accept kind >>= f) (Parse.accept kind >>= g) := by
  rw [accept_bind, accept_bind]
  exact .accept? hk (fun _ => yes) no

lemma maybe {f g : Option Token → Parse α}
    (some : ∀ t, Goes bound d n (f (some t)) (g (some t))) (none : Goes bound d n (f none) (g none)) :
    Goes bound d n (Parse.accept? kind >>= f) (Parse.accept? kind >>= g) :=
  .accept? hk (fun t => (some t).le (Nat.sub_le n 1)) none

lemma whether (yes : Goes bound d n (f true) (g true)) (no : Goes bound d n (f false) (g false)) :
    Goes bound d n (Parse.accept kind >>= f) (Parse.accept kind >>= g) :=
  .accept hk (yes.le (Nat.sub_le n 1)) no

lemma facing (yes : Goes bound d n (f true) (g true)) (no : Goes bound d n (f false) (g false)) :
    Goes bound d n (Parse.check kind >>= f) (Parse.check kind >>= g) :=
  .bind (.check hk) (Bool.rec no yes)

end

lemma failAtNext (fault) : Goes bound d n
    (Parse.peek >>= fun t => (Parse.fail fault t : Parse α))
    (Parse.peek >>= fun t => Parse.fail fault t) :=
  .lookFor (fun t => .ahead (.fail fault t)) fun _ _ _ _ => ⟨⟨_, _, rfl⟩, _, _, rfl⟩

lemma expect {message} (hk : (kind == .kwVar) = false) :
    Goes bound d n (Parse.expect kind message) (Parse.expect kind message) :=
  .accept? hk (fun t => .pure t) (failAtNext _)

lemma commaSeparated (h : Goes bound d n p q) {i j : Nat} (hi : n ≤ i) (hj : i ≤ j) :
    Goes bound d n (Parse.commaSeparated p i) (Parse.commaSeparated q j) := by
  induction i generalizing n j with
  | zero =>
    obtain rfl : n = 0 := by omega
    exact .exhausted _
  | succ i ih =>
    obtain ⟨j, rfl⟩ : ∃ k, j = k + 1 := ⟨j - 1, by omega⟩
    refine h.bind fun a => .accept rfl ?_ (.pure _)
    exact (ih (h.le (Nat.sub_le n 1)) (by omega) (by omega)).bind fun _ => .pure _

lemma listed (hk : (kind == .kwVar) = false) (hn : n ≤ bound) (h : Goes bound d n p q) :
    Goes bound d n (Parse.listed p kind) (Parse.listed q kind) :=
  .facing hk (.pure _) (.rounds hn fun _ _ hi hj => h.commaSeparated hi hj)

lemma enclosed {message} (hk : (kind == .kwVar) = false) (hn : n ≤ bound) (h : Goes bound d n p q) :
    Goes bound d n (Parse.enclosed p kind message) (Parse.enclosed q kind message) :=
  (listed hk hn h).bind fun _ => (expect hk).bind fun _ => .pure _

/-! ### Scopes -/

lemma declare (name) (constant : Bool) : Goes bound true n
    (Parse.declare name constant) (Parse.declare name constant) := by
  unfold Parse.declare Parse.declareAs
  exact .resolve nofun

lemma slots_defineLabel (t : ScopeTable) (name kind location) (placed : Bool) :
    (t.defineLabel name kind location placed).2.current.slots = t.current.slots := by
  rw [ScopeTable.defineLabel_eq]
  split
  · rfl
  · rw [ScopeTable.current_setCurrent, Scope.addLabel]

lemma ownLabel (kind) : Goes bound true n (Parse.ownLabel kind) (Parse.ownLabel kind) :=
  .bind .granted fun _ => .pure _

section

variable {scope : ScopeKind} {hk : scope.isRoot = false} {name : String} {token : Token} {k k' : LabelKind}

lemma inScopeOwn {f g : Slot → Parse α} (h : ∀ x, Goes bound true n (f x) (g x)) : Goes bound d n
    (Parse.inScope scope (declareOwn name token >>= f) hk)
    (Parse.inScope scope (declareOwn name token >>= g) hk) := by
  rw [inScope_declareOwn, inScope_declareOwn]
  exact .inScope (.bind .granted h)

lemma inScopeExit {f g : Label → Parse α} (h : ∀ e, Goes bound true n (f e) (g e)) : Goes bound d n
    (Parse.inScope scope (reserve k >>= f) hk) (Parse.inScope scope (reserve k >>= g) hk) := by
  rw [inScope_reserve, inScope_reserve]
  exact .inScope ((ownLabel k).bind h)

lemma inScopeOwnExit {f g : Slot → Label → Parse α}
    (h : ∀ x e, Goes bound true n (f x e) (g x e)) : Goes bound d n
    (Parse.inScope scope (declareOwn name token >>= fun x => reserve k >>= f x) hk)
    (Parse.inScope scope (declareOwn name token >>= fun x => reserve k >>= g x) hk) := by
  rw [inScope_declareOwn_reserve, inScope_declareOwn_reserve]
  exact .inScope (.bind .granted fun x => (ownLabel k).bind (h x))

lemma inScopeExits (ne : k.word ≠ k'.word) {f g : Label → Label → Parse α}
    (h : ∀ x e, Goes bound true n (f x e) (g x e)) : Goes bound d n
    (Parse.inScope scope (reserve k >>= fun x => reserve k' >>= f x) hk)
    (Parse.inScope scope (reserve k >>= fun x => reserve k' >>= g x) hk) := by
  rw [inScope_reserve_reserve ne, inScope_reserve_reserve ne]
  exact .inScope ((ownLabel k).bind fun x => (ownLabel k').bind (h x))

end

lemma placeLabel (name) : Goes bound d n (Parse.placeLabel name) (Parse.placeLabel name) := by
  refine .bind (.resolve fun _ t => ?_) fun _ => .pure _
  rw [ScopeTable.place]
  split
  · exact slots_defineLabel _ _ _ _ _
  · split
    · rfl
    · rw [ScopeTable.current_setCurrent]

lemma currentSlots : Goes bound d n Parse.currentSlots Parse.currentSlots :=
  .bind .scopes fun _ => .pure _

end Built

end Parse

namespace Grammar

open Parse

/-- Two grammars whose rules are put together alike, in front of fewer than `n` tokens. -/
structure Built (bound n : Nat) (g g' : Grammar) : Prop where
  le_bound : n ≤ bound
  unary : ∀ {d}, Starts bound d n g.unary g'.unary
  expression : ∀ {d}, Starts bound d n g.expression g'.expression
  statement : ∀ {d}, Starts bound d n g.statement g'.statement
  declaration : Parse.Built bound true .declaration n g.declaration g'.declaration
  declaration' : Parse.Built bound true .declaration 0 g'.declaration g'.declaration

namespace Built

variable {bound n : Nat} {d : Bool} {g g' : Grammar}

lemma expression' (hg : Built bound n g g') : Goes bound d n g.expression g'.expression :=
  .opened hg.expression

lemma statement' (hg : Built bound n g g') : Goes bound d n g.statement g'.statement :=
  .opened hg.statement

/-! ### Blocks and parameters -/

lemma block (hg : Built bound n g g') (brace) :
    Goes bound d n (g.block brace) (g'.block brace) :=
  .block hg.le_bound hg.declaration hg.declaration' brace

lemma parameters (hn : n ≤ bound) : Goes bound true n parameters parameters :=
  .enclosed rfl hn (.bind (.expect rfl) fun _ => .declare _ _)

/-! ### Operands -/

lemma boxed (hg : Built bound n g g') :
    Goes bound d n (Expr.boxed <$> g.expression) (Expr.boxed <$> g'.expression) :=
  hg.expression'.map _

lemma arrayLiteral (hg : Built bound n g g') (bracket) :
    Goes bound d n (g.arrayLiteral bracket) (g'.arrayLiteral bracket) :=
  .bind (.enclosed rfl hg.le_bound hg.boxed) fun _ => .pure _

lemma fieldName : Goes bound d n fieldName fieldName :=
  .maybe rfl (fun _ => .pure _) (.maybe rfl (fun _ => .pure _) (.failAfterNext _))

lemma recordField (hg : Built bound n g g') : Goes bound d n g.recordField g'.recordField :=
  fieldName.bind fun _ => .bind (.expect rfl) fun _ => hg.expression'.bind fun _ => .pure _

lemma recordLiteral (hg : Built bound n g g') (brace) :
    Goes bound d n (g.recordLiteral brace) (g'.recordLiteral brace) :=
  .bind (.inScopeOwn fun _ => .bind (.listed rfl hg.le_bound hg.recordField)
    fun _ => .pure _) fun _ => .bind (.expect rfl) fun _ => .pure _

lemma lambdaBody (hg : Built bound n g g') (exit) :
    Goes bound d n (g.lambdaBody exit) (g'.lambdaBody exit) :=
  .maybe rfl (fun _ => hg.expression'.bind fun _ => .pure _)
    (.bind (.expect rfl) fun brace => hg.block brace)

lemma lambdaName : Goes bound d n lambdaName lambdaName := by
  refine .maybe rfl (fun t => ?_) (.pure _)
  dsimp only
  split
  · exact .pure _
  · exact .fail _ _

lemma lambda (hg : Built bound n g g') (keyword) :
    Goes bound d n (g.lambda keyword) (g'.lambda keyword) :=
  lambdaName.bind fun _ => .inScopeOwnExit fun _ exit => .bind (.expect rfl) fun _ =>
    (parameters hg.le_bound).bind fun _ => (hg.lambdaBody exit).bind fun _ => .pure _

lemma variableRead (t) : Goes bound d n (variableRead t) (variableRead t) := by
  refine .bind .scopes fun scopes => ?_
  split
  · exact .pure _
  · exact .fail _ _

section

variable (hg : Built bound n g g')
include hg

lemma primary : Starts bound d (n + 1) g.primary g'.primary := by
  refine .lookFor (fun t => ?_) fun t t' h h' => ?_
  · split
    · exact .advance fun _ => .pure _
    · exact .advance fun _ => .pure _
    · exact .advance fun _ => .pure _
    · exact .advance fun _ => .pure _
    · exact .advance fun _ => .pure _
    · exact .advance fun _ => variableRead _
    · exact .advance fun _ => hg.expression'.bind fun _ => .bind (.expect rfl) fun _ => .pure _
    · refine .advance fun _ => .bind .scopes fun scopes => ?_
      split
      · exact .pure _
      · exact .fail _ _
    · exact .ahead (.fail _ _)
  -- Neither the end nor the keyword is an operand.
  · rw [h, h']
    exact ⟨⟨_, _, rfl⟩, _, _, rfl⟩

lemma operand : Starts bound d (n + 1) g.operand g'.operand :=
  .accept? rfl (fun _ => hg.arrayLiteral _) (.accept? rfl (fun _ => hg.recordLiteral _)
    (.accept? rfl (fun _ => hg.lambda _) hg.primary))

/-! ### Behind an operand -/

lemma arguments : Goes bound d n g.arguments g'.arguments :=
  .enclosed rfl hg.le_bound hg.boxed

lemma nativeCall : Goes bound d n g.nativeCall g'.nativeCall := by
  refine .bind (.expect rfl) fun name => .natives (fun _ _ same => by simp only [same])
    fun c c' same => ?_
  dsimp only
  rw [same]
  split
  · exact .fail _ _
  · exact .bind (.expect rfl) fun _ => hg.arguments.bind fun _ => .pure _

end

lemma checkIndex : Goes bound d n checkIndex checkIndex :=
  .facing rfl (.failAfterNext _) (.pure _)

lemma checkItems (container bracket) :
    Goes bound d n (Grammar.checkItems container bracket) (Grammar.checkItems container bracket) := by
  unfold Grammar.checkItems
  split
  · exact .pure _
  · exact .fail _ _
  · exact .pure _

lemma indexed (hg : Built bound n g g') (container bracket) :
    Goes bound d n (g.indexed container bracket) (g'.indexed container bracket) :=
  checkIndex.bind fun _ => (checkItems container bracket).bind fun _ =>
    .rounds hg.le_bound fun _ _ hi hj => (hg.expression'.commaSeparated hi hj).bind fun _ =>
      .bind (.expect rfl) fun _ => .pure _

lemma checkFields (container dot) :
    Goes bound d n (Grammar.checkFields container dot) (Grammar.checkFields container dot) := by
  unfold Grammar.checkFields
  split
  · exact .fail _ _
  · exact .pure _

lemma fieldKey (hg : Built bound n g g') : Goes bound d n g.fieldKey g'.fieldKey :=
  .maybe rfl (fun _ => .pure _)
    (.whether rfl (.opened (hg.operand.le (Nat.le_succ n))) (.failAtNext _))

lemma fieldOf (hg : Built bound n g g') (container dot) :
    Goes bound d n (g.fieldOf container dot) (g'.fieldOf container dot) :=
  (checkFields container dot).bind fun _ => hg.fieldKey.bind fun _ => .pure _

variable {m i j : Nat}

lemma suffixes (hg : Built bound n g g') (hm : m ≤ n) (hi : m ≤ i) (hj : i ≤ j) (e) :
    Goes bound d m (g.suffixes i e) (g'.suffixes j e) := by
  induction i generalizing m j e with
  | zero =>
    obtain rfl : m = 0 := by omega
    exact .exhausted _
  | succ i ih =>
    obtain ⟨j, rfl⟩ : ∃ k, j = k + 1 := ⟨j - 1, by omega⟩
    have next (e : Expr) : Goes bound d (m - 1) (g.suffixes i e) (g'.suffixes j e) :=
      ih (by omega) (by omega) (by omega) e
    have fewer : m - 1 ≤ n := by omega
    exact .accept? rfl (fun _ => (hg.arguments.le fewer).bind fun _ => next _)
      (.accept? rfl (fun _ => ((hg.indexed e _).le fewer).bind fun _ => next _)
        (.accept? rfl (fun _ => ((hg.fieldOf e _).le fewer).bind fun _ => next _) (.pure _)))

lemma base (hg : Built bound n g g') : Starts bound d (n + 1) g.base g'.base :=
  .accept rfl hg.nativeCall hg.operand

lemma suffixed (hg : Built bound n g g') : Starts bound d (n + 1) g.suffixed g'.suffixed :=
  hg.base.after fun e => .rounds hg.le_bound fun _ _ hi hj => hg.suffixes (Nat.le_refl n) hi hj e

/-! ### Operators and assignments -/

lemma assignment (target update operator what) :
    Goes bound d n (Grammar.assignment target update operator what)
      (Grammar.assignment target update operator what) := by
  unfold Grammar.assignment
  split
  · split
    · exact .fail _ _
    · exact .pure _
  · exact .pure _
  · exact .pure _
  · exact .fail _ _

lemma prefixed (hg : Built bound n g g') : Starts bound d (n + 1) g.prefixed g'.prefixed := by
  have unary {d : Bool} : Goes bound d n g.unary g'.unary := .opened hg.unary
  refine .lookAt (fun t => ?_) fun t t' h h' => ?_
  · split
    · exact .advance fun _ => unary.bind fun _ => .pure _
    · split
      · exact .advance fun _ => unary.bind fun _ => assignment _ _ _ _
      · exact .ahead hg.suffixed
  · rw [h, h']
    exact hg.suffixed

lemma chain {level : Level} (he : level.lookup .endOfInput = none)
    (hk : level.lookup .kwVar = none) {p q} (h : Goes bound d n p q) (hi : n ≤ i) (hj : i ≤ j)
    (left) : Goes bound d n (chain level p i left) (chain level q j left) := by
  induction i generalizing n j left with
  | zero =>
    obtain rfl : n = 0 := by omega
    exact .exhausted _
  | succ i ih =>
    obtain ⟨j, rfl⟩ : ∃ k, j = k + 1 := ⟨j - 1, by omega⟩
    have h' := h.le (Nat.sub_le n 1)
    refine .lookAt (fun t => ?_) fun t t' ht ht' => ?_
    · split
      · exact .ahead (.pure _)
      · exact .advance fun _ => h'.bind fun _ => ih h' (by omega) (by omega) _
    · rw [ht, ht', he, hk]
      exact .pure _

lemma leveled (hg : Built bound n g g') {l}
    (hl : ∀ level ∈ l, level.lookup .endOfInput = none ∧ level.lookup .kwVar = none) :
    Starts bound d (n + 1) (g.leveled l) (g'.leveled l) := by
  induction l with
  | nil => exact hg.prefixed
  | cons level tighter ih =>
    have first := ih fun x hx => hl x (List.mem_cons_of_mem level hx)
    obtain ⟨he, hk⟩ := hl level List.mem_cons_self
    exact first.after fun left => .rounds hg.le_bound fun _ _ hi hj =>
      chain he hk (.opened (first.le (Nat.le_succ n))) hi hj left

section

variable (hg : Built bound n g g')
include hg

lemma assigned : Starts bound d (n + 1) g.assigned g'.assigned := by
  refine (hg.leveled (by decide)).after fun target => .lookAt (fun t => ?_) fun t t' h h' => ?_
  · split
    · exact .ahead (.pure _)
    · exact .advance fun _ => .le (hg.expression'.bind fun _ => assignment _ _ _ _) (Nat.sub_le n 1)
  · rw [h, h']
    exact .pure _

lemma conditional :
    Starts bound d (n + 1) g.conditional g'.conditional :=
  hg.assigned.after fun _ => .maybe rfl (fun _ => hg.expression'.bind fun _ => .bind (.expect rfl)
    fun _ => hg.expression'.bind fun _ => .pure _) (.pure _)

lemma conditional' : Goes bound d n g.conditional g'.conditional :=
  .opened (hg.conditional.le (Nat.le_succ n))

/-! ### Declarations -/

lemma initialValue (name) : Goes bound d n (g.initialValue name) (g'.initialValue name) :=
  .whether rfl hg.conditional' (.pure _)

lemma varDeclaration :
    Goes bound true n g.varDeclaration g'.varDeclaration :=
  .bind (.expect rfl) fun name => .bind (.declare _ _) fun _ => (hg.initialValue name).bind
    fun _ => .bind (.expect rfl) fun _ => .pure _

lemma letDeclaration :
    Goes bound true n g.letDeclaration g'.letDeclaration :=
  .bind (.expect rfl) fun _ => .bind (.expect rfl) fun _ => hg.conditional'.bind fun _ =>
    .bind (.declare _ _) fun _ => .bind (.expect rfl) fun _ => .pure _

lemma functionDeclaration :
    Goes bound true n g.functionDeclaration g'.functionDeclaration :=
  .bind (.expect rfl) fun _ => .bind (.declare _ _) fun _ => .bind
    (.inScopeExit fun _ => .bind (.expect rfl) fun _ => (parameters hg.le_bound).bind fun _ =>
      .bind (.expect rfl) fun brace => (hg.block brace).bind fun _ => .pure _) fun _ => .pure _

end

lemma labelDeclaration : Goes bound d n labelDeclaration labelDeclaration :=
  .bind (.expect rfl) fun name => .bind (.expect rfl) fun _ => .bind (.placeLabel name) fun _ =>
    .pure _

/-! ### Statements -/

lemma expressionStatement (hg : Built bound n g g') :
    Starts bound d (n + 1) g.expressionStatement g'.expressionStatement :=
  hg.conditional.after fun _ => .bind (.expect rfl) fun _ => .pure _

lemma elseBranch (hg : Built bound n g g') : Goes bound d n g.elseBranch g'.elseBranch :=
  .whether rfl (hg.statement'.map _) (.pure _)

lemma ifStatement (hg : Built bound n g g') (keyword) :
    Goes bound d n (g.ifStatement keyword) (g'.ifStatement keyword) :=
  .bind (.expect rfl) fun _ => hg.conditional'.bind fun _ => .bind (.expect rfl) fun _ =>
    hg.statement'.bind fun _ => hg.elseBranch.bind fun _ => .pure _

lemma cases (hg : Built bound n g g') (hm : m ≤ n) (hi : m ≤ i) (hj : i ≤ j) :
    Goes bound d m (g.cases i) (g'.cases j) := by
  induction i generalizing m j with
  | zero =>
    obtain rfl : m = 0 := by omega
    exact .exhausted _
  | succ i ih =>
    obtain ⟨j, rfl⟩ : ∃ k, j = k + 1 := ⟨j - 1, by omega⟩
    refine (hg.conditional'.le hm).bind fun _ => .bind (.expect rfl) fun _ =>
      (hg.statement'.le hm).bind fun _ => .accept rfl ?_ (.pure _)
    exact (ih (by omega) (by omega) (by omega)).bind fun _ => .pure _

section

variable (hg : Built bound n g g')
include hg

lemma defaultCase : Goes bound d n g.defaultCase g'.defaultCase :=
  .whether rfl (.bind (.expect rfl) fun _ => hg.statement'.map _) (.pure _)

lemma switchStatement (keyword) :
    Goes bound d n (g.switchStatement keyword) (g'.switchStatement keyword) :=
  .bind (.expect rfl) fun _ => hg.conditional'.bind fun _ => .bind (.expect rfl) fun _ =>
    .bind (.expect rfl) fun _ => .bind (.expect rfl) fun _ => .bind (.hiddenSlot _ _) fun _ =>
      .rounds hg.le_bound fun _ _ hi hj => (hg.cases (Nat.le_refl n) hi hj).bind fun _ =>
        hg.defaultCase.bind fun _ => .bind (.expect rfl) fun _ => .pure _

lemma forInitial : Goes bound true n g.forInitial g'.forInitial :=
  -- The one place apart from a declaration where the keyword can be read.
  .whether rfl (.pure _) (.acceptVar (hg.varDeclaration.bind fun _ => .pure _)
    (.le (hg.expressionStatement.after fun _ => .pure _) (Nat.le_succ n)))

lemma forCondition (keyword) :
    Goes bound d n (g.forCondition keyword) (g'.forCondition keyword) :=
  .facing rfl (.pure _) hg.conditional'

lemma forStep : Goes bound d n g.forStep g'.forStep :=
  .facing rfl (.pure _) (hg.conditional'.map _)

lemma forStatement (keyword) :
    Goes bound d n (g.forStatement keyword) (g'.forStatement keyword) :=
  .inScopeExits (by decide) fun _ _ => .bind (.expect rfl) fun _ =>
    hg.forInitial.bind fun _ => (hg.forCondition keyword).bind fun _ => .bind (.expect rfl) fun _ =>
      hg.forStep.bind fun _ => .bind (.expect rfl) fun _ => hg.statement'.bind fun _ =>
        .bind .currentSlots fun _ => .pure _

lemma whileStatement (keyword) :
    Goes bound d n (g.whileStatement keyword) (g'.whileStatement keyword) :=
  .inScopeExits (by decide) fun _ _ => .bind (.expect rfl) fun _ =>
    hg.conditional'.bind fun _ => .bind (.expect rfl) fun _ => hg.statement'.bind fun _ => .pure _

end

lemma loopJump (kind missing message keyword) :
    Goes bound d n (loopJump kind missing message keyword)
      (loopJump kind missing message keyword) := by
  refine .bind .scopes fun scopes => ?_
  split
  · exact .fail _ _
  · exact .bind (.expect rfl) fun _ => .pure _

lemma gotoStatement : Goes bound d n gotoStatement gotoStatement := by
  refine .bind (.expect rfl) fun name => .bind .scopes fun scopes => ?_
  split
  · split
    · exact .bind (.expect rfl) fun _ => .pure _
    · exact .fail _ _
  · exact .fail _ _

section

variable (hg : Built bound n g g')
include hg

lemma returnValue (keyword) : Goes bound d n (g.returnValue keyword) (g'.returnValue keyword) :=
  .facing rfl (.pure _) hg.conditional'

lemma returnStatement (keyword) :
    Goes bound d n (g.returnStatement keyword) (g'.returnStatement keyword) := by
  refine (hg.returnValue keyword).bind fun value => .bind .scopes fun scopes => ?_
  split
  · exact .fail _ _
  · exact .bind (.expect rfl) fun _ => .pure _

lemma printStatement (keyword) :
    Goes bound d n (g.printStatement keyword) (g'.printStatement keyword) :=
  hg.conditional'.bind fun _ => .bind (.expect rfl) fun _ => .pure _

lemma statementRule :
    Starts bound d (n + 1) g.statementRule g'.statementRule := by
  refine .lookAt (fun t => ?_) fun t t' h h' => ?_
  · split
    · exact .advance fun _ => (hg.block t).bind fun _ => .pure _
    · exact .advance fun _ => hg.ifStatement t
    · exact .advance fun _ => hg.switchStatement t
    · exact .advance fun _ => hg.forStatement t
    · exact .advance fun _ => hg.whileStatement t
    · exact .advance fun _ => loopJump _ _ _ _
    · exact .advance fun _ => loopJump _ _ _ _
    · exact .advance fun _ => gotoStatement
    · exact .advance fun _ => hg.returnStatement t
    · exact .advance fun _ => hg.printStatement t
    · exact .ahead hg.expressionStatement
  · rw [h, h']
    exact hg.expressionStatement

lemma attempt :
    Parse.Built bound true (.part true true) (n + 1) g.attempt g'.attempt := by
  refine .lookAhead fun t => ?_
  split
  · exact .advance fun _ => hg.varDeclaration.map _
  · exact .advance fun _ => hg.letDeclaration.map _
  · exact .advance fun _ => hg.functionDeclaration.map _
  · exact .advance fun _ => labelDeclaration.map _
  · exact .advance fun _ => .fail _ _
  · exact .ahead (hg.statementRule.after fun _ => .pure _)

lemma declarationRule :
    Parse.Built bound true .declaration (n + 1) g.declarationRule g'.declarationRule :=
  .recovering hg.attempt

lemma next (hm : m ≤ n + 1) (hb : m ≤ bound)
    (h' : Parse.Built bound true .declaration 0 g'.declarationRule g'.declarationRule) :
    Built bound m ⟨g.prefixed, g.conditional, g.statementRule, g.declarationRule⟩
      ⟨g'.prefixed, g'.conditional, g'.statementRule, g'.declarationRule⟩ :=
  ⟨hb, hg.prefixed.le hm, hg.conditional.le hm, hg.statementRule.le hm, hg.declarationRule.le hm, h'⟩

end

end Built

/-! ### The whole grammar -/

lemma built_self (bound n : Nat) : Built bound 0 (unrolled n) (unrolled n) := by
  induction n with
  | zero => exact ⟨Nat.zero_le _, .exhausted _, .exhausted _, .exhausted _, .exhausted _, .exhausted _⟩
  | succ n ih => exact ih.next (Nat.zero_le _) (Nat.zero_le _) (ih.declarationRule.le (Nat.zero_le _))

/-- **The rules of the grammar are put together alike**, however far it is unrolled, and do not come to
the end of their rounds in front of fewer tokens than there are levels. -/
theorem built_unrolled {bound n m k : Nat} (hm : n ≤ m) (hk : k ≤ n) (hb : k ≤ bound) :
    Built bound k (unrolled n) (unrolled m) := by
  induction n generalizing m k with
  | zero =>
    obtain rfl : k = 0 := by omega
    exact ⟨hb, .exhausted _, .exhausted _, .exhausted _, .exhausted _, (built_self bound m).declaration⟩
  | succ n ih =>
    obtain ⟨m, rfl⟩ : ∃ l, m = l + 1 := ⟨m - 1, by omega⟩
    exact (ih (k := k - 1) (by omega) (by omega) (by omega)).next (by omega) hb
      (built_self bound (m + 1)).declaration

end Grammar

end DynScript
