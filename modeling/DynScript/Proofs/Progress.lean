import DynScript.Proofs.Construction
import DynScript.Proofs.Renumbering

/-!
# Parsing gets on

A parse that is not strict comes to an end, whatever the tokens: errors are recovered from, every
declaration reads at least one token, and the bounds on nesting and on the rounds of loops are never
met.

Main declarations: `Parse.GetsOn`, `Parse.Built.getsOn`.
-/

namespace DynScript

open List

/-- The tokens to come and the errors on record. -/
def ParseState.budget (s : ParseState) : Nat :=
  s.errors.length + s.rest.length

namespace ParseState.Onward

variable {s t : ParseState}

lemma length_rest (h : s.Onward t) : t.rest.length ≤ s.rest.length :=
  h.rest.length_le

lemma length_rest_lt (h : s.Onward t) (hb : t.budget < s.budget) :
    t.rest.length < s.rest.length := by
  have := h.errors.length_le
  unfold budget at hb
  omega

end ParseState.Onward

/-- A parse has ended with a result in a state as `Q` says or with an error in a state as `E` says;
it has run out of rounds only if `x` puts up with that. -/
def ParseResult.Ends {α : Type} (x : Prop) (Q E : ParseState → Prop) : ParseResult α → Prop
  | .ok _ t => Q t
  | .error (.error _) t => E t
  | .error .exhausted _ => x
  | .error (.canceled _) _ | .error (.scopes _) _ => False

lemma ParseResult.Ends.imp {α : Type} {x : Prop} {Q Q' E E' : ParseState → Prop}
    {r : ParseResult α} (h : r.Ends x Q E) (hq : ∀ t, Q t → Q' t) (he : ∀ t, E t → E' t) :
    r.Ends x Q' E' := by
  unfold Ends at h ⊢
  split at h
  · exact hq _ h
  · exact he _ h
  · exact h
  · exact h
  · exact h

/-- Fewer than `n` tokens are to come, unless `x` puts up with any number. -/
def ParseState.Near (x : Prop) (n : Nat) (s : ParseState) : Prop :=
  x ∨ s.rest.length < n

lemma ParseState.Near.of_le {x : Prop} {n m : Nat} {s t : ParseState} (h : s.Near x n)
    (hl : s.rest.length < n → t.rest.length < m) : t.Near x m :=
  h.imp_right hl

namespace Parse

variable {α β : Type} {x : Prop} {c : ParseContext} {n m : Nat} {o : Bool} {s t : ParseState}
  {p : Parse α} {q : α → Parse β}

/-- A parser goes on from a state, with no more left to read. -/
def ContinuesAt (x : Prop) (c : ParseContext) (p : Parse α) (s : ParseState) : Prop :=
  (p.run c s).Ends x (·.budget ≤ s.budget) (·.budget ≤ s.budget)

/-- The parser ends with a lower budget, unless it fails where it started. -/
def OpensAt (x : Prop) (c : ParseContext) (p : Parse α) (s : ParseState) : Prop :=
  (p.run c s).Ends x (·.budget < s.budget)
    fun t => t.rest = s.rest ∧ t.errors = s.errors ∨ t.budget < s.budget

/-- The parser recovers from its errors: it ends with fewer tokens to come and without a higher
budget. -/
def DeclaresAt (x : Prop) (c : ParseContext) (p : Parse α) (s : ParseState) : Prop :=
  (p.run c s).Ends x (fun t => t.rest.length < s.rest.length ∧ t.budget ≤ s.budget) fun _ => False

/-- A part of a declaration opens it or continues it. -/
def PartAt (x : Prop) (c : ParseContext) : Bool → Parse α → ParseState → Prop
  | true => OpensAt x c
  | false => ContinuesAt x c

/-- In front of fewer than `n` tokens the parser ends without a higher budget. -/
def Continues (x : Prop) (c : ParseContext) (n : Nat) (p : Parse α) : Prop :=
  ∀ s : ParseState, s.Near x n → ContinuesAt x c p s

/-- What a parser does in front of fewer than `n` tokens, when it is called in some way. -/
def GetsOn (x : Prop) (c : ParseContext) (n : Nat) : Stance → Parse α → Prop
  | .part o false, p => ∀ s : ParseState, s.Near x n → PartAt x c o p s
  | .part o true, p => ∀ s : ParseState, s.rest ≠ [] → s.Near x n → PartAt x c o p s
  | .declaration, p => ∀ s : ParseState, s.rest ≠ [] → s.Near x n → DeclaresAt x c p s

lemma OpensAt.continuesAt (h : OpensAt x c p s) : ContinuesAt x c p s := by
  refine ParseResult.Ends.imp h (fun t ht => Nat.le_of_lt ht) fun t ht => ?_
  rcases ht with ⟨hr, he⟩ | ht
  · simp [ParseState.budget, hr, he]
  · exact Nat.le_of_lt ht

lemma GetsOn.le {stance} (h : GetsOn x c n stance p) (hm : m ≤ n) : GetsOn x c m stance p := by
  have near {s : ParseState} (hs : s.Near x m) : s.Near x n :=
    hs.of_le fun hs => Nat.lt_of_lt_of_le hs hm
  rcases stance with ⟨o, a⟩ | _
  · cases a with
    | false => exact fun s hs => h s (near hs)
    | true => exact fun s some hs => h s some (near hs)
  · exact fun s some hs => h s some (near hs)

lemma GetsOn.continues {a : Bool} (h : GetsOn x c n (.part true a) p) :
    GetsOn x c n (.part false a) p := by
  cases a with
  | false => exact fun s hs => (h s hs).continuesAt
  | true => exact fun s some hs => (h s some hs).continuesAt

/-! ### Sequences -/

lemma Continues.bind (hp : Continues x c n p) (hq : ∀ a, Continues x c n (q a)) :
    Continues x c n (p >>= q) := by
  intro s hs
  have first := hp s hs
  have onward := p.onward c s
  unfold ContinuesAt at first ⊢
  rw [run_bind]
  cases hr : p.run c s with
  | ok a t =>
    rw [hr] at first onward
    have second := hq a t (hs.of_le fun hs => Nat.lt_of_le_of_lt onward.length_rest hs)
    exact second.imp (fun u hu => Nat.le_trans hu first) fun u hu => Nat.le_trans hu first
  | error e t =>
    rw [hr] at first
    cases e <;> exact first

lemma OpensAt.bind (hp : OpensAt x c p s) (hs : s.Near x n)
    (hq : ∀ a, Continues x c (n - 1) (q a)) : OpensAt x c (p >>= q) s := by
  have onward := p.onward c s
  unfold OpensAt at hp ⊢
  rw [run_bind]
  cases hr : p.run c s with
  | ok a t =>
    rw [hr] at hp onward
    have fewer : t.rest.length < s.rest.length := onward.length_rest_lt hp
    have second := hq a t (hs.of_le (by omega))
    exact second.imp (fun u hu => Nat.lt_of_le_of_lt hu hp) fun u hu =>
      .inr (Nat.lt_of_le_of_lt hu hp)
  | error e t =>
    rw [hr] at hp
    cases e <;> exact hp

lemma DeclaresAt.bind (hp : DeclaresAt x c p s)
    (hq : ∀ a (t : ParseState), t.rest.length < s.rest.length → ContinuesAt x c (q a) t) :
    ContinuesAt x c (p >>= q) s := by
  unfold DeclaresAt at hp
  unfold ContinuesAt
  rw [run_bind]
  cases hr : p.run c s with
  | ok a t =>
    rw [hr] at hp
    exact (hq a t hp.1).imp (fun u hu => Nat.le_trans hu hp.2) fun u hu => Nat.le_trans hu hp.2
  | error e t =>
    rw [hr] at hp
    cases e with
    | error e => exact hp.elim
    | canceled | scopes | exhausted => exact hp

/-! ### Tokens -/

namespace PartAt

lemma of_run {q : Parse α} (h : PartAt x c o p s) (hr : q.run c s = p.run c s) :
    PartAt x c o q s := by
  cases o with
  | false =>
    change ContinuesAt x c q s
    unfold ContinuesAt
    rw [hr]
    exact h
  | true =>
    change OpensAt x c q s
    unfold OpensAt
    rw [hr]
    exact h

variable {f : Token → Parse α}

lemma peek (h : PartAt x c o (f (s.rest.headD c.eof)) s) : PartAt x c o (Parse.peek >>= f) s :=
  h.of_run rfl

lemma fail (fault token) : PartAt x c o (Parse.fail fault token : Parse α) s := by
  cases o with
  | false => exact Nat.le_refl s.budget
  | true => exact .inl ⟨rfl, rfl⟩

lemma read {q : Parse α} {u rest} (hr : s.rest = u :: rest) (hs : s.Near x n)
    (h : Continues x c (n - 1) (f u))
    (run : q.run c s = (f u).run c { s with last := u, rest := rest }) : PartAt x c o q s := by
  have length : s.rest.length = rest.length + 1 := by rw [hr]; rfl
  have goes := h { s with last := u, rest := rest } (hs.of_le (by simp only; omega))
  unfold ContinuesAt at goes
  rw [← run] at goes
  cases o with
  | false =>
    refine goes.imp (fun v hv => ?_) fun v hv => ?_
    all_goals
      simp only [ParseState.budget] at hv ⊢
      omega
  | true =>
    refine goes.imp (fun v hv => ?_) fun v hv => .inr ?_
    all_goals
      simp only [ParseState.budget] at hv ⊢
      omega

lemma advance (h : ∀ t, Continues x c (n - 1) (f t)) (some : s.rest ≠ []) (hs : s.Near x n) :
    PartAt x c o (Parse.advance >>= f) s := by
  obtain ⟨u, rest, hr⟩ := exists_cons_of_ne_nil some
  exact read hr hs (h u) (by rw [run_bind, run_advance_cons hr]; rfl)

lemma accept? {f : Option Token → Parse α} {kind} (hs : s.Near x n)
    (some : ∀ t, Continues x c (n - 1) (f (some t))) (none : PartAt x c o (f none) s) :
    PartAt x c o (Parse.accept? kind >>= f) s := by
  cases hr : s.rest with
  | nil => exact none.of_run (by rw [run_bind, run_accept?, hr]; rfl)
  | cons u rest =>
    by_cases hk : u.kind = kind
    · exact read (f := fun t => f (Option.some t)) hr hs (some u)
        (by rw [run_bind, run_accept?, hr]; simp [hk])
    · exact none.of_run (by rw [run_bind, run_accept?, hr]; simp [hk])

end PartAt

namespace Continues

lemma pure (a : α) : Continues x c n (Pure.pure a : Parse α) :=
  fun s _ => Nat.le_refl s.budget

lemma fail (fault token) : Continues x c n (Parse.fail fault token : Parse α) :=
  fun s _ => Nat.le_refl s.budget

lemma advance : Continues x c n Parse.advance := by
  intro s _
  unfold ContinuesAt Parse.advance
  dsimp only
  split
  · exact Nat.le_refl s.budget
  · rename_i t rest hr
    simp [ParseResult.Ends, ParseState.budget, hr]

lemma expect (kind message) : Continues x c n (Parse.expect kind message) :=
  fun s hs => PartAt.accept? (o := false) hs (fun t => .pure t) (Nat.le_refl s.budget)

/-! ### Scopes -/

lemma resolve (operation : ScopeTable → Except ScopeError α × ScopeTable)
    (h : ∀ t : ScopeTable, t.Onward (operation t).2) (name) :
    Continues x c n (Parse.resolve operation h (redeclared name)) := by
  intro s _
  unfold ContinuesAt Parse.resolve
  dsimp only
  split <;> exact Nat.le_refl s.budget

lemma inScope {body : Parse α} (h : Continues x c n body) (kind : ScopeKind)
    (hk : kind.isRoot = false) : Continues x c n (Parse.inScope kind body hk) := by
  intro s hs
  have inside := h { s with scopes := s.scopes.enter kind } hs
  unfold ContinuesAt at inside ⊢
  rw [run_inScope]
  split
  · rename_i a t hr
    rw [hr] at inside
    exact inside
  · rename_i e t hr
    rw [hr] at inside
    cases e <;> exact inside

lemma declarations {g : Grammar} (h : GetsOn x c n .declaration g.declaration) {m fuel : Nat}
    (hm : m ≤ n) (hf : m ≤ fuel) : Continues x c m (g.declarations fuel) := by
  induction fuel generalizing m with
  | zero =>
    intro s hs
    exact hs.resolve_right (by omega)
  | succ fuel ih =>
    intro s hs
    unfold ContinuesAt Grammar.declarations
    rw [run_bind, run_check, ParseResult.andThen_ok, run_bind, run_atEnd, ParseResult.andThen_ok]
    split
    · exact Nat.le_refl s.budget
    · rename_i hne
      have some : s.rest ≠ [] := fun he => hne (by simp [he])
      refine (h s some (hs.of_le (by omega))).bind fun r t fewer => ?_
      exact (ih (m := m - 1) (by omega) (by omega)).bind (fun _ => .pure _) t (hs.of_le (by omega))

lemma block {g : Grammar} (h : GetsOn x c n .declaration g.declaration) (hn : n ≤ c.bound)
    (brace : Token) : Continues x c n (g.block brace) := by
  have announced : Continues x c n announceLabels := fun s _ => Nat.le_refl s.budget
  have slots : Continues x c n currentSlots := fun s _ => Nat.le_refl s.budget
  refine .inScope (announced.bind fun _ s hs => ?_) _ _
  exact ((declarations h (Nat.le_refl n) hn).bind fun _ => .bind (.expect _ _) fun _ =>
    slots.bind fun _ => .pure _) s hs

end Continues

/-! ### Recovery -/

lemma length_resumption (last) (rest) : (resumption last rest).2.length ≤ rest.length - 1 := by
  cases rest with
  | nil => exact Nat.le_refl _
  | cons t rest => exact (skipToBoundary_suffix t rest).length_le

/-- **A declaration recovers.**  What can open a declaration reads at least one token when its errors
are recovered from, and the budget is not raised. -/
theorem OpensAt.recovering {declaration} (h : OpensAt x c declaration s) (hc : c.strict = false)
    (hs : s.rest ≠ []) : DeclaresAt x c (Parse.recovering declaration) s := by
  have onward := declaration.onward c s
  have some : 0 < s.rest.length := length_pos_iff.2 hs
  unfold OpensAt at h
  unfold DeclaresAt
  rw [run_recovering]
  cases hr : declaration.run c s with
  | ok r t =>
    rw [hr] at h onward
    exact ⟨onward.length_rest_lt h, Nat.le_of_lt h⟩
  | error e t =>
    rw [hr] at h onward
    cases e with
    | error e =>
      have passed := length_resumption t.last t.rest
      have length : t.rest.length ≤ s.rest.length := onward.length_rest
      have errors : s.errors.length ≤ t.errors.length := onward.errors.length_le
      simp only [recovery, hc, Bool.false_eq_true, ↓reduceIte, ParseResult.Ends, recovered, resumed,
        unwind, ParseState.budget,
        length_append, length_singleton]
      rcases h with ⟨same, known⟩ | less
      · rw [same] at passed
        rw [same, known]
        omega
      · unfold ParseState.budget at less
        omega
    | canceled | scopes | exhausted => exact h

/-! ### The grammar -/

/-- **Parsers get on as they are put together**: in front of few tokens they do not run out of rounds,
and an error at the first token is the only way for one that opens a declaration not to read it. -/
theorem Built.getsOn (he : c.eof.kind = .endOfInput) (hc : c.strict = false) {bound : Nat}
    (hb : bound ≤ c.bound) {d : Bool} {stance : Stance} {p q : Parse α}
    (h : Built bound d stance n p q) : GetsOn x c n stance p := by
  induction h with
  | le _ hm ih => exact ih.le hm
  | opened _ ih => exact ih.continues
  | ahead _ ih => exact fun s _ hs => ih s hs
  | pure a => exact Continues.pure a
  | fail fault token => exact fun _ _ => .fail fault token
  | @exhausted d stance =>
    have none {s : ParseState} (hs : s.Near x 0) : x := hs.resolve_right (Nat.not_lt_zero _)
    rcases stance with ⟨o, a⟩ | _
    · cases o <;> cases a
      · exact fun s hs => none hs
      · exact fun s _ hs => none hs
      · exact fun s hs => none hs
      · exact fun s _ hs => none hs
    · exact fun s _ hs => none hs
  | bind _ _ ih ihf => exact Continues.bind ih ihf
  | after _ _ ih ihf => exact fun s hs => OpensAt.bind (ih s hs) hs ihf
  | check _ => exact fun s _ => Nat.le_refl s.budget
  | accept? _ _ _ ih ih' => exact fun s hs => .accept? hs ih (ih' s hs)
  | acceptVar _ _ ih ihr =>
    intro s hs
    rw [accept_bind]
    exact .accept? hs (fun _ => GetsOn.le ih (Nat.sub_le _ 1)) (ihr.continues s hs)
  | lookAt _ _ ih ihe =>
    intro s hs
    refine .peek ?_
    cases hr : s.rest with
    | nil => exact ihe c.eof { c.eof with kind := .kwVar } he rfl s hs
    | cons u rest => exact ih u s (hr ▸ cons_ne_nil u rest) hs
  | lookFor _ fails ih =>
    intro s hs
    refine .peek ?_
    cases hr : s.rest with
    | nil =>
      obtain ⟨⟨fault, token, hf⟩, -⟩ := fails c.eof { c.eof with kind := .kwVar } he rfl
      rw [headD_nil, hf]
      exact .fail fault token
    | cons u rest => exact ih u s (hr ▸ cons_ne_nil u rest) hs
  | lookAhead _ ih => exact fun s some hs => .peek (ih _ s some hs)
  | advance _ ih => exact fun s some hs => .advance ih some hs
  | failAfterNext fault => exact Continues.bind .advance fun t => .fail fault t
  | natives _ _ ih => exact fun s hs => ih c c rfl s hs
  | rounds hn _ ih => exact fun s hs => ih c.bound c.bound (Nat.le_trans hn hb) (Nat.le_refl _) s hs
  | scopes => exact fun s _ => Nat.le_refl s.budget
  | resolve _ => exact Continues.resolve _ _ _
  | granted => exact fun s _ => Nat.le_refl s.budget
  | hiddenSlot name place => exact fun s _ => Nat.le_refl s.budget
  | inScope _ ih => exact Continues.inScope ih _ _
  | block hn _ _ brace ih _ => exact Continues.block ih (Nat.le_trans hn hb) brace
  | recovering _ ih => exact fun s some hs => OpensAt.recovering (ih s some hs) hc some

end Parse

namespace Grammar

open Parse

lemma declares_unrolled {x : Prop} {c : ParseContext} (he : c.eof.kind = .endOfInput)
    (hc : c.strict = false) {n m : Nat} (hm : m ≤ n) (hb : m ≤ c.bound) {s : ParseState}
    (some : s.rest ≠ []) (hs : s.Near x m) : DeclaresAt x c (unrolled n).declaration s :=
  (built_unrolled (Nat.le_refl n) hm hb).declaration.getsOn he hc (Nat.le_refl _) s some hs

end Grammar

/-! ### Units -/

open Parse in
lemma Grammar.ok_unit {c} {n : Nat} {g : Grammar}
    (h : GetsOn False c n .declaration g.declaration) {m fuel : Nat} (hm : m ≤ n) (hf : m ≤ fuel)
    {s : ParseState} (hs : s.rest.length < m) :
    ∃ l t, (g.unit fuel).run c s = .ok l t ∧ t.budget ≤ s.budget := by
  induction fuel generalizing m s with
  | zero => omega
  | succ fuel ih =>
    unfold Grammar.unit
    rw [run_bind, run_atEnd, ParseResult.andThen_ok]
    split
    · exact ⟨_, s, rfl, Nat.le_refl _⟩
    · rename_i hne
      have some : s.rest ≠ [] := fun he => hne (by simp [he])
      have declares := h s some (.inr (by omega))
      unfold DeclaresAt at declares
      rw [run_bind]
      cases hr : g.declaration.run c s with
      | error e t =>
        rw [hr] at declares
        cases e <;> exact declares.elim
      | ok r t =>
        rw [hr] at declares
        obtain ⟨fewer, budget⟩ := declares
        obtain ⟨l, u, hl, after⟩ := ih (m := m - 1) (s := t) (by omega) (by omega) (by omega)
        refine ⟨r.toList ++ l, u, ?_, Nat.le_trans after budget⟩
        rw [ParseResult.andThen_ok, run_bind, hl]
        rfl

open Parse in
lemma ok_parseUnit_of_lenient (body : List Token) {eof : Token} (he : eof.kind = .endOfInput)
    {options : CompileOptions} (hs : options.strict = false) (natives linked supply) :
    ∃ l t, (parseUnit (body.length + 1)).run (.ofUnit body eof options natives)
      (.start body eof linked supply) = .ok l t ∧ t.errors.length ≤ body.length := by
  let c := ParseContext.ofUnit body eof options natives
  let start := ParseState.start body eof linked supply
  have declares (s : ParseState) := Grammar.declares_unrolled (x := False) (c := c) he hs
    (Nat.le_refl (body.length + 1)) (Nat.le_refl _) (s := s)
  obtain ⟨l, t, hr, budget⟩ := Grammar.ok_unit declares (Nat.le_refl _) (Nat.le_refl _)
    (s := { start with scopes := (labelsAhead 0 start.rest).foldl announced start.scopes })
    (Nat.lt_succ_self _)
  refine ⟨l, t, hr, ?_⟩
  have errors : t.errors.length + t.rest.length ≤ 0 + body.length := budget
  omega

lemma exists_unit_of_lenient (body) {eof : Token} (he : eof.kind = .endOfInput)
    {options : CompileOptions} (hs : options.strict = false) (natives linked supply) :
    ∃ u, (parse (body ++ [eof]) options natives linked supply).result = .ok u ∧
      u.errors.length ≤ body.length := by
  obtain ⟨l, t, run, errors⟩ := ok_parseUnit_of_lenient body he hs natives linked supply
  rw [parse_eq, run]
  exact ⟨_, rfl, errors⟩

open Parse in
/-- **Parsing recovers and gets on.**  Whatever the tokens in front of the end of the input, a parse
that is not strict gives a unit, with at most as many errors as there are tokens.  Every declaration
that is read in front of a token, whether or not something is wrong with it, ends without an error in
the scope in which it started, with at least one token read; no objection of the scope table gets out of
it.  It runs out of rounds only where the tokens to come are more than the levels of nesting or the rounds
of a loop allowed for, which is not the case anywhere in the parse of a unit.  The next token is always
one of the input, at the place behind those that have been read. -/
theorem parse_recovers (body : List Token) {eof : Token} (he : eof.kind = .endOfInput)
    {options : CompileOptions} (hs : options.strict = false) (natives : Registry)
    (linked : List Slot) (supply : Supply) :
    (∃ u, (parse (body ++ [eof]) options natives linked supply).result = .ok u ∧
      u.errors.length ≤ body.length) ∧
    (∀ (depth : Nat) (s : ParseState), s.rest ≠ [] →
      match (Grammar.unrolled depth).declaration.run (.ofUnit body eof options natives) s with
      | .ok _ t => t.rest <:+ s.rest ∧ t.rest.length < s.rest.length ∧
        s.scopes.Onward t.scopes ∧ t.scopes.depth = s.scopes.depth
      | .error e _ => e = .exhausted ∧ (depth ≤ s.rest.length ∨ body.length < s.rest.length)) ∧
    ∀ s : ParseState, s.rest <:+ body → ∃ t, peek.run (.ofUnit body eof options natives) s = .ok t s ∧
      (body ++ [eof])[body.length - s.rest.length]? = some t := by
  let c := ParseContext.ofUnit body eof options natives
  refine ⟨exists_unit_of_lenient body he hs natives linked supply, fun depth s some => ?_,
    fun s ⟨read, hr⟩ => ⟨_, run_peek, ?_⟩⟩
  swap
  · have place : body.length - s.rest.length = read.length := by rw [← hr, length_append]; omega
    rw [place, ← hr, append_assoc, getElem?_append_right (Nat.le_refl _), Nat.sub_self]
    cases s.rest <;> rfl
  have anywhere := Grammar.declares_unrolled (c := c) he hs (Nat.zero_le depth) (Nat.zero_le _) some
    (.inl trivial)
  have onward := (Grammar.unrolled depth).declaration.onward c s
  unfold DeclaresAt at anywhere
  split <;> rename_i hr
  · rw [hr] at anywhere onward
    refine ⟨onward.rest, anywhere.1, onward.scopes, ?_⟩
    rw [ScopeTable.depth_eq, ScopeTable.depth_eq]
    exact congrArg List.length onward.scopes.around
  · rename_i e t
    rw [hr] at anywhere
    cases e with
    | error | canceled | scopes => exact anywhere.elim
    | exhausted =>
      refine ⟨rfl, ?_⟩
      by_contra enough
      have near : s.rest.length < depth ∧ s.rest.length ≤ body.length := by omega
      have declares := Grammar.declares_unrolled (x := False) (c := c) he hs (m := s.rest.length + 1)
        (n := depth) near.1 (Nat.succ_le_succ near.2) some (.inr (Nat.lt_succ_self _))
      unfold DeclaresAt at declares
      rw [hr] at declares
      exact declares

/-- In `{ ) var` the block and both of the declarations in it are in error. -/
theorem parse_recovers_block :
    let token (kind : TokenKind) : Token := { kind := kind, lexeme := "", location := default }
    let body := [TokenKind.leftBrace, .rightParen, .kwVar].map token
    ∃ u, (parse (body ++ [token .endOfInput]) {} .standard [] {}).result = .ok u ∧
      u.errors.length = 3 ∧ u.errors.length ≤ body.length := by
  intro token body
  have recovers := parse_recovers body (rfl : (token .endOfInput).kind = .endOfInput)
    (rfl : ({} : CompileOptions).strict = false) .standard [] {}
  obtain ⟨u, hu, bound⟩ := recovers.1
  have count : (match (parse (body ++ [token .endOfInput]) {} .standard [] {}).result with
      | .ok u => u.errors.length
      | .error _ => 0) = 3 := by decide +kernel
  rw [hu] at count
  exact ⟨u, hu, count, bound⟩

end DynScript
