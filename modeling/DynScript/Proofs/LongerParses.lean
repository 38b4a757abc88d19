import DynScript.Proofs.DeclaredNames

/-!
# Parses of longer inputs

A parse is compared with that of a longer input, in which the tokens of a variable declaration follow.
As long as the first parse does not come to its end, the second one does the same, errors included.

Main declarations: `Longer.Outcome`, `Longer.agrees`.
-/

namespace DynScript

open List ParseState

/-- A state with more tokens to come. -/
def ParseState.append (s : ParseState) (tokens : List Token) : ParseState :=
  { s with rest := s.rest ++ tokens }

namespace ParseResult

variable {α : Type}

/-- An outcome with more tokens to come. -/
def append (r : ParseResult α) (tokens : List Token) : ParseResult α :=
  match r with
  | .ok a s => .ok a (s.append tokens)
  | .error e s => .error e (s.append tokens)

/-- The scopes that were opened in a section of a parse are left. -/
def unwound (r : ParseResult α) (depth : Nat) : ParseResult α :=
  match r with
  | .ok a s => .ok a (Parse.unwind depth s)
  | .error e s => .error e (Parse.unwind depth s)

/-- An outcome after recovery. -/
def recover (r : ParseResult (Option Stmt)) (depth : Nat) : ParseResult (Option Stmt) :=
  match r with
  | .error (.error e) s => .ok none (Parse.recovered depth e s)
  | r => r

/-- An outcome that is an error. -/
def Failed : ParseResult α → Prop
  | .ok _ _ => False
  | .error _ _ => True

end ParseResult

/-- The contexts of a parse and of a longer one, where further tokens follow, the first of them
`var`, without blocks or labels. -/
structure Longer where
  first : ParseContext
  second : ParseContext
  keyword : Token
  more : List Token
  eof_kind : first.eof.kind = .endOfInput
  eof_kind' : second.eof.kind = .endOfInput
  lenient : first.strict = false
  lenient' : second.strict = false
  natives : second.natives = first.natives
  bound_le : first.bound ≤ second.bound
  kind : keyword.kind = .kwVar
  labels : ∀ depth rest, Parse.labelsAhead depth (rest ++ keyword :: more) = Parse.labelsAhead depth rest

namespace Longer

variable (L : Longer)

/-- The tokens that only the second parse has to come. -/
def tail : List Token :=
  L.keyword :: L.more

variable {α β : Type}

/-- The second parse does not stand in front of the further tokens any more, unless it has failed. -/
structure Past (r : ParseResult α) : Prop where
  rest : r.state.rest <:+ L.tail
  past : r.Failed ∨ r.state.rest ≠ L.tail

/-- The first parse runs out of rounds, the second one does the same, or the first one has come to
its end, and failed unless `lax`. -/
inductive Outcome (lax : Prop) (r r' : ParseResult α) : Prop where
  | exhausted (s : ParseState) (h : r = .error .exhausted s)
  | same (h : r' = r.append L.tail)
  | ended (rest : r.state.rest = []) (failed : lax ∨ r.Failed) (past : L.Past r')

/-- The parser `q` does in the second parse what `p` does in the first. -/
def Follows (lax : Prop) (p q : Parse α) : Prop :=
  ∀ s : ParseState, L.Outcome lax (p.run L.first s) (q.run L.second (s.append L.tail))

/-- The parser `q` does in the second parse what `p` does in the first, in front of a token. -/
def FollowsAhead (lax : Prop) (p q : Parse α) : Prop :=
  ∀ s : ParseState, s.rest ≠ [] →
    L.Outcome lax (p.run L.first s) (q.run L.second (s.append L.tail))

variable {L} {l : Prop} {p q : Parse α} {f g : α → Parse β} {s t : ParseState}

/-! ### The ends of the parses -/

lemma failed_of_opens {c} (h : Parse.OpensAt True c p s) (hs : s.rest = []) :
    (p.run c s).Failed := by
  have onward := p.onward c s
  unfold Parse.OpensAt at h
  cases hr : p.run c s with
  | ok a t =>
    rw [hr] at h onward
    have fewer : t.rest.length < s.rest.length := onward.length_rest_lt h
    rw [hs] at fewer
    exact absurd fewer (Nat.not_lt_zero _)
  | error e t => trivial

lemma ne_tail_of_suffix {l} (h : l <:+ L.more) : l ≠ L.tail := by
  rintro rfl
  have length := h.length_le
  rw [tail, length_cons] at length
  omega

lemma past_of_failed {r : ParseResult α} (hr : r.Failed) (h : r.state.rest <:+ L.tail) : L.Past r :=
  ⟨h, .inl hr⟩

lemma past_of_suffix (h : s.rest <:+ L.more) (p : Parse α) : L.Past (p.run L.second s) := by
  have within : (p.run L.second s).state.rest <:+ L.more := (p.onward L.second s).rest.trans h
  exact ⟨within.trans (suffix_cons _ _), .inr (ne_tail_of_suffix within)⟩

lemma suffix_more (h : s.rest <:+ L.tail) (ne : s.rest ≠ L.tail) : s.rest <:+ L.more :=
  (suffix_cons_iff.1 h).resolve_left ne

lemma Past.andThen {r} (h : L.Past r) (g : α → Parse β) :
    L.Past (r.andThen fun a t => (g a).run L.second t) := by
  cases r with
  | ok a t => exact past_of_suffix (suffix_more h.rest (h.past.resolve_left id)) (g a)
  | error e t => exact ⟨h.rest, .inl trivial⟩

lemma rest_of_end (p : Parse α) (hs : s.rest = []) : (p.run L.first s).state.rest = [] :=
  suffix_nil.1 (hs ▸ (p.onward L.first s).rest)

lemma Outcome.unwound {r r' : ParseResult α} (h : L.Outcome l r r') (depth : Nat) :
    L.Outcome l (r.unwound depth) (r'.unwound depth) := by
  cases h with
  | exhausted s h =>
    rw [h]
    exact .exhausted _ rfl
  | same h =>
    rw [h]
    cases r with
    | ok a t => exact .same rfl
    | error e t => exact .same rfl
  | ended rest failed past =>
    have kept (r : ParseResult α) : (r.unwound depth).state.rest = r.state.rest ∧
        ((r.unwound depth).Failed ↔ r.Failed) := by
      cases r with
      | ok a t => exact ⟨rfl, Iff.rfl⟩
      | error e t => exact ⟨rfl, Iff.rfl⟩
    refine .ended ((kept r).1.trans rest) (failed.imp_right (kept r).2.2) ⟨?_, ?_⟩
    · rw [(kept r').1]
      exact past.rest
    · rw [(kept r').1, (kept r').2]
      exact past.past

lemma outcome_fail (hs : s.rest = []) (fault fault' token token') :
    L.Outcome l ((Parse.fail fault token : Parse α).run L.first s)
      ((Parse.fail fault' token' : Parse α).run L.second (s.append L.tail)) := by
  refine .ended hs (.inr trivial) (past_of_failed trivial ?_)
  rw [Parse.run_fail]
  simp [ParseResult.state, append, hs]

/-! ### Sequences -/

lemma Outcome.bind {k : Prop} (h : L.Outcome k (p.run L.first s) (q.run L.second t))
    (hf : ∀ a, L.Follows l (f a) (g a))
    (hl : k → ∀ a u, u.rest = [] → l ∨ ((f a).run L.first u).Failed) :
    L.Outcome l ((p >>= f).run L.first s) ((q >>= g).run L.second t) := by
  rw [Parse.run_bind, Parse.run_bind]
  cases h with
  | exhausted u h =>
    rw [h]
    exact .exhausted u rfl
  | same h =>
    rw [h]
    cases p.run L.first s with
    | ok a u => exact hf a u
    | error e u => exact .same rfl
  | ended rest failed past =>
    cases hr : p.run L.first s with
    | ok a u =>
      -- Without a failure the first parse goes on at its end, where it does not come far.
      rw [hr] at rest failed
      exact .ended (rest_of_end (f a) rest) (hl (failed.resolve_right id) a u rest) (past.andThen g)
    | error e u =>
      rw [hr] at rest
      exact .ended rest (.inr trivial) (past.andThen g)

namespace FollowsAhead

lemma bind (hp : L.FollowsAhead False p q) (hf : ∀ a, L.Follows l (f a) (g a)) :
    L.FollowsAhead l (p >>= f) (q >>= g) :=
  fun s hs => (hp s hs).bind hf False.elim

lemma peek {f g : Token → Parse β} (hf : ∀ t, L.FollowsAhead l (f t) (g t)) :
    L.FollowsAhead l (Parse.peek >>= f) (Parse.peek >>= g) := by
  intro s hs
  obtain ⟨t, rest, hr⟩ := exists_cons_of_ne_nil hs
  have here : s.rest.headD L.first.eof = t := by rw [hr, headD_cons]
  have there : (s.append L.tail).rest.headD L.second.eof = t := by simp [append, hr]
  rw [Parse.run_bind, Parse.run_bind, Parse.run_peek, Parse.run_peek, here, there]
  exact hf t s hs

lemma advance : L.FollowsAhead l Parse.advance Parse.advance := by
  intro s hs
  refine .same ?_
  obtain ⟨t, rest, hr⟩ := exists_cons_of_ne_nil hs
  simp [Parse.advance, hr, append, ParseResult.append]

end FollowsAhead

namespace Follows

open Parse

lemma bind (hp : L.Follows False p q) (hf : ∀ a, L.Follows l (f a) (g a)) :
    L.Follows l (p >>= f) (q >>= g) :=
  fun s => (hp s).bind hf False.elim

lemma bindLax (hp : L.Follows True p q) (hf : ∀ a, L.Follows True (f a) (g a)) :
    L.Follows True (p >>= f) (q >>= g) :=
  fun s => (hp s).bind hf fun _ _ _ _ => .inl trivial

lemma ahead (h : L.Follows l p q) : L.FollowsAhead l p q :=
  fun s _ => h s

lemma pure (a : α) : L.Follows l (Pure.pure a : Parse α) (Pure.pure a) :=
  fun _ => .same rfl

lemma fail (fault token) :
    L.Follows l (Parse.fail fault token : Parse α) (Parse.fail fault token) :=
  fun _ => .same rfl

lemma exhausted (q : Parse α) : L.Follows l (Parse.stop .exhausted) q :=
  fun s => .exhausted s rfl

/-! ### Tokens -/

variable {kind : TokenKind}

lemma check (hk : kind ≠ .kwVar) : L.Follows l (Parse.check kind) (Parse.check kind) := by
  intro s
  refine .same ?_
  rw [run_check, run_check]
  cases hr : s.rest with
  | nil => simp [ParseResult.append, append, hr, tail, L.kind, Ne.symm hk]
  | cons t rest => simp [ParseResult.append, append, hr]

lemma accept? (hk : kind ≠ .kwVar) : L.Follows l (Parse.accept? kind) (Parse.accept? kind) := by
  intro s
  refine .same ?_
  rw [run_accept?, run_accept?]
  cases hr : s.rest with
  | nil => simp [ParseResult.append, append, hr, tail, L.kind, Ne.symm hk]
  | cons t rest =>
    simp only [append, hr, cons_append]
    split
    · rfl
    · simp [ParseResult.append, append, hr]

lemma peek {f g : Token → Parse β} (hf : ∀ t, L.FollowsAhead l (f t) (g t))
    (he : ∀ s, s.rest = [] → L.Outcome l ((f L.first.eof).run L.first s)
      ((g L.keyword).run L.second (s.append L.tail))) :
    L.Follows l (Parse.peek >>= f) (Parse.peek >>= g) := by
  intro s
  by_cases hs : s.rest = []
  · have next : (s.append L.tail).rest.headD L.second.eof = L.keyword := by
      simp [append, hs, tail]
    have ends : s.rest.headD L.first.eof = L.first.eof := by rw [hs, headD_nil]
    rw [run_bind, run_bind, run_peek, run_peek, next, ends]
    exact he s hs
  · exact FollowsAhead.peek hf s hs

lemma failAtNext (fault) :
    L.Follows l (Parse.peek >>= fun t => (Parse.fail fault t : Parse α))
      (Parse.peek >>= fun t => Parse.fail fault t) :=
  peek (fun t => (fail fault t).ahead) fun _ hs => outcome_fail hs _ _ _ _

lemma expect (hk : kind ≠ .kwVar) (message) :
    L.Follows l (Parse.expect kind message) (Parse.expect kind message) := by
  refine (accept? hk).bind fun o => ?_
  cases o with
  | none => exact failAtNext _
  | some t => exact .pure t

lemma failAfterNext (fault) :
    L.Follows l (Parse.advance >>= fun t => (Parse.fail fault t : Parse α))
      (Parse.advance >>= fun t => Parse.fail fault t) := by
  intro s
  cases hr : s.rest with
  | nil =>
    refine .ended (rest_of_end _ hr) (.inr ?_) (past_of_failed ?_ ?_)
    · simp [advance, hr, ParseResult.Failed]
    · simp [advance, hr, append, tail, ParseResult.Failed]
    · simp [advance, hr, append, tail, ParseResult.state]
  | cons t rest =>
    refine .same ?_
    simp [advance, hr, append, ParseResult.append]

lemma context {f g : ParseContext → Parse β} (h : L.Follows l (f L.first) (g L.second)) :
    L.Follows l (Parse.context >>= f) (Parse.context >>= g) :=
  h

lemma rounds {f g : Nat → Parse β} (h : ∀ n m, n ≤ m → L.Follows l (f n) (g m)) :
    L.Follows l (Parse.rounds >>= f) (Parse.rounds >>= g) :=
  fun s => h _ _ L.bound_le s

lemma acceptVar {r r'} (hp : L.Follows False p q) (hr : L.Follows False r r')
    (fails : ∀ s, s.rest = [] → (r.run L.first s).Failed) :
    L.Follows False (Parse.accept .kwVar >>= fun b => if b then p else r)
      (Parse.accept .kwVar >>= fun b => if b then q else r') := by
  intro s
  rw [accept_bind, accept_bind, run_bind, run_bind, run_accept?, run_accept?]
  cases hs : s.rest with
  | nil =>
    refine .ended (rest_of_end r hs) (.inr (fails s hs)) ?_
    simp only [append, hs, nil_append, tail, L.kind]
    exact past_of_suffix suffix_rfl q
  | cons t rest =>
    simp only [append, hs, cons_append]
    by_cases here : t.kind = .kwVar
    · rw [if_pos here, if_pos here]
      exact hp { s with last := t, rest := rest }
    · rw [if_neg here, if_neg here]
      have goes := hr s
      rw [append, hs] at goes
      exact goes

/-! ### Scopes -/

lemma scopes : L.Follows l Parse.scopes Parse.scopes :=
  fun _ => .same rfl

lemma currentSlots : L.Follows l Parse.currentSlots Parse.currentSlots :=
  fun _ => .same rfl

lemma resolve (operation : ScopeTable → Except ScopeError α × ScopeTable)
    (h : ∀ t : ScopeTable, t.Onward (operation t).2) (objection : ScopeError → ParseFailure) :
    L.Follows l (Parse.resolve operation h objection) (Parse.resolve operation h objection) := by
  intro s
  refine .same ?_
  simp only [Parse.resolve, append]
  split <;> rfl

lemma hiddenSlot (name place) :
    L.Follows l (Parse.hiddenSlot name place) (Parse.hiddenSlot name place) :=
  fun _ => .same rfl

lemma announceLabels : L.Follows l Parse.announceLabels Parse.announceLabels := by
  intro s
  refine .same ?_
  have labels : labelsAhead 0 (s.append L.tail).rest = labelsAhead 0 s.rest := L.labels 0 s.rest
  simp only [Parse.announceLabels, labels]
  rfl

lemma inScope (h : L.Follows l p q) (kind : ScopeKind) (hk : kind.isRoot = false) :
    L.Follows l (Parse.inScope kind p hk) (Parse.inScope kind q hk) := by
  intro s
  have inside := h { s with scopes := s.scopes.enter kind }
  have run (c : ParseContext) (x : Parse α) (s : ParseState) : (Parse.inScope kind x hk).run c s =
      (x.run c { s with scopes := s.scopes.enter kind }).unwound s.scopes.depth := by
    rw [run_inScope]
    cases x.run c { s with scopes := s.scopes.enter kind } <;> rfl
  rw [run, run]
  exact inside.unwound s.scopes.depth

end Follows

/-! ### Recovery -/

open Parse

lemma skipToBoundary_append (last rest) :
    skipToBoundary last (rest ++ L.tail) =
      ((skipToBoundary last rest).1, (skipToBoundary last rest).2 ++ L.tail) := by
  induction rest generalizing last with
  | nil => simp [skipToBoundary, tail, L.kind, opensStatement]
  | cons t rest ih =>
    rw [cons_append, skipToBoundary, skipToBoundary]
    split
    · rfl
    · exact ih t

lemma recovered_append (depth : Nat) (e) (hs : s.rest ≠ []) :
    recovered depth e (s.append L.tail) = (recovered depth e s).append L.tail := by
  obtain ⟨t, rest, hr⟩ := exists_cons_of_ne_nil hs
  have resumes : resumption s.last (s.rest ++ L.tail) =
      ((resumption s.last s.rest).1, (resumption s.last s.rest).2 ++ L.tail) := by
    rw [hr]
    exact skipToBoundary_append t rest
  simp only [recovered, resumed, unwind, append, resumes]

lemma recovered_suffix (depth : Nat) (e) (h : s.rest <:+ L.tail) :
    (recovered depth e s).rest <:+ L.more := by
  change (resumption s.last s.rest).2 <:+ L.more
  rcases suffix_cons_iff.1 h with all | less
  · rw [all]
    exact skipToBoundary_suffix _ _
  · exact (resumption_suffix _ _).trans less

lemma run_recovering {c : ParseContext} (hc : c.strict = false) (p s) :
    (recovering p).run c s = (p.run c s).recover s.scopes.depth := by
  rw [Parse.run_recovering]
  unfold ParseResult.recover
  cases p.run c s with
  | ok a t => rfl
  | error e t =>
    cases e with
    | error e => simp [recovery, hc]
    | canceled | scopes | exhausted => rfl

lemma Past.recover {r} (h : L.Past r) (depth : Nat) : L.Past (r.recover depth) := by
  cases r with
  | ok a t => exact h
  | error e t =>
    cases e with
    | error e =>
      have suffix : (recovered depth e t).rest <:+ L.more := recovered_suffix depth e h.rest
      exact ⟨suffix.trans (suffix_cons _ _), .inr (ne_tail_of_suffix suffix)⟩
    | canceled | scopes | exhausted => exact h

/-- **A declaration that fails in front of a token is recovered from in the same way.** -/
theorem FollowsAhead.recovering {p q} (h : L.FollowsAhead False p q) :
    L.FollowsAhead True (Parse.recovering p) (Parse.recovering q) := by
  intro s hs
  rw [run_recovering L.lenient, run_recovering L.lenient']
  change L.Outcome True _ ((q.run L.second (s.append L.tail)).recover s.scopes.depth)
  cases h s hs with
  | exhausted t h =>
    rw [h]
    exact .exhausted t rfl
  | same h =>
    rw [h]
    cases p.run L.first s with
    | ok a t => exact .same rfl
    | error e t =>
      cases e with
      | error e =>
        by_cases ht : t.rest = []
        -- The first parse has no token left to pass over, the second one passes over the keyword.
        · have passes : L.Past ((ParseResult.error (.error e) t : ParseResult (Option Stmt)).append
              L.tail) := by
            refine ⟨?_, .inl trivial⟩
            simp [ParseResult.append, ParseResult.state, append, ht]
          refine .ended ?_ (.inl trivial) (passes.recover _)
          change (resumption t.last t.rest).2 = []
          rw [ht]
          rfl
        · refine .same ?_
          simp only [ParseResult.append, ParseResult.recover, recovered_append _ e ht]
      | canceled | scopes | exhausted => exact .same rfl
  | ended rest failed past =>
    refine .ended ?_ (.inl trivial) (past.recover _)
    cases hr : p.run L.first s with
    | ok a t =>
      rw [hr] at rest
      exact rest
    | error e t =>
      rw [hr] at rest
      cases e with
      | error e =>
        change (resumption t.last t.rest).2 = []
        rw [show t.rest = [] from rest]
        rfl
      | canceled | scopes | exhausted => exact rest

/-! ### The grammar -/

variable {g' : Grammar} {n : Nat}

lemma past_declarations (h : GetsOn True L.second 0 .declaration g'.declaration)
    (hs : s.rest = L.tail) (n : Nat) : L.Past ((g'.declarations n).run L.second s) := by
  cases n with
  | zero => exact past_of_failed trivial (hs ▸ suffix_rfl)
  | succ n =>
    have some : s.rest ≠ [] := by simp [hs, tail]
    have declares := h s some (.inl trivial)
    have reads : L.Past (g'.declaration.run L.second s) := by
      have onward := (g'.declaration.onward L.second s).rest
      rw [hs] at onward
      refine ⟨onward, ?_⟩
      unfold DeclaresAt at declares
      cases hr : g'.declaration.run L.second s with
      | ok a t =>
        rw [hr] at declares
        refine .inr fun same => ?_
        have fewer : t.rest.length < s.rest.length := declares.1
        rw [hs, show t.rest = L.tail from same] at fewer
        exact Nat.lt_irrefl _ fewer
      | error e t => exact .inl trivial
    have open' : (s.rest.head?.any (·.kind = .rightBrace) || s.rest.isEmpty) = false := by
      simp [hs, tail, L.kind]
    unfold Grammar.declarations
    rw [run_bind, run_check, ParseResult.andThen_ok, run_bind, run_atEnd, ParseResult.andThen_ok, open']
    exact reads.andThen fun first => do return first.toList ++ (← g'.declarations n)

lemma Follows.declarations {g : Grammar} (h : L.FollowsAhead True g.declaration g'.declaration)
    (h' : GetsOn True L.second 0 .declaration g'.declaration) {m : Nat} (hn : n ≤ m) :
    L.Follows True (g.declarations n) (g'.declarations m) := by
  induction n generalizing m with
  | zero => exact .exhausted _
  | succ n ih =>
    intro s
    cases hr : s.rest with
    | nil =>
      -- The first parse leaves the block, the second one goes on in it.
      refine .ended (rest_of_end _ hr) (.inl trivial) (past_declarations h' ?_ m)
      simp [append, hr]
    | cons t rest =>
      obtain ⟨m, rfl⟩ := Nat.exists_eq_add_of_le' (Nat.le_trans (Nat.le_add_left 1 n) hn)
      unfold Grammar.declarations
      simp only [run_bind, run_check, ParseResult.andThen_ok, run_atEnd]
      by_cases closed : t.kind = .rightBrace
      · refine .same ?_
        simp [append, hr, closed, ParseResult.append]
      · have first : (s.rest.head?.any (·.kind = .rightBrace) || s.rest.isEmpty) = false := by
          simp [hr, closed]
        have second : ((s.append L.tail).rest.head?.any (·.kind = .rightBrace) ||
            (s.append L.tail).rest.isEmpty) = false := by
          simp [append, hr, closed]
        rw [first, second]
        exact (h s (by simp [hr])).bind (fun a => (ih (by omega)).bindLax fun l => .pure _)
          fun _ _ _ _ => .inl trivial

lemma Follows.block {g : Grammar} (h : L.FollowsAhead True g.declaration g'.declaration)
    (h' : GetsOn True L.second 0 .declaration g'.declaration) (brace) :
    L.Follows False (g.block brace) (g'.block brace) := by
  refine .inScope (.bind .announceLabels fun _ => .rounds fun n m hn s => ?_) _ _
  refine (Follows.declarations h h' hn s).bind (fun l => .bind (.expect (by decide) _) fun _ =>
    .bind .currentSlots fun _ => .pure _) fun _ l u hu => .inr ?_
  -- A block that is not closed is an error.
  simp [Parse.expect, run_accept?, hu, ParseResult.Failed]

/-- What the two do, when they are called in some way. -/
def Agrees (L : Longer) : Stance → Parse α → Parse α → Prop
  | .part _ false => L.Follows False
  | .part _ true => L.FollowsAhead False
  | .declaration => L.FollowsAhead True

/-- **Parsers that are put together alike do the same on longer inputs.** -/
theorem agrees {d : Bool} {stance} (h : Built 0 d stance n p q) : L.Agrees stance p q := by
  induction h with
  | le _ _ ih => exact ih
  | @opened _ a _ _ _ _ _ ih => cases a <;> exact ih
  | ahead _ ih => exact Follows.ahead ih
  | pure a => exact Follows.pure a
  | fail fault token => exact Follows.fail fault token
  | @exhausted _ stance _ q =>
    have ends : L.Follows False (stop .exhausted) q := .exhausted q
    rcases stance with ⟨o, a⟩ | _
    · cases a with
      | false => exact ends
      | true => exact ends.ahead
    · exact fun s _ => .exhausted s rfl
  | bind _ _ ih ihf | after _ _ ih ihf => exact Follows.bind ih ihf
  | check hk => exact Follows.check (ne_of_beq_false hk)
  | accept? hk _ _ ih ihn =>
    refine Follows.bind (.accept? (ne_of_beq_false hk)) fun o => ?_
    cases o with
    | none => exact ihn
    | some t => exact ih t
  | acceptVar _ opens ih ihr =>
    refine Follows.acceptVar ih ihr fun s hs => ?_
    have reads := opens.getsOn L.eof_kind L.lenient (Nat.zero_le _) s (.inl trivial)
    exact failed_of_opens reads hs
  | lookAt _ _ ih ihe => exact Follows.peek ih fun s _ => ihe _ _ L.eof_kind L.kind s
  | lookFor _ fails ih =>
    refine Follows.peek ih fun s hs => ?_
    obtain ⟨⟨_, _, he⟩, _, _, he'⟩ := fails _ _ L.eof_kind L.kind
    rw [he, he']
    exact outcome_fail hs _ _ _ _
  | lookAhead _ ih => exact FollowsAhead.peek ih
  | advance _ ih => exact FollowsAhead.bind .advance ih
  | failAfterNext fault => exact Follows.failAfterNext fault
  | natives _ _ ih => exact Follows.context (ih _ _ L.natives.symm)
  | rounds hn _ ih =>
    exact Follows.rounds fun i j hj => ih i j (Nat.le_trans hn (Nat.zero_le i)) hj
  | scopes => exact Follows.scopes
  | resolve _ => exact Follows.resolve _ _ _
  | granted => exact fun _ => .same rfl
  | hiddenSlot name place => exact Follows.hiddenSlot name place
  | inScope _ ih => exact Follows.inScope ih _ _
  | block _ _ declares brace ih _ =>
    exact Follows.block ih (declares.getsOn L.eof_kind' L.lenient' (Nat.zero_le _)) brace
  | recovering _ ih => exact FollowsAhead.recovering ih

lemma follows_attempt (L : Longer) {m : Nat} (hn : n ≤ m) :
    L.FollowsAhead False (Grammar.unrolled n).attempt (Grammar.unrolled m).attempt :=
  agrees (Grammar.built_unrolled hn (Nat.zero_le n) (Nat.le_refl 0)).attempt

end Longer

end DynScript
