import DynScript.Proofs.MachineLikeness
import DynScript.Proofs.ParallelStatements

/-!
# Compiling with other numbers

Compiling a text twice, from different numbers on, gives like units and the same messages: the parses
run in parallel and nothing is left out.

Main declarations: `like_parse`, `like_compile`.
-/

namespace DynScript

open Parse List

lemma like_link {w} {s s' : Scope} (hs : Forall₂ (Slot.Like w) s.slots s'.slots) {x x' : Slot}
    (hx : x.Like w x') : Forall₂ (Slot.Like w) (s.link x).slots (s'.link x').slots := by
  have known : (s.slot? x.name).isSome = (s'.slot? x'.name).isSome := by
    have found := rel_find_name (Likeness.lawful w) hs x.name
    rw [← hx.name]
    unfold Scope.slot?
    generalize s.slots.find? _ = o at found
    generalize s'.slots.find? _ = o' at found
    cases found <;> rfl
  unfold Scope.link
  rw [← known]
  split
  · refine forall₂_map_left_iff.2 (forall₂_map_right_iff.2 (hs.imp fun y y' hy => ?_))
    rw [← hx.name, ← hy.name]
    split
    · exact hx
    · exact hy
  · exact rel_append hs (.cons hx .nil)

lemma like_foldl_link {w} {l l'} (hl : Forall₂ (Slot.Like w) l l') {s s' : Scope}
    (hs : Forall₂ (Slot.Like w) s.slots s'.slots) :
    Forall₂ (Slot.Like w) (l.foldl Scope.link s).slots (l'.foldl Scope.link s').slots := by
  induction hl generalizing s s' with
  | nil => exact hs
  | cons hx _ ih => exact ih (like_link hs hx)

/-- The state in which the parse of a unit starts. -/
def ParseState.start (tokens : List Token) (eof : Token) (linked : List Slot) (s : Supply) :
    ParseState where
  last := tokens.headD eof
  rest := tokens
  scopes := ScopeTable.reset { nextSlot := s.slot, nextLabel := s.label } linked

/-- The state in which the declarations of a unit are read: its labels have been announced. -/
def ParseState.announced (tokens : List Token) (eof : Token) (linked : List Slot) (s : Supply) :
    ParseState :=
  { ParseState.start tokens eof linked s with
    scopes := (Parse.labelsAhead 0 tokens).foldl Parse.announced
      (ParseState.start tokens eof linked s).scopes }

/-- The context in which a unit is parsed. -/
def ParseContext.ofUnit (tokens : List Token) (eof : Token) (options : CompileOptions)
    (natives : Registry) : ParseContext where
  eof := eof
  strict := options.strict
  natives := natives
  bound := tokens.length + 1

lemma run_parseUnit (n : Nat) (tokens) (eof options natives linked s) :
    (parseUnit n).run (.ofUnit tokens eof options natives) (.start tokens eof linked s) =
      ((Grammar.unrolled n).unit (tokens.length + 1)).run (.ofUnit tokens eof options natives)
        (.announced tokens eof linked s) := rfl

/-- What the parse of a unit that begins at `place` comes to. -/
def Compilation.ofResult (options : CompileOptions) (place : Location) :
    ParseResult (List Stmt) → Compilation
  | .ok statements s =>
    { result := .ok
        { program := ⟨.mk statements s.scopes.globals.slots place, options.file⟩
          exported := s.scopes.globals.slots
          errors := s.errors }
      supply := ⟨s.scopes.nextSlot, s.scopes.nextLabel⟩
      log := s.errors.flatMap ParseError.log }
  | .error e s =>
    { result := .error e
      supply := ⟨s.scopes.nextSlot, s.scopes.nextLabel⟩
      log := s.errors.flatMap ParseError.log }

lemma parse_eq (tokens) (eof options natives linked s) :
    parse (tokens ++ [eof]) options natives linked s =
      .ofResult options (tokens.headD eof).location
        ((parseUnit (tokens.length + 1)).run (.ofUnit tokens eof options natives)
          (.start tokens eof linked s)) := by
  have head : (tokens ++ [eof]).headD eof = tokens.headD eof := by cases tokens <;> rfl
  simp only [parse, Parser.parse, Parser.new, getLastD_concat, dropLast_concat, head]
  change (match (parseUnit (tokens.length + 1)).run (.ofUnit tokens eof options natives)
    (.start tokens eof linked s) with | .ok _ _ => _ | .error _ _ => _ : Compilation × Parser).1 = _
  cases (parseUnit (tokens.length + 1)).run (.ofUnit tokens eof options natives)
    (.start tokens eof linked s) <;> rfl

lemma supply_le_compile (source options natives linked) (supply : Supply) :
    supply.slot ≤ (compile source options natives linked supply).supply.slot ∧
      supply.label ≤ (compile source options natives linked supply).supply.label := by
  have onward {depth : Nat} {c : ParseContext} {s : ParseState} {r : ParseResult (List Stmt)}
      (h : (parseUnit depth).run c s = r) : s.scopes.nextSlot ≤ r.state.scopes.nextSlot ∧
        s.scopes.nextLabel ≤ r.state.scopes.nextLabel := by
    have scopes := ((parseUnit depth).onward c s).scopes
    rw [h] at scopes
    exact ⟨scopes.nextSlot, scopes.nextLabel⟩
  simp only [compile, parse, Parser.parse]
  split <;> exact onward ‹_›

variable {w : Likeness} {linked linked' : List Slot} {s s' : Supply} {slotLimit labelLimit : Nat}

/-- **Parsing the same tokens from different numbers on**, as far as the numbers are related. -/
theorem like_parse {tokens} (ht : ∃ body eof, tokens = body ++ [eof] ∧ eof.kind = .endOfInput)
    (options) {natives : Registry} (hn : natives.Allowed w) (hp : ∀ p, w.places p p)
    (hl : Forall₂ (Slot.Like w) linked linked')
    (hs : ∀ k, s.slot + k < slotLimit → w.slots (s.slot + k) (s'.slot + k))
    (hb : ∀ k, s.label + k < labelLimit → w.labels (s.label + k) (s'.label + k))
    (hslot : (parse tokens options natives linked s).supply.slot ≤ slotLimit)
    (hlabel : (parse tokens options natives linked s).supply.label ≤ labelLimit) :
    let c := parse tokens options natives linked s
    let c' := parse tokens options natives linked' s'
    c.log = c'.log ∧ LikeCompiled w c.result c'.result ∧
      c.supply.slot + s'.slot = c'.supply.slot + s.slot ∧
      c.supply.label + s'.label = c'.supply.label + s.label := by
  obtain ⟨body, eof, rfl, -⟩ := ht
  have start (linked : List Slot) (s : Supply) : ParseState.start body eof linked s = .fresh
    (body.headD eof) body (linked.foldl Scope.link { kind := .linked }) s.slot s.label := rfl
  simp only [parse_eq, start] at hslot hlabel ⊢
  have parsed := (Likeness.lawful w).parsed (body.length + 1) (.ofUnit body eof options natives)
    (body.headD eof) body (fun t _ => ⟨rfl, rfl, rfl, hp _, fun _ => trivial, fun _ => rfl⟩) hn
    (linked.foldl Scope.link { kind := .linked }) (linked'.foldl Scope.link { kind := .linked })
    (like_foldl_link hl .nil) ⟨Scope.labels_foldl_link _ _, Scope.labels_foldl_link _ _⟩ hs hb
  generalize (parseUnit _).run _ (.fresh _ _ _ s.slot s.label) = r at hslot hlabel parsed ⊢
  generalize (parseUnit _).run _ (.fresh _ _ _ s'.slot s'.label) = r' at parsed ⊢
  cases r with
  | error e t =>
    cases parsed hslot hlabel with
    | error e ends =>
      exact ⟨congrArg (·.flatMap ParseError.log) ends.errors, .error e e, ends.slots, ends.labels⟩
  | ok l t =>
    cases parsed hslot hlabel with
    | ok statements globals ends =>
      exact ⟨congrArg (·.flatMap ParseError.log) ends.errors,
        .unit (.mk statements globals (hp _)) ends.errors rfl, ends.slots, ends.labels⟩

variable (s s') in
/-- **Compiling the same text from different numbers on**, as far as the numbers are related. -/
theorem like_compile (source options) {natives : Registry} (hn : natives.Allowed w)
    (hp : ∀ p, w.places p p) (hl : Forall₂ (Slot.Like w) linked linked')
    (hs : ∀ k, s.slot + k < slotLimit → w.slots (s.slot + k) (s'.slot + k))
    (hb : ∀ k, s.label + k < labelLimit → w.labels (s.label + k) (s'.label + k))
    (hslot : (compile source options natives linked s).supply.slot ≤ slotLimit)
    (hlabel : (compile source options natives linked s).supply.label ≤ labelLimit) :
    let c := compile source options natives linked s
    let c' := compile source options natives linked' s'
    c.log = c'.log ∧ LikeCompiled w c.result c'.result ∧
      c.supply.slot + s'.slot = c'.supply.slot + s.slot ∧
      c.supply.label + s'.label = c'.supply.label + s.label := by
  obtain ⟨log, result, slots, labels⟩ := like_parse (Scan.exists_tokens options.file _ _) options hn
    hp hl hs hb hslot hlabel
  refine ⟨congrArg (_ ++ ·) log, ?_, slots, labels⟩
  simp only [compile, scan]
  generalize (parse _ options natives linked s).result = r at result ⊢
  generalize (parse _ options natives linked' s').result = r' at result ⊢
  cases result with
  | error e e' => exact .error e e'
  | unit body errors _ => exact .unit body errors rfl

end DynScript
