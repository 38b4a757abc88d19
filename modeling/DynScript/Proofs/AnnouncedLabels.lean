import DynScript.Proofs.Renumbering
import Mathlib.Data.List.Nodup

/-!
# Announced labels

Before a block is read, its labels are looked for in the tokens ahead, with nothing known of the grammar
but its braces.  If no error is met, this finds just the labels that the statements of the block
declare.
-/

namespace DynScript

open Parse List

lemma labels_eq_of_names {l m : List Label} (names : l.map (·.name) = m.map (·.name))
    (distinct : (m.map (·.name)).Nodup) (sub : ∀ x ∈ l, x ∈ m) : l = m := by
  have size : l.length = m.length := by simpa using congrArg List.length names
  refine ext_getElem size fun i hl hm => ?_
  refine inj_on_of_nodup_map distinct (sub _ (getElem_mem hl)) (getElem_mem hm) ?_
  have entry : (l.map (·.name))[i]? = (m.map (·.name))[i]? := by rw [names]
  simpa [hl, hm] using entry

namespace ScopeTable

/-- The labels of the block of the statements `l`, read in the scope of `t`, are announced in `v`;
at its end the table is `w`.  Just the labels that the statements declare are announced, in their
order; they are new, have names of their own, and in the end are those of the scope, and placed. -/
structure Announces (t v w : ScopeTable) (l : List Stmt) : Prop where
  announced : v.current.labels.map (·.label) = Stmt.targets l
  names : ((Stmt.targets l).map (·.name)).Nodup
  fresh : Fresh t.nextLabel v.nextLabel ((Stmt.targets l).map (·.id))
  labels : ∀ x, x ∈ Stmt.targets l ↔ ∃ e, w.current.label? x.name = some e ∧ e.label = x
  placed : ∀ name e, w.current.label? name = some e → e.placed = true

variable {t : ScopeTable}

lemma isSome_label?_announced (t) (x) : ((Parse.announced t x).current.label? x.lexeme).isSome := by
  unfold Parse.announced
  split
  · assumption
  · rename_i new
    rw [announce, defineLabel_eq, if_neg new]
    simp [Scope.label?, Scope.addLabel, find?_append]

lemma isSome_label?_foldl_announced {names : List Token} {x : Token} (hx : x ∈ names) :
    ((names.foldl Parse.announced t).current.label? x.lexeme).isSome := by
  induction names generalizing t with
  | nil => cases hx
  | cons y names ih =>
    rcases mem_cons.1 hx with rfl | hx
    · obtain ⟨e, he⟩ := Option.isSome_iff_exists.1 (isSome_label?_announced t x)
      obtain ⟨f, hf, -⟩ := (onward_announced names (Parse.announced t x)).label? _ e he
      exact Option.isSome_of_eq_some hf
    · exact ih hx

/-- Labels with names of their own are announced one after the other. -/
lemma names_foldl_announced {names : List Token}
    (distinct : (t.current.labels.map (·.label.name) ++ names.map (·.lexeme)).Nodup) :
    (names.foldl Parse.announced t).current.labels.map (·.label.name) =
      t.current.labels.map (·.label.name) ++ names.map (·.lexeme) := by
  induction names generalizing t with
  | nil => simp
  | cons x names ih =>
    have new : ¬ (t.current.label? x.lexeme).isSome := by
      intro known
      obtain ⟨e, he⟩ := Option.isSome_iff_exists.1 known
      have member := mem_map_of_mem (f := fun e : LabelEntry => e.label.name) (mem_of_find?_eq_some he)
      rw [Scope.name_of_label? he] at member
      exact (nodup_append.1 distinct).2.2 _ member _ mem_cons_self rfl
    have added : (Parse.announced t x).current.labels.map (·.label.name) =
        t.current.labels.map (·.label.name) ++ [x.lexeme] := by
      rw [Parse.announced, if_neg new, announce, defineLabel_eq, if_neg new]
      simp [Scope.addLabel]
    rw [foldl_cons, ih (by simpa [added] using distinct), added]
    simp

end ScopeTable

namespace Declares

variable {s u : ParseState} {l : List Stmt} {t : ScopeTable}

/-- **The labels found ahead are those declared**, when declarations are read without errors up to a place
from which on no labels are found. -/
theorem announces (h : Declares s l u) (he : u.errors = s.errors) (ht : t.current.labels = [])
    (hs : s.scopes = (labelsAhead 0 s.rest).foldl announced t) (hu : labelsAhead 0 u.rest = []) :
    t.Announces s.scopes u.scopes l := by
  have ahead : (labelsAhead 0 s.rest).map (·.lexeme) = (Stmt.targets l).map (·.name) := by
    rw [h.names_ahead he, hu, map_nil, append_nil]
  have awaits : Awaits ((labelsAhead 0 s.rest).map (·.lexeme)) s.scopes.current := by
    rw [hs]
    exact (announced_names _ (fun x hx => mem_map_of_mem hx)
      (fun name e he => by simp [Scope.label?, ht] at he)).1
  have names : ((Stmt.targets l).map (·.name)).Nodup := by
    refine h.distinct he fun x hx => ?_
    obtain ⟨y, hy, e⟩ := mem_map.1 (ahead ▸ mem_map_of_mem (f := Label.name) hx)
    rw [hs, ← e]
    exact ScopeTable.isSome_label?_foldl_announced hy
  have order : s.scopes.current.labels.map (·.label.name) = (Stmt.targets l).map (·.name) := by
    rw [hs, ScopeTable.names_foldl_announced (by simpa [ht, ahead] using names), ht, ahead]
    rfl
  have declared {name : String} {e : LabelEntry} (hn : s.scopes.current.label? name = some e) :
      e.label ∈ Stmt.targets l := by
    obtain ⟨f, hf, same, -⟩ := h.onward.scopes.label? name e hn
    exact same ▸ h.mem_targets he awaits hu hf
  have found {e : LabelEntry} (hm : e ∈ s.scopes.current.labels) :
      s.scopes.current.label? e.label.name = some e := by
    have known : (s.scopes.current.label? e.label.name).isSome :=
      find?_isSome.2 ⟨e, hm, decide_eq_true rfl⟩
    obtain ⟨f, hf⟩ := Option.isSome_iff_exists.1 known
    rw [hf, inj_on_of_nodup_map (order ▸ names) (mem_of_find?_eq_some hf) hm
      (Scope.name_of_label? hf)]
  have announced : s.scopes.current.labels.map (·.label) = Stmt.targets l := by
    refine labels_eq_of_names (by rw [map_map]; exact order) names ?_
    rintro x hx
    obtain ⟨e, hm, rfl⟩ := mem_map.1 hx
    exact declared (found hm)
  refine ⟨announced, names, ?_, fun x => ⟨fun hx => ?_, ?_⟩, fun name e hn => ?_⟩
  · have onward : t.Onward s.scopes := hs ▸ onward_announced _ t
    obtain ⟨new, labels, fresh⟩ := onward.labels
    rw [ht, announced] at labels
    rw [labels]
    exact fresh
  · obtain ⟨e, hm, rfl⟩ := mem_map.1 (announced ▸ hx)
    obtain ⟨f, hf, same, -⟩ := h.onward.scopes.label? _ e (found hm)
    exact ⟨f, hf, same⟩
  · rintro ⟨e, hn, rfl⟩
    exact h.mem_targets he awaits hu hn
  · cases hp : e.placed with
    | true => rfl
    | false =>
      -- a label that is not placed was awaited, and so it is declared
      obtain ⟨before, undeclared⟩ := (h.places he name e hn).2 hp
      exact absurd (ahead ▸ (awaits name e before).2) undeclared

end Declares

/-- The state in which the declarations of a block are read: its scope has been entered and its labels
announced. -/
def ParseState.opened (s : ParseState) : ParseState :=
  { s with scopes := (labelsAhead 0 s.rest).foldl Parse.announced (s.scopes.enter .block) }

/-- **The labels announced are those declared.**  For a unit that is parsed without errors, the labels
found ahead of its tokens are just those that its own statements declare, and for every block, whether a
statement or the body of a function, that is read at any place without errors, the labels found ahead when
it is entered are just those that the statements of this block declare.  They are new, so that none is
announced for two blocks. -/
theorem labels_announced_are_declared {tokens : List Token} {eof : Token} (options : CompileOptions)
    (natives : Registry) (linked : List Slot) (supply : Supply) (he : eof.kind = .endOfInput) :
    (∀ u, (parse (tokens ++ [eof]) options natives linked supply).result = .ok u → u.errors = [] →
      ∃ done, (parseUnit (tokens.length + 1)).run (.ofUnit tokens eof options natives)
          (.start tokens eof linked supply) = .ok u.program.body.statements done ∧
        (ParseState.start tokens eof linked supply).scopes.Announces
          (ParseState.announced tokens eof linked supply).scopes done.scopes
          u.program.body.statements) ∧
    ∀ depth brace s b t,
      ((Grammar.unrolled depth).block brace).run (.ofUnit tokens eof options natives) s = .ok b t →
      t.errors = s.errors →
      ∃ done, ((Grammar.unrolled depth).declarations (tokens.length + 1)).run
          (.ofUnit tokens eof options natives) s.opened = .ok b.statements done ∧
        (s.scopes.enter .block).Announces s.opened.scopes done.scopes b.statements := by
  have sound (n : Nat) := Grammar.sound_unrolled (c := .ofUnit tokens eof options natives) he n
  constructor
  · intro u h clean
    rw [parse_eq] at h
    cases hr : (parseUnit (tokens.length + 1)).run (.ofUnit tokens eof options natives)
        (.start tokens eof linked supply) with
    | error e done =>
      rw [hr] at h
      cases h
    | ok l done =>
      rw [hr] at h
      cases h
      rw [run_parseUnit] at hr
      obtain ⟨declares, ended⟩ := Grammar.declares_unit (sound _) _ _ _ _ hr
      exact ⟨done, rfl, declares.announces clean rfl rfl (by rw [ended]; rfl)⟩
  · intro depth brace s b t h clean
    obtain ⟨v, hv, rfl⟩ := ok_of_inScope h
    simp only [run_bind, run_rounds, run_currentSlots, ParseResult.andThen_eq_ok,
      ParseResult.andThen_ok] at hv
    obtain ⟨_, _, ⟨⟩, l, w, hl, x, y, hx, hb⟩ := hv
    obtain ⟨kind, takes⟩ := takes_of_expect hx
    cases hb
    have declares := Grammar.gives_declarations (sound depth) _ _ _ _ hl
    have same : w.errors = s.errors := (errors_eq_of_onward declares.onward takes.onward clean).1
    refine ⟨w, hl, declares.announces same (by simp) rfl ?_⟩
    simp [takes.rest, labelsAhead, kind]

/-- In `label x; { label x; }` the first label is announced for the unit and the second one for the block. -/
theorem labels_announced_are_declared_nested :
    let token (kind : TokenKind) : Token := { kind := kind, lexeme := "x", location := default }
    let label := [TokenKind.kwLabel, .identifier, .semicolon].map token
    let body := label ++ [token .leftBrace] ++ label ++ [token .rightBrace]
    let inside : ParseState := { ParseState.announced body (token .endOfInput) [] {} with rest := body.drop 4 }
    ∃ u b t, (parse (body ++ [token .endOfInput]) {} .standard [] {}).result = .ok u ∧ u.errors = [] ∧
      ((Grammar.unrolled 2).block (token .leftBrace)).run
        (.ofUnit body (token .endOfInput) {} .standard) inside = .ok b t ∧ t.errors = inside.errors ∧
      (ParseState.announced body (token .endOfInput) [] {}).scopes.current.labels.map (·.label) =
        Stmt.targets u.program.body.statements ∧
      inside.opened.scopes.current.labels.map (·.label) = Stmt.targets b.statements ∧
      (Stmt.targets u.program.body.statements).map (·.id) = [1] ∧
      (Stmt.targets b.statements).map (·.id) = [2] := by
  intro token label body inside
  obtain ⟨unit, block⟩ := @labels_announced_are_declared body (token .endOfInput) {} .standard [] {}
    rfl
  have parsed : (parse (body ++ [token .endOfInput]) {} .standard [] {}).result.toOption.map
      (fun u => (u.errors.length, (Stmt.targets u.program.body.statements).map (·.id))) =
        some (0, [1]) := by decide +kernel
  have read : ∃ b t, ((Grammar.unrolled 2).block (token .leftBrace)).run
      (.ofUnit body (token .endOfInput) {} .standard) inside = .ok b t ∧ t.errors = inside.errors ∧
      (Stmt.targets b.statements).map (·.id) = [2] := ⟨_, _, rfl, rfl, rfl⟩
  obtain ⟨b, t, hb, same, second⟩ := read
  cases hu : (parse (body ++ [token .endOfInput]) {} .standard [] {}).result with
  | error e =>
    rw [hu] at parsed
    cases parsed
  | ok u =>
    rw [hu] at parsed
    obtain ⟨none, first⟩ := Prod.mk.inj (Option.some.inj parsed)
    have clean := length_eq_zero_iff.1 none
    obtain ⟨_, -, outer⟩ := unit u hu clean
    obtain ⟨_, -, inner⟩ := block 2 _ inside b t hb same
    exact ⟨u, b, t, rfl, clean, hb, same, outer.announced, inner.announced, first, second⟩

end DynScript
