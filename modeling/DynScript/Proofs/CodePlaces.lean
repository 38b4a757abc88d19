import DynScript.Proofs.JoinedTexts
import DynScript.Proofs.ParallelStatements
import Mathlib.Logic.Relation

/-!
# Where code comes from

Compiled code is a tree of expressions and statements, each of which has a place.

Main declarations: `Node.Made`, `made_of_compile`.
-/

namespace DynScript

open List

/-! ### Nodes -/

namespace Node

/-- The place of a node. -/
def place : Node → Location
  | expr e => e.place
  | stmt s => s.place

/-- The variable that a node assigns. -/
def target? : Node → Option Slot
  | expr (.assignVariable slot _ _) => some slot
  | _ => none

/-- Whether a node is an expression that always evaluates to a boxed value. -/
def isDynamic : Node → Bool
  | expr e => e.isDynamic
  | stmt _ => false

/-- The nodes directly in a node that have to give boxed values: what is declared or assigned,
arguments, items, fields, the branches of a condition, and what is returned. -/
def boxedParts : Node → List Node
  | expr (.array items _) | expr (.native _ _ items _) | expr (.call _ items _) => items.map .expr
  | expr (.record fields _ _) => fields.map fun f => .expr f.2
  | expr (.ternary _ a b _) => [.expr a, .expr b]
  | expr (.assignVariable _ u _) | expr (.assignIndex _ _ u _) | expr (.assignField _ _ u _) => u.nodes
  | stmt (.declare slot e _) => if slot.constant then [] else [.expr e]
  | stmt (.jump _ v _) => v.toList.map .expr
  | _ => []

/-- A node is another one or somewhere inside of it. -/
def Has : Node → Node → Prop :=
  Relation.ReflTransGen fun x y => y ∈ x.children

/-- A property of a node and all nodes in it. -/
def All (M : Node → Prop) (x : Node) : Prop :=
  ∀ y, x.Has y → M y

namespace All

variable {M : Node → Prop} {x y : Node}

lemma self (h : x.All M) : M x :=
  h x .refl

lemma has (h : x.All M) (hy : x.Has y) : y.All M :=
  fun z hz => h z (hy.trans hz)

lemma child (h : x.All M) (hy : y ∈ x.children) : y.All M :=
  h.has (.single hy)

lemma intro (hx : M x) (hc : ∀ y ∈ x.children, y.All M) : x.All M := by
  intro y hy
  rcases Relation.ReflTransGen.cases_head hy with rfl | ⟨z, hz, hy⟩
  · exact hx
  · exact hc z hz y hy

end All

end Node

/-! ### Nodes made from tokens -/

/-- A place is that of one of the tokens. -/
def Marked (T : List Token) (p : Location) : Prop :=
  ∃ t ∈ T, t.location = p

/-- A node that neither assigns to a variable, nor declares one, nor puts a value into a box or takes it
out. -/
def Node.isPlain : Node → Bool
  | .expr (.assignVariable ..) | .expr (.box _) | .expr (.unbox _) | .stmt (.declare ..) => false
  | _ => true

/-- A node as it is made from the tokens: at the place of one of them.  It assigns no constant, and
the value of a constant it declares is not dynamic.  A value is unboxed only where it is declared.
What has to be dynamic is, and what is boxed is not. -/
structure Node.Made (T : List Token) (x : Node) : Prop where
  place : Marked T x.place
  target : ∀ slot ∈ x.target?, slot.constant = false
  initial : ∀ slot e p, x = .stmt (.declare slot e p) → slot.constant = true → e.isDynamic = false
  unboxed : ∀ e, .expr (.unbox e) ∈ x.children → ∃ slot p, x = .stmt (.declare slot (.unbox e) p)
  dynamic : ∀ y ∈ x.boxedParts, y.isDynamic
  bare : ∀ e, x = .expr (.box e) → e.isDynamic = false

/-- All of a node is made from the tokens. -/
abbrev Node.From (T : List Token) (x : Node) : Prop :=
  x.All (Node.Made T)

/-- Code made from the tokens that may stand anywhere: it does not take a value out of its box. -/
structure Node.Formed (T : List Token) (x : Node) : Prop where
  made : x.From T
  whole : ∀ e, x ≠ .expr (.unbox e)

/-- Code made from the tokens that may stand where a value has to be boxed. -/
structure Node.Filled (T : List Token) (x : Node) : Prop where
  dynamic : x.isDynamic
  formed : x.Formed T

/-- An expression is formed from the tokens. -/
abbrev Expr.Formed (T : List Token) (e : Expr) : Prop :=
  (Node.expr e).Formed T

/-- A statement is formed from the tokens. -/
abbrev Stmt.Formed (T : List Token) (s : Stmt) : Prop :=
  (Node.stmt s).Formed T

/-- A block is formed from the tokens. -/
abbrev Block.Formed (T : List Token) (b : Block) : Prop :=
  (Stmt.block b).Formed T

/-- What an update evaluates is filled in. -/
def Update.Formed (T : List Token) (u : Update) : Prop :=
  ∀ y ∈ u.nodes, y.Filled T

section

variable {T : List Token} {t : Token} {x : Node} {e : Expr}

lemma Marked.token (h : t ∈ T) : Marked T t.location :=
  ⟨t, h, rfl⟩

namespace Node.Formed

section

variable (hp : Marked T x.place)
include hp

lemma assemble (ht : ∀ slot ∈ x.target?, slot.constant = false)
    (hx : ∀ slot e p, x ≠ .stmt (.declare slot e p)) (hb : ∀ e, x = .expr (.box e) → e.isDynamic = false)
    (hw : ∀ e, x ≠ .expr (.unbox e)) (hd : ∀ y ∈ x.boxedParts, y.Filled T)
    (hc : ∀ y ∈ x.children, y ∈ x.boxedParts ∨ y.Formed T) : x.Formed T := by
  have children : ∀ y ∈ x.children, y.Formed T := fun y hy => (hc y hy).elim (fun m => (hd y m).formed) id
  refine ⟨All.intro ⟨hp, ht, ?_, ?_, fun y hy => (hd y hy).dynamic, hb⟩ fun y hy => (children y hy).made,
    hw⟩
  · exact fun slot e p h => absurd h (hx slot e p)
  · exact fun e he => absurd rfl ((children _ he).whole e)

lemma around (hx : x.isPlain = true) (hd : ∀ y ∈ x.boxedParts, y.Filled T)
    (hc : ∀ y ∈ x.children, y ∈ x.boxedParts ∨ y.Formed T) : x.Formed T := by
  refine .assemble hp (fun slot hs => ?_) ?_ ?_ ?_ hd hc
  · cases x with
    | stmt s => cases hs
    | expr e => cases e <;> first | (cases hs; done) | cases hx
  · rintro slot e p rfl
    cases hx
  · rintro e rfl
    cases hx
  · rintro e rfl
    cases hx

lemma intro (hx : (x.isPlain && x.boxedParts.isEmpty) = true)
    (hc : ∀ y ∈ x.children, y.Formed T) : x.Formed T := by
  obtain ⟨plain, none⟩ := (Bool.and_eq_true ..).mp hx
  rw [List.isEmpty_iff] at none
  exact .around hp plain (none ▸ forall_mem_nil _) fun y hy => .inr (hc y hy)

lemma leaf (hx : (x.isPlain && x.boxedParts.isEmpty) = true)
    (hc : x.children = []) : x.Formed T :=
  .intro hp hx (hc ▸ forall_mem_nil _)

end

end Node.Formed

lemma Expr.Formed.place (h : e.Formed T) : Marked T e.place :=
  h.made.self.place

lemma Expr.Formed.child (h : e.Formed T) {y} (hy : y ∈ e.nodes) : y.Formed T := by
  refine ⟨h.made.child hy, ?_⟩
  rintro d rfl
  obtain ⟨slot, p, hs⟩ := h.made.self.unboxed d hy
  cases hs

lemma Expr.Formed.unboxed (h : e.Formed T) : (Node.expr (.unbox e)).From T := by
  refine Node.All.intro ⟨h.place, fun slot hs => ?_, fun slot d p hx => ?_, fun d hd => ?_,
    forall_mem_nil _, fun d hx => ?_⟩ (forall_mem_singleton.2 h.made)
  · cases hs
  · cases hx
  · exact absurd (mem_singleton.1 hd).symm (h.whole d)
  · cases hx

@[simp] lemma Expr.isDynamic_boxed (e : Expr) : e.boxed.isDynamic := by
  unfold Expr.boxed
  split
  · assumption
  · simp [Expr.isDynamic]

/-- **Whatever is not dynamic is put into a box**, and nothing else. -/
theorem Expr.Formed.boxed (h : e.Formed T) : (Node.expr e.boxed).Filled T := by
  refine ⟨e.isDynamic_boxed, ?_⟩
  unfold Expr.boxed
  split
  · exact h
  · rename_i notDynamic
    refine .assemble h.place (fun _ hs => ?_) (fun _ _ _ hx => ?_) (fun _ hx => ?_) (fun _ hx => ?_)
      (forall_mem_nil _) (forall_mem_singleton.2 (.inr h))
    · cases hs
    · cases hx
    · cases hx
      simpa using notDynamic
    · cases hx

lemma forall_mem_pair {α : Type} {P : α → Prop} {a b : α} (ha : P a) (hb : P b) :
    ∀ x ∈ [a, b], P x :=
  forall_mem_cons.2 ⟨ha, forall_mem_singleton.2 hb⟩

lemma formed_option {α : Type} {f : α → Node} {o : Option α} (h : ∀ a ∈ o, (f a).Formed T) :
    ∀ y ∈ o.toList.map f, y.Formed T :=
  forall_mem_map.2 fun a ha => h a (Option.mem_toList.1 ha)

variable {p : Location}

lemma Node.Formed.declare {slot : Slot} (he : (Node.expr e).From T)
    (hk : e.isDynamic = !slot.constant) (hp : Marked T p) : (Stmt.declare slot e p).Formed T := by
  refine ⟨Node.All.intro ⟨hp, fun s hs => ?_, fun s d p hx => ?_, fun d hd => ?_, fun y hy => ?_,
    fun d hx => ?_⟩ (forall_mem_singleton.2 he), fun d hx => ?_⟩
  · cases hs
  · cases hx
    exact fun constant => by rw [hk, constant]; rfl
  · cases mem_singleton.1 hd
    exact ⟨slot, _, rfl⟩
  · cases constant : slot.constant with
    | true => simp [Node.boxedParts, constant] at hy
    | false =>
      simp only [Node.boxedParts, constant, Bool.false_eq_true, if_false, mem_singleton] at hy
      rw [hy, Node.isDynamic, hk, constant]
      rfl
  · cases hx
  · cases hx

lemma Node.Filled.declare {slot : Slot} (hs : slot.constant = false)
    (he : (Node.expr e).Filled T) (hp : Marked T p) : (Stmt.declare slot e p).Formed T :=
  .declare he.formed.made (by rw [hs]; exact he.dynamic) hp

lemma Node.Formed.sequence {l} (hl : ∀ s ∈ l, s.Formed T) (slots) (hp : Marked T p) :
    (Block.mk l slots p).Formed T :=
  .intro hp rfl (forall_mem_map.2 hl)

lemma Update.beside (u : Update) {a b : Expr} (ha : a.Formed T)
    (hb : b.Formed T) : ∀ y ∈ .expr a :: .expr b :: u.nodes, y ∈ u.nodes ∨ y.Formed T :=
  forall_mem_cons.2 ⟨.inr ha, forall_mem_cons.2 ⟨.inr hb, fun _ => .inl⟩⟩

end

/-! ### What the parser makes of tokens -/

/-- Code made from the tokens, as a relation of code to itself. -/
def Coding.made (T : List Token) : Coding where
  slotNumber := Eq
  labelNumber := Eq
  place p p' := p = p' ∧ Marked T p
  name _ := True
  native _ := True
  slot := Eq
  hidden s s' := s = s' ∧ s.constant = false
  label := Eq
  expr e e' := e = e' ∧ e.Formed T
  part e e' := e = e' ∧ (Node.expr e).Filled T
  update u u' := u = u' ∧ u.Formed T
  stmt s s' := s = s' ∧ s.Formed T
  block b b' := b = b' ∧ b.Formed T

variable {α : Type}

lemma forall₂_self_and {Q : α → Prop} {l l'} :
    Forall₂ (fun a b => a = b ∧ Q a) l l' ↔ l = l' ∧ ∀ a ∈ l, Q a := by
  constructor
  · intro h
    induction h with
    | nil => exact ⟨rfl, forall_mem_nil _⟩
    | cons ha _ ih =>
      obtain ⟨rfl, ha⟩ := ha
      obtain ⟨rfl, hl⟩ := ih
      exact ⟨rfl, forall_mem_cons.2 ⟨ha, hl⟩⟩
  · rintro ⟨rfl, h⟩
    exact forall₂_same.2 fun a ha => ⟨rfl, h a ha⟩

lemma rel_self_and {Q : α → Prop} {o o'} (h : Option.Rel (fun a b => a = b ∧ Q a) o o') :
    o = o' ∧ ∀ a ∈ o, Q a := by
  cases h with
  | none => exact ⟨rfl, fun _ ha => by cases ha⟩
  | some h =>
    obtain ⟨rfl, ha⟩ := h
    exact ⟨rfl, fun _ hb => Option.mem_some.1 hb ▸ ha⟩

lemma eq_of_rel {o o' : Option α} (h : Option.Rel Eq o o') : o = o' := by
  cases h with
  | none => rfl
  | some h => rw [h]

lemma eq_of_rel_place {T o o'} (h : Option.Rel (Coding.made T).place o o') : o = o' :=
  (rel_self_and h).1

/-- **The parser makes code from tokens.** -/
theorem lawful_made (T : List Token) : (Coding.made T).Lawful where
  names _ _ := trivial
  slot_eq h := h ▸ ⟨rfl, rfl⟩
  label_eq h := h ▸ ⟨rfl, rfl⟩
  newSlot := by
    rintro name constant p p' i _ - rfl hp
    obtain rfl := eq_of_rel_place hp
    rfl
  newHidden := by
    rintro p p' i _ rfl hp
    obtain rfl := eq_of_rel_place hp
    exact ⟨rfl, rfl⟩
  newLabel := by
    rintro name kind i _ rfl
    rfl
  place := by
    rintro e _ ⟨rfl, h⟩
    exact ⟨rfl, h.place⟩
  form := by
    rintro e _ ⟨rfl, h⟩
    have child {y : Expr} (hy : .expr y ∈ e.nodes) : (Coding.made T).expr y y := ⟨rfl, h.child hy⟩
    cases e with
    | literal value p => exact .literal value p p
    | read slot p => exact .read rfl p p
    | index a i p => exact .index (child (.head _)) (child (.tail _ (.head _))) p p
    | field a k p => exact .field (child (.head _)) (child (.tail _ (.head _))) p p
    | _ => exact .other rfl rfl
  boxed := by
    rintro e _ ⟨rfl, h⟩
    exact ⟨rfl, h.boxed⟩
  of_part := by
    rintro e _ ⟨rfl, h⟩
    exact ⟨rfl, h.formed⟩
  literal := by
    rintro v p _ ⟨rfl, hp⟩
    exact ⟨rfl, .leaf hp rfl rfl⟩
  read := by
    rintro s _ p _ rfl ⟨rfl, hp⟩
    exact ⟨rfl, .leaf hp rfl rfl⟩
  array := by
    rintro l l' p _ hl ⟨rfl, hp⟩
    obtain ⟨rfl, items⟩ := forall₂_self_and.1 hl
    exact ⟨rfl, .around hp rfl (forall_mem_map.2 items) fun _ => .inl⟩
  record := by
    rintro l l' s _ p _ hl rfl ⟨rfl, hp⟩
    have fields : Forall₂ (fun f f' => f = f' ∧ (Node.expr f.2).Filled T) l l' :=
      hl.imp fun f f' hf => ⟨Prod.ext hf.1 hf.2.1, hf.2.2⟩
    obtain ⟨rfl, items⟩ := forall₂_self_and.1 fields
    exact ⟨rfl, .around hp rfl (forall_mem_map.2 items) fun _ => .inl⟩
  function := by
    rintro name v v' b _ l _ s s' p _ hv ⟨rfl, hb⟩ rfl hs ⟨rfl, hp⟩
    obtain rfl := forall₂_eq_eq_eq ▸ hv
    obtain rfl := eq_of_rel hs
    exact ⟨rfl, rfl, .intro hp rfl (forall_mem_singleton.2 hb)⟩
  join := by
    rintro op a _ b _ p _ ⟨rfl, ha⟩ ⟨rfl, hb⟩ ⟨rfl, hp⟩
    cases op <;> exact ⟨rfl, .intro hp rfl (forall_mem_pair ha hb)⟩
  unary := by
    rintro op a _ p _ ⟨rfl, ha⟩ ⟨rfl, hp⟩
    exact ⟨rfl, .intro hp rfl (forall_mem_singleton.2 ha)⟩
  ternary := by
    rintro a _ b _ d _ p _ ⟨rfl, ha⟩ ⟨rfl, hb⟩ ⟨rfl, hd⟩ ⟨rfl, hp⟩
    refine ⟨rfl, .around hp rfl (forall_mem_pair hb hd) ?_⟩
    exact forall_mem_cons.2 ⟨.inr ha, fun _ => .inl⟩
  assignVariable := by
    rintro s _ u _ p _ hs rfl ⟨rfl, hu⟩ ⟨rfl, hp⟩
    -- The only nodes with a target.
    refine ⟨rfl, .assemble hp (fun t ht => ?_) (fun _ _ _ hx => ?_) (fun _ hx => ?_) (fun _ hx => ?_)
      hu fun _ => .inl⟩
    · exact Option.mem_some.1 ht ▸ hs
    all_goals cases hx
  assignIndex := by
    rintro a _ i _ u _ p _ ⟨rfl, ha⟩ ⟨rfl, hi⟩ ⟨rfl, hu⟩ ⟨rfl, hp⟩
    exact ⟨rfl, .around hp rfl hu (u.beside ha hi)⟩
  assignField := by
    rintro a _ i _ u _ p _ ⟨rfl, ha⟩ ⟨rfl, hi⟩ ⟨rfl, hu⟩ ⟨rfl, hp⟩
    exact ⟨rfl, .around hp rfl hu (u.beside ha hi)⟩
  call := by
    rintro f _ l l' p _ ⟨rfl, hf⟩ hl ⟨rfl, hp⟩
    obtain ⟨rfl, items⟩ := forall₂_self_and.1 hl
    exact ⟨rfl, .around hp rfl (forall_mem_map.2 items)
      (forall_mem_cons.2 ⟨.inr hf, fun _ => .inl⟩)⟩
  native := by
    rintro name f l l' p _ - hl ⟨rfl, hp⟩
    obtain ⟨rfl, items⟩ := forall₂_self_and.1 hl
    exact ⟨rfl, .around hp rfl (forall_mem_map.2 items) fun _ => .inl⟩
  index := by
    rintro a _ i _ p _ ⟨rfl, ha⟩ ⟨rfl, hi⟩ ⟨rfl, hp⟩
    exact ⟨rfl, .intro hp rfl (forall_mem_pair ha hi)⟩
  field := by
    rintro a _ i _ p _ ⟨rfl, ha⟩ ⟨rfl, hi⟩ ⟨rfl, hp⟩
    exact ⟨rfl, .intro hp rfl (forall_mem_pair ha hi)⟩
  compare := by
    rintro s _ a _ p _ ⟨rfl, -⟩ ⟨rfl, ha⟩ ⟨rfl, hp⟩
    exact ⟨rfl, .intro hp rfl (forall_mem_pair (.leaf hp rfl rfl) ha)⟩
  set := by
    rintro e _ ⟨rfl, he⟩
    exact ⟨rfl, forall_mem_singleton.2 he⟩
  combine := by
    rintro op e _ ⟨rfl, he⟩
    exact ⟨rfl, forall_mem_singleton.2 he⟩
  step := ⟨rfl, forall_mem_nil _⟩
  expression := by
    rintro e _ p _ ⟨rfl, he⟩ ⟨rfl, hp⟩
    exact ⟨rfl, .intro hp rfl (forall_mem_singleton.2 he)⟩
  declare := by
    rintro s _ e _ p _ hs rfl ⟨rfl, he⟩ ⟨rfl, hp⟩
    exact ⟨rfl, he.declare hs hp⟩
  constant := by
    rintro s _ e _ p _ hs rfl ⟨rfl, he⟩ ⟨rfl, hp⟩
    refine ⟨rfl, ?_⟩
    split
    · exact .declare he.unboxed (by rw [hs]; rfl) hp
    · rename_i notDynamic
      exact .declare he.made (by rw [hs]; simpa using notDynamic) hp
  print := by
    rintro e _ p _ ⟨rfl, he⟩ ⟨rfl, hp⟩
    exact ⟨rfl, .intro hp rfl (forall_mem_singleton.2 he)⟩
  nested := by
    rintro b _ ⟨rfl, hb⟩
    exact ⟨rfl, hb⟩
  branch := by
    rintro e _ a _ o o' p _ ⟨rfl, he⟩ ⟨rfl, ha⟩ ho ⟨rfl, hp⟩
    obtain ⟨rfl, part⟩ := rel_self_and ho
    exact ⟨rfl, .intro hp rfl
      (forall_mem_cons.2 ⟨he, forall_mem_cons.2 ⟨ha, formed_option part⟩⟩)⟩
  loop := by
    rintro e _ a _ o o' l _ m _ p _ ⟨rfl, he⟩ ⟨rfl, ha⟩ ho rfl rfl ⟨rfl, hp⟩
    obtain ⟨rfl, part⟩ := rel_self_and ho
    exact ⟨rfl, .intro hp rfl
      (forall_mem_cons.2 ⟨he, forall_mem_cons.2 ⟨ha, formed_option part⟩⟩)⟩
  jump := by
    rintro l _ o o' p _ rfl ho ⟨rfl, hp⟩
    obtain ⟨rfl, part⟩ := rel_self_and ho
    exact ⟨rfl, .around hp rfl (forall_mem_map.2 fun e he => part e (Option.mem_toList.1 he))
      fun _ => .inl⟩
  target := by
    rintro l _ p _ rfl ⟨rfl, hp⟩
    exact ⟨rfl, .leaf hp rfl rfl⟩
  block := by
    rintro l l' v v' p _ hl hv ⟨rfl, hp⟩
    obtain ⟨rfl, items⟩ := forall₂_self_and.1 hl
    obtain rfl := forall₂_eq_eq_eq ▸ hv
    exact ⟨rfl, .sequence items _ hp⟩
  switch := by
    rintro s _ e _ o o' p _ ⟨rfl, hs⟩ ⟨rfl, he⟩ ho ⟨rfl, hp⟩
    obtain ⟨rfl, part⟩ := rel_self_and ho
    refine ⟨rfl, .sequence (forall_mem_cons.2 ⟨he.declare hs hp, fun a ha => ?_⟩) _ hp⟩
    exact part a (Option.mem_toList.1 ha)

/-! ### Compiled units -/

lemma made_of_parse {tokens} (hne : tokens ≠ []) {options natives linked supply} {u}
    (h : (parse tokens options natives linked supply).result = .ok u) :
    (Node.stmt (.block u.program.body)).From tokens := by
  have eof : tokens.getLastD default ∈ tokens := by
    rw [getLastD_eq_getLast?, getLast?_eq_some_getLast hne]
    exact getLast_mem hne
  have first : tokens.headD (tokens.getLastD default) ∈ tokens := by
    cases tokens with
    | nil => exact absurd rfl hne
    | cons t rest => exact mem_cons_self
  have known (t : Token) (ht : t ∈ tokens.getLastD default ::
      tokens.headD (tokens.getLastD default) :: tokens.dropLast) : t ∈ tokens :=
    forall_mem_cons.2 ⟨eof, forall_mem_cons.2 ⟨first, fun t ht => tokens.dropLast_subset ht⟩⟩
      t ht
  let linkedScope := linked.foldl Scope.link { kind := .linked }
  have unlabeled : linkedScope.labels = [] := Scope.labels_foldl_link _ _
  have parsed := (lawful_made tokens).parsed (tokens.dropLast.length + 1)
    ⟨tokens.getLastD default, options.strict, natives, tokens.dropLast.length + 1⟩
    (tokens.headD (tokens.getLastD default)) tokens.dropLast
    (fun t ht => ⟨rfl, rfl, rfl, ⟨rfl, .token (known t ht)⟩, fun _ => trivial, fun _ => rfl⟩)
    (fun _ _ _ => trivial) linkedScope linkedScope (forall₂_same.2 fun _ _ => rfl)
    ⟨unlabeled, unlabeled⟩ (i := supply.slot) (j := supply.label) (fun _ _ => rfl) (fun _ _ => rfl)
    (le_rfl) (le_rfl)
  generalize hx : (parseUnit _).run _ (.fresh _ _ _ supply.slot supply.label) = r at parsed
  simp only [parse, Parser.parse, Parser.new] at h
  split at h
  · rename_i statements s hr
    obtain rfl : r = .ok statements s := hx.symm.trans hr
    cases h
    cases parsed with
    | ok made =>
      -- The block of the whole unit stands at its first token.
      exact (Node.Formed.sequence (forall₂_self_and.1 made).2 _ (.token first)).made
  · cases h

/-- **All nodes of a compiled unit are made from the tokens of its source**, whether or not something
is wrong with it. -/
theorem made_of_compile {source} {options} {natives linked supply} {u}
    (h : (compile source options natives linked supply).result = .ok u) :
    (Node.stmt (.block u.program.body)).From (scan source options.file).tokens := by
  simp only [compile, Except.map] at h
  split at h <;> cases h
  rename_i v hv
  exact made_of_parse (u := v) (Scan.tokens_ne_nil _ _ _) hv

end DynScript
