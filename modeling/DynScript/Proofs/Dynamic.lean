import DynScript.Proofs.CodePlaces

/-!
# Dynamic positions

Some parts of compiled code have to give boxed values: what a variable is declared or assigned, the
arguments of calls, the items of arrays and fields of records, the branches of a condition and what a
call returns.

Main declarations: `Expr.Proper`, `proper_of_compile`.
-/

namespace DynScript

open List

section

variable (P : Slot → Prop)

mutual

/-- An expression with boxed values where they are due and the slots of `P`. -/
inductive Expr.Proper : Expr → Prop where
  | literal (value : Constant) (p : Location) : Expr.Proper (.literal value p)
  | read {slot} (hs : P slot) (p : Location) : Expr.Proper (.read slot p)
  | box {e : Expr} (hd : e.isDynamic = false) (h : Expr.Proper e) : Expr.Proper (.box e)
  | unbox {e} (h : Expr.Proper e) : Expr.Proper (.unbox e)
  | array {l} (hd : ∀ e ∈ l, e.isDynamic) (h : ∀ e ∈ l, Expr.Proper e) (p : Location) :
    Expr.Proper (.array l p)
  | record {l} {self} (hs : P self) (hd : ∀ f ∈ l, f.2.isDynamic)
    (h : ∀ f ∈ l, Expr.Proper f.2) (p : Location) : Expr.Proper (.record l self p)
  | function (name : String) {params} {body} (exit : Label)
    {self} (hp : ∀ s ∈ params, P s) (hs : ∀ s ∈ self, P s) (h : Block.Proper body)
    (p : Location) : Expr.Proper (.function name params body exit self p)
  | binary (op : BinaryOp) {l r} (hl : Expr.Proper l) (hr : Expr.Proper r) (p : Location) :
    Expr.Proper (.binary op l r p)
  | logical (op : LogicalOp) {l r} (hl : Expr.Proper l) (hr : Expr.Proper r)
    (p : Location) : Expr.Proper (.logical op l r p)
  | unary (op : UnaryOp) {e} (h : Expr.Proper e) (p : Location) :
    Expr.Proper (.unary op e p)
  | ternary {c a b : Expr} (da : a.isDynamic) (db : b.isDynamic) (hc : Expr.Proper c)
    (ha : Expr.Proper a) (hb : Expr.Proper b) (p : Location) : Expr.Proper (.ternary c a b p)
  | assignVariable {slot} {u} (hs : P slot) (hu : Update.Proper u)
    (p : Location) : Expr.Proper (.assignVariable slot u p)
  | assignIndex {c i} {u} (hc : Expr.Proper c) (hi : Expr.Proper i)
    (hu : Update.Proper u) (p : Location) : Expr.Proper (.assignIndex c i u p)
  | assignField {c i} {u} (hc : Expr.Proper c) (hi : Expr.Proper i)
    (hu : Update.Proper u) (p : Location) : Expr.Proper (.assignField c i u p)
  | call {f} {l} (hf : Expr.Proper f) (hd : ∀ e ∈ l, e.isDynamic)
    (h : ∀ e ∈ l, Expr.Proper e) (p : Location) : Expr.Proper (.call f l p)
  | native (name : String) (f : NativeFunction) {l} (hd : ∀ e ∈ l, e.isDynamic)
    (h : ∀ e ∈ l, Expr.Proper e) (p : Location) : Expr.Proper (.native name f l p)
  | index {c i} (hc : Expr.Proper c) (hi : Expr.Proper i) (p : Location) :
    Expr.Proper (.index c i p)
  | field {c i} (hc : Expr.Proper c) (hi : Expr.Proper i) (p : Location) :
    Expr.Proper (.field c i p)

/-- An update to a proper and dynamic value. -/
inductive Update.Proper : Update → Prop where
  | set {e : Expr} (hd : e.isDynamic) (h : Expr.Proper e) : Update.Proper (.set e)
  | combine (op : BinaryOp) {e : Expr} (hd : e.isDynamic) (h : Expr.Proper e) :
    Update.Proper (.combine op e)
  | step (op : UnaryOp) : Update.Proper (.step op)

/-- A statement of proper code. -/
inductive Stmt.Proper : Stmt → Prop where
  | expression {e} (h : Expr.Proper e) (p : Location) : Stmt.Proper (.expression e p)
  | declare {slot : Slot} {e : Expr} (hs : P slot) (hd : slot.constant = false → e.isDynamic)
    (h : Expr.Proper e) (p : Location) : Stmt.Proper (.declare slot e p)
  | print {e} (h : Expr.Proper e) (p : Location) : Stmt.Proper (.print e p)
  | block {b} (h : Block.Proper b) : Stmt.Proper (.block b)
  | branch {c} {a} {b} (hc : Expr.Proper c) (ha : Stmt.Proper a)
    (hb : ∀ s ∈ b, Stmt.Proper s) (p : Location) : Stmt.Proper (.branch c a b p)
  | loop {c} {a} {s} (exit next : Label) (hc : Expr.Proper c)
    (ha : Stmt.Proper a) (hs : ∀ e ∈ s, Expr.Proper e) (p : Location) :
    Stmt.Proper (.loop c a s exit next p)
  | jump (target : Label) {v} (hd : ∀ e ∈ v, e.isDynamic)
    (h : ∀ e ∈ v, Expr.Proper e) (p : Location) : Stmt.Proper (.jump target v p)
  | label (target : Label) (p : Location) : Stmt.Proper (.label target p)

/-- A block of proper code. -/
inductive Block.Proper : Block → Prop where
  | mk {l} {slots} (hs : ∀ s ∈ slots, P s) (h : ∀ s ∈ l, Stmt.Proper s)
    (p : Location) : Block.Proper (.mk l slots p)

end

end

/-- No condition on slots. -/
def anySlot : Slot → Prop := fun _ => True

namespace Node

/-- A node of proper code. -/
def Proper (P : Slot → Prop) : Node → Prop
  | expr e => e.Proper P
  | stmt s => s.Proper P

end Node

section

variable {P Q : Slot → Prop} {b : Block} {x : Node}

lemma Block.proper_iff :
    b.Proper P ↔ (∀ s ∈ b.slots, P s) ∧ ∀ s ∈ b.statements, s.Proper P := by
  cases b
  exact ⟨fun (.mk hs h _) => ⟨hs, h⟩, fun h => .mk h.1 h.2 _⟩

lemma Block.Proper.statements (h : b.Proper P) : ∀ s ∈ b.statements, s.Proper P :=
  (Block.proper_iff.1 h).2

lemma Block.Proper.slots (h : b.Proper P) : ∀ s ∈ b.slots, P s :=
  (Block.proper_iff.1 h).1

lemma Stmt.proper_block : (Stmt.block b).Proper P ↔ b.Proper P :=
  ⟨fun (.block h) => h, .block⟩

lemma Update.proper_iff {u : Update} :
    u.Proper P ↔ (∀ y ∈ u.nodes, y.isDynamic) ∧ ∀ y ∈ u.nodes, y.Proper P := by
  constructor
  · rintro (⟨hd, h⟩ | ⟨op, hd, h⟩ | op) <;> simp_all [Update.nodes, Node.isDynamic, Node.Proper]
  · cases u <;> rintro ⟨hd, h⟩ <;> constructor <;> simp_all [Update.nodes, Node.isDynamic, Node.Proper]

namespace Node

lemma proper_iff : x.Proper P ↔ (∀ s ∈ x.slot?, P s) ∧ (∀ s ∈ x.bound, P s) ∧
    (∀ y ∈ x.boxedParts, y.isDynamic) ∧ (∀ e, x = .expr (.box e) → e.isDynamic = false) ∧
      ∀ y ∈ x.children, y.Proper P := by
  cases x with
  | expr e =>
    constructor
    · intro h
      cases h <;> simp only [slot?, bound, boxedParts, children, Expr.nodes, forall_mem_map] <;>
        simp_all [Proper, isDynamic, Update.proper_iff, Stmt.proper_block] <;> grind
    · cases e <;> simp only [slot?, bound, boxedParts, children, Expr.nodes, forall_mem_map] <;>
        intro h <;> constructor <;>
        simp_all [Proper, isDynamic, or_imp, forall_and, Update.proper_iff, Stmt.proper_block] <;> grind
  | stmt s =>
    constructor
    · intro h
      cases h <;>
        simp_all [slot?, bound, boxedParts, children, Stmt.nodes, Proper, isDynamic, Block.proper_iff]
    · cases s <;> intro h <;> constructor <;>
        simp_all [slot?, bound, boxedParts, children, Stmt.nodes, Proper, isDynamic, Block.proper_iff]

lemma Proper.mono (h : ∀ s, P s → Q s) (k : x.Proper P) : x.Proper Q := by
  induction x using induct with
  | h x ih =>
    obtain ⟨hv, hs, hd, hb, hc⟩ := proper_iff.1 k
    exact proper_iff.2 ⟨fun s m => h s (hv s m), fun s m => h s (hs s m), hd, hb,
      fun y hy => ih y hy (hc y hy)⟩

end Node

section

variable (h : ∀ s, P s → Q s)
include h

lemma Expr.Proper.mono {e : Expr} (k : e.Proper P) : e.Proper Q :=
  Node.Proper.mono (x := .expr e) h k

lemma Stmt.Proper.mono {s : Stmt} (k : s.Proper P) : s.Proper Q :=
  Node.Proper.mono (x := .stmt s) h k

lemma Update.Proper.mono {u : Update} (k : u.Proper P) : u.Proper Q := by
  obtain ⟨hd, hc⟩ := Update.proper_iff.1 k
  exact Update.proper_iff.2 ⟨hd, fun y hy => (hc y hy).mono h⟩

lemma Block.Proper.mono (k : b.Proper P) : b.Proper Q :=
  Stmt.proper_block.1 ((Stmt.proper_block.2 k).mono h)

end

/-! ### Code that the parser makes

The slots of bound code are bound in it or around it.  That its parts are dynamic where they have to be
is part of how the parser makes it. -/

namespace Node

/-- The slots that are bound in a node. -/
def binders : Node → List Slot
  | expr e => e.binders
  | stmt s => s.binders

variable {V : List Slot} {y : Node}

lemma binders_perm (x : Node) : x.binders.Perm (x.bound ++ x.children.flatMap binders) := by
  have update (u : Update) : u.binders = u.nodes.flatMap binders := by
    cases u <;> simp [Update.binders, Update.nodes, binders]
  cases x with
  | expr e =>
    cases e <;> simp [binders, bound, children, Expr.binders, Expr.nodes, flatMap_map, Stmt.binders,
      update]
  | stmt s =>
    cases s with
    | block b =>
      cases b
      simp [binders, bound, children, Stmt.binders, Block.binders, Stmt.nodes, Block.slots,
        Block.statements, flatMap_map]
    | loop c a o =>
      cases o with
      | none => simp [binders, bound, children, Stmt.binders, Stmt.nodes]
      | some d =>
        simpa [binders, bound, children, Stmt.binders, Stmt.nodes] using
          perm_append_comm.append_left c.binders
    | branch _ _ o | jump _ o => cases o <;> simp [binders, bound, children, Stmt.binders, Stmt.nodes]
    | _ => simp [binders, bound, children, Stmt.binders, Stmt.nodes]

lemma mem_binders {s} : s ∈ x.binders ↔ s ∈ x.bound ∨ ∃ y ∈ x.children, s ∈ y.binders := by
  rw [x.binders_perm.mem_iff, mem_append, mem_flatMap]

lemma proper_of_made {T} (hV : ∀ s ∈ V, Q s) (h : x.From T) (hb : x.Bound V)
    (hs : ∀ s ∈ x.binders, Q s) : x.Proper Q := by
  induction x using induct generalizing V with
  | h x ih =>
    have own : ∀ s ∈ x.bound, Q s := fun s m => hs s (mem_binders.2 (.inl m))
    obtain ⟨slot, inside⟩ := bound_iff.1 hb
    refine proper_iff.2 ⟨fun s m => hV s (slot s m), own, h.self.dynamic, h.self.bare, fun y hy => ?_⟩
    exact ih y hy (forall_mem_append.2 ⟨own, hV⟩) (h.child hy) (inside y hy)
      fun s m => hs s (mem_binders.2 (.inr ⟨y, hy, m⟩))

end Node

lemma Block.proper_of_made {V T} (hV : ∀ s ∈ V, Q s) (b) (h : (Node.stmt (.block b)).From T)
    (hb : b.Bound V) (hs : ∀ s ∈ b.binders, Q s) : b.Proper Q := by
  refine Stmt.proper_block.1 (Node.proper_of_made (x := .stmt (.block b)) hV h ?_ ?_)
  · simpa only [Node.Bound, Stmt.Bound] using hb
  · simpa only [Node.binders, Stmt.binders] using hs

end

/-- **Compiled code is proper**, whether or not something is wrong with its source. -/
theorem proper_of_compile {source options natives linked supply} {u}
    (h : (compile source options natives linked supply).result = .ok u) :
    u.program.body.Proper anySlot :=
  u.program.body.proper_of_made (fun _ _ => trivial) (made_of_compile h) (scoped_of_compile h).bound
    fun _ _ => trivial

lemma Grammar.ok_of_switchStatement {g : Grammar} {keyword c s t a}
    (h : (g.switchStatement keyword).run c s = .ok a t) :
    ∃ slot e rest place,
      a = .block (.mk (.declare slot e place :: rest) [slot] place) ∧ slot.constant = false ∧
        e.isDynamic := by
  simp only [Grammar.switchStatement, Parse.run_bind, ParseResult.andThen_eq_ok] at h
  obtain ⟨_, _, -, subject, _, -, _, _, -, _, _, -, _, _, -, slot, _, hs, h⟩ := h
  obtain ⟨_, _, -, _, _, -, _, _, -, _, _, -, ⟨⟩⟩ := h
  cases hs
  exact ⟨_, _, _, _, rfl, rfl, subject.isDynamic_boxed⟩

end DynScript
