import QueryParity.Generator
import QueryParity.Proofs.RootSlots

/-!
# Which trees are grown

Whatever the random words are, a tree is grown from the slots, the literals and the operators of the
generator: each leaf is a placeholder of a slot of its type or a literal of its type, and each inner
node is an operator that yields the type asked for, over trees of its operand types. The slots are
touched by requests only, one for each leaf that is not the literal second operand of an operator.
-/

namespace QueryParity

open RootSlots

namespace Generator

variable {σ α β : Type} {slots : List ValueType}

/-- What follows a step runs on its result, with the supply that it left. -/
theorem run_bind_eq {m : StateM (Supply σ) α} {f : α → StateM (Supply σ) β} {a : α}
    {s s' : Supply σ} (h : m.run s = (a, s')) : (m >>= f).run s = (f a).run s' := by
  rw [StateT.run_bind, h]
  rfl

/-- A tree of a type over placeholders for slots of the given types, put together from the literals
and the operators of a generator. -/
inductive Grows (g : Generator) (slots : List ValueType) : ValueType → Expr → Prop where
  /-- A placeholder of a slot. -/
  | root {index : Nat} {type : ValueType} : slots[index]? = some type →
      Grows g slots type (.root index type)
  /-- A literal. -/
  | literal {type : ValueType} {v : Value} : v ∈ g.constants.constantsOf type →
      Grows g slots type (.const v)
  /-- The null of a type without literals. -/
  | null {type : ValueType} : g.constants.constantsOf type = [] → Grows g slots type (.null type)
  /-- An operator over two trees. -/
  | binary {e : Catalog.BinaryEntry} {lhs rhs : Expr} : .binary e ∈ g.catalog.entries →
      Grows g slots e.lhs lhs → Grows g slots e.rhs rhs → Grows g slots e.result (e.build lhs rhs)
  /-- An operator over one tree. -/
  | unary {e : Catalog.UnaryEntry} {operand : Expr} : .unary e ∈ g.catalog.entries →
      Grows g slots e.input operand → Grows g slots e.result (e.build operand)

/-- A tree of a type that is put together in this way, with the requests for slots that were made
on the way. -/
inductive Grown (g : Generator) : ValueType → Expr → List Request → Prop where
  /-- A placeholder of the slot that was handed out. -/
  | root {index : Nat} {type : ValueType} : Grown g type (.root index type) [⟨type, some index⟩]
  /-- A literal, asked for at once or after no slot was handed out. -/
  | literal {type : ValueType} {v : Value} {requests : List Request} :
      v ∈ g.constants.constantsOf type → answers requests = [] → Grown g type (.const v) requests
  /-- The null of a type without literals. -/
  | null {type : ValueType} {requests : List Request} : g.constants.constantsOf type = [] →
      answers requests = [] → Grown g type (.null type) requests
  /-- An operator over two trees. -/
  | binary {e : Catalog.BinaryEntry} {lhs rhs : Expr} {left right : List Request} :
      .binary e ∈ g.catalog.entries → Grown g e.lhs lhs left → Grown g e.rhs rhs right →
      Grown g e.result (e.build lhs rhs) (left ++ right)
  /-- An operator over one tree. -/
  | unary {e : Catalog.UnaryEntry} {operand : Expr} {requests : List Request} :
      .unary e ∈ g.catalog.entries → Grown g e.input operand requests →
      Grown g e.result (e.build operand) requests

/-- The placeholders of a tree stand for slots if those that were handed out for it have the types
asked for. -/
theorem Grown.grows {g : Generator} {type : ValueType} {tree : Expr} {requests : List Request}
    (h : g.Grown type tree requests)
    (hslots : ∀ r ∈ requests, ∀ i, r.answer = some i → slots[i]? = some r.type) :
    g.Grows slots type tree := by
  induction h with
  | root => exact .root (hslots _ List.mem_cons_self _ rfl)
  | literal hv _ => exact .literal hv
  | null hnone _ => exact .null hnone
  | binary he _ _ ihl ihr =>
    exact .binary he (ihl fun r hr => hslots r (List.mem_append_left _ hr))
      (ihr fun r hr => hslots r (List.mem_append_right _ hr))
  | unary he _ ih => exact .unary he (ih hslots)

/-- A step of growth makes requests for slots and touches the slots in no other way, and the result
and the requests have the property. -/
def Yields (P : α → List Request → Prop) (m : StateM (Supply σ) α) : Prop :=
  ∀ s, ∃ requests, Takes s.slots requests (m.run s).2.slots ∧ P (m.run s).1 requests

namespace Yields

/-- No step at all. -/
theorem pure {P : α → List Request → Prop} {a : α} (h : P a []) :
    Yields P (Pure.pure a : StateM (Supply σ) α) :=
  fun s => ⟨[], .refl s.slots, h⟩

/-- Steps one after the other. -/
theorem bind {P : α → List Request → Prop} {Q : β → List Request → Prop} {m : StateM (Supply σ) α}
    {f : α → StateM (Supply σ) β} (hm : Yields P m)
    (hf : ∀ a requests, P a requests → Yields (fun b more => Q b (requests ++ more)) (f a)) :
    Yields Q (m >>= f) := by
  intro s
  obtain ⟨requests, htakes, ha⟩ := hm s
  obtain ⟨more, hmore, hb⟩ := hf _ _ ha (m.run s).2
  exact ⟨requests ++ more, htakes.trans hmore, hb⟩

/-- What has a property has a weaker one. -/
theorem mono {P Q : α → List Request → Prop} {m : StateM (Supply σ) α} (hm : Yields P m)
    (hPQ : ∀ a requests, P a requests → Q a requests) : Yields Q m := by
  intro s
  obtain ⟨requests, htakes, ha⟩ := hm s
  exact ⟨requests, htakes, hPQ _ _ ha⟩

/-- A draw leaves the slots. -/
theorem draw {P : α → List Request → Prop} {f : σ → α × σ} (h : ∀ rng, P (f rng).1 []) :
    Yields P (Generator.draw f) :=
  fun s => ⟨[], .refl s.slots, h s.rng⟩

end Yields

variable [RandomSource σ] {g : Generator}

/-- A literal is grown without a request, and also after requests that were refused. -/
theorem yields_literal (type : ValueType) :
    Yields (fun tree requests => requests = [] ∧
        ∀ refused, answers refused = [] → g.Grown type tree refused)
      (g.literal type : StateM (Supply σ) Expr) := by
  unfold literal
  refine .bind (.draw (P := fun chosen requests => requests = [] ∧ (∀ v, chosen = some v →
    v ∈ g.constants.constantsOf type) ∧ (chosen = none → g.constants.constantsOf type = []))
    fun rng => ⟨rfl, fun v => RandomSource.mem_of_choose, RandomSource.eq_nil_of_choose⟩) ?_
  rintro (_ | v) _ ⟨rfl, hsome, hnone⟩
  · exact .pure ⟨rfl, fun _ => .null (hnone rfl)⟩
  · exact .pure ⟨rfl, fun _ => .literal (hsome v rfl)⟩

/-- Taking a slot is one request. -/
theorem yields_takeSlot (type : ValueType) :
    Yields (fun taken requests => requests = [⟨type, taken⟩])
      (takeSlot type : StateM (Supply σ) (Option Nat)) :=
  fun s => ⟨_, (Takes.refl s.slots).take type s.rng, rfl⟩

/-- A leaf is grown. -/
theorem yields_leaf (type : ValueType) :
    Yields (g.Grown type) (g.leaf type : StateM (Supply σ) Expr) := by
  unfold leaf
  refine (yields_takeSlot type).bind ?_
  rintro (_ | i) _ rfl
  · refine (yields_literal type).mono ?_
    rintro tree _ ⟨rfl, hgrown⟩
    exact hgrown _ rfl
  · exact .pure .root

/-- An operator with which a branch goes on is registered for the type asked for. -/
theorem yields_nextOperator? (type : ValueType) (remaining : Nat) :
    Yields (fun next requests => requests = [] ∧
        ∀ e, next = some e → e ∈ g.catalog.entries ∧ e.result = type)
      (g.nextOperator? type remaining : StateM (Supply σ) (Option Catalog.Entry)) := by
  unfold nextOperator?
  split
  · exact .pure ⟨rfl, nofun⟩
  · refine .bind (.draw (P := fun _ requests => requests = []) fun _ => rfl) ?_
    rintro limit _ rfl
    split
    · refine .draw fun rng => ⟨rfl, fun e he => ?_⟩
      exact Catalog.mem_operatorsOf.mp (RandomSource.mem_of_choose he)
    · exact .pure ⟨rfl, nofun⟩

/-- Whether a literal is wanted does not concern the slots. -/
theorem yields_wantsLiteral :
    Yields (fun _ requests => requests = []) (g.wantsLiteral : StateM (Supply σ) Bool) := by
  unfold wantsLiteral
  split
  · exact .pure rfl
  · exact .draw fun _ => rfl

/-- A tree of the type asked for is grown. -/
theorem yields_grow (remaining : Nat) (type : ValueType) :
    Yields (g.Grown type) (g.grow remaining type : StateM (Supply σ) Expr) := by
  induction remaining generalizing type with
  | zero => exact yields_leaf type
  | succ remaining ih =>
    rw [grow]
    refine (yields_nextOperator? type (remaining + 1)).bind ?_
    rintro (_ | e) _ ⟨rfl, hnext⟩
    · exact yields_leaf type
    · obtain ⟨hmem, rfl⟩ := hnext e rfl
      cases e with
      | binary e =>
        refine (ih e.lhs).bind fun lhs left hl => yields_wantsLiteral.bind ?_
        rintro wanted _ rfl
        have hbuild : ∀ rhs right, g.Grown e.rhs rhs right →
            Yields (fun tree requests => g.Grown e.result tree (left ++ (right ++ requests)))
              (Pure.pure (e.build lhs rhs) : StateM (Supply σ) Expr) := by
          intro rhs right hr
          refine .pure ?_
          rw [List.append_nil]
          exact .binary hmem hl hr
        split
        · refine (yields_literal e.rhs).bind ?_
          rintro rhs _ ⟨rfl, hgrown⟩
          exact hbuild rhs [] (hgrown [] rfl)
        · exact (ih e.rhs).bind hbuild
      | unary e =>
        refine (ih e.input).bind fun operand requests ho => .pure ?_
        rw [List.append_nil]
        exact .unary hmem ho

/-- A tree is generated by requests to the slots of the supply. -/
theorem exists_takes_generate (g : Generator) (target : ValueType) (supply : Supply σ) :
    ∃ requests, Takes supply.slots requests (g.generate target supply).value.2.slots ∧
      g.Grown target (g.generate target supply).value.1 requests :=
  yields_grow g.maxDepth target supply

/-- A generated tree is grown from the slots of the supply. -/
theorem grows_generate (g : Generator) (target : ValueType) (supply : Supply σ) :
    Grows g supply.slots.types target (g.generate target supply).value.1 := by
  obtain ⟨requests, htakes, hgrown⟩ := exists_takes_generate g target supply
  exact hgrown.grows fun r hr i hi => htakes.getElem?_of_mem hr hi

end Generator

end QueryParity
