import QueryParity.Proofs.Catalog
import QueryParity.Proofs.Expr.MapRoots
import QueryParity.Proofs.Generator

/-!
# Grown trees are well typed

A tree that is grown from operators with signatures has the type asked for. Its placeholders stand
for slots of their types, and there are no fields in it. If no operator takes a zone as operand, the
only zone to which a date-time is changed is `UTC`; once its placeholders are bound to columns, such
a tree can only divide by zero.
-/

namespace QueryParity

variable {functions : Func → Prop} {slots : List ValueType} {type : ValueType} {e : Expr}

/-- A tree of a type that is put together from placeholders for slots, literals, operators and the
given functions. -/
inductive Expr.Assembled (functions : Func → Prop) (slots : List ValueType) :
    ValueType → Expr → Prop where
  /-- A placeholder of a slot. -/
  | root {index : Nat} {type : ValueType} : slots[index]? = some type →
      Assembled functions slots type (.root index type)
  /-- A literal. -/
  | const (v : Value) : Assembled functions slots v.type (.const v)
  /-- A binary operator. -/
  | binary {op : BinaryOp} {lt rt type : ValueType} {l r : Expr} :
      op.resultType lt rt = some type → Assembled functions slots lt l →
      Assembled functions slots rt r → Assembled functions slots type (.binary op l r)
  /-- A function. -/
  | call {f : Func} {ta tb type : ValueType} {a b : Expr} : functions f →
      f.resultType [ta, tb] = some type → Assembled functions slots ta a →
      Assembled functions slots tb b → Assembled functions slots type (.call f [a, b])
  /-- A unary operator. -/
  | unary {op : UnaryOp} {t type : ValueType} {a : Expr} : op.resultType t = some type →
      Assembled functions slots t a → Assembled functions slots type (.unary op a)
  /-- A change to the zone `UTC`. -/
  | utc {a : Expr} : Assembled functions slots .dateTime a →
      Assembled functions slots .dateTime (.atUtc a)

/-- A tree that is grown over typed entries is put together from their operators and functions. -/
theorem Generator.Grows.assembled {g : Generator} (h : g.Grows slots type e)
    (hentries : ∀ entry ∈ g.catalog.entries, entry.Typed functions) :
    e.Assembled functions slots type := by
  induction h with
  | root hslot => exact .root hslot
  | @literal type v hv =>
    have hvtype : v.type = type := of_decide_eq_true (List.mem_filter.mp hv).2
    rw [← hvtype]
    exact .const v
  | @null type _ => exact .const (.null type)
  | binary hmem _ _ ihl ihr =>
    cases hentries _ hmem with
    | binary ht => exact .binary ht ihl ihr
    | call hf ht => exact .call hf ht ihl ihr
  | unary hmem _ ih =>
    cases hentries _ hmem with
    | unary ht => exact .unary ht ih
    | utc => exact .utc ih

/-- A node as there may be: a placeholder of a slot, no field, and no change of zone other than to
`UTC`. -/
def Expr.Admissible (slots : List ValueType) : Expr → Prop
  | .root index type => slots[index]? = some type
  | .field _ _ => False
  | .call .atTimeZone [_, zone] => zone = .stringLit "UTC"
  | _ => True

namespace Expr.Assembled

/-- The tree has the type. -/
theorem infer_eq (h : e.Assembled functions slots type) : e.infer = .ok type := by
  induction h with
  | root _ | const _ => rfl
  | binary ht _ _ ihl ihr => exact infer_binary_eq_ok_iff.mpr ⟨_, _, ihl, ihr, ht⟩
  | call _ ht _ _ iha ihb => exact infer_call_eq_ok_iff.mpr ⟨_, _, _, _, rfl, iha, ihb, ht⟩
  | unary ht _ ih => exact infer_unary_eq_ok_iff.mpr ⟨_, ih, ht⟩
  | utc _ ih => exact infer_call_eq_ok_iff.mpr ⟨_, _, _, _, rfl, ih, rfl, rfl⟩

/-- Every node of the tree is admissible, if no function changes the zone. -/
theorem admissible (h : e.Assembled (· ≠ .atTimeZone) slots type) :
    ∀ n ∈ e.preorder, Admissible slots n := by
  induction h with
  | root hslot =>
    intro n hn
    rw [mem_preorder_root.mp hn]
    exact hslot
  | const v =>
    intro n hn
    rw [mem_preorder_const.mp hn]
    trivial
  | binary _ _ _ ihl ihr =>
    intro n hn
    obtain rfl | hn | hn := mem_preorder_binary.mp hn
    · trivial
    · exact ihl n hn
    · exact ihr n hn
  | @call f _ _ _ a b hf _ _ _ iha ihb =>
    intro n hn
    obtain rfl | ⟨arg, harg, hmem⟩ := mem_preorder_call.mp hn
    · cases f with
      | atTimeZone => exact absurd rfl hf
      | _ => trivial
    · obtain rfl | rfl : arg = a ∨ arg = b := by simpa using harg
      · exact iha n hmem
      · exact ihb n hmem
  | unary _ _ ih =>
    intro n hn
    obtain rfl | hn := mem_preorder_unary.mp hn
    · trivial
    · exact ih n hn
  | @utc a _ ih =>
    intro n hn
    obtain rfl | ⟨arg, harg, hmem⟩ := mem_preorder_call.mp hn
    · rfl
    · obtain rfl | rfl : arg = a ∨ arg = .stringLit "UTC" := by simpa using harg
      · exact ih n hmem
      · rw [mem_preorder_const.mp hmem]
        trivial

end Expr.Assembled

/-- Binding placeholders to columns leaves every change of zone one to `UTC`. -/
theorem Expr.zone_eq_of_mem_mapRoots {slots : List ValueType} {e a b : Expr}
    (hnodes : ∀ n ∈ e.preorder, Admissible slots n)
    (h : .call .atTimeZone [a, b] ∈ (e.mapRoots .field).preorder) : b = .stringLit "UTC" := by
  obtain ⟨m, hmem, -, hm⟩ | ⟨i, t, -, hfield⟩ := boundNode_of_mem h
  · cases m with
    | call g args =>
      obtain ⟨rfl, hargs⟩ := call.inj hm
      obtain _ | ⟨a', _ | ⟨b', _ | ⟨_, _⟩⟩⟩ := args <;> cases hargs
      have hzone : b' = .stringLit "UTC" := hnodes _ hmem
      rw [hzone]
      rfl
    | _ => cases hm
  · cases mem_preorder_field.mp hfield

/-- Division by zero is the only fault that is possible in a tree with admissible nodes whose
placeholders are bound to columns. -/
theorem Expr.eq_divideByZero_of_possibleFault {slots : List ValueType} {e : Expr}
    {row : List Value} {fault : Fault} (hnodes : ∀ n ∈ e.preorder, Admissible slots n)
    (h : PossibleFault row (e.mapRoots .field) fault) : fault = .divideByZero := by
  cases h with
  | divideByZero => rfl
  | unboundRoot hroot =>
    obtain ⟨m, -, -, hm⟩ | ⟨i, t, -, hfield⟩ := boundNode_of_mem hroot
    · cases m <;> cases hm
    · cases mem_preorder_field.mp hfield
  | unknownTimeZone hcall hb hz =>
    rw [zone_eq_of_mem_mapRoots hnodes hcall] at hb
    cases hb
    rw [ZoneOffset.ofText?_utc] at hz
    cases hz

end QueryParity
