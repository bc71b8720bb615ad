import QueryParity.Proofs.Generator.Trees
import QueryParity.Random.Cycle

/-!
# Inner nodes of a tree are applications of registered operators

A catalog tries each operator on placeholders only, once. What it accepts holds over all operands
all the same: whatever the random words are, a generated tree has the type asked for, and each of
its inner nodes is what a registered operator of the node's type builds over operands of exactly
the types that the operator declares.
-/

namespace QueryParity

/-- Whether a node applies an operator or a function, so that it is not a leaf. -/
def Expr.IsApplication (node : Expr) : Prop :=
  node.kind = .binary ∨ node.kind = .unary ∨ node.kind = .call

/-- No node of a literal is an application. -/
theorem Expr.not_isApplication_of_mem_const {v : Value} {node : Expr}
    (h : node ∈ (Expr.const v).preorder) : ¬ node.IsApplication := by
  rw [mem_preorder_const.mp h]
  rintro (hkind | hkind | hkind) <;> cases hkind

/-- No node of a placeholder is an application. -/
theorem Expr.not_isApplication_of_mem_root {index : Nat} {type : ValueType} {node : Expr}
    (h : node ∈ (Expr.root index type).preorder) : ¬ node.IsApplication := by
  rw [mem_preorder_root.mp h]
  rintro (hkind | hkind | hkind) <;> cases hkind

namespace Catalog

/-- A node is what an operator builds over its two children, which have the declared types. -/
def BinaryEntry.Builds (e : BinaryEntry) (node : Expr) : Prop :=
  ∃ l r, node.children = [l, r] ∧ node = e.build l r ∧ l.infer = .ok e.lhs ∧ r.infer = .ok e.rhs

/-- A node is what an operator builds over its one child, which has the declared type. The change to
`UTC` has one operand as well; the zone is a second child that the operator brings along. -/
def UnaryEntry.Builds (e : UnaryEntry) (node : Expr) : Prop :=
  ∃ a, (node.children = [a] ∨ e.build = Expr.atUtc ∧ node.children = [a, .stringLit "UTC"]) ∧
    node = e.build a ∧ a.infer = .ok e.input

/-- A node applies an operator that is registered for the node's type. -/
inductive Applies (c : Catalog) (node : Expr) : Prop where
  /-- An operator with two operands. -/
  | binary (e : BinaryEntry) (type : ValueType) : node.infer = .ok type → e ∈ c.binariesOf type →
      e.Builds node → Applies c node
  /-- An operator with one operand. -/
  | unary (e : UnaryEntry) (type : ValueType) : node.infer = .ok type → e ∈ c.unariesOf type →
      e.Builds node → Applies c node

variable {functions : Func → Prop}

/-- A typed operator with two operands builds a node with these children. -/
theorem BinaryEntry.children_build {e : BinaryEntry} (h : (Entry.binary e).Typed functions)
    (l r : Expr) : (e.build l r).children = [l, r] := by
  cases h with
  | binary _ => rfl
  | call _ _ => rfl

/-- A typed operator with one operand builds a node with this child, or is the change to `UTC`. -/
theorem UnaryEntry.children_build {e : UnaryEntry} (h : (Entry.unary e).Typed functions)
    (a : Expr) : (e.build a).children = [a] ∨
      e.build = Expr.atUtc ∧ (e.build a).children = [a, .stringLit "UTC"] := by
  cases h with
  | unary _ => exact .inl rfl
  | utc => exact .inr ⟨rfl, rfl⟩

end Catalog

namespace Generator

variable {functions : Func → Prop} {g : Generator} {slots : List ValueType} {type : ValueType}
  {e : Expr}

/-- Every inner node of a tree that is grown over typed entries applies one of them. -/
theorem Grows.applies (h : g.Grows slots type e)
    (hentries : ∀ entry ∈ g.catalog.entries, entry.Typed functions) :
    ∀ node ∈ e.preorder, node.IsApplication → g.catalog.Applies node := by
  have hinfer {type : ValueType} {e : Expr} (h : g.Grows slots type e) : e.infer = .ok type :=
    (h.assembled hentries).infer_eq
  induction h with
  | root _ =>
    exact fun node hnode happlication =>
      absurd happlication (Expr.not_isApplication_of_mem_root hnode)
  | literal _ | null _ =>
    exact fun node hnode happlication =>
      absurd happlication (Expr.not_isApplication_of_mem_const hnode)
  | @binary entry l r hmem hl hr ihl ihr =>
    have hchildren := Catalog.BinaryEntry.children_build (hentries _ hmem) l r
    intro node hnode
    obtain rfl | ⟨child, hchild, hbelow⟩ := Expr.mem_preorder_iff.mp hnode
    · intro _
      exact .binary entry entry.result (hinfer (.binary hmem hl hr)) (Catalog.mem_binariesOf hmem)
        ⟨l, r, hchildren, rfl, hinfer hl, hinfer hr⟩
    · obtain rfl | rfl : child = l ∨ child = r := by simpa [hchildren] using hchild
      · exact ihl node hbelow
      · exact ihr node hbelow
  | @unary entry a hmem ha ih =>
    have hchildren := Catalog.UnaryEntry.children_build (hentries _ hmem) a
    intro node hnode
    obtain rfl | ⟨child, hchild, hbelow⟩ := Expr.mem_preorder_iff.mp hnode
    · intro _
      exact .unary entry entry.result (hinfer (.unary hmem ha)) (Catalog.mem_unariesOf hmem)
        ⟨a, hchildren, rfl, hinfer ha⟩
    · obtain hone | ⟨-, hzone⟩ := hchildren
      · obtain rfl : child = a := by simpa [hone] using hchild
        exact ih node hbelow
      · obtain rfl | rfl : child = a ∨ child = .stringLit "UTC" := by simpa [hzone] using hchild
        · exact ih node hbelow
        · intro happlication
          exact absurd happlication (Expr.not_isApplication_of_mem_const hbelow)

/-- Over an accepted catalog whose builders are plain, with any literals, any slots and any random
words, a generated tree has the type asked for, and every inner node of it is what an operator that
is registered for the node's type builds over operands of the declared types. -/
theorem generated_tree_applies_catalog {σ : Type} [RandomSource σ]
    (ds : List Catalog.Descriptor) (c : Catalog) (h : Catalog.ofDescriptors ds = .ok c)
    (hds : ∀ d ∈ ds, d.builder.Plain fun _ => True) (constants : ConstantPool)
    (maxDepth odds : Nat) (target : ValueType) (supply : Supply σ) :
    let tree := (generate ⟨c, constants, maxDepth, odds⟩ target supply).value.1
    tree.infer = .ok target ∧ ∀ node ∈ tree.preorder, node.IsApplication → c.Applies node := by
  have hentries := Catalog.typed_of_ofDescriptors h hds
  have hgrown := grows_generate ⟨c, constants, maxDepth, odds⟩ target supply
  exact ⟨(hgrown.assembled hentries).infer_eq, hgrown.applies hentries⟩

/-- A change to `UTC` over a change to another zone: each is what its own operator builds, and the
zone of the upper one is not an operand. -/
theorem generated_zone_changes_apply_catalog :
    let ds : List Catalog.Descriptor :=
      [.binary "AtTimeZone" .dateTime .string .dateTime .atTimeZone,
        .unary "AtTimeZone" .dateTime .dateTime .atUtc]
    let lower : Expr := .atTimeZone (.root 0 .dateTime) (.stringLit "+02:00")
    ∃ c, Catalog.ofDescriptors ds = .ok c ∧
      (generate ⟨c, ⟨[.string "+02:00"]⟩, 2, 1⟩ .dateTime
        ⟨⟨[.dateTime], #[false], []⟩, WordCycle.ofList [0, 2147483648, 2147483648, 0]⟩).value.1 =
          .atUtc lower ∧
      (Expr.atUtc lower).infer = .ok .dateTime ∧ c.Applies (.atUtc lower) ∧ c.Applies lower := by
  intro ds lower
  have hds : ∀ d ∈ ds, d.builder.Plain fun _ => True := by
    simp only [ds, List.forall_mem_cons]
    exact ⟨.call (f := .atTimeZone) trivial, .utc, nofun⟩
  obtain ⟨c, hc⟩ : ∃ c, Catalog.ofDescriptors ds = .ok c := ⟨_, rfl⟩
  obtain ⟨htype, hnodes⟩ := generated_tree_applies_catalog ds c hc hds ⟨[.string "+02:00"]⟩ 2 1
    .dateTime ⟨⟨[.dateTime], #[false], []⟩, WordCycle.ofList [0, 2147483648, 2147483648, 0]⟩
  have hlower : lower ∈ (Expr.atUtc lower).preorder :=
    Expr.mem_preorder_of_mem_args List.mem_cons_self (Expr.self_mem_preorder lower)
  cases hc
  exact ⟨_, rfl, rfl, htype, hnodes _ (Expr.self_mem_preorder _) (.inr (.inr rfl)),
    hnodes _ hlower (.inr (.inr rfl))⟩

end Generator

end QueryParity
