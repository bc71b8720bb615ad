import QueryParity.Proofs.Expr.Walk
import QueryParity.Proofs.Generator.Applications

/-!
# Depth of a tree

Growth counts the levels that are left. Here it is told from the top downwards, without a bound on
the recursion: a branch at some depth goes on one level deeper or ends, and only the decision to go
on knows of the maximum depth. A descent that began at the top always comes to an end, in one way
only, and its tree is the generated one. Since the operands of an operator are one level deeper, and
a literal that an operator brings along is a leaf, no path is longer than the maximum depth.
-/

namespace QueryParity

namespace Catalog

variable {functions : Func → Prop} {n : Nat} {l r a : Expr}

/-- A node is one level higher than its operands. -/
theorem BinaryEntry.height_build_le {e : BinaryEntry} (h : (Entry.binary e).Typed functions)
    (hl : l.height ≤ n) (hr : r.height ≤ n) : (e.build l r).height ≤ n + 1 := by
  rw [Expr.height_eq, children_build h]
  simp only [Expr.heightBelow]
  omega

/-- A node is one level higher than its operand, also if it brings the zone `UTC` along. -/
theorem UnaryEntry.height_build_le {e : UnaryEntry} (h : (Entry.unary e).Typed functions)
    (ha : a.height ≤ n) : (e.build a).height ≤ n + 1 := by
  have hzone : (Expr.stringLit "UTC").height = 0 := rfl
  rw [Expr.height_eq]
  obtain hone | ⟨-, htwo⟩ := children_build h a
  · simp only [hone, Expr.heightBelow]
    omega
  · simp only [htwo, Expr.heightBelow, hzone]
    omega

end Catalog

namespace Generator

variable {σ : Type} {g : Generator} {depth : Nat} {type : ValueType} {s s' : Supply σ} {tree : Expr}

variable [RandomSource σ]

/-- The operator with which a branch goes on at a depth, `none` if the branch ends. It ends at the
maximum depth and at a type without operators, and more likely the deeper it is. -/
def operatorAt? (g : Generator) (type : ValueType) (depth : Nat) :
    StateM (Supply σ) (Option Catalog.Entry) :=
  if g.catalog.countOf type = 0 ∨ g.maxDepth ≤ depth then pure none
  else do
    let limit ← draw (RandomSource.below g.maxDepth)
    if depth ≤ limit then draw (RandomSource.choose (g.catalog.operatorsOf type)) else pure none

/-- `g.Descends depth type s tree s'`: a branch of a type that begins at a depth with the supply `s`
comes to an end with the tree, and leaves the supply `s'`. -/
inductive Descends (g : Generator) :
    Nat → ValueType → Supply σ → Expr → Supply σ → Prop where
  /-- The branch ends in a leaf. -/
  | leaf {depth : Nat} {type : ValueType} {s s₁ rest : Supply σ} {tree : Expr} :
      (g.operatorAt? type depth).run s = (none, s₁) → (g.leaf type).run s₁ = (tree, rest) →
      Descends g depth type s tree rest
  /-- An operator over two branches. -/
  | binary {depth : Nat} {type : ValueType} {s s₁ s₂ s₃ rest : Supply σ} {e : Catalog.BinaryEntry}
      {lhs rhs : Expr} : (g.operatorAt? type depth).run s = (some (.binary e), s₁) →
      Descends g (depth + 1) e.lhs s₁ lhs s₂ → g.wantsLiteral.run s₂ = (false, s₃) →
      Descends g (depth + 1) e.rhs s₃ rhs rest → Descends g depth type s (e.build lhs rhs) rest
  /-- An operator over a branch and a literal. -/
  | literal {depth : Nat} {type : ValueType} {s s₁ s₂ s₃ rest : Supply σ}
      {e : Catalog.BinaryEntry} {lhs rhs : Expr} :
      (g.operatorAt? type depth).run s = (some (.binary e), s₁) →
      Descends g (depth + 1) e.lhs s₁ lhs s₂ → g.wantsLiteral.run s₂ = (true, s₃) →
      (g.literal e.rhs).run s₃ = (rhs, rest) → Descends g depth type s (e.build lhs rhs) rest
  /-- An operator over one branch. -/
  | unary {depth : Nat} {type : ValueType} {s s₁ rest : Supply σ} {e : Catalog.UnaryEntry}
      {operand : Expr} : (g.operatorAt? type depth).run s = (some (.unary e), s₁) →
      Descends g (depth + 1) e.input s₁ operand rest →
      Descends g depth type s (e.build operand) rest

/-- An operator with which a branch goes on is registered, and the branch is not yet at the maximum
depth. -/
theorem operatorAt?_eq_some {e : Catalog.Entry}
    (h : (g.operatorAt? type depth).run s = (some e, s')) :
    depth < g.maxDepth ∧ e ∈ g.catalog.entries := by
  unfold operatorAt? at h
  split at h
  · cases h
  · rename_i hgoes
    refine ⟨by omega, ?_⟩
    rcases hlimit : (draw (RandomSource.below g.maxDepth)).run s with ⟨limit, s₁⟩
    rw [run_bind_eq hlimit] at h
    split at h
    · have hchoice : (RandomSource.choose (g.catalog.operatorsOf type) s₁.rng).1 = some e :=
        congrArg Prod.fst h
      exact (Catalog.mem_operatorsOf.mp (RandomSource.mem_of_choose hchoice)).1
    · cases h

/-- Where no level is left, a branch ends. -/
theorem operatorAt?_maxDepth (g : Generator) (type : ValueType) :
    (g.operatorAt? type g.maxDepth : StateM (Supply σ) _) = pure none :=
  if_pos (.inr (Nat.le_refl _))

/-- Where a level is left, the decision to go on is that of growth. -/
theorem operatorAt?_eq {remaining : Nat} (h : depth + (remaining + 1) = g.maxDepth) :
    (g.operatorAt? type depth : StateM (Supply σ) _) = g.nextOperator? type (remaining + 1) := by
  have hlevel : ¬ g.maxDepth ≤ depth := by omega
  have hdepth : g.maxDepth - (remaining + 1) = depth := by omega
  simp only [operatorAt?, nextOperator?, hlevel, hdepth, or_false]

/-- A branch that goes on has a level left, and goes on with the same operator in growth. -/
theorem nextOperator?_of_operatorAt? {e : Catalog.Entry} {remaining : Nat}
    (hgoes : (g.operatorAt? type depth).run s = (some e, s'))
    (hlevels : depth + remaining = g.maxDepth) :
    ∃ below, remaining = below + 1 ∧ depth + 1 + below = g.maxDepth ∧
      (g.nextOperator? type (below + 1)).run s = (some e, s') := by
  obtain ⟨hlt, -⟩ := operatorAt?_eq_some hgoes
  obtain ⟨below, rfl⟩ := Nat.exists_eq_add_one_of_ne_zero (by omega : remaining ≠ 0)
  rw [operatorAt?_eq hlevels] at hgoes
  exact ⟨below, rfl, by omega, hgoes⟩

/-- A descent comes to the end that growth by the levels that are left comes to. -/
theorem Descends.run_grow (h : g.Descends depth type s tree s') {remaining : Nat}
    (hlevels : depth + remaining = g.maxDepth) : (g.grow remaining type).run s = (tree, s') := by
  induction h generalizing remaining with
  | @leaf depth type s s₁ rest tree hends hleaf =>
    cases remaining with
    | zero =>
      obtain rfl : depth = g.maxDepth := hlevels
      rw [operatorAt?_maxDepth] at hends
      cases hends
      exact hleaf
    | succ remaining =>
      rw [operatorAt?_eq hlevels] at hends
      rw [grow, run_bind_eq hends]
      exact hleaf
  | binary hgoes _ hwanted _ ihl ihr =>
    obtain ⟨below, rfl, hbelow, hnext⟩ := nextOperator?_of_operatorAt? hgoes hlevels
    rw [grow, run_bind_eq hnext]
    dsimp only
    rw [run_bind_eq (ihl hbelow), run_bind_eq hwanted, if_neg Bool.false_ne_true,
      run_bind_eq (ihr hbelow)]
    rfl
  | literal hgoes _ hwanted hliteral ihl =>
    obtain ⟨below, rfl, hbelow, hnext⟩ := nextOperator?_of_operatorAt? hgoes hlevels
    rw [grow, run_bind_eq hnext]
    dsimp only
    rw [run_bind_eq (ihl hbelow), run_bind_eq hwanted, if_pos rfl, run_bind_eq hliteral]
    rfl
  | unary hgoes _ ih =>
    obtain ⟨below, rfl, hbelow, hnext⟩ := nextOperator?_of_operatorAt? hgoes hlevels
    rw [grow, run_bind_eq hnext]
    dsimp only
    rw [run_bind_eq (ih hbelow)]
    rfl

/-- From every supply a descent comes to an end. -/
theorem exists_descends (g : Generator) (remaining : Nat) (hlevels : depth + remaining = g.maxDepth)
    (type : ValueType) (s : Supply σ) : ∃ tree s', g.Descends depth type s tree s' := by
  induction remaining generalizing depth type s with
  | zero =>
    obtain rfl : depth = g.maxDepth := hlevels
    exact ⟨_, _, .leaf (by rw [operatorAt?_maxDepth]; rfl) rfl⟩
  | succ remaining ih =>
    have hbelow : depth + 1 + remaining = g.maxDepth := by omega
    rcases hnext : (g.operatorAt? type depth).run s with ⟨_ | e, s₁⟩
    · exact ⟨_, _, .leaf hnext rfl⟩
    · cases e with
      | unary e =>
        obtain ⟨operand, rest, hoperand⟩ := ih hbelow e.input s₁
        exact ⟨_, _, .unary hnext hoperand⟩
      | binary e =>
        obtain ⟨lhs, s₂, hlhs⟩ := ih hbelow e.lhs s₁
        rcases hwanted : g.wantsLiteral.run s₂ with ⟨_ | _, s₃⟩
        · obtain ⟨rhs, rest, hrhs⟩ := ih hbelow e.rhs s₃
          exact ⟨_, _, .binary hnext hlhs hwanted hrhs⟩
        · exact ⟨_, _, .literal hnext hlhs hwanted rfl⟩

/-- A descent from the top comes to an end with the generated tree only. -/
theorem descends_iff_generate {target : ValueType} {supply : Supply σ} :
    g.Descends 0 target supply tree s' ↔ (g.generate target supply).value = (tree, s') := by
  have hlevels : 0 + g.maxDepth = g.maxDepth := Nat.zero_add _
  have hgenerate : (g.generate target supply).value = (g.grow g.maxDepth target).run supply := rfl
  rw [hgenerate]
  constructor
  · exact fun h => h.run_grow hlevels
  · intro h
    obtain ⟨tree', rest, hdescends⟩ := exists_descends g g.maxDepth hlevels target supply
    obtain ⟨rfl, rfl⟩ := Prod.mk.inj ((hdescends.run_grow hlevels).symm.trans h)
    exact hdescends

/-- A literal has no level below it. -/
theorem height_literal (g : Generator) (type : ValueType) (s : Supply σ) :
    ((g.literal type).run s).1.height = 0 := by
  rcases hchoice : (draw (RandomSource.choose (g.constants.constantsOf type))).run s with ⟨v, s₁⟩
  rw [literal, run_bind_eq hchoice]
  cases v <;> rfl

/-- A leaf has no level below it. -/
theorem height_leaf (g : Generator) (type : ValueType) (s : Supply σ) :
    ((g.leaf type).run s).1.height = 0 := by
  rcases htaken : (takeSlot type).run s with ⟨taken, s₁⟩
  rw [leaf, run_bind_eq htaken]
  cases taken with
  | none => exact height_literal g type s₁
  | some index => rfl

/-- The tree of a branch does not reach below the maximum depth. -/
theorem Descends.height_le {functions : Func → Prop}
    (hentries : ∀ entry ∈ g.catalog.entries, entry.Typed functions)
    (h : g.Descends depth type s tree s') (hdepth : depth ≤ g.maxDepth) :
    tree.height ≤ g.maxDepth - depth := by
  -- An operator stands above the maximum depth, so there is a level for its operands.
  have hbelow {depth : Nat} {type : ValueType} {s s' : Supply σ} {e : Catalog.Entry}
      (hgoes : (g.operatorAt? type depth).run s = (some e, s')) :
      e.Typed functions ∧ depth + 1 ≤ g.maxDepth ∧
        g.maxDepth - (depth + 1) + 1 = g.maxDepth - depth := by
    obtain ⟨hlt, hmem⟩ := operatorAt?_eq_some hgoes
    exact ⟨hentries e hmem, hlt, by omega⟩
  induction h with
  | @leaf depth type s s₁ rest tree _ hleaf =>
    have hheight := height_leaf g type s₁
    rw [hleaf] at hheight
    rw [hheight]
    exact Nat.zero_le _
  | binary hgoes _ _ _ ihl ihr =>
    obtain ⟨htyped, hlevel, hsum⟩ := hbelow hgoes
    rw [← hsum]
    exact Catalog.BinaryEntry.height_build_le htyped (ihl hlevel) (ihr hlevel)
  | @literal depth type s s₁ s₂ s₃ rest e lhs rhs hgoes _ _ hliteral ihl =>
    obtain ⟨htyped, hlevel, hsum⟩ := hbelow hgoes
    have hheight := height_literal g e.rhs s₃
    rw [hliteral] at hheight
    have hrhs : rhs.height ≤ g.maxDepth - (depth + 1) := by
      rw [hheight]
      exact Nat.zero_le _
    rw [← hsum]
    exact Catalog.BinaryEntry.height_build_le htyped (ihl hlevel) hrhs
  | unary hgoes _ ih =>
    obtain ⟨htyped, hlevel, hsum⟩ := hbelow hgoes
    rw [← hsum]
    exact Catalog.UnaryEntry.height_build_le htyped (ih hlevel)

/-- Over an accepted catalog whose builders are plain, with any literals, slots and random words, a
descent from the top comes to an end, with the generated tree and no other one; and the depth of
this tree, the length of its longest path, is at most the maximum depth. -/
theorem generated_tree_ends_within_depth (ds : List Catalog.Descriptor) (c : Catalog)
    (h : Catalog.ofDescriptors ds = .ok c) (hds : ∀ d ∈ ds, d.builder.Plain fun _ => True)
    (constants : ConstantPool) (maxDepth odds : Nat) (target : ValueType) (supply : Supply σ) :
    let g : Generator := ⟨c, constants, maxDepth, odds⟩
    let result := (g.generate target supply).value
    (∀ tree rest, g.Descends 0 target supply tree rest ↔ (tree, rest) = result) ∧
    result.1.depth ≤ maxDepth ∧ result.1.depth = result.1.height := by
  intro g result
  have hends : ∀ tree rest, g.Descends 0 target supply tree rest ↔ (tree, rest) = result :=
    fun tree rest => descends_iff_generate.trans eq_comm
  have hentries := Catalog.typed_of_ofDescriptors h hds
  have hheight := ((hends result.1 result.2).mpr rfl).height_le hentries (Nat.zero_le maxDepth)
  refine ⟨hends, ?_, Expr.depth_eq_height result.1⟩
  rw [Expr.depth_eq_height]
  exact hheight

/-- A comparison of a date-time seen from `UTC` to a literal: the zone that the lower operator
brings along is at the maximum depth, as is the placeholder. -/
theorem generated_zone_change_ends_at_depth :
    let ds : List Catalog.Descriptor :=
      [.binary "LessThan" .dateTime .dateTime .bool .lessThan,
        .unary "AtTimeZone" .dateTime .dateTime .atUtc]
    let supply : Supply WordCycle :=
      ⟨⟨[.dateTime], #[false], []⟩, WordCycle.ofList [0, 0, 0x80000000, 0, 0, 0]⟩
    let tree : Expr := .lessThan (.atUtc (.root 0 .dateTime)) (.const (.dateTime ⟨0, 0⟩))
    ∃ c rest, Catalog.ofDescriptors ds = .ok c ∧
      Descends ⟨c, ⟨[.dateTime ⟨0, 0⟩]⟩, 2, 1⟩ 0 .bool supply tree rest ∧ tree.depth ≤ 2 ∧
      tree.depth = 2 := by
  intro ds supply tree
  have hds : ∀ d ∈ ds, d.builder.Plain fun _ => True := by
    simp only [ds, List.forall_mem_cons]
    exact ⟨.binary .lessThan, .utc, nofun⟩
  obtain ⟨c, hc⟩ : ∃ c, Catalog.ofDescriptors ds = .ok c := ⟨_, rfl⟩
  obtain ⟨rest, hvalue⟩ : ∃ rest,
      (generate ⟨c, ⟨[.dateTime ⟨0, 0⟩]⟩, 2, 1⟩ .bool supply).value = (tree, rest) := by
    cases hc
    subst supply tree
    exact ⟨_, rfl⟩
  obtain ⟨hends, hdepth, hheight⟩ := generated_tree_ends_within_depth ds c hc hds
    ⟨[.dateTime ⟨0, 0⟩]⟩ 2 1 .bool supply
  rw [hvalue] at hends hdepth hheight
  exact ⟨c, rest, hc, (hends tree rest).mpr rfl, hdepth, hheight⟩

end Generator

end QueryParity
