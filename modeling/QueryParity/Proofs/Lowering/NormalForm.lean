import QueryParity.Proofs.Lowering.Standard

/-!
# Normal forms

A tree is normal if no rule applies to any of its nodes. A lowering whose replacements for a node
over normal children are normal needs one step at each node: the children are normal when their
parent is offered, so the parent settles at once. The standard rules are of this kind. What they
make of a match is a test that no rule looks at, and what they make of a change to the zone `UTC` is
its operand, which is normal already.
-/

namespace QueryParity

/-- What follows a logged computation depends on its value only. -/
theorem Logged.bind_congr_value {ε α β : Type} {x : Logged ε α} {f g : α → Logged ε β}
    (h : f x.value = g x.value) : x >>= f = x >>= g := by
  refine Logged.ext ?_ ?_
  · rw [value_bind, value_bind, h]
  · rw [events_bind, events_bind, h]

namespace Expr

variable {ε : Type} {step step' : Expr → Logged ε (Option Expr)}

private theorem rebuildAll_congr {args : List Expr}
    (h : ∀ a ∈ args, rebuild step a = rebuild step' a) :
    rebuildAll step args = rebuildAll step' args := by
  induction args with
  | nil => rfl
  | cons a args ih =>
    rw [List.forall_mem_cons] at h
    rw [rebuildAll, rebuildAll, h.1, ih h.2]

/-- Two steps do the same to a tree if they do the same to every node whose children have a
property, and leave such a node with the property; the tree then ends with the property as well. -/
theorem rebuild_congr {P : Expr → Prop}
    (h : ∀ node, (∀ child ∈ node.children, P child) →
      step node = step' node ∧ P (replaced step node).value) (e : Expr) :
    rebuild step e = rebuild step' e ∧ P (rebuild step e).value := by
  have hnode : ∀ node, (∀ child ∈ node.children, P child) →
      replaced step node = replaced step' node ∧ P (replaced step node).value := by
    intro node hchildren
    obtain ⟨hstep, hP⟩ := h node hchildren
    exact ⟨by rw [replaced, replaced, hstep], hP⟩
  have hleaf : ∀ node : Expr, node.children = [] →
      replaced step node = replaced step' node ∧ P (replaced step node).value := by
    intro node hnone
    refine hnode node fun child hchild => ?_
    rw [hnone] at hchild
    exact absurd hchild List.not_mem_nil
  induction e with
  | const v => exact hleaf (.const v) rfl
  | root i t => exact hleaf (.root i t) rfl
  | field c t => exact hleaf (.field c t) rfl
  | binary op l r ihl ihr =>
    obtain ⟨hoffer, hP⟩ := hnode (.binary op (rebuild step l).value (rebuild step r).value)
      (by simpa [children] using And.intro ihl.2 ihr.2)
    refine ⟨?_, hP⟩
    rw [rebuild, rebuild, ← ihl.1, ← ihr.1]
    exact Logged.bind_congr_value (Logged.bind_congr_value hoffer)
  | unary op a ih =>
    obtain ⟨hoffer, hP⟩ := hnode (.unary op (rebuild step a).value) (by simpa [children] using ih.2)
    refine ⟨?_, hP⟩
    rw [rebuild, rebuild, ← ih.1]
    exact Logged.bind_congr_value hoffer
  | call f args ih =>
    obtain ⟨hoffer, hP⟩ := hnode (.call f (rebuildAll step args).value) <| by
      rw [Lowering.value_rebuildAll]
      exact List.forall_mem_map.mpr fun a ha => (ih a ha).2
    refine ⟨?_, hP⟩
    rw [rebuild, rebuild, ← rebuildAll_congr fun a ha => (ih a ha).1]
    exact Logged.bind_congr_value hoffer

private theorem exists_of_mem_events_rebuildAll {args : List Expr} {event : ε}
    (h : event ∈ (rebuildAll step args).events) : ∃ a ∈ args, event ∈ (rebuild step a).events := by
  induction args with
  | nil => cases h
  | cons a args ih =>
    rw [rebuildAll, Logged.events_bind, Logged.events_bind, Logged.events_pure,
      List.append_nil] at h
    obtain h | h := List.mem_append.mp h
    · exact ⟨a, List.mem_cons_self, h⟩
    · obtain ⟨b, hb, h⟩ := ih h
      exact ⟨b, List.mem_cons_of_mem a hb, h⟩

/-- Every event of a pass over a tree is one of the step at some node. -/
theorem exists_of_mem_events_rebuild {e : Expr} {event : ε}
    (h : event ∈ (rebuild step e).events) : ∃ node, event ∈ (step node).events := by
  have hnode : ∀ node, event ∈ (replaced step node).events →
      ∃ node, event ∈ (step node).events := by
    intro node h
    rw [replaced, Logged.events_bind, Logged.events_pure, List.append_nil] at h
    exact ⟨node, h⟩
  induction e with
  | const v => exact hnode _ h
  | root i t => exact hnode _ h
  | field c t => exact hnode _ h
  | binary op l r ihl ihr =>
    obtain h | h := List.mem_append.mp h
    · exact ihl h
    · obtain h | h := List.mem_append.mp h
      · exact ihr h
      · exact hnode _ h
  | unary op a ih =>
    obtain h | h := List.mem_append.mp h
    · exact ih h
    · exact hnode _ h
  | call f args ih =>
    obtain h | h := List.mem_append.mp h
    · obtain ⟨a, ha, h⟩ := exists_of_mem_events_rebuildAll h
      exact ih a ha h
    · exact hnode _ h

end Expr

namespace Lowering

variable {l : Lowering} {node next : Expr}

/-- No rule applies to any node of the tree. -/
def IsNormal (l : Lowering) (e : Expr) : Prop :=
  ∀ node ∈ e.preorder, ∀ rule ∈ l.rules, rule.replace? node = none

/-- Every replacement that is offered for a node over normal children is normal. -/
def SettlesAtOnce (l : Lowering) : Prop :=
  ∀ node next, (∀ child ∈ node.children, l.IsNormal child) → l.Offers node next → l.IsNormal next

/-- A tree is normal if no rule applies to its top and its children are normal. -/
theorem isNormal_iff {e : Expr} :
    l.IsNormal e ↔ l.firstMatch? e = none ∧ ∀ child ∈ e.children, l.IsNormal child := by
  rw [firstMatch?_eq_none_iff]
  constructor
  · intro h
    refine ⟨h e (Expr.self_mem_preorder e), fun child hchild node hnode => ?_⟩
    exact h node (Expr.mem_preorder_iff.mpr (.inr ⟨child, hchild, hnode⟩))
  · rintro ⟨htop, hbelow⟩ node hnode
    obtain rfl | ⟨child, hchild, hnode⟩ := Expr.mem_preorder_iff.mp hnode
    · exact htop
    · exact hbelow child hchild node hnode

/-- Nothing becomes of a node to which no rule applies. -/
theorem settle?_of_firstMatch?_eq_none (h : l.firstMatch? node = none) (steps : Nat) :
    l.settle? steps node = pure none := by
  cases steps with
  | zero => rfl
  | succ steps => rw [settle?, h]

/-- Nothing becomes of a node to which no rule applies, and it is not reported either. -/
theorem lowerNode?_of_firstMatch?_eq_none (h : l.firstMatch? node = none) :
    l.lowerNode? node = pure none := by
  rw [lowerNode?, settle?_of_firstMatch?_eq_none h]
  rfl

/-- What becomes of a node in one step is what the first rule that applies offers. -/
theorem settle?_one {name : String} (h : l.firstMatch? node = some (name, next)) :
    l.settle? 1 node = ⟨some next, [.ruleFired name node next]⟩ := by
  rw [settle?, h]
  rfl

/-- A node that makes one step does not report that its steps were used up. -/
theorem unsettled_notMem_events_settle?_one (top : Expr) (steps : Nat) (kept : Expr) :
    .unsettled top steps kept ∉ (l.settle? 1 node).events := by
  cases hmatch : l.firstMatch? node with
  | none =>
    rw [settle?_of_firstMatch?_eq_none hmatch]
    exact List.not_mem_nil
  | some found =>
    rw [settle?_one hmatch]
    simp

/-- No rule fires in a normal tree, and the tree is not rebuilt. -/
theorem IsNormal.lower?_eq {e : Expr} (h : l.IsNormal e) : l.lower? e = pure none :=
  Expr.transform?_eq_none fun node hnode =>
    lowerNode?_of_firstMatch?_eq_none (firstMatch?_eq_none_iff.mpr (h node hnode))

namespace SettlesAtOnce

variable (h : l.SettlesAtOnce) (hbelow : ∀ child ∈ node.children, l.IsNormal child)
include h hbelow

/-- No rule applies to what is offered for a node over normal children. -/
theorem firstMatch?_next {name : String} (hmatch : l.firstMatch? node = some (name, next)) :
    l.firstMatch? next = none :=
  (isNormal_iff.mp (h node next hbelow (offers_of_firstMatch? hmatch))).1

/-- A node over normal children makes one step, if any, however many are allowed. -/
theorem settle?_eq (steps : Nat) : l.settle? (steps + 1) node = l.settle? 1 node := by
  cases hmatch : l.firstMatch? node with
  | none =>
    rw [settle?_of_firstMatch?_eq_none hmatch, settle?_of_firstMatch?_eq_none hmatch]
  | some found =>
    rw [settle?_one hmatch, settle?, hmatch]
    dsimp only
    rw [settle?_of_firstMatch?_eq_none (h.firstMatch?_next hbelow hmatch)]
    rfl

/-- A node over normal children does not use up its steps, so there is nothing to report. -/
theorem lowerNode?_eq (hsteps : 0 < l.maxSteps) : l.lowerNode? node = l.settle? 1 node := by
  obtain ⟨steps, hmax⟩ := Nat.exists_eq_add_one_of_ne_zero (Nat.ne_of_gt hsteps)
  cases hmatch : l.firstMatch? node with
  | none =>
    rw [lowerNode?_of_firstMatch?_eq_none hmatch, settle?_of_firstMatch?_eq_none hmatch]
  | some found =>
    rw [lowerNode?, hmax, h.settle?_eq hbelow, settle?_one hmatch]
    have hdone := h.firstMatch?_next hbelow hmatch
    exact Logged.ext (by simp [hdone]) (by simp [hdone])

/-- A node over normal children is normal after one step. -/
theorem isNormal_replaced : l.IsNormal (Expr.replaced (l.settle? 1) node).value := by
  rw [Expr.replaced, Logged.value_bind, Logged.value_pure]
  cases hmatch : l.firstMatch? node with
  | none =>
    rw [settle?_of_firstMatch?_eq_none hmatch]
    exact isNormal_iff.mpr ⟨hmatch, hbelow⟩
  | some found =>
    rw [settle?_one hmatch]
    exact h node found.2 hbelow (offers_of_firstMatch? hmatch)

omit hbelow

/-- Whatever number of steps is allowed at a node, the same becomes of a tree, with the same
events, and it is normal. -/
theorem transform_eq_lower (hsteps : 0 < l.maxSteps) (steps : Nat) (e : Expr) :
    e.transform (l.settle? (steps + 1)) = l.lower e ∧ l.IsNormal (l.lower e).value := by
  have hone : ∀ node, (∀ child ∈ node.children, l.IsNormal child) →
      l.settle? 1 node = l.settle? (steps + 1) node ∧
        l.IsNormal (Expr.replaced (l.settle? 1) node).value :=
    fun node hbelow => ⟨(h.settle?_eq hbelow steps).symm, h.isNormal_replaced hbelow⟩
  have hmax : ∀ node, (∀ child ∈ node.children, l.IsNormal child) →
      l.settle? 1 node = l.lowerNode? node ∧
        l.IsNormal (Expr.replaced (l.settle? 1) node).value :=
    fun node hbelow => ⟨(h.lowerNode?_eq hbelow hsteps).symm, h.isNormal_replaced hbelow⟩
  obtain ⟨hlower, hnormal⟩ := Expr.rebuild_congr hmax e
  rw [lower, Expr.transform_eq_rebuild, Expr.transform_eq_rebuild, ← hlower]
  exact ⟨(Expr.rebuild_congr hone e).1.symm, hnormal⟩

end SettlesAtOnce

/-- A node over a normal tree and a text is normal if no standard rule applies to it. -/
theorem isNormal_test {test input : Expr} {text : String} (htest : standard.firstMatch? test = none)
    (hchildren : test.children = [input, .stringLit text]) (hinput : standard.IsNormal input) :
    standard.IsNormal test := by
  have htext : standard.IsNormal (.stringLit text) := isNormal_iff.mpr ⟨rfl, nofun⟩
  refine isNormal_iff.mpr ⟨htest, ?_⟩
  rw [hchildren]
  exact List.forall_mem_cons.mpr ⟨hinput, List.forall_mem_singleton.mpr htext⟩

/-- The standard rules settle at once: no rule looks at a test of theirs, and the operand of a
change of zone is normal already. -/
theorem settlesAtOnce_standard : standard.SettlesAtOnce := by
  intro node next hbelow hoffer
  cases standardStep_of_offers hoffer with
  | equality _ | start _ _ | tail _ _ =>
    exact isNormal_test rfl rfl (hbelow _ List.mem_cons_self)
  | utc => exact hbelow next List.mem_cons_self

/-- One pass of the standard rules makes any tree, with a type or without, normal: no rule applies
to any node of the lowered tree. So no rule fires in a second pass, which does not rebuild the tree.
The number of steps at a node does not matter: if any other number were allowed, the pass would make
the same tree with the same events, and it never reports that steps were used up. -/
theorem standard_lower_reaches_normal_form (e : Expr) :
    let lowered := (standard.lower e).value
    (∀ node ∈ lowered.preorder, ∀ rule ∈ standard.rules, rule.replace? node = none) ∧
    standard.lower? lowered = ⟨none, []⟩ ∧ standard.lower lowered = ⟨lowered, []⟩ ∧
    (∀ steps, 0 < steps → e.transform (standard.settle? steps) = standard.lower e) ∧
    ∀ node steps kept, .unsettled node steps kept ∉ (standard.lower e).events := by
  have hpass := settlesAtOnce_standard.transform_eq_lower (by decide)
  have hnormal := (hpass 0 e).2
  have hsecond := hnormal.lower?_eq
  refine ⟨hnormal, hsecond, ?_, fun steps hsteps => ?_, fun node steps kept hevent => ?_⟩
  · exact congrArg (· >>= fun last => pure (last.getD (standard.lower e).value)) hsecond
  · obtain ⟨more, rfl⟩ := Nat.exists_eq_add_one_of_ne_zero (Nat.ne_of_gt hsteps)
    exact (hpass more e).1
  · rw [← (hpass 0 e).1, Expr.transform_eq_rebuild] at hevent
    obtain ⟨offered, hevent⟩ := Expr.exists_of_mem_events_rebuild hevent
    exact unsettled_notMem_events_settle?_one node steps kept hevent

-- A pattern that is a constant only once its change of zone is gone, in a tree without a type.
example : (standard.lower (.like (.root 0 .string) (.atUtc (.stringLit "A%")))).value =
    .startsWith (.root 0 .string) (.stringLit "A") := by
  rfl

end Lowering

end QueryParity
