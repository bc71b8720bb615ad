import QueryParity.Proofs.Lowering.NormalForm

/-!
# Steps at one node

Whatever the first rule that applies offers for a node is asked about in turn, so that the rules
lead from the node along a chain of trees. A lowering follows the chain to its end, or for eight
steps per rule if it does not end before. Only in the second case, and only if the chain goes on, it
reports that the node did not settle. Nothing is asked of the rules: they may apply to their own
offers, or take back those of each other.
-/

namespace QueryParity

namespace Lowering

variable {l : Lowering} {node next : Expr}

/-- The rule offers the replacement for the node, and no rule before it applies to the node. -/
def FirstOffers (l : Lowering) (rule : Rule) (node next : Expr) : Prop :=
  ∃ before after, l.rules = before ++ rule :: after ∧ rule.replace? node = some next ∧
    ∀ earlier ∈ before, earlier.replace? node = none

/-- The match that is found is the offer of the first rule that applies. -/
theorem firstMatch?_eq_some_iff {name : String} :
    l.firstMatch? node = some (name, next) ↔
      ∃ rule, l.FirstOffers rule node next ∧ rule.name = name := by
  simp only [firstMatch?, FirstOffers, List.findSome?_eq_some_iff, Option.map_eq_some_iff,
    Option.map_eq_none_iff, Prod.mk.injEq]
  constructor
  · rintro ⟨before, rule, after, hrules, ⟨_, hoffer, hname, rfl⟩, hbefore⟩
    exact ⟨rule, ⟨before, after, hrules, hoffer, hbefore⟩, hname⟩
  · rintro ⟨rule, ⟨before, after, hrules, hoffer, hbefore⟩, hname⟩
    exact ⟨before, rule, after, hrules, ⟨next, hoffer, hname, rfl⟩, hbefore⟩

/-- So many steps lead from one tree to another, each by the first rule that applies. The events say
which rules these were. -/
inductive Chain (l : Lowering) : (steps : Nat) → Expr → List Event → Expr → Prop where
  /-- No step. -/
  | stay (node : Expr) : Chain l 0 node [] node
  /-- A step, and the steps from what was offered. -/
  | step {steps : Nat} {rule : Rule} {node next last : Expr} {fired : List Event} :
      l.FirstOffers rule node next → Chain l steps next fired last →
      Chain l (steps + 1) node (.ruleFired rule.name node next :: fired) last

/-- What becomes of a node in a bounded number of steps is the end of a chain: one that has as many
steps, or a shorter one that cannot be continued. -/
theorem exists_chain_settle? (limit : Nat) (node : Expr) :
    ∃ steps fired last, l.Chain steps node fired last ∧
      (steps = limit ∨ steps < limit ∧ l.firstMatch? last = none) ∧
      l.settle? limit node = ⟨if steps = 0 then none else some last, fired⟩ := by
  induction limit generalizing node with
  | zero => exact ⟨0, [], node, .stay node, .inl rfl, rfl⟩
  | succ limit ih =>
    cases hmatch : l.firstMatch? node with
    | none =>
      exact ⟨0, [], node, .stay node, .inr ⟨Nat.succ_pos limit, hmatch⟩,
        settle?_of_firstMatch?_eq_none hmatch _⟩
    | some found =>
      obtain ⟨name, next⟩ := found
      obtain ⟨rule, hfirst, rfl⟩ := firstMatch?_eq_some_iff.mp hmatch
      obtain ⟨steps, fired, last, hchain, hend, hsettle⟩ := ih next
      have hlast : (if steps = 0 then none else some last).getD next = last := by
        cases hchain with
        | stay => rfl
        | step => rfl
      have hsteps : steps + 1 = limit + 1 ∨
          steps + 1 < limit + 1 ∧ l.firstMatch? last = none := by
        simpa only [Nat.add_right_cancel_iff, Nat.add_lt_add_iff_right] using hend
      refine ⟨steps + 1, _, last, .step hfirst hchain, hsteps, ?_⟩
      rw [settle?, hmatch]
      refine Logged.ext ?_ ?_
      · simp only [Logged.value_bind, Logged.value_pure, hsettle, hlast, Nat.succ_ne_zero, if_false]
      · simp only [Logged.events_bind, Logged.events_emit, Logged.events_pure, hsettle,
          List.append_nil, List.singleton_append]

/-- Some rule applies to a node exactly if there is a match. -/
theorem firstMatch?_isSome_iff :
    (l.firstMatch? node).isSome ↔ ∃ rule ∈ l.rules, (rule.replace? node).isSome := by
  simp [firstMatch?]

/-- A node of which nothing becomes is not reported. -/
theorem lowerNode?_of_settle?_none {fired : List Event}
    (h : l.settle? l.maxSteps node = ⟨none, fired⟩) : l.lowerNode? node = ⟨none, fired⟩ := by
  rw [lowerNode?, h]
  exact Logged.ext rfl (List.append_nil fired)

/-- A node of which something becomes is reported exactly if a rule applies to that. -/
theorem lowerNode?_of_settle?_some {last : Expr} {fired : List Event}
    (h : l.settle? l.maxSteps node = ⟨some last, fired⟩) :
    l.lowerNode? node = ⟨some last, fired ++
      if (l.firstMatch? last).isSome then [.unsettled node l.maxSteps last] else []⟩ := by
  rw [lowerNode?, h]
  refine Logged.ext ?_ ?_
  · rw [Logged.value_bind]
    dsimp only
    split <;> rfl
  · rw [Logged.events_bind]
    dsimp only
    split <;> rfl

/-- A node becomes the end of a chain of steps, each by the first rule that applies. The chain has
eight steps per rule, or fewer if no rule applies to its end; without a step nothing becomes of the
node. The events are those of the steps and, after them, exactly if the chain has all its steps and
a rule still applies to its end, the report that the node did not settle. -/
theorem lowered_node_ends_its_chain (l : Lowering) (node : Expr) :
    let cap := 8 * l.rules.length
    ∃ steps fired last, l.Chain steps node fired last ∧
      (steps = cap ∨ steps < cap ∧ ∀ rule ∈ l.rules, rule.replace? last = none) ∧
      (l.lowerNode? node).value = (if steps = 0 then none else some last) ∧
      (l.lowerNode? node).events = fired ++
        if steps = cap ∧ ∃ rule ∈ l.rules, (rule.replace? last).isSome then
          [.unsettled node cap last]
        else [] := by
  intro cap
  have hcap : l.maxSteps = cap := Nat.mul_comm _ _
  obtain ⟨steps, fired, last, hchain, hend, hsettle⟩ := l.exists_chain_settle? cap node
  -- Without steps the cap may be zero, but then there is no rule that could still apply.
  have hnone : steps = 0 → ¬ (steps = cap ∧ (l.firstMatch? last).isSome) := by
    rintro rfl ⟨hzero, hmatch⟩
    have hrules : l.rules = [] := List.length_eq_zero_iff.mp (by omega)
    simp [firstMatch?, hrules] at hmatch
  have happlies : (l.firstMatch? last).isSome → steps = cap := by
    intro hmatch
    obtain hsteps | ⟨-, hlast⟩ := hend
    · exact hsteps
    · simp [hlast] at hmatch
  refine ⟨steps, fired, last, hchain, ?_, ?_⟩
  · rwa [firstMatch?_eq_none_iff] at hend
  simp only [← firstMatch?_isSome_iff]
  rw [← hcap] at hsettle
  by_cases hzero : steps = 0
  · rw [if_pos hzero] at hsettle
    rw [lowerNode?_of_settle?_none hsettle, if_pos hzero, if_neg (hnone hzero), List.append_nil]
    exact ⟨rfl, rfl⟩
  · rw [if_neg hzero] at hsettle
    rw [lowerNode?_of_settle?_some hsettle, if_neg hzero]
    simp only [hcap, and_iff_right_of_imp happlies, true_and]

end Lowering

/-- Counts an integer down to zero. -/
def Rule.countDown : Rule where
  name := "count-down"
  replace? node :=
    match node with
    | .const (.int n) => if 0 < n then some (.intLit (n - 1)) else none
    | _ => none

-- Eight steps lead from eight to zero, so that nothing is reported; from nine they do not.
example :
    ((Lowering.lowerNode? ⟨[.countDown]⟩ (.intLit 8)).events.map Event.level,
      (Lowering.lowerNode? ⟨[.countDown]⟩ (.intLit 9)).events.map Event.level) =
    (List.replicate 8 .trace, List.replicate 8 .trace ++ [.warn]) := by
  decide

end QueryParity
