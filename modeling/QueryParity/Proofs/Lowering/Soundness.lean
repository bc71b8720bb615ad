import QueryParity.Proofs.Lowering.Binding

/-!
# Lowering by sound rules

Rules that offer a node only replacements that can stand for it make a lowered tree stand for the
tree, whatever the rules are: however often they fire at one node, whether they apply to their own
replacements or to those of each other, and also when the steps of a node are used up before they
settle. The standard rules are of this kind, and so is a rule that never settles.
-/

namespace QueryParity

/-- The rule is sound in a scope: what it offers for a node can stand for the node. -/
def Rule.SoundIn (scope : Scope) (rule : Rule) : Prop :=
  ∀ node next, rule.replace? node = some next → StandsFor scope node next

/-- Lowering by sound rules keeps the type of every tree over a schema, and the value or the fault
of the tree on every row of the schema. This holds for trees with placeholders, if the rules are
sound on these, and for trees without, if the rules are sound on those. -/
theorem sound_rules_lower_soundly (l : Lowering) (scope : Scope)
    (hrules : ∀ rule ∈ l.rules, rule.SoundIn scope) (e : Expr) (t : ValueType)
    (he : e.TypedIn scope t) :
    (l.lower e).value.TypedIn scope t ∧ ∀ row : List Value, row.map Value.type = scope.schema →
      (l.lower e).value.evaluate row = e.evaluate row := by
  have hoffers : ∀ node next, l.Offers node next → StandsFor scope node next := by
    rintro node next ⟨rule, hrule, hreplace⟩
    exact hrules rule hrule node next hreplace
  exact (Lowering.rewrites_lower e).standsFor hoffers t he

namespace Rule

/-- Two negations around a boolean, a rule that applies to its own replacements. -/
def doubleNegation : Rule where
  name := "double-negation"
  replace? node :=
    match node.infer with
    | .ok .bool => some (.not (.not node))
    | _ => none

/-- Every boolean is negated twice, and nothing else. -/
theorem replace?_doubleNegation_iff {node next : Expr} :
    doubleNegation.replace? node = some next ↔
      node.infer = .ok .bool ∧ next = .not (.not node) := by
  unfold doubleNegation
  dsimp only
  split
  · rename_i hbool
    simp [hbool, eq_comm]
  · rename_i hother
    exact iff_of_false nofun fun h => hother h.1

/-- Two negations leave a boolean. -/
theorem soundIn_doubleNegation (scope : Scope) : doubleNegation.SoundIn scope := by
  intro node next hreplace t ht
  obtain ⟨hbool, rfl⟩ := replace?_doubleNegation_iff.mp hreplace
  obtain rfl : ValueType.bool = t := Except.ok.inj (hbool.symm.trans ht.infer_eq)
  have hinner : (Expr.not node).TypedIn scope .bool :=
    Expr.typedIn_unary_iff.mpr ⟨.bool, ht, rfl⟩
  refine ⟨Expr.typedIn_unary_iff.mpr ⟨.bool, hinner, rfl⟩, fun row hrow => ?_⟩
  rw [Expr.not, Expr.not, Expr.evaluate, Expr.evaluate]
  cases hv : node.evaluate row with
  | error fault => rfl
  | ok v =>
    have htype := Expr.type_of_evaluate ht.infer_eq (hrow ▸ ht.fieldsMatch) hv
    cases v with
    | null u =>
      obtain rfl : u = .bool := htype
      rfl
    | bool b =>
      change Except.ok (Value.bool (!(!b))) = _
      rw [Bool.not_not]
    | _ => cases htype

end Rule

/-- A step of the standard rules gives a tree that can stand for the node. -/
theorem StandardStep.standsFor {scope : Scope} {node next : Expr} (h : StandardStep node next) :
    StandsFor scope node next := by
  intro t ht
  obtain ⟨hover, heval⟩ := h.keepsMeaning t ht.toTypedOver
  refine ⟨⟨hover, fun hnone i u hroot => ht.rootFree hnone i u ?_⟩, heval⟩
  rwa [← Expr.mem_roots_iff, h.roots_eq, Expr.mem_roots_iff] at hroot

/-- The standard rules are sound. -/
theorem soundIn_of_mem_standard (scope : Scope) {rule : Rule}
    (h : rule ∈ Lowering.standard.rules) : rule.SoundIn scope :=
  fun _ _ hreplace => (standardStep_of_offers ⟨rule, h, hreplace⟩).standsFor

/-- A null test of a date-time seen from `UTC`, without placeholders: the change of zone disappears,
and the test is negated until its steps are used up, when the rules still apply to it. -/
theorem double_negation_lowers_soundly :
    let l : Lowering := ⟨Rule.doubleNegation :: Lowering.standard.rules⟩
    let e : Expr := .isNull (.atUtc (.field 0 .dateTime))
    (l.lower e).value.TypedIn ⟨[.dateTime], false⟩ .bool ∧
      (l.lower e).value.evaluate [.null .dateTime] = .ok (.bool true) ∧
      (l.firstMatch? (l.lower e).value).isSome = true := by
  intro l e
  have hrules : ∀ rule ∈ l.rules, rule.SoundIn ⟨[.dateTime], false⟩ :=
    List.forall_mem_cons.mpr
      ⟨Rule.soundIn_doubleNegation _, fun _ hrule => soundIn_of_mem_standard _ hrule⟩
  have he : e.TypedIn ⟨[.dateTime], false⟩ .bool := ⟨⟨rfl, by decide⟩, fun _ => by decide⟩
  obtain ⟨htyped, heval⟩ := sound_rules_lower_soundly l ⟨[.dateTime], false⟩ hrules e .bool he
  have hfires := Rule.replace?_doubleNegation_iff.mpr ⟨htyped.infer_eq, rfl⟩
  refine ⟨htyped, (heval [.null .dateTime] rfl).trans rfl, ?_⟩
  rw [Option.isSome_iff_ne_none]
  intro hnone
  have hdeclines := Lowering.firstMatch?_eq_none_iff.mp hnone _ List.mem_cons_self
  cases hfires.symm.trans hdeclines

end QueryParity
