import QueryParity.Proofs.Generator
import QueryParity.Random.Cycle

/-!
# Literals of a tree

Growth is told again with a record of the literals that it draws, each with the type it was asked
for; without the record it is the same growth. Over a catalog that a constant pool was checked
against, every operand that is asked for has a type with literals, whatever slots are left. Only the
target is not an operand. The check does not look at it: where no operator mentions the target, no
slot has it and there is no literal of it, the tree is a null that is in no bank.
-/

namespace QueryParity

open RootSlots

namespace Catalog

variable {c : Catalog} {type : ValueType}

/-- No operator yields a type that the catalog does not mention. -/
theorem countOf_eq_zero (h : type ∉ c.valueTypes) : c.countOf type = 0 := by
  rw [countOf, List.length_eq_zero_iff, List.eq_nil_iff_forall_not_mem]
  intro e he
  obtain ⟨hmem, rfl⟩ := mem_operatorsOf.mp he
  exact h (mem_valueTypes.mpr ⟨e, hmem, by simp [Entry.mentions]⟩)

end Catalog

namespace Generator

/-- A literal that was drawn. -/
structure Draw where
  /-- The type that it was asked for. -/
  type : ValueType
  /-- The leaf that came of it. -/
  leaf : Expr

/-- A literal is in the bank of the type that it was asked for. -/
def Draw.Banked (d : Draw) (constants : ConstantPool) : Prop :=
  ∃ v ∈ constants.constantsOf d.type, d.leaf = .const v

/-- The literals that were drawn for a tree are in the banks of their types. -/
def Banked (constants : ConstantPool) (result : Expr × List Draw) : Prop :=
  ∀ d ∈ result.2, d.Banked constants

variable {σ : Type} [RandomSource σ] {g : Generator} {type : ValueType}

/-- A literal with its record. -/
def literalDrawing (g : Generator) (type : ValueType) : StateM (Supply σ) (Expr × List Draw) := do
  let tree ← g.literal type
  pure (tree, [⟨type, tree⟩])

/-- A leaf with the literal that it drew, if it is not a placeholder. -/
def leafDrawing (g : Generator) (type : ValueType) : StateM (Supply σ) (Expr × List Draw) := do
  match ← takeSlot type with
  | some index => pure (.root index type, [])
  | none => g.literalDrawing type

/-- A tree with the literals that it drew, from the left to the right. -/
def growDrawing (g : Generator) :
    (remaining : Nat) → ValueType → StateM (Supply σ) (Expr × List Draw)
  | 0, type => g.leafDrawing type
  | remaining + 1, type => do
    match ← g.nextOperator? type (remaining + 1) with
    | none => g.leafDrawing type
    | some (.binary e) =>
      let (lhs, left) ← g.growDrawing remaining e.lhs
      let (rhs, right) ←
        if ← g.wantsLiteral then g.literalDrawing e.rhs else g.growDrawing remaining e.rhs
      pure (e.build lhs rhs, left ++ right)
    | some (.unary e) =>
      let (operand, drawn) ← g.growDrawing remaining e.input
      pure (e.build operand, drawn)

section Projection

/-- Without its record a literal is the literal. -/
theorem map_fst_literalDrawing (g : Generator) (type : ValueType) :
    Prod.fst <$> (g.literalDrawing type : StateM (Supply σ) _) = g.literal type := by
  simp [literalDrawing]

/-- Without its record a leaf is the leaf. -/
theorem map_fst_leafDrawing (g : Generator) (type : ValueType) :
    Prod.fst <$> (g.leafDrawing type : StateM (Supply σ) _) = g.leaf type := by
  rw [leafDrawing, leaf, map_bind]
  refine bind_congr fun taken => ?_
  cases taken with
  | none => exact map_fst_literalDrawing g type
  | some index => exact map_pure _ _

/-- Without the record growth is growth. -/
theorem map_fst_growDrawing (g : Generator) (remaining : Nat) (type : ValueType) :
    Prod.fst <$> (g.growDrawing remaining type : StateM (Supply σ) _) = g.grow remaining type := by
  induction remaining generalizing type with
  | zero => exact map_fst_leafDrawing g type
  | succ remaining ih =>
    rw [growDrawing, grow, map_bind]
    refine bind_congr fun next => ?_
    obtain _ | e := next
    · exact map_fst_leafDrawing g type
    · cases e with
      | unary e => simp [← ih e.input]
      | binary e =>
        simp only [← ih e.lhs, map_bind, bind_map_left]
        refine bind_congr fun lhs => bind_congr fun wanted => ?_
        cases wanted with
        | false => simp [← ih e.rhs]
        | true => simp [← map_fst_literalDrawing]

/-- The generated tree is that of growth with the record. -/
theorem value_generate_eq {target : ValueType} {s rest : Supply σ} {tree : Expr} {drawn : List Draw}
    (h : (g.growDrawing g.maxDepth target).run s = ((tree, drawn), rest)) :
    (g.generate target s).value = (tree, rest) := by
  have hrun : (g.grow g.maxDepth target).run s = (tree, rest) := by
    rw [← map_fst_growDrawing, StateT.run_map, h]
    rfl
  exact hrun

end Projection

section Covered

/-- A literal is in the bank of its type, if that is not empty. -/
theorem yields_literalDrawing (h : g.constants.constantsOf type ≠ []) :
    Yields (fun result _ => Banked g.constants result)
      (g.literalDrawing type : StateM (Supply σ) _) := by
  unfold literalDrawing
  refine .bind (P := fun tree _ => ∃ v ∈ g.constants.constantsOf type, tree = .const v) ?_ ?_
  · unfold literal
    refine .bind (.draw (P := fun chosen _ => ∃ v ∈ g.constants.constantsOf type, chosen = some v)
      fun rng => ?_) ?_
    · cases hchosen : (RandomSource.choose (g.constants.constantsOf type) rng).1 with
      | none => exact absurd (RandomSource.eq_nil_of_choose hchosen) h
      | some v => exact ⟨v, RandomSource.mem_of_choose hchosen, rfl⟩
    · rintro _ _ ⟨v, hv, rfl⟩
      exact .pure ⟨v, hv, rfl⟩
  · intro tree _ hbanked
    refine .pure fun d hd => ?_
    rw [List.mem_singleton.mp hd]
    exact hbanked

/-- So is the literal of a leaf. -/
theorem yields_leafDrawing (h : g.constants.constantsOf type ≠ []) :
    Yields (fun result _ => Banked g.constants result)
      (g.leafDrawing type : StateM (Supply σ) _) := by
  unfold leafDrawing
  refine (yields_takeSlot type).bind fun taken _ _ => ?_
  cases taken with
  | none => exact yields_literalDrawing h
  | some index => exact .pure (List.forall_mem_nil _)

/-- If no operand lacks literals, every literal of a tree is in the bank of its type, unless it
stands for the whole tree. -/
theorem yields_growDrawing
    (hcovered : ∀ type ∈ g.catalog.valueTypes, g.constants.constantsOf type ≠ [])
    (remaining : Nat) (htype : g.constants.constantsOf type ≠ []) :
    Yields (fun result _ => Banked g.constants result)
      (g.growDrawing remaining type : StateM (Supply σ) _) := by
  -- An operator with which a branch goes on is registered, so its operand types are covered.
  have hoperand {e : Catalog.Entry} (he : e ∈ g.catalog.entries) (operand : ValueType)
      (hmem : operand ∈ e.inputs) : g.constants.constantsOf operand ≠ [] :=
    hcovered operand (Catalog.mem_valueTypes.mpr ⟨e, he, by simp [Catalog.Entry.mentions, hmem]⟩)
  induction remaining generalizing type with
  | zero => exact yields_leafDrawing htype
  | succ remaining ih =>
    rw [growDrawing]
    refine (yields_nextOperator? type (remaining + 1)).bind ?_
    rintro (_ | e) _ ⟨-, hnext⟩
    · exact yields_leafDrawing htype
    · have hinputs := hoperand (hnext e rfl).1
      cases e with
      | binary e =>
        have hlhs := hinputs e.lhs (by simp [Catalog.Entry.inputs])
        have hrhs := hinputs e.rhs (by simp [Catalog.Entry.inputs])
        refine (ih hlhs).bind fun lhs _ hl => yields_wantsLiteral.bind fun wanted _ _ => ?_
        have hbuild (rhs : Expr × List Draw) (requests : List Request)
            (hr : Banked g.constants rhs) :
            Yields (fun result _ => Banked g.constants result)
              (Pure.pure (e.build lhs.1 rhs.1, lhs.2 ++ rhs.2) : StateM (Supply σ) _) :=
          .pure (List.forall_mem_append.mpr ⟨hl, hr⟩)
        split
        · exact (yields_literalDrawing hrhs).bind hbuild
        · exact (ih hrhs).bind hbuild
      | unary e =>
        exact (ih (hinputs e.input (by simp [Catalog.Entry.inputs]))).bind fun _ _ ho => .pure ho

end Covered

section Uncovered

variable {s : Supply σ}

/-- A branch of a type without operators is a leaf. -/
theorem growDrawing_of_countOf_eq_zero (h : g.catalog.countOf type = 0) (remaining : Nat) :
    (g.growDrawing remaining type : StateM (Supply σ) _) = g.leafDrawing type := by
  cases remaining with
  | zero => rfl
  | succ remaining => rw [growDrawing, nextOperator?, if_pos h, pure_bind]

/-- A leaf that is a placeholder draws no literal. -/
theorem drawn_leafDrawing (h : (s.slots.take type s.rng).1 ≠ none) :
    ((g.leafDrawing type).run s).1.2 = [] := by
  obtain ⟨index, hindex⟩ := Option.ne_none_iff_exists'.mp h
  have htaken : (takeSlot type).run s = (some index, ((takeSlot type).run s).2) :=
    Prod.ext hindex rfl
  rw [leafDrawing, run_bind_eq htaken]
  rfl

/-- Where no slot and no literal has the type, a leaf is the null, and nothing is drawn for it. -/
theorem run_leafDrawing_uncovered (hslots : s.slots.candidates type = [])
    (hliterals : g.constants.constantsOf type = []) :
    (g.leafDrawing type).run s = ((.null type, [⟨type, .null type⟩]), s) := by
  have htaken : (takeSlot type).run s = (none, s) := by
    simp only [takeSlot, StateT.run, take, hslots, RandomSource.choose]
  have hchosen : (draw (RandomSource.choose (g.constants.constantsOf type))).run s =
      ((none, s) : Option Value × Supply σ) := by
    rw [hliterals]
    rfl
  have hliteral : (g.literal type).run s = (.null type, s) := by
    rw [literal, run_bind_eq hchosen]
    rfl
  rw [leafDrawing, run_bind_eq htaken]
  dsimp only
  rw [literalDrawing, run_bind_eq hliteral]
  rfl

end Uncovered

/-- A type is covered if an operator mentions it, a slot has it or there is a literal of it. -/
def Covered (g : Generator) (types : List ValueType) (type : ValueType) : Prop :=
  type ∈ g.catalog.valueTypes ∨ type ∈ types ∨ g.constants.constantsOf type ≠ []

/-- Over a pool of constants that passed the check, with slots that were laid out and used in any
way, a tree of a covered type draws literals from the banks only. -/
theorem banked_of_covered (supply : Supply σ) {target : ValueType}
    (hvalid : g.constants.validateFor g.catalog = .ok ()) (hs : supply.slots.Consistent)
    (h : g.Covered supply.slots.types target) :
    Banked g.constants ((g.growDrawing g.maxDepth target).run supply).1 := by
  have hbanks (type : ValueType) (htype : type ∈ g.catalog.valueTypes) :
      g.constants.constantsOf type ≠ [] := by
    obtain ⟨e, he, hmentions⟩ := Catalog.mem_valueTypes.mp htype
    exact ConstantPool.validateFor_eq_ok_iff.mp hvalid e he type hmentions
  by_cases htarget : g.constants.constantsOf target = []
  · -- There is no operator and no literal of the target, so the whole tree is a slot.
    have hunused : target ∉ g.catalog.valueTypes := fun hused => hbanks target hused htarget
    obtain hused | hslot | hliteral := h
    · exact absurd hused hunused
    · have htaken : (supply.slots.take target supply.rng).1 ≠ none :=
        fun hnone => hs.take_eq_none_iff.mp hnone hslot
      rw [growDrawing_of_countOf_eq_zero (Catalog.countOf_eq_zero hunused), Banked,
        drawn_leafDrawing htaken]
      exact List.forall_mem_nil _
    · exact absurd htarget hliteral
  · obtain ⟨-, -, hbanked⟩ := yields_growDrawing hbanks g.maxDepth htarget supply
    exact hbanked

/-- A tree of a type that is not covered is the null of the type, and the only literal that is drawn
for it is in no bank. -/
theorem run_growDrawing_uncovered (supply : Supply σ) {target : ValueType}
    (h : ¬ g.Covered supply.slots.types target) :
    (g.growDrawing g.maxDepth target).run supply =
      ((.null target, [⟨target, .null target⟩]), supply) := by
  simp only [Covered, not_or, not_not] at h
  obtain ⟨hunused, hslots, hliterals⟩ := h
  rw [growDrawing_of_countOf_eq_zero (Catalog.countOf_eq_zero hunused)]
  exact run_leafDrawing_uncovered (candidates_eq_nil_iff.mpr hslots) hliterals

/-- Over a catalog that a constant pool was checked against, with slots that were laid out and used
in any way, and whatever the target, the depth, the odds and the random words are, the generated
tree draws all its literals from the banks of their types exactly if the target is mentioned by an
operator, is the type of a slot or has a literal. Otherwise the tree is the null of the target,
which is in no bank. -/
theorem validated_literals_are_banked_unless_target_uncovered (c : Catalog)
    (constants : ConstantPool) (hvalid : constants.validateFor c = .ok ()) (maxDepth odds : Nat)
    (types : List ValueType) (pool slots : RootSlots) (requests : List Request)
    (hpool : ofTypes types = .ok pool) (htakes : Takes pool requests slots) (target : ValueType)
    (rng : σ) :
    let g : Generator := ⟨c, constants, maxDepth, odds⟩
    ∃ tree drawn rest,
      (g.growDrawing maxDepth target).run ⟨slots, rng⟩ = ((tree, drawn), rest) ∧
      (g.generate target ⟨slots, rng⟩).value = (tree, rest) ∧
      ((∀ d ∈ drawn, d.Banked constants) ↔ g.Covered types target) ∧
      (¬ g.Covered types target → constants.constantsOf target = [] ∧ tree = .null target ∧
        drawn = [⟨target, .null target⟩] ∧ rest = ⟨slots, rng⟩) := by
  intro g
  obtain ⟨hlength, rfl⟩ := ofTypes_eq_ok_iff.mp hpool
  have hs : slots.Consistent := htakes.consistent (.fresh hlength)
  obtain rfl : slots.types = types := htakes.types_eq
  rcases hrun : (g.growDrawing maxDepth target).run ⟨slots, rng⟩ with ⟨⟨tree, drawn⟩, rest⟩
  have huncovered (h : ¬ g.Covered slots.types target) :
      constants.constantsOf target = [] ∧ tree = .null target ∧
        drawn = [⟨target, .null target⟩] ∧ rest = ⟨slots, rng⟩ := by
    have hnull := run_growDrawing_uncovered (g := g) ⟨slots, rng⟩ h
    rw [hrun] at hnull
    cases hnull
    exact ⟨not_not.mp fun hliterals => h (.inr (.inr hliterals)), rfl, rfl, rfl⟩
  refine ⟨tree, drawn, rest, rfl, value_generate_eq hrun, ⟨fun hbanked => ?_, fun h => ?_⟩,
    huncovered⟩
  · by_contra h
    obtain ⟨hliterals, -, rfl, -⟩ := huncovered h
    obtain ⟨v, hv, -⟩ := hbanked _ (List.mem_singleton_self _)
    exact List.ne_nil_of_mem hv hliterals
  · have hbanked := banked_of_covered (g := g) ⟨slots, rng⟩ hvalid hs h
    rw [hrun] at hbanked
    exact hbanked

/-- Over the comparison of booleans, a boolean literal passes the check. With a slot for a text, a
boolean tree compares the literal to itself. An integer is not covered: its tree is a null, and
there is no null in any bank. -/
theorem boolean_literals_are_banked_but_no_integer :
    let constants : ConstantPool := ⟨[.bool true]⟩
    let supply : Supply WordCycle := ⟨fresh [.string], WordCycle.ofList [0]⟩
    let literal : Draw := ⟨.bool, .const (.bool true)⟩
    let tree : Expr := .equal literal.leaf literal.leaf
    ∃ c, Catalog.ofDescriptors [.binary "Equal" .bool .bool .bool .equal] = .ok c ∧
      constants.validateFor c = .ok () ∧ ofTypes [.string] = .ok supply.slots ∧
      Takes supply.slots [] supply.slots ∧
      (∃ rest, (growDrawing ⟨c, constants, 1, 1⟩ 1 .bool).run supply =
        ((tree, [literal, literal]), rest)) ∧
      literal.Banked constants ∧
      (generate ⟨c, constants, 1, 1⟩ .int supply).value = (.null .int, supply) := by
  intro constants supply literal tree
  obtain ⟨c, hc⟩ : ∃ c, Catalog.ofDescriptors [.binary "Equal" .bool .bool .bool .equal] = .ok c :=
    ⟨_, rfl⟩
  have hvalid : constants.validateFor c = .ok () := by
    cases hc
    rfl
  have hpool : ofTypes [.string] = .ok supply.slots := rfl
  have htakes : Takes supply.slots [] supply.slots := .refl _
  have hmain (target : ValueType) :=
    validated_literals_are_banked_unless_target_uncovered c constants hvalid 1 1 [.string] _ _ []
      hpool htakes target supply.rng
  obtain ⟨rest, hrun⟩ : ∃ rest, (growDrawing ⟨c, constants, 1, 1⟩ 1 .bool).run supply =
      ((tree, [literal, literal]), rest) := by
    cases hc
    subst constants supply literal tree
    exact ⟨_, rfl⟩
  refine ⟨c, hc, hvalid, hpool, htakes, ⟨rest, hrun⟩, ?_, ?_⟩
  · have hmentioned : ValueType.bool ∈ c.valueTypes := by
      cases hc
      decide
    obtain ⟨_, drawn, _, hgrown, -, hbanked, -⟩ := hmain .bool
    obtain ⟨hresult, -⟩ := Prod.mk.inj (hrun.symm.trans hgrown)
    obtain ⟨-, rfl⟩ := Prod.mk.inj hresult
    exact hbanked.mpr (.inl hmentioned) literal List.mem_cons_self
  · obtain ⟨grown, drawn, rest, -, hvalue, -, huncovered⟩ := hmain .int
    have hmissing : ¬ Covered ⟨c, constants, 1, 1⟩ [.string] .int := by
      cases hc
      simp only [Covered]
      decide
    obtain ⟨-, rfl, -, rfl⟩ := huncovered hmissing
    exact hvalue

/-- Not every literal is in a bank, although the literals were checked against the catalog: the
catalog negates booleans, and the target is an integer. -/
theorem validated_literals_are_not_always_banked :
    ¬ ∀ (ds : List Catalog.Descriptor) (c : Catalog) (constants : ConstantPool)
      (maxDepth odds : Nat) (types : List ValueType) (pool : RootSlots) (target : ValueType)
      (rng : WordCycle) (tree : Expr) (drawn : List Draw) (rest : Supply WordCycle),
      Catalog.ofDescriptors ds = .ok c → constants.validateFor c = .ok () →
      ofTypes types = .ok pool →
      (growDrawing ⟨c, constants, maxDepth, odds⟩ maxDepth target).run ⟨pool, rng⟩ =
        ((tree, drawn), rest) →
      ∀ d ∈ drawn, d.Banked constants := by
  intro hall
  let negations : List Catalog.Descriptor := [.unary "Not" .bool .bool .not]
  let constants : ConstantPool := ⟨[.bool true]⟩
  obtain ⟨c, hc⟩ : ∃ c, Catalog.ofDescriptors negations = .ok c := ⟨_, rfl⟩
  have hvalid : constants.validateFor c = .ok () := by
    cases hc
    rfl
  have hmissing : ¬ Covered ⟨c, constants, 3, 3⟩ [.bool] .int := by
    cases hc
    simp only [Covered]
    decide
  have hnull := run_growDrawing_uncovered (g := ⟨c, constants, 3, 3⟩)
    ⟨fresh [.bool], WordCycle.ofList [0]⟩ hmissing
  have hbanked := hall negations c constants 3 3 [.bool] (fresh [.bool]) .int (WordCycle.ofList [0])
    _ _ _ hc hvalid rfl hnull
  obtain ⟨v, hv, -⟩ := hbanked _ (List.mem_singleton_self _)
  exact List.not_mem_nil hv

end Generator

end QueryParity
