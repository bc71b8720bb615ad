import QueryParity.Proofs.Generator
import QueryParity.Random.Cycle

/-!
# Slots over many requests and trees

A fresh pool answers any sequence of requests fairly: with slots of the type asked for, none of them
a second time before all of its type came once. Generating a tree is such a sequence of requests, so
the same holds over several trees that share a pool.
-/

namespace QueryParity.RootSlots

open Generator

/-- Whatever a pool of slots was asked for, with whatever random words, its types are those it was
laid out with, the marks of the used slots agree with the order of use, and this order holds every
answer. The next answer is a slot of the type asked for, and one that was handed out before only if
every slot of the type was; there is no answer exactly if no slot has the type, and then the pool
stays as it is. The first requests for a type, as many as it has slots, are answered with different
slots. Generating a tree only adds requests. -/
theorem requests_are_answered_fairly (types : List ValueType) (pool s : RootSlots)
    (requests : List Request) (hpool : ofTypes types = .ok pool) (h : Takes pool requests s) :
    (s.types = types ∧ s.used.size = types.length) ∧
    (∀ i, s.isUsed i = true ↔ i ∈ s.usageOrder) ∧ s.usageOrder = answers requests ∧
    (∀ {σ : Type} [RandomSource σ] (type : ValueType) (rng : σ),
      (∀ i, (s.take type rng).1 = some i → i < s.length ∧ types[i]? = some type ∧
        (i ∈ s.usageOrder → ∀ j, types[j]? = some type → j ∈ s.usageOrder)) ∧
      ((s.take type rng).1 = none ↔ type ∉ types) ∧
      ((s.take type rng).1 = none → (s.take type rng).2.1 = s)) ∧
    (∀ type, ∃ slots : List Nat, slots.Nodup ∧
      ((requestsOf type requests).take (types.count type)).map Request.answer = slots.map some) ∧
    ∀ {σ : Type} [RandomSource σ] (g : Generator) (target : ValueType) (rng : σ),
      ∃ more, Takes pool (requests ++ more) (g.generate target ⟨s, rng⟩).value.2.slots := by
  obtain ⟨hlength, rfl⟩ := ofTypes_eq_ok_iff.mp hpool
  have hfresh := Consistent.fresh hlength
  have hs := h.consistent hfresh
  have htypes : s.types = types := h.types_eq
  refine ⟨⟨htypes, ?_⟩, hs.isUsed_iff, h.usageOrder_eq, fun type rng => ⟨fun i hi => ?_, ?_, ?_⟩,
    h.exists_distinct hfresh rfl, fun g target rng => ?_⟩
  · rw [hs.size_used, htypes]
  · have hslot := getElem?_of_take hi
    refine ⟨(List.getElem?_eq_some_iff.mp hslot).1, htypes ▸ hslot, fun hused j hj => ?_⟩
    exact hs.mem_usageOrder_of_take hi hused (htypes ▸ hj)
  · rw [hs.take_eq_none_iff, htypes]
  · exact eq_of_take_eq_none
  · obtain ⟨more, hmore, -⟩ := exists_takes_generate g target ⟨s, rng⟩
    exact ⟨more, h.trans hmore⟩

/-- Two slots for integers around one for booleans: a text is refused, the third request for an
integer is answered with a slot that was handed out before, and a boolean still has its own slot. -/
theorem requests_exhaust_integers :
    let types : List ValueType := [.int, .bool, .int]
    let requests : List Request :=
      [⟨.int, some 2⟩, ⟨.string, none⟩, ⟨.int, some 0⟩, ⟨.int, some 2⟩]
    ∃ s, Takes (fresh types) requests s ∧ s.usageOrder = [2, 0, 2] ∧ s.isUsed 2 = true ∧
      s.isUsed 1 = false ∧ (s.take .bool (WordCycle.ofList [0])).1 ≠ none := by
  intro types requests
  let high := WordCycle.ofList [0xffffffff]
  let low := WordCycle.ofList [0]
  have h₁ : Takes (fresh types) [⟨.int, some 2⟩] ⟨types, #[false, false, true], [2]⟩ :=
    (Takes.refl (fresh types)).answered .int high (by decide) (by decide)
  have h₂ : Takes (fresh types) [⟨.int, some 2⟩, ⟨.string, none⟩]
      ⟨types, #[false, false, true], [2]⟩ := h₁.answered .string low (by decide) (by decide)
  have h₃ : Takes (fresh types) [⟨.int, some 2⟩, ⟨.string, none⟩, ⟨.int, some 0⟩]
      ⟨types, #[true, false, true], [2, 0]⟩ := h₂.answered .int low (by decide) (by decide)
  have h₄ : Takes (fresh types) requests ⟨types, #[true, false, true], [2, 0, 2]⟩ :=
    h₃.answered .int high (by decide) (by decide)
  obtain ⟨-, hused, horder, hnext, -⟩ := requests_are_answered_fairly types _ _ requests rfl h₄
  refine ⟨_, h₄, horder, (hused 2).mpr (by decide), rfl, ?_⟩
  exact fun hnone => absurd ((hnext .bool _).2.1.mp hnone) (by decide)

end QueryParity.RootSlots
