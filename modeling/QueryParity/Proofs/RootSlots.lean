import Mathlib.Data.List.Nodup
import Mathlib.Data.List.Perm.Subperm
import QueryParity.RootSlots

/-!
# Slots that are handed out

Every request for a slot is answered with an unused slot of the type, if there is one. Over any
number of requests, whatever the random words are, the marks of the used slots and the order in
which slots were handed out tell the same history, and no slot of a type comes twice before every
other one came once.
-/

namespace QueryParity

namespace RandomSource

variable {σ α : Type} [RandomSource σ]

/-- What is chosen from a list is a member of it. -/
theorem mem_of_choose {xs : List α} {rng : σ} {x : α} (h : (choose xs rng).1 = some x) :
    x ∈ xs := by
  cases xs with
  | nil => cases h
  | cons y ys =>
    have hx : (y :: ys)[(below (ys.length + 1) rng).1]?.getD y = x := Option.some.inj h
    rw [← hx]
    cases hi : (y :: ys)[(below (ys.length + 1) rng).1]? with
    | none => exact List.mem_cons_self
    | some z => exact List.mem_of_getElem? hi

/-- Nothing is chosen from an empty list only. -/
theorem eq_nil_of_choose {xs : List α} {rng : σ} (h : (choose xs rng).1 = none) : xs = [] := by
  cases xs with
  | nil => rfl
  | cons y ys => cases h

end RandomSource

namespace RootSlots

variable {σ : Type} [RandomSource σ] {s s' : RootSlots} {type : ValueType} {rng : σ} {i : Nat}

/-- There are as many slots of a type as times it stands in the list of types. -/
theorem length_ofType (s : RootSlots) (type : ValueType) :
    (s.ofType type).length = s.types.count type := by
  have hall : ∀ (ts : List ValueType) (k : Nat),
      ((ts.zipIdx k).filterMap fun p => if p.1 = type then some p.2 else none).length =
        ts.count type := by
    intro ts
    induction ts with
    | nil => intro k; rfl
    | cons t ts ih =>
      intro k
      rw [List.zipIdx_cons, List.filterMap_cons, List.count_cons, ← ih (k + 1)]
      by_cases h : t = type <;> simp [h]
  exact hall s.types 0

/-- No slot of a type is listed twice. -/
theorem nodup_ofType (s : RootSlots) (type : ValueType) : (s.ofType type).Nodup := by
  have hpositions : (s.types.zipIdx.map Prod.snd).Nodup := by
    rw [List.zipIdx_map_snd]
    exact List.nodup_range'
  refine List.pairwise_filterMap.mpr ((List.pairwise_map.mp hpositions).imp ?_)
  rintro ⟨t, i⟩ ⟨u, j⟩ hne x hx y hy
  obtain ⟨-, hix⟩ := Option.ite_none_right_eq_some.mp hx
  obtain ⟨-, hjy⟩ := Option.ite_none_right_eq_some.mp hy
  cases hix
  cases hjy
  exact hne

/-- A slot is a candidate if it has the type and is unused, or used like all the others. -/
theorem mem_candidates : i ∈ s.candidates type ↔ s.types[i]? = some type ∧
    (s.isUsed i = true → ∀ j, s.types[j]? = some type → s.isUsed j = true) := by
  simp only [candidates, List.isEmpty_iff]
  split
  · rename_i hnone
    have hused : ∀ j, s.types[j]? = some type → s.isUsed j = true := by
      intro j hj
      have hfilter := List.filter_eq_nil_iff.mp hnone j (mem_ofType.mpr hj)
      simpa using hfilter
    rw [mem_ofType]
    exact ⟨fun h => ⟨h, fun _ => hused⟩, And.left⟩
  · rename_i hsome
    obtain ⟨j, hj⟩ := List.exists_mem_of_ne_nil _ hsome
    rw [List.mem_filter, mem_ofType, Bool.not_eq_true'] at hj
    rw [List.mem_filter, mem_ofType, Bool.not_eq_true']
    refine and_congr_right fun _ => ⟨fun hi hused => ?_, fun hall => ?_⟩
    · cases hi.symm.trans hused
    · cases hi : s.isUsed i with
      | false => rfl
      | true => cases hj.2.symm.trans (hall hi j hj.1)

/-- A candidate is a slot. -/
theorem lt_length_of_mem_candidates (h : i ∈ s.candidates type) : i < s.types.length :=
  (List.getElem?_eq_some_iff.mp (mem_candidates.mp h).1).1

/-- There is no candidate exactly if no slot has the type. -/
theorem candidates_eq_nil_iff : s.candidates type = [] ↔ type ∉ s.types := by
  have hcount : s.ofType type = [] ↔ type ∉ s.types := by
    rw [← List.length_eq_zero_iff, length_ofType, List.count_eq_zero]
  rw [← hcount]
  simp only [candidates, List.isEmpty_iff]
  split
  · exact Iff.rfl
  · rename_i hsome
    refine ⟨fun h => absurd h hsome, fun h => absurd ?_ hsome⟩
    rw [h, List.filter_nil]

/-- A request is answered with a candidate, or the pool stays as it is. -/
theorem take_cases (s : RootSlots) (type : ValueType) (rng : σ) :
    (∃ slot ∈ s.candidates type, slot < indexLimit ∧ (s.take type rng).1 = some slot ∧
      (s.take type rng).2.1 = s.handOut slot) ∨
    ((s.candidates type = [] ∨ ∃ slot ∈ s.candidates type, indexLimit ≤ slot) ∧
      (s.take type rng).1 = none ∧ (s.take type rng).2.1 = s) := by
  rw [take]
  rcases hchoice : RandomSource.choose (s.candidates type) rng with ⟨_ | slot, rest⟩
  · exact .inr ⟨.inl (RandomSource.eq_nil_of_choose (congrArg Prod.fst hchoice)), rfl, rfl⟩
  · have hmem := RandomSource.mem_of_choose (congrArg Prod.fst hchoice)
    dsimp only
    split
    · rename_i hslot
      exact .inl ⟨slot, hmem, hslot, rfl, rfl⟩
    · rename_i hslot
      exact .inr ⟨.inr ⟨slot, hmem, Nat.le_of_not_lt hslot⟩, rfl, rfl⟩

/-- A slot that is handed out has the type asked for. -/
theorem getElem?_of_take (h : (s.take type rng).1 = some i) : s.types[i]? = some type := by
  obtain ⟨slot, hmem, -, hanswer, -⟩ | ⟨-, hanswer, -⟩ := s.take_cases type rng
  · obtain rfl : slot = i := Option.some.inj (hanswer.symm.trans h)
    exact (mem_candidates.mp hmem).1
  · cases hanswer.symm.trans h

/-- A request that is refused leaves the pool. -/
theorem eq_of_take_eq_none (h : (s.take type rng).1 = none) : (s.take type rng).2.1 = s := by
  obtain ⟨slot, -, -, hanswer, -⟩ | ⟨-, -, hnext⟩ := s.take_cases type rng
  · cases hanswer.symm.trans h
  · exact hnext

/-- Handing out a slot leaves the types of the slots. -/
theorem types_take (s : RootSlots) (type : ValueType) (rng : σ) :
    (s.take type rng).2.1.types = s.types := by
  obtain ⟨slot, -, -, -, hnext⟩ | ⟨-, -, hnext⟩ := s.take_cases type rng <;> rw [hnext]
  rfl

/-- No slot of a fresh pool is used. -/
theorem isUsed_fresh (types : List ValueType) (i : Nat) : (fresh types).isUsed i = false := by
  rw [isUsed, RootSlots.fresh, Array.getElem?_replicate]
  split <;> rfl

/-- A pool is laid out fresh, if there are not more slots than indices. -/
theorem ofTypes_eq_ok_iff {types : List ValueType} :
    ofTypes types = .ok s ↔ types.length ≤ indexLimit ∧ s = fresh types := by
  rw [ofTypes]
  split
  · rename_i hlength
    rw [Except.ok.injEq]
    exact ⟨fun h => ⟨hlength, h.symm⟩, fun h => h.2.symm⟩
  · rename_i hlength
    exact iff_of_false nofun fun h => hlength h.1

/-- A pool in which the marks of the used slots and the order of use tell the same history. -/
structure Consistent (s : RootSlots) : Prop where
  /-- Every slot has an index. -/
  length_le : s.types.length ≤ indexLimit
  /-- Every slot has a mark. -/
  size_used : s.used.size = s.types.length
  /-- The marked slots are those that were handed out. -/
  isUsed_iff : ∀ i, s.isUsed i = true ↔ i ∈ s.usageOrder

namespace Consistent

/-- A fresh pool with an index for every slot is consistent. -/
theorem fresh {types : List ValueType} (h : types.length ≤ indexLimit) :
    (fresh types).Consistent where
  length_le := h
  size_used := Array.size_replicate
  isUsed_iff := by
    intro i
    refine iff_of_false ?_ List.not_mem_nil
    rw [isUsed_fresh]
    exact Bool.false_ne_true

/-- Handing out a slot of a consistent pool leaves it consistent. -/
theorem handOut (h : s.Consistent) (hi : i < s.types.length) : (s.handOut i).Consistent where
  length_le := h.length_le
  size_used := by
    rw [RootSlots.handOut, Array.size_setIfInBounds]
    exact h.size_used
  isUsed_iff := by
    intro j
    have hj := h.isUsed_iff j
    have hsize : i < s.used.size := h.size_used ▸ hi
    simp only [RootSlots.handOut, isUsed, List.mem_append, List.mem_singleton,
      Array.getElem?_setIfInBounds] at hj ⊢
    by_cases hij : i = j
    · subst hij
      simp [hsize]
    · rw [if_neg hij, hj]
      simp [Ne.symm hij]

/-- A request leaves a pool consistent. -/
theorem take (h : s.Consistent) (type : ValueType) (rng : σ) :
    (s.take type rng).2.1.Consistent := by
  obtain ⟨slot, hmem, -, -, hnext⟩ | ⟨-, -, hnext⟩ := s.take_cases type rng
  · rw [hnext]
    exact h.handOut (lt_length_of_mem_candidates hmem)
  · rwa [hnext]

/-- A request to a consistent pool fails exactly if no slot has the type. -/
theorem take_eq_none_iff (h : s.Consistent) : (s.take type rng).1 = none ↔ type ∉ s.types := by
  rw [← candidates_eq_nil_iff]
  obtain ⟨slot, hmem, -, hanswer, -⟩ | ⟨hnone | ⟨slot, hmem, hslot⟩, hanswer, -⟩ :=
    s.take_cases type rng
  · simp [hanswer, List.ne_nil_of_mem hmem]
  · exact iff_of_true hanswer hnone
  · have hlt := lt_length_of_mem_candidates hmem
    have hle := h.length_le
    omega

/-- A slot that was handed out before comes again only if every slot of its type was. -/
theorem mem_usageOrder_of_take (h : s.Consistent) (hi : (s.take type rng).1 = some i)
    (hused : i ∈ s.usageOrder) {j : Nat} (hj : s.types[j]? = some type) : j ∈ s.usageOrder := by
  obtain ⟨slot, hmem, -, hanswer, -⟩ | ⟨-, hanswer, -⟩ := s.take_cases type rng
  · obtain rfl : slot = i := Option.some.inj (hanswer.symm.trans hi)
    exact (h.isUsed_iff j).mp ((mem_candidates.mp hmem).2 ((h.isUsed_iff slot).mpr hused) j hj)
  · cases hanswer.symm.trans hi

end Consistent

/-- A slot that was asked for. -/
structure Request where
  /-- Type of the slot. -/
  type : ValueType
  /-- What was handed out, `none` if nothing was. -/
  answer : Option Nat
  deriving DecidableEq, Repr

/-- The slots that were handed out on some requests. -/
def answers (requests : List Request) : List Nat := requests.filterMap Request.answer

/-- The requests for slots of a type. -/
def requestsOf (type : ValueType) (requests : List Request) : List Request :=
  requests.filter fun r => r.type = type

/-- One more request for a type is one more of the requests for it. -/
theorem requestsOf_append_self (type : ValueType) (requests : List Request) (answer : Option Nat) :
    requestsOf type (requests ++ [⟨type, answer⟩]) =
      requestsOf type requests ++ [⟨type, answer⟩] := by
  simp [requestsOf]

/-- One more request for another type is none of the requests for a type. -/
theorem requestsOf_append_other {type other : ValueType} (h : other ≠ type)
    (requests : List Request) (answer : Option Nat) :
    requestsOf type (requests ++ [⟨other, answer⟩]) = requestsOf type requests := by
  simp [requestsOf, h]

/-- Requests lead from one pool to another, each with random words of its own. -/
inductive Takes : RootSlots → List Request → RootSlots → Prop where
  /-- No request. -/
  | refl (s : RootSlots) : Takes s [] s
  /-- One more request. -/
  | take {σ : Type} [RandomSource σ] {s s' : RootSlots} {requests : List Request}
      (type : ValueType) (rng : σ) : Takes s requests s' →
      Takes s (requests ++ [⟨type, (s'.take type rng).1⟩]) (s'.take type rng).2.1

namespace Takes

variable {requests more : List Request}

/-- One more request, by its answer and the pool it leaves. -/
theorem answered {next : RootSlots} {answer : Option Nat} (h : Takes s requests s')
    (type : ValueType) (rng : σ) (hanswer : (s'.take type rng).1 = answer)
    (hnext : (s'.take type rng).2.1 = next) : Takes s (requests ++ [⟨type, answer⟩]) next := by
  rw [← hanswer, ← hnext]
  exact h.take type rng

/-- Requests after requests. -/
theorem trans {s'' : RootSlots} (h : Takes s requests s') (h' : Takes s' more s'') :
    Takes s (requests ++ more) s'' := by
  induction h' with
  | refl => rwa [List.append_nil]
  | take type rng _ ih =>
    rw [← List.append_assoc]
    exact (ih h).take type rng

/-- Requests leave the types of the slots. -/
theorem types_eq (h : Takes s requests s') : s'.types = s.types := by
  induction h with
  | refl => rfl
  | take type rng _ ih => rw [types_take, ih]

/-- Requests leave a pool consistent. -/
theorem consistent (h : Takes s requests s') (hs : s.Consistent) : s'.Consistent := by
  induction h with
  | refl => exact hs
  | take type rng _ ih => exact (ih hs).take type rng

/-- The order of use grows by the answers. -/
theorem usageOrder_eq (h : Takes s requests s') :
    s'.usageOrder = s.usageOrder ++ answers requests := by
  induction h with
  | refl => exact (List.append_nil _).symm
  | @take σ _ s s' requests type rng _ ih =>
    rw [answers, List.filterMap_append, ← List.append_assoc, ← answers, ← ih]
    obtain ⟨slot, -, -, hanswer, hnext⟩ | ⟨-, hanswer, hnext⟩ := s'.take_cases type rng <;>
      rw [hanswer, hnext]
    · rfl
    · exact (List.append_nil _).symm

/-- Every answer is a slot of the type asked for. -/
theorem getElem?_of_mem (h : Takes s requests s') {r : Request} (hr : r ∈ requests)
    (hi : r.answer = some i) : s.types[i]? = some r.type := by
  induction h with
  | refl => cases hr
  | take type rng h ih =>
    obtain hr | hr := List.mem_append.mp hr
    · exact ih hr
    · rw [List.mem_singleton.mp hr] at hi ⊢
      rw [← h.types_eq]
      exact getElem?_of_take hi

/-- The requests for slots of a type have as answers all slots of the type that were handed out. -/
theorem mem_answers_requestsOf (h : Takes s requests s') (htype : s.types[i]? = some type)
    (hi : i ∈ answers requests) : i ∈ answers (requestsOf type requests) := by
  obtain ⟨r, hr, hanswer⟩ := List.mem_filterMap.mp hi
  have hslot := h.getElem?_of_mem hr hanswer
  obtain rfl : r.type = type := Option.some.inj (hslot.symm.trans htype)
  exact List.mem_filterMap.mpr ⟨r, List.mem_filter.mpr ⟨hr, decide_eq_true rfl⟩, hanswer⟩

/-- Fewer requests for a type than there are slots of it leave out a slot of the type. -/
theorem exists_unused (h : Takes s requests s')
    (hfew : (requestsOf type requests).length < s.types.count type) :
    ∃ j, s.types[j]? = some type ∧ j ∉ answers requests := by
  by_contra hall
  have hsubset : s.ofType type ⊆ answers (requestsOf type requests) := by
    intro j hj
    have htype := mem_ofType.mp hj
    have hused : j ∈ answers requests := by
      by_contra hunused
      exact hall ⟨j, htype, hunused⟩
    exact h.mem_answers_requestsOf htype hused
  have hlength := (List.subperm_of_subset (s.nodup_ofType type) hsubset).length_le
  have hanswers := List.length_filterMap_le Request.answer (requestsOf type requests)
  rw [length_ofType] at hlength
  unfold answers at hlength
  omega

/-- While fewer slots of a type were asked for than there are, the answer to one more request for
the type is a slot that was not handed out. -/
theorem exists_new_answer (h : Takes s requests s') (hs : s.Consistent) (hfresh : s.usageOrder = [])
    (hfew : (requestsOf type requests).length < s.types.count type) (rng : σ) :
    ∃ slot, (s'.take type rng).1 = some slot ∧ slot ∉ answers requests := by
  obtain ⟨j, hj, hunused⟩ := h.exists_unused hfew
  have horder : s'.usageOrder = answers requests := by
    rw [h.usageOrder_eq, hfresh, List.nil_append]
  cases hanswer : (s'.take type rng).1 with
  | none =>
    have hmissing := (h.consistent hs).take_eq_none_iff.mp hanswer
    rw [h.types_eq] at hmissing
    exact absurd (List.mem_of_getElem? hj) hmissing
  | some slot =>
    refine ⟨slot, rfl, fun hused => hunused ?_⟩
    rw [← horder] at hused ⊢
    rw [← h.types_eq] at hj
    exact (h.consistent hs).mem_usageOrder_of_take hanswer hused hj

/-- The first requests to a fresh pool for slots of a type, as many as there are slots of it, are
answered with different slots. -/
theorem exists_distinct (h : Takes s requests s') (hs : s.Consistent) (hfresh : s.usageOrder = [])
    (type : ValueType) : ∃ slots : List Nat, slots.Nodup ∧
      ((requestsOf type requests).take (s.types.count type)).map Request.answer =
        slots.map some := by
  induction h with
  | refl => exact ⟨[], List.nodup_nil, by simp [requestsOf]⟩
  | @take σ _ s s' requests type' rng h ih =>
    obtain ⟨slots, hnodup, hslots⟩ := ih hs hfresh
    by_cases htype : type' = type
    · subst htype
      rw [requestsOf_append_self]
      by_cases hfew : (requestsOf type' requests).length < s.types.count type'
      · obtain ⟨slot, hanswer, hnew⟩ := h.exists_new_answer hs hfresh hfew rng
        rw [List.take_of_length_le (Nat.le_of_lt hfew)] at hslots
        have hlength : (requestsOf type' requests ++
            [Request.mk type' (s'.take type' rng).1]).length ≤ s.types.count type' := by
          rw [List.length_append, List.length_singleton]
          exact hfew
        have hfresh' : slot ∉ slots := by
          intro hslot
          have hanswers := List.mem_map_of_mem (f := some) hslot
          rw [← hslots] at hanswers
          obtain ⟨r, hr, hrslot⟩ := List.mem_map.mp hanswers
          exact hnew (List.mem_filterMap.mpr ⟨r, List.mem_of_mem_filter hr, hrslot⟩)
        refine ⟨slots ++ [slot], hnodup.append (List.nodup_singleton _) ?_, ?_⟩
        · exact List.disjoint_singleton.mpr hfresh'
        · rw [List.take_of_length_le hlength, List.map_append, List.map_append, hslots,
            List.map_singleton, List.map_singleton, hanswer]
      · rw [List.take_append_of_le_length (Nat.le_of_not_lt hfew)]
        exact ⟨slots, hnodup, hslots⟩
    · rw [requestsOf_append_other htype]
      exact ⟨slots, hnodup, hslots⟩

end Takes

end RootSlots

end QueryParity
