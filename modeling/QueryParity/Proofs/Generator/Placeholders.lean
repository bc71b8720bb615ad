import QueryParity.Proofs.Expr.Walk
import QueryParity.Proofs.Generator.Trees
import QueryParity.Random.Cycle

/-!
# Placeholders of a tree in the order of use

Operators build their nodes over their operands from left to right, as the operands were grown. So
the placeholders of a generated tree, read from left to right, are the slots in the order in which
they were handed out for it: each request that was answered is a placeholder, and there is no other
one.
-/

namespace QueryParity

open RootSlots

/-- The placeholder that stands for the slot that was handed out on a request. -/
def RootSlots.Request.placeholder? (r : Request) : Option (Nat × ValueType) :=
  r.answer.map fun index => (index, r.type)

/-- The slots that were handed out are those that the placeholders stand for. -/
theorem RootSlots.answers_eq_map_placeholders (requests : List Request) :
    answers requests = (requests.filterMap Request.placeholder?).map Prod.fst := by
  have hanswer : (fun r : Request => r.placeholder?.map Prod.fst) = Request.answer := by
    funext r
    rw [Request.placeholder?, Option.map_map]
    exact Option.map_id_apply
  rw [answers, List.map_filterMap, hanswer]

/-- There is no placeholder for requests that were refused. -/
theorem RootSlots.placeholders_of_refused {requests : List Request} (h : answers requests = []) :
    requests.filterMap Request.placeholder? = [] := by
  rw [answers_eq_map_placeholders] at h
  exact List.map_eq_nil_iff.mp h

/-- Every placeholder stands for a slot of its type. -/
theorem RootSlots.Takes.getElem?_of_mem_placeholders {s s' : RootSlots} {requests : List Request}
    {index : Nat} {type : ValueType} (h : Takes s requests s')
    (hmem : (index, type) ∈ requests.filterMap Request.placeholder?) :
    s.types[index]? = some type := by
  obtain ⟨r, hr, hanswer⟩ := List.mem_filterMap.mp hmem
  obtain ⟨i, hi, hpair⟩ := Option.map_eq_some_iff.mp hanswer
  cases hpair
  exact h.getElem?_of_mem hr hi

namespace Catalog

variable {functions : Func → Prop}

/-- The placeholders of a node are those of its operands, the left one first. -/
theorem BinaryEntry.roots_build {e : BinaryEntry} (h : (Entry.binary e).Typed functions)
    (l r : Expr) : (e.build l r).roots = l.roots ++ r.roots := by
  cases h with
  | binary _ => exact Expr.roots_binary _ l r
  | call _ _ => simp

/-- The placeholders of a node are those of its operand; the zone `UTC` is none. -/
theorem UnaryEntry.roots_build {e : UnaryEntry} (h : (Entry.unary e).Typed functions) (a : Expr) :
    (e.build a).roots = a.roots := by
  cases h with
  | unary _ => exact Expr.roots_unary _ a
  | utc => simp [Expr.atUtc, Expr.atTimeZone, Expr.stringLit]

end Catalog

namespace Generator

variable {functions : Func → Prop} {g : Generator} {type : ValueType} {tree : Expr}
  {requests : List Request}

/-- The placeholders of a tree that is grown over typed entries are the answers to its requests. -/
theorem Grown.roots_eq (h : g.Grown type tree requests)
    (hentries : ∀ entry ∈ g.catalog.entries, entry.Typed functions) :
    tree.roots = requests.filterMap Request.placeholder? := by
  induction h with
  | root => exact Expr.roots_root _ _
  | literal _ hrefused => rw [Expr.roots_const, placeholders_of_refused hrefused]
  | null _ hrefused => rw [Expr.null, Expr.roots_const, placeholders_of_refused hrefused]
  | binary hmem _ _ ihl ihr =>
    rw [Catalog.BinaryEntry.roots_build (hentries _ hmem), ihl, ihr, List.filterMap_append]
  | unary hmem _ ih => rw [Catalog.UnaryEntry.roots_build (hentries _ hmem), ih]

/-- Over an accepted catalog whose builders are plain, with any literals and any random words, and
whatever was handed out of the slots before: generating a tree adds to the order of use exactly the
placeholders of the tree in preorder, each as often as it occurs. Every placeholder of the tree
stands for a slot of its type, and the slot is marked as used. -/
theorem generated_tree_records_slots {σ : Type} [RandomSource σ] (ds : List Catalog.Descriptor)
    (c : Catalog) (h : Catalog.ofDescriptors ds = .ok c)
    (hds : ∀ d ∈ ds, d.builder.Plain fun _ => True) (constants : ConstantPool)
    (maxDepth odds : Nat) (target : ValueType) (types : List ValueType) (pool s : RootSlots)
    (requests : List Request) (hpool : ofTypes types = .ok pool) (hs : Takes pool requests s)
    (rng : σ) :
    let result := (generate ⟨c, constants, maxDepth, odds⟩ target ⟨s, rng⟩).value
    let tree := result.1
    let slots := result.2.slots
    slots.usageOrder = s.usageOrder ++ tree.roots.map Prod.fst ∧
    tree.roots = tree.preorder.filterMap Expr.root? ∧
    ∀ index type, .root index type ∈ tree.preorder →
      index < slots.length ∧ types[index]? = some type ∧ slots.isUsed index = true := by
  intro result tree slots
  obtain ⟨hlength, rfl⟩ := ofTypes_eq_ok_iff.mp hpool
  have hentries := Catalog.typed_of_ofDescriptors h hds
  obtain ⟨more, htakes, hgrown⟩ :=
    exists_takes_generate ⟨c, constants, maxDepth, odds⟩ target ⟨s, rng⟩
  have hroots : tree.roots = more.filterMap Request.placeholder? := hgrown.roots_eq hentries
  have horder : slots.usageOrder = s.usageOrder ++ tree.roots.map Prod.fst := by
    rw [hroots, ← answers_eq_map_placeholders]
    exact htakes.usageOrder_eq
  have hall := hs.trans htakes
  have hslots : slots.Consistent := hall.consistent (.fresh hlength)
  have htypes : slots.types = types := hall.types_eq
  refine ⟨horder, Expr.roots_eq tree, fun index type hroot => ?_⟩
  have hmem : (index, type) ∈ tree.roots := Expr.mem_roots_iff.mpr hroot
  have hslot : slots.types[index]? = some type := by
    rw [htakes.types_eq]
    exact htakes.getElem?_of_mem_placeholders (hroots ▸ hmem)
  refine ⟨(List.getElem?_eq_some_iff.mp hslot).1, htypes ▸ hslot,
    (hslots.isUsed_iff index).mpr ?_⟩
  rw [horder]
  exact List.mem_append_right _ (List.mem_map_of_mem (f := Prod.fst) hmem)

/-- A difference that is compared to an integer, after one of two slots was handed out: the other
slot comes first, and then either one a second time. -/
theorem generated_comparison_records_slots :
    let ds : List Catalog.Descriptor :=
      [.binary "LessThan" .int .int .bool .lessThan, .binary "Subtract" .int .int .int .subtract]
    let words := WordCycle.ofList [0, 0, 0x80000000, 0, 0, 0x80000000, 0, 0]
    let tree : Expr := .lessThan (.subtract (.root 0 .int) (.root 2 .int)) (.root 0 .int)
    ∃ c s, Catalog.ofDescriptors ds = .ok c ∧ Takes (fresh [.int, .bool, .int]) [⟨.int, some 2⟩] s ∧
      (generate ⟨c, .empty, 2, 0⟩ .bool ⟨s, words⟩).value.1 = tree ∧
      (generate ⟨c, .empty, 2, 0⟩ .bool ⟨s, words⟩).value.2.slots.usageOrder =
        [2] ++ tree.roots.map Prod.fst ∧ tree.roots = [(0, .int), (2, .int), (0, .int)] := by
  intro ds words tree
  have hds : ∀ d ∈ ds, d.builder.Plain fun _ => True := by
    simp only [ds, List.forall_mem_cons]
    exact ⟨.binary .lessThan, .binary .subtract, nofun⟩
  obtain ⟨c, hc⟩ : ∃ c, Catalog.ofDescriptors ds = .ok c := ⟨_, rfl⟩
  let s : RootSlots := ⟨[.int, .bool, .int], #[false, false, true], [2]⟩
  have hs : Takes (fresh [.int, .bool, .int]) [⟨.int, some 2⟩] s :=
    (Takes.refl _).answered .int (WordCycle.ofList [0xffffffff]) (by decide) (by decide)
  have htree : (generate ⟨c, .empty, 2, 0⟩ .bool ⟨s, words⟩).value.1 = tree := by
    cases hc
    subst words tree s
    rfl
  obtain ⟨horder, hroots, -⟩ := generated_tree_records_slots ds c hc hds .empty 2 0 .bool
    [.int, .bool, .int] _ s _ rfl hs words
  rw [htree] at horder hroots
  exact ⟨c, s, hc, hs, htree, horder, hroots⟩

end Generator

end QueryParity
