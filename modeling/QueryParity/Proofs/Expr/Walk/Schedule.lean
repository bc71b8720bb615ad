import Mathlib.Data.List.Induction
import QueryParity.Proofs.Expr.Walk.Visits

/-!
# Every scheduled node is visited once

Nothing is pending twice or after its visit, whatever mix of orders is given, as long as nothing is
dropped and no child is placed twice: a place in the tree is pending only after the visit to the
place above it, and that visit is made once. So the visits of a walk are exactly those that are
scheduled, each after the one that scheduled it.
-/

namespace QueryParity.Expr

variable {σ ι : Type}

/-- The visits that are to be made: the one at the top, and one for every child that was placed at
a visit that is to be made and has been. -/
inductive Scheduled (top : Visit ι) (log : List (Visited ι)) : List Nat → Visit ι → Prop where
  | top : Scheduled top log [] top
  | child {entry : Visited ι} {position : Nat} {placement : Placement} {input : ι} {child : Expr} :
      Scheduled top log entry.path entry.visit → entry ∈ log →
        .place position placement input ∈ entry.orders →
          entry.visit.node.children[position]? = some child →
            Scheduled top log (entry.path ++ [position]) ⟨child, some entry.visit.node, input⟩

namespace Scheduled

variable {top visit : Visit ι} {log more : List (Visited ι)} {path : List Nat}

theorem mono (h : Scheduled top log path visit) (hmore : ∀ entry ∈ log, entry ∈ more) :
    Scheduled top more path visit := by
  induction h with
  | top => exact .top
  | child _ hentry horder hchild ih => exact .child ih (hmore _ hentry) horder hchild

/-- The way leads to the node. -/
theorem at?_eq (h : Scheduled top log path visit) : top.node.at? path = some visit.node := by
  induction h with
  | top => rfl
  | child _ _ _ hchild ih => exact at?_concat_eq_some_iff.mpr ⟨_, ih, hchild⟩

/-- The visit to the node above has been made, and it is the parent. -/
theorem parent {i : Nat} (h : Scheduled top log (path ++ [i]) visit) :
    ∃ entry ∈ log, entry.path = path ∧ visit.parent = some entry.visit.node := by
  generalize hpath : path ++ [i] = path' at h
  cases h with
  | top => exact absurd hpath (by simp)
  | child _ hentry _ _ => exact ⟨_, hentry, (List.append_inj_left' hpath rfl).symm, rfl⟩

end Scheduled

/-- The position of the child that an order places. -/
def Order.position? : Order ι → Option Nat
  | .clear => none
  | .place position _ _ => some position

/-- The visit that becomes pending by an order given at a visit. -/
def Visit.placed? (visit : Visit (List Nat × ι)) : Order ι → Option (Visit (List Nat × ι))
  | .clear => none
  | .place position _ input =>
    visit.node.children[position]?.map fun child =>
      ⟨child, some visit.node, visit.path ++ [position], input⟩

section Placing

variable {visit : Visit (List Nat × ι)} {orders : List (Order ι)}

/-- A visit becomes pending for a child that is placed. -/
theorem mem_placed_iff {placed : Visit (List Nat × ι)} :
    placed ∈ orders.filterMap visit.placed? ↔
      ∃ position placement input child, .place position placement input ∈ orders ∧
        visit.node.children[position]? = some child ∧
          placed = ⟨child, some visit.node, visit.path ++ [position], input⟩ := by
  rw [List.mem_filterMap]
  constructor
  · rintro ⟨order, horder, hplaced⟩
    cases order with
    | clear => cases hplaced
    | place position placement input =>
      obtain ⟨child, hchild, rfl⟩ := Option.map_eq_some_iff.mp hplaced
      exact ⟨position, placement, input, child, horder, hchild, rfl⟩
  · rintro ⟨position, placement, input, child, horder, hchild, rfl⟩
    exact ⟨_, horder, Option.map_eq_some_iff.mpr ⟨child, hchild, rfl⟩⟩

/-- If nothing is dropped, the visits for placed children join those that were pending. -/
theorem pendingAfter_perm (hkeeps : .clear ∉ orders) (pending : List (Visit (List Nat × ι))) :
    (visit.pendingAfter orders pending).Perm (orders.filterMap visit.placed? ++ pending) := by
  induction orders generalizing pending with
  | nil => exact .refl _
  | cons order orders ih =>
    rw [List.mem_cons, not_or] at hkeeps
    change (visit.pendingAfter orders (visit.obey pending (order.under visit.path))).Perm _
    refine (ih hkeeps.2 _).trans ?_
    cases order with
    | clear => exact absurd rfl hkeeps.1
    | place position placement input =>
      rw [Order.under, Visit.obey, List.filterMap_cons, Visit.placed?]
      cases visit.node.children[position]? with
      | none => exact .refl _
      | some child =>
        refine .trans (.append_left _ ?_) List.perm_middle
        cases placement with
        | front => exact .refl _
        | back => exact List.perm_append_singleton _ _

/-- Children that are placed once are pending once. -/
theorem nodup_placed (honce : (orders.filterMap Order.position?).Nodup) :
    ((orders.filterMap visit.placed?).map Visit.path).Nodup := by
  have hsublist : ((orders.filterMap visit.placed?).map Visit.path).Sublist
      ((orders.filterMap Order.position?).map (visit.path ++ [·])) := by
    clear honce
    induction orders with
    | nil => exact .slnil
    | cons order orders ih =>
      cases order with
      | clear => exact ih
      | place position placement input =>
        rw [List.filterMap_cons, List.filterMap_cons, Visit.placed?, Order.position?]
        cases visit.node.children[position]? with
        | none => exact ih.cons _
        | some child => exact ih.cons_cons _
  refine (honce.map fun i j hij => ?_).sublist hsublist
  exact List.singleton_inj.mp (List.append_cancel_left hij)

end Placing

/-- What is known of the visits that were made and of those that are pending. -/
structure Account (top : Visit ι) (log : List (Visited ι))
    (pending : List (Visit (List Nat × ι))) : Prop where
  /-- No node was visited or is pending twice. -/
  nodup : (log.map Visited.path ++ pending.map Visit.path).Nodup
  /-- Every visit was scheduled by the visits before it. -/
  scheduled : ∀ before entry later, log = before ++ entry :: later →
    Scheduled top before entry.path entry.visit
  /-- Every pending visit was scheduled. -/
  pending_scheduled : ∀ visit ∈ pending, Scheduled top log visit.path visit.plain
  /-- Every scheduled visit was made or is pending. -/
  kept : ∀ path visit, Scheduled top log path visit →
    (∃ entry ∈ log, entry.path = path ∧ entry.visit = visit) ∨
      ∃ waiting ∈ pending, waiting.path = path ∧ waiting.plain = visit

namespace Account

variable {top : Visit ι} {log : List (Visited ι)} {pending : List (Visit (List Nat × ι))}

/-- Before the first visit, only the top is pending. -/
theorem initial (top : Visit ι) : Account top [] [⟨top.node, top.parent, [], top.input⟩] where
  nodup := List.nodup_singleton _
  scheduled before entry later h := by simp at h
  pending_scheduled visit h := by
    obtain rfl := List.mem_singleton.mp h
    exact .top
  kept path visit h := by
    cases h with
    | top => exact .inr ⟨_, List.mem_singleton_self _, rfl, rfl⟩
    | child _ hentry _ _ => cases hentry

/-- A visit that was made was scheduled. -/
theorem scheduled_of_mem (h : Account top log pending) {entry : Visited ι} (hentry : entry ∈ log) :
    Scheduled top log entry.path entry.visit := by
  obtain ⟨before, later, rfl⟩ := List.append_of_mem hentry
  exact (h.scheduled before entry later rfl).mono fun _ hmem => List.mem_append_left _ hmem

/-- Below a node that was not visited, nothing was visited or is pending. -/
theorem path_mem (h : Account top log pending) {path : List Nat} {i : Nat}
    (hmem : path ++ [i] ∈ log.map Visited.path ++ pending.map Visit.path) :
    path ∈ log.map Visited.path := by
  have hscheduled : ∃ visit, Scheduled top log (path ++ [i]) visit := by
    obtain hmem | hmem := List.mem_append.mp hmem
    · obtain ⟨entry, hentry, hpath⟩ := List.mem_map.mp hmem
      exact ⟨_, hpath ▸ h.scheduled_of_mem hentry⟩
    · obtain ⟨visit, hvisit, hpath⟩ := List.mem_map.mp hmem
      exact ⟨_, hpath ▸ h.pending_scheduled visit hvisit⟩
  obtain ⟨visit, hvisit⟩ := hscheduled
  obtain ⟨entry, hentry, hpath, -⟩ := hvisit.parent
  exact List.mem_map.mpr ⟨entry, hentry, hpath⟩

variable {visit : Visit (List Nat × ι)} {rest : List (Visit (List Nat × ι))}
  {orders : List (Order ι)}

/-- A visit that drops nothing and places every child at most once keeps account. -/
theorem step (h : Account top log (visit :: rest)) (hkeeps : .clear ∉ orders)
    (honce : (orders.filterMap Order.position?).Nodup) :
    Account top (log ++ [visit.visited orders]) (visit.pendingAfter orders rest) := by
  have hperm : (visit.pendingAfter orders rest).Perm (orders.filterMap visit.placed? ++ rest) :=
    pendingAfter_perm hkeeps rest
  have hvisit : Scheduled top log visit.path visit.plain :=
    h.pending_scheduled visit List.mem_cons_self
  have hlog : ∀ entry ∈ log, entry ∈ log ++ [visit.visited orders] :=
    fun _ hentry => List.mem_append_left _ hentry
  have hmade : visit.visited orders ∈ log ++ [visit.visited orders] :=
    List.mem_append_right _ (List.mem_singleton_self _)
  constructor
  case nodup =>
    have hfresh : visit.path ∉ log.map Visited.path := fun hmem =>
      (List.nodup_append.mp h.nodup).2.2 _ hmem _ List.mem_cons_self rfl
    have hall : ((log.map Visited.path ++ (visit :: rest).map Visit.path) ++
        (orders.filterMap visit.placed?).map Visit.path).Nodup := by
      refine List.nodup_append.mpr ⟨h.nodup, nodup_placed honce, ?_⟩
      rintro path hpath _ hplaced rfl
      obtain ⟨placed, hmem, rfl⟩ := List.mem_map.mp hplaced
      obtain ⟨position, _, _, _, _, _, rfl⟩ := mem_placed_iff.mp hmem
      exact hfresh (h.path_mem hpath)
    refine (List.Perm.nodup_iff ?_).mpr hall
    have hpaths := (hperm.trans List.perm_append_comm).map Visit.path
    rw [List.map_append] at hpaths
    rw [List.map_append, List.append_assoc, List.append_assoc]
    exact (hpaths.append_left _).append_left _
  case scheduled =>
    intro before entry later hsplit
    obtain ⟨later', hlater⟩ | ⟨rfl, hentry⟩ :
        (∃ later', log = before ++ entry :: later') ∨
          before = log ∧ entry = visit.visited orders := by
      obtain rfl | ⟨later', last, rfl⟩ := List.eq_nil_or_concat' later
      · obtain ⟨h1, h2⟩ := List.append_inj' hsplit rfl
        exact .inr ⟨h1.symm, (List.singleton_inj.mp h2).symm⟩
      · rw [← List.cons_append, ← List.append_assoc] at hsplit
        exact .inl ⟨later', (List.append_inj' hsplit rfl).1⟩
    · exact h.scheduled before entry later' hlater
    · subst hentry
      exact hvisit
  case pending_scheduled =>
    intro waiting hwaiting
    obtain hplaced | hrest := List.mem_append.mp (hperm.mem_iff.mp hwaiting)
    · obtain ⟨position, placement, input, child, horder, hchild, rfl⟩ := mem_placed_iff.mp hplaced
      have habove : Scheduled top (log ++ [visit.visited orders]) (visit.visited orders).path
          (visit.visited orders).visit := hvisit.mono hlog
      exact (habove.child hmade horder hchild :)
    · exact (h.pending_scheduled waiting (List.mem_cons_of_mem _ hrest)).mono hlog
  case kept =>
    -- what was made or pending before the visit still is
    have hbefore : ∀ path shown, Scheduled top log path shown →
        (∃ entry ∈ log ++ [visit.visited orders], entry.path = path ∧ entry.visit = shown) ∨
          ∃ waiting ∈ visit.pendingAfter orders rest,
            waiting.path = path ∧ waiting.plain = shown := by
      intro path shown hscheduled
      obtain ⟨entry, hentry, hpath⟩ | ⟨waiting, hwaiting, hpath⟩ := h.kept path shown hscheduled
      · exact .inl ⟨entry, hlog entry hentry, hpath⟩
      · obtain rfl | hrest := List.mem_cons.mp hwaiting
        · exact .inl ⟨_, hmade, hpath⟩
        · exact .inr ⟨waiting, hperm.mem_iff.mpr (List.mem_append_right _ hrest), hpath⟩
    intro path shown hscheduled
    cases hscheduled with
    | top => exact hbefore _ _ .top
    | @child _ position _ input child _ hentry horder hchild =>
      obtain hentry | hentry := List.mem_append.mp hentry
      · exact hbefore _ _ (.child (h.scheduled_of_mem hentry) hentry horder hchild)
      · obtain rfl := List.mem_singleton.mp hentry
        refine .inr ⟨⟨child, some visit.node, visit.path ++ [position], input⟩,
          hperm.mem_iff.mpr (List.mem_append_left _ ?_), rfl, rfl⟩
        exact mem_placed_iff.mpr ⟨_, _, _, _, horder, hchild, rfl⟩

/-- When nothing is pending any more, the visits that were made are those that were scheduled. -/
theorem exists_orders_iff (h : Account top log []) {path : List Nat} {visit : Visit ι} :
    (∃ orders, ⟨path, visit, orders⟩ ∈ log) ↔ Scheduled top log path visit := by
  constructor
  · rintro ⟨orders, hmem⟩
    exact h.scheduled_of_mem hmem
  · intro hscheduled
    obtain ⟨⟨_, _, orders⟩, hentry, rfl, rfl⟩ | ⟨_, hnone, _⟩ := h.kept path visit hscheduled
    · exact ⟨orders, hentry⟩
    · cases hnone

/-- If every child was placed, every place in the tree was visited. -/
theorem length_of_all_placed (h : Account top log [])
    (hall : ∀ entry ∈ log, ∀ i < entry.visit.node.children.length,
      i ∈ entry.orders.filterMap Order.position?) : log.length = top.node.nodeCount := by
  have hvisited : ∀ path n, top.node.at? path = some n → path ∈ log.map Visited.path := by
    intro path
    induction path using List.reverseRecOn with
    | nil =>
      intro n _
      obtain ⟨orders, hmem⟩ := h.exists_orders_iff.mpr .top
      exact List.mem_map_of_mem hmem
    | append_singleton path i ih =>
      intro n hn
      obtain ⟨m, hm, hchild⟩ := at?_concat_eq_some_iff.mp hn
      obtain ⟨entry, hentry, rfl⟩ := List.mem_map.mp (ih m hm)
      have hscheduled := h.scheduled_of_mem hentry
      obtain rfl : entry.visit.node = m := Option.some.inj (hscheduled.at?_eq.symm.trans hm)
      obtain ⟨hlt, -⟩ := List.getElem?_eq_some_iff.mp hchild
      obtain ⟨order, horder, hposition⟩ := List.mem_filterMap.mp (hall entry hentry i hlt)
      cases order with
      | clear => cases hposition
      | place position placement input =>
        cases hposition
        obtain ⟨orders, hmem⟩ := h.exists_orders_iff.mpr (.child hscheduled hentry horder hchild)
        exact List.mem_map_of_mem hmem
  have hnodup : (log.map Visited.path).Nodup := by
    rw [← List.append_nil (log.map Visited.path)]
    exact h.nodup
  have hperm : (log.map Visited.path).Perm (top.node.occurrences.map Prod.fst) := by
    refine (List.perm_ext_iff_of_nodup hnodup (nodup_occurrences _)).mpr fun path => ?_
    constructor
    · intro hpath
      obtain ⟨entry, hentry, rfl⟩ := List.mem_map.mp hpath
      exact List.mem_map_of_mem (mem_occurrences_iff.mpr (h.scheduled_of_mem hentry).at?_eq)
    · intro hpath
      obtain ⟨⟨_, n⟩, hmem, rfl⟩ := List.mem_map.mp hpath
      exact hvisited _ n (mem_occurrences_iff.mp hmem)
  have hlength := hperm.length_eq
  rwa [List.length_map, List.length_map, length_occurrences, ← nodeCount_eq_size] at hlength

end Account

/-- A walk on which nothing is dropped and no child is placed twice keeps account of its visits. -/
theorem account_visits {e : Expr} {input : ι} {state : σ} {visitor : Visitor σ ι}
    (hkeeps : ∀ entry ∈ e.visits input state visitor, .clear ∉ entry.orders)
    (honce : ∀ entry ∈ e.visits input state visitor,
      (entry.orders.filterMap Order.position?).Nodup) :
    Account ⟨e, none, input⟩ (e.visits input state visitor) [] := by
  refine (run_visits visitor e input state).keeps ?_ (Account.initial ⟨e, none, input⟩)
  intro before visit rest orders hmem h
  exact h.step (hkeeps _ hmem) (honce _ hmem)

/-- Every walk ends, after calls of the visitor one after the other. If nothing is dropped and no
child is placed twice, whatever else is ordered: no place in the tree is visited twice; the visits
are those that are scheduled, each with the parent and the input it was scheduled with, and at the
place of its node; a node is visited after its parent; and if every child is placed, there are as
many calls as nodes. -/
theorem explore_visits_scheduled_nodes_once (e : Expr) (input : ι) (state : σ)
    (visitor : Visitor σ ι)
    (hkeeps : ∀ entry ∈ e.visits input state visitor, .clear ∉ entry.orders)
    (honce : ∀ entry ∈ e.visits input state visitor,
      (entry.orders.filterMap Order.position?).Nodup) :
    Calls visitor state (e.visits input state visitor) (e.explore input state visitor) ∧
      ((e.visits input state visitor).map Visited.path).Nodup ∧
      (∀ path visit, (∃ orders, ⟨path, visit, orders⟩ ∈ e.visits input state visitor) ↔
        Scheduled ⟨e, none, input⟩ (e.visits input state visitor) path visit) ∧
      (∀ entry ∈ e.visits input state visitor, e.at? entry.path = some entry.visit.node) ∧
      (∀ before entry later path i, e.visits input state visitor = before ++ entry :: later →
        entry.path = path ++ [i] → ∃ parent ∈ before, parent.path = path ∧
          entry.visit.parent = some parent.visit.node) ∧
      ((∀ entry ∈ e.visits input state visitor, ∀ i < entry.visit.node.children.length,
        i ∈ entry.orders.filterMap Order.position?) →
          (e.visits input state visitor).length = e.nodeCount) := by
  have haccount := account_visits hkeeps honce
  refine ⟨(run_visits visitor e input state).calls, ?_, fun _ _ => haccount.exists_orders_iff,
    fun _ hentry => (haccount.scheduled_of_mem hentry).at?_eq, ?_, haccount.length_of_all_placed⟩
  · rw [← List.append_nil (List.map _ _)]
    exact haccount.nodup
  · intro before entry later path i hsplit hpath
    have hscheduled := haccount.scheduled before entry later hsplit
    rw [hpath] at hscheduled
    exact hscheduled.parent

/-- Places the left child after everything pending and the right child before it, in this order,
with the number of the visit. -/
def leftLast : Visitor Nat Nat := fun count visit =>
  (count + 1, [.place 0 .back count, .place 1 .front count].take visit.node.children.length)

/-- Two equal operands are two places. Both are visited, and so are the places below them. -/
theorem explore_visits_equal_operands_once :
    let negative := unary .negate (const (.int 1))
    let sum := binary .add negative negative
    ((sum.visits 7 0 leftLast).map Visited.path).Nodup ∧
      (sum.visits 7 0 leftLast).length = sum.nodeCount := by
  intro negative sum
  have hvisits : sum.visits 7 0 leftLast =
      [⟨[], ⟨sum, none, 7⟩, [.place 0 .back 0, .place 1 .front 0]⟩,
        ⟨[1], ⟨negative, some sum, 0⟩, [.place 0 .back 1]⟩,
        ⟨[0], ⟨negative, some sum, 0⟩, [.place 0 .back 2]⟩,
        ⟨[1, 0], ⟨const (.int 1), some negative, 1⟩, []⟩,
        ⟨[0, 0], ⟨const (.int 1), some negative, 2⟩, []⟩] := by
    simp [sum, negative, visits, explore, walkFrom, Visitor.recorded, leftLast, Visit.queueAfter,
      Visit.obey, children, Placement.put, Order.under, Visit.path, Visit.visited, Visit.plain]
  obtain ⟨-, hnodup, -, -, -, hlength⟩ := explore_visits_scheduled_nodes_once sum 7 0 leftLast
    (by rw [hvisits]; simp) (by rw [hvisits]; simp [Order.position?])
  refine ⟨hnodup, hlength ?_⟩
  have hboth : ∀ i < 2, 0 = i ∨ 1 = i := by decide
  rw [hvisits]
  simpa [Order.position?, sum, negative, children] using hboth

end QueryParity.Expr
