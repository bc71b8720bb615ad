import QueryParity.Expr.Build
import QueryParity.Proofs.Expr.Postorder

/-!
# What a step is offered

A step with a state may answer every offer in another way, and it may fail. From a given state on,
what it is offered is determined: the nodes in postorder, each over its children as they were
replaced, up to the first failure. A part of which it declines every node is not touched.
-/

namespace QueryParity.Expr

variable {σ ε α β : Type}

section Run

variable {x : ExceptT ε (StateM σ) α} {k : α → ExceptT ε (StateM σ) β} {s s' : σ}

/-- What follows a success goes on from its state. -/
theorem run_bind_of_ok {a : α} (h : x.run.run s = (.ok a, s')) :
    (x >>= k).run.run s = (k a).run.run s' := by
  rw [ExceptT.run_bind, StateT.run_bind, h]
  rfl

/-- Nothing follows a failure. -/
theorem run_bind_of_error {failure : ε} (h : x.run.run s = (.error failure, s')) :
    (x >>= k).run.run s = (.error failure, s') := by
  rw [ExceptT.run_bind, StateT.run_bind, h]
  rfl

end Run

/-- A step with the list of the nodes that it was offered. -/
def listing (step : Expr → StateM σ α) (node : Expr) : StateM (σ × List Expr) α := do
  let (s, offered) ← get
  let (answer, s') := (step node).run s
  set (s', offered ++ [node])
  pure answer

/-- A step that may fail, with the list of the nodes that it was offered. -/
def tryListing (step : Expr → ExceptT ε (StateM σ) α) (node : Expr) :
    ExceptT ε (StateM (σ × List Expr)) α :=
  ExceptT.mk (listing (fun node => (step node).run) node)

/-- A step that may fail, but never does. -/
def unfailing {m : Type → Type} [Monad m] (step : Expr → m (Option Expr)) (node : Expr) :
    ExceptT ε m (Option Expr) :=
  ExceptT.lift (step node)

/-- What a step was offered, and what it answered. -/
structure Offer (ε : Type) where
  /-- The node, over its replaced children. -/
  node : Expr
  /-- A failure, or else the replacement if there is one. -/
  answer : Except ε (Option Expr)

/-- A step is offered nodes one after the other, each over its children on the stack, where what
became of the node takes their place. The first failure ends this. -/
inductive Offers (step : Expr → ExceptT ε (StateM σ) (Option Expr)) :
    (nodes stack : List Expr) → σ → List (Offer ε) → Except ε (List Expr) → σ → Prop where
  /-- There are no more nodes. -/
  | done {stack : List Expr} {s : σ} : Offers step [] stack s [] (.ok stack) s
  /-- The step answers. -/
  | next {node : Expr} {nodes stack : List Expr} {s s' s'' : σ} {answer : Option Expr}
      {offers : List (Offer ε)} {outcome : Except ε (List Expr)} :
      (step (node.overStack stack)).run.run s = (.ok answer, s') →
      Offers step nodes
        (answer.getD (node.overStack stack) :: stack.drop node.children.length) s'
        offers outcome s'' →
      Offers step (node :: nodes) stack s (⟨node.overStack stack, .ok answer⟩ :: offers) outcome s''
  /-- The step fails. -/
  | failed {node : Expr} {nodes stack : List Expr} {s s' : σ} {failure : ε} :
      (step (node.overStack stack)).run.run s = (.error failure, s') →
      Offers step (node :: nodes) stack s [⟨node.overStack stack, .error failure⟩]
        (.error failure) s'

namespace Offers

variable {step : Expr → ExceptT ε (StateM σ) (Option Expr)} {nodes nodes' stack stack' : List Expr}
  {s s' : σ} {offers : List (Offer ε)} {outcome : Except ε (List Expr)} {failure : ε}

/-- From every state a step is offered something. -/
theorem exists_offers (step : Expr → ExceptT ε (StateM σ) (Option Expr))
    (nodes stack : List Expr) (s : σ) :
    ∃ offers outcome s', Offers step nodes stack s offers outcome s' := by
  induction nodes generalizing stack s with
  | nil => exact ⟨[], .ok stack, s, .done⟩
  | cons node nodes ih =>
    cases hanswer : (step (node.overStack stack)).run.run s with
    | mk answer s₁ =>
      cases answer with
      | error failure => exact ⟨_, _, _, .failed hanswer⟩
      | ok answer =>
        obtain ⟨offers, outcome, s', hrest⟩ :=
          ih (answer.getD (node.overStack stack) :: stack.drop node.children.length) s₁
        exact ⟨_, _, _, .next hanswer hrest⟩

/-- What is offered is offered by reducing the nodes on the stack. -/
theorem run_eq (h : Offers step nodes stack s offers outcome s') :
    (nodes.foldlM (reduce step) stack).run.run s = (outcome, s') := by
  induction h with
  | done => rfl
  | @next node nodes stack s s₁ s' answer _ _ hanswer _ ih =>
    have hreduce : (reduce step stack node).run.run s =
        (.ok (answer.getD (node.overStack stack) :: stack.drop node.children.length), s₁) := by
      rw [reduce, replaced, bind_assoc, run_bind_of_ok hanswer]
      rfl
    rw [List.foldlM_cons, run_bind_of_ok hreduce, ih]
  | failed hfailure =>
    rw [List.foldlM_cons, reduce, replaced, bind_assoc, bind_assoc, run_bind_of_error hfailure]

/-- The list of the nodes that were offered grows by those that are. -/
theorem listing (h : Offers step nodes stack s offers outcome s') (offered : List Expr) :
    Offers (tryListing step) nodes stack (s, offered) offers outcome
      (s', offered ++ offers.map Offer.node) := by
  have hstep : ∀ node s offered, (tryListing step node).run.run (s, offered) =
      (((step node).run.run s).1, ((step node).run.run s).2, offered ++ [node]) :=
    fun _ _ _ => rfl
  induction h generalizing offered with
  | done =>
    rw [List.map_nil, List.append_nil]
    exact .done
  | @next node _ stack _ _ _ _ _ _ hanswer _ ih =>
    have hrest := ih (offered ++ [node.overStack stack])
    rw [List.append_assoc] at hrest
    refine .next ?_ hrest
    rw [hstep, hanswer]
  | failed hfailure =>
    refine .failed ?_
    rw [hstep, hfailure]
    rfl

/-- Without a failure every node is offered. -/
theorem length_eq (h : Offers step nodes stack s offers (.ok stack') s') :
    offers.length = nodes.length := by
  generalize houtcome : Except.ok stack' = outcome at h
  induction h with
  | done => rfl
  | next _ _ ih => rw [List.length_cons, List.length_cons, ih houtcome]
  | failed => cases houtcome

/-- Without a failure every offer is answered. -/
theorem exists_answer (h : Offers step nodes stack s offers (.ok stack') s') :
    ∀ offer ∈ offers, ∃ answer, offer.answer = .ok answer := by
  generalize houtcome : Except.ok stack' = outcome at h
  induction h with
  | done => nofun
  | next _ _ ih => exact List.forall_mem_cons.mpr ⟨⟨_, rfl⟩, ih houtcome⟩
  | failed => cases houtcome

/-- A failure is that of the last offer, and those before it are answered. -/
theorem exists_last (h : Offers step nodes stack s offers (.error failure) s') :
    ∃ earlier node, offers = earlier ++ [⟨node, .error failure⟩] ∧
      ∀ offer ∈ earlier, ∃ answer, offer.answer = .ok answer := by
  generalize houtcome : Except.error failure = outcome at h
  induction h with
  | done => cases houtcome
  | next _ _ ih =>
    obtain ⟨earlier, node, rfl, hearlier⟩ := ih houtcome
    exact ⟨_ :: earlier, node, rfl, List.forall_mem_cons.mpr ⟨⟨_, rfl⟩, hearlier⟩⟩
  | failed =>
    cases houtcome
    exact ⟨[], _, rfl, nofun⟩

/-- Offers that are answered are those of the first nodes and then those of the others. -/
theorem exists_append (h : Offers step (nodes ++ nodes') stack s offers outcome s')
    (hanswers : ∀ offer ∈ offers, ∃ answer, offer.answer = .ok answer) :
    ∃ earlier later stack₁ s₁, offers = earlier ++ later ∧
      Offers step nodes stack s earlier (.ok stack₁) s₁ ∧
      Offers step nodes' stack₁ s₁ later outcome s' := by
  induction nodes generalizing stack s offers with
  | nil => exact ⟨[], offers, stack, s, rfl, .done, h⟩
  | cons node nodes ih =>
    cases h with
    | next hanswer hrest =>
      rw [List.forall_mem_cons] at hanswers
      obtain ⟨earlier, later, stack₁, s₁, rfl, hearlier, hlater⟩ := ih hrest hanswers.2
      exact ⟨_ :: earlier, later, stack₁, s₁, rfl, .next hanswer hearlier, hlater⟩
    | failed =>
      obtain ⟨answer, hanswer⟩ := hanswers _ List.mem_cons_self
      cases hanswer

/-- The nodes of a tree are offered by replacing in the tree. -/
theorem exists_result {e : Expr} (h : Offers step e.postorder stack s offers outcome s') :
    ∃ result, (e.transform step).run.run s = (result, s') ∧ outcome = result.map (· :: stack) := by
  have hrun := h.run_eq
  rw [foldlM_reduce_postorder, ExceptT.run_map, StateT.run_map] at hrun
  obtain ⟨houtcome, hs'⟩ := Prod.mk.inj hrun
  exact ⟨_, Prod.ext rfl hs', houtcome.symm⟩

/-- A node that declines an offer over its own children is not touched. -/
theorem of_singleton_declined {node : Expr} (h : Offers step [node] stack s offers outcome s')
    (hnode : node.overStack stack = node)
    (hdeclined : ∀ offer ∈ offers, offer.answer = .ok none) :
    outcome = .ok (node :: stack.drop node.children.length) ∧
      (offer step node none).run.run s = (.ok none, s') := by
  cases h with
  | next hanswer hrest =>
    cases hrest
    rw [List.forall_mem_singleton] at hdeclined
    cases hdeclined
    rw [hnode] at hanswer ⊢
    exact ⟨rfl, run_bind_of_ok hanswer⟩
  | failed =>
    rw [List.forall_mem_singleton] at hdeclined
    cases hdeclined

/-- Trees that decline everything are not touched. -/
theorem of_flatMap_declined {es : List Expr}
    (ih : ∀ e ∈ es, ∀ {stack s s' offers outcome},
      Offers step e.postorder stack s offers outcome s' →
      (∀ offer ∈ offers, offer.answer = .ok none) →
      outcome = .ok (e :: stack) ∧ (e.transform? step).run.run s = (.ok none, s'))
    (h : Offers step (es.flatMap postorder) stack s offers outcome s')
    (hdeclined : ∀ offer ∈ offers, offer.answer = .ok none) :
    outcome = .ok (es.reverse ++ stack) ∧ (transformAll? step es).run.run s = (.ok none, s') := by
  induction es generalizing stack s offers with
  | nil =>
    cases h
    exact ⟨rfl, rfl⟩
  | cons e es ihs =>
    rw [List.forall_mem_cons] at ih
    obtain ⟨earlier, later, stack₁, s₁, rfl, hearlier, hlater⟩ :=
      h.exists_append fun offer hoffer => ⟨none, hdeclined offer hoffer⟩
    rw [List.forall_mem_append] at hdeclined
    obtain ⟨hstack, he⟩ := ih.1 hearlier hdeclined.1
    cases hstack
    obtain ⟨rfl, hes⟩ := ihs ih.2 hlater hdeclined.2
    refine ⟨?_, ?_⟩
    · rw [List.reverse_cons, List.append_assoc, List.singleton_append]
    · rw [transformAll?, run_bind_of_ok he, run_bind_of_ok hes]
      rfl

/-- A tree that declines everything is not touched. -/
theorem of_declined {e : Expr} (h : Offers step e.postorder stack s offers outcome s')
    (hdeclined : ∀ offer ∈ offers, offer.answer = .ok none) :
    outcome = .ok (e :: stack) ∧ (e.transform? step).run.run s = (.ok none, s') := by
  induction e using children_induction generalizing stack s offers outcome s' with
  | node e ih =>
    rw [postorder_eq] at h
    obtain ⟨below, own, stack₁, s₁, rfl, hbelow, hown⟩ :=
      h.exists_append fun offer hoffer => ⟨none, hdeclined offer hoffer⟩
    rw [List.forall_mem_append] at hdeclined
    obtain ⟨hstack, hchildren⟩ := of_flatMap_declined ih hbelow hdeclined.1
    cases hstack
    have hnode : e.overStack (e.children.reverse ++ stack) = e := by
      rw [overStack_reverse_append stack rfl, withChildren_children]
    obtain ⟨rfl, hoffer⟩ := hown.of_singleton_declined hnode hdeclined.2
    refine ⟨?_, ?_⟩
    · rw [← List.length_reverse, List.drop_left]
    · rw [transform?_eq, run_bind_of_ok hchildren]
      exact hoffer

end Offers

section Unfailing

variable {m : Type → Type} [Monad m] [LawfulMonad m] {step : Expr → m (Option Expr)}

/-- A step that never fails is offered a node as the step without failures is. -/
theorem offer_unfailing (node : Expr) (rebuilt : Option Expr) :
    offer (unfailing step) node rebuilt =
      (ExceptT.lift (offer step node rebuilt) : ExceptT ε m (Option Expr)) := by
  rw [offer, offer, unfailing, ExceptT.lift_bind]
  refine bind_congr fun replacement => ?_
  cases replacement <;> rw [ExceptT.lift_pure]

private theorem transformAll?_unfailing {es : List Expr}
    (ih : ∀ e ∈ es, transform? (unfailing step) e =
      (ExceptT.lift (transform? step e) : ExceptT ε m (Option Expr))) :
    transformAll? (unfailing step) es =
      (ExceptT.lift (transformAll? step es) : ExceptT ε m (Option (List Expr))) := by
  induction es with
  | nil => rw [transformAll?, transformAll?, ExceptT.lift_pure]
  | cons e es ihs =>
    rw [List.forall_mem_cons] at ih
    rw [transformAll?, transformAll?, ih.1, ihs ih.2]
    simp only [ExceptT.lift_bind, ExceptT.lift_pure]

/-- A step that never fails replaces what the step without failures replaces, with the same
effects. -/
theorem transform?_unfailing (e : Expr) :
    transform? (unfailing step) e =
      (ExceptT.lift (transform? step e) : ExceptT ε m (Option Expr)) := by
  induction e using children_induction with
  | node e ih =>
    rw [transform?_eq, transform?_eq, transformAll?_unfailing ih, ExceptT.lift_bind]
    exact bind_congr fun es' => offer_unfailing e _

/-- So the replaced tree is the same. -/
theorem transform_unfailing (e : Expr) :
    transform (unfailing step) e = (ExceptT.lift (transform step e) : ExceptT ε m Expr) := by
  rw [transform, transform, transform?_unfailing, ExceptT.lift_bind]
  simp only [ExceptT.lift_pure]

/-- A step that never fails is listed as the step without failures is. -/
theorem tryListing_unfailing (step : Expr → StateM σ (Option Expr)) :
    tryListing (unfailing step) =
      (unfailing (listing step) : Expr → ExceptT ε (StateM (σ × List Expr)) (Option Expr)) :=
  rfl

end Unfailing

namespace Offers

variable {f : Expr → StateM σ (Option Expr)} {e : Expr} {stack : List Expr} {s s' : σ}
  {offers : List (Offer ε)} {outcome : Except ε (List Expr)}

/-- Without failures a tree becomes what it is replaced by. -/
theorem unfailing_result (h : Offers (unfailing f) e.postorder stack s offers outcome s') :
    ∃ e', (e.transform f).run s = (e', s') ∧ outcome = .ok (e' :: stack) := by
  obtain ⟨result, hrun, rfl⟩ := h.exists_result
  rw [transform_unfailing] at hrun
  obtain ⟨rfl, rfl⟩ := Prod.mk.inj hrun
  exact ⟨_, rfl, rfl⟩

/-- A tree of which every node is declined is not touched. -/
theorem unfailing_declined (h : Offers (unfailing f) e.postorder stack s offers outcome s')
    (hdeclined : ∀ offer ∈ offers, offer.answer = .ok none) :
    outcome = .ok (e :: stack) ∧ (e.transform? f).run s = (none, s') := by
  obtain ⟨houtcome, hrun⟩ := h.of_declined hdeclined
  rw [transform?_unfailing] at hrun
  obtain ⟨hnone, rfl⟩ := Prod.mk.inj hrun
  exact ⟨houtcome, Prod.ext (Except.ok.inj hnone) rfl⟩

end Offers

/-- What a step is offered, and what comes of it, when it replaces in a tree from a state on. -/
structure Replacement (step : Expr → ExceptT ε (StateM σ) (Option Expr)) (e : Expr) (s : σ)
    (offers : List (Offer ε)) (outcome : Except ε Expr) (s' : σ) : Prop where
  /-- What comes of it. -/
  run_eq : (e.transform step).run.run s = (outcome, s')
  /-- The nodes that are offered, as the step can list them itself. -/
  listing_eq : (e.transform (tryListing step)).run.run (s, []) =
    (outcome, s', offers.map Offer.node)
  /-- The offers are those of the nodes in postorder. -/
  offered : Offers step e.postorder [] s offers (outcome.map ([·])) s'
  /-- Without a failure every node is offered once and every offer is answered. -/
  answered : ∀ result, outcome = .ok result →
    offers.length = e.nodeCount ∧ ∀ offer ∈ offers, ∃ answer, offer.answer = .ok answer
  /-- A failure is the first one, and nothing is offered after it. -/
  failed : ∀ failure, outcome = .error failure →
    ∃ earlier node, offers = earlier ++ [⟨node, .error failure⟩] ∧
      ∀ offer ∈ earlier, ∃ answer, offer.answer = .ok answer

/-- Every replacement is of this form. -/
theorem exists_replacement (step : Expr → ExceptT ε (StateM σ) (Option Expr)) (e : Expr) (s : σ) :
    ∃ offers outcome s', Replacement step e s offers outcome s' := by
  obtain ⟨offers, outcome, s', hoffers⟩ := Offers.exists_offers step e.postorder [] s
  obtain ⟨result, hrun, rfl⟩ := hoffers.exists_result
  refine ⟨offers, result, s', hrun, ?_, hoffers, ?_, ?_⟩
  · obtain ⟨listed, hlisted, hresult⟩ := (hoffers.listing []).exists_result
    have hresult : listed = result := by
      cases listed <;> cases result <;> cases hresult <;> rfl
    rw [hlisted, hresult, List.nil_append]
  · rintro e' rfl
    exact ⟨hoffers.length_eq.trans e.length_postorder, hoffers.exists_answer⟩
  · rintro failure rfl
    exact hoffers.exists_last

/-- A part of a tree is replaced where it stands: what it becomes by itself, from the state that the
nodes before it lead to, is what the nodes behind it find on the stack. If all of its nodes are
declined then it is not touched. -/
def ReplacesPart (f : Expr → StateM σ (Option Expr)) (before : List Expr) (part : Expr)
    (after stack : List Expr) (s : σ) (offers : List (Offer ε)) (stack' : List Expr) (s' : σ) :
    Prop :=
  ∃ earlier own later stack₁ s₁ part' s₂, offers = earlier ++ (own ++ later) ∧
    Offers (unfailing f) before stack s earlier (.ok stack₁) s₁ ∧
    Offers (unfailing f) part.postorder stack₁ s₁ own (.ok (part' :: stack₁)) s₂ ∧
    Offers (unfailing f) after (part' :: stack₁) s₂ later (.ok stack') s' ∧
    (part.transform f).run s₁ = (part', s₂) ∧
    ((∀ offer ∈ own, offer.answer = .ok none) →
      part' = part ∧ (part.transform? f).run s₁ = (none, s₂))

/-- Wherever a part stands among the nodes, it is replaced there. -/
theorem Offers.replacesPart {f : Expr → StateM σ (Option Expr)} {before after : List Expr}
    {part : Expr} {stack stack' : List Expr} {s s' : σ} {offers : List (Offer ε)}
    (h : Offers (unfailing f) (before ++ (part.postorder ++ after)) stack s offers
      (.ok stack') s') :
    ReplacesPart f before part after stack s offers stack' s' := by
  have hanswers := h.exists_answer
  obtain ⟨earlier, rest, stack₁, s₁, rfl, hearlier, hrest⟩ := h.exists_append hanswers
  rw [List.forall_mem_append] at hanswers
  obtain ⟨own, later, stack₂, s₂, rfl, hown, hlater⟩ := hrest.exists_append hanswers.2
  obtain ⟨part', hpart, hstack⟩ := hown.unfailing_result
  cases hstack
  refine ⟨earlier, own, later, stack₁, s₁, part', s₂, rfl, hearlier, hown, hlater, hpart, ?_⟩
  intro hdeclined
  obtain ⟨hstack, huntouched⟩ := hown.unfailing_declined hdeclined
  cases hstack
  exact ⟨rfl, huntouched⟩

/-- Replacement with sharing is the plain map that always rebuilds. A step is offered every node of
a tree once, in postorder, each over its children as they were replaced. A step that may fail but
does not is offered the same and gives the same, and one that fails is offered nothing afterwards.
Wherever in the tree a part stands, if every node of it is declined then it is not touched, and goes
into what is built above it as it is. -/
theorem transform_offers_in_postorder {σ ε : Type} (e : Expr) (s : σ) :
    (∀ f : Expr → StateM σ (Option Expr), e.transform f = e.rebuild f ∧
      ∃ (offers : List (Offer ε)) (result : Expr) (s' : σ),
        (e.transform f).run s = (result, s') ∧
        (e.transform (listing f)).run (s, []) = (result, s', offers.map Offer.node) ∧
        Replacement (unfailing f) e s offers (.ok result) s' ∧
        ∀ before part after, e.postorder = before ++ (part.postorder ++ after) →
          ReplacesPart f before part after [] s offers [result] s') ∧
    ∀ g : Expr → ExceptT ε (StateM σ) (Option Expr), e.transform g = e.rebuild g ∧
      ∃ offers outcome s', Replacement g e s offers outcome s' := by
  refine ⟨fun f => ⟨transform_eq_rebuild e, ?_⟩,
    fun g => ⟨transform_eq_rebuild e, exists_replacement g e s⟩⟩
  obtain ⟨offers, outcome, s', h⟩ :=
    exists_replacement (unfailing f : Expr → ExceptT ε (StateM σ) (Option Expr)) e s
  obtain ⟨result, hrun, houtcome⟩ := h.offered.unfailing_result
  obtain rfl : outcome = .ok result := by
    cases outcome <;> cases houtcome
    rfl
  refine ⟨offers, result, s', hrun, ?_, h, fun before part after hsplit => ?_⟩
  · have hlisting := h.listing_eq
    rw [tryListing_unfailing, transform_unfailing] at hlisting
    obtain ⟨hresult, hstate⟩ := Prod.mk.inj hlisting
    exact Prod.ext (Except.ok.inj hresult) hstate
  · have hoffers := h.offered
    rw [hsplit] at hoffers
    exact hoffers.replacesPart

/-- A step that counts its offers replaces the first node of a sum and declines the others, so that
the sum is built again over a second operand that is not touched. A step that fails at the second
offer is not offered the sum. -/
theorem transform_offers_in_postorder_of_sum :
    let f : Expr → StateM Nat (Option Expr) := fun _ =>
      modifyGet fun count => (if count = 0 then some (.intLit 2) else none, count + 1)
    let g : Expr → ExceptT String (StateM Nat) (Option Expr) := fun _ =>
      ExceptT.mk (modifyGet fun count =>
        (if count = 0 then .ok (some (.intLit 2)) else .error "late", count + 1))
    let e : Expr := .add (.intLit 1) (.field 0 .int)
    let e' : Expr := .add (.intLit 2) (.field 0 .int)
    (∃ offers : List (Offer String), offers.map Offer.node = [.intLit 1, .field 0 .int, e'] ∧
      ReplacesPart f [.intLit 1] (.field 0 .int) [e] [] 0 offers [e'] 3) ∧
    ∃ (earlier : List (Offer String)) (node : Expr),
      earlier.map Offer.node ++ [node] = [.intLit 1, .field 0 .int] ∧
      (∀ offer ∈ earlier, ∃ answer, offer.answer = .ok answer) ∧
      (e.transform g).run.run 0 = (.error "late", 2) := by
  intro f g e e'
  have hf : (e.transform (listing f)).run (0, []) = (e', 3, [.intLit 1, .field 0 .int, e']) := rfl
  have hg : (e.transform (tryListing g)).run.run (0, []) =
      (.error "late", 2, [.intLit 1, .field 0 .int]) := rfl
  obtain ⟨hstep, htry⟩ := transform_offers_in_postorder (ε := String) e 0
  obtain ⟨-, offers, result, s', -, hlisting, -, hparts⟩ := hstep f
  obtain ⟨-, offers', outcome, s'', hreplacement⟩ := htry g
  obtain ⟨rfl, hstate⟩ := Prod.mk.inj (hlisting.symm.trans hf)
  obtain ⟨rfl, hnodes⟩ := Prod.mk.inj hstate
  obtain ⟨houtcome, hstate'⟩ := Prod.mk.inj (hreplacement.listing_eq.symm.trans hg)
  obtain ⟨rfl, hnodes'⟩ := Prod.mk.inj hstate'
  obtain ⟨earlier, node, rfl, hanswers⟩ := hreplacement.failed _ houtcome
  rw [List.map_append] at hnodes'
  exact ⟨⟨offers, hnodes, hparts [.intLit 1] (.field 0 .int) [e] rfl⟩,
    earlier, node, hnodes', hanswers, houtcome ▸ hreplacement.run_eq⟩

end QueryParity.Expr
