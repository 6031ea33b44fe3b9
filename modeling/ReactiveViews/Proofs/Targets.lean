import ReactiveViews.Proofs.Prototypes
/-!
# Where the behaviors of a new view are put

A view is made of a copy of its template's prototype. The copy has nodes of its own and looks like the
prototype, so a path leads to the same place in both (`Document.Corresponds`). Every directive's path
leads somewhere in the prototype, hence somewhere in the copy: no target is ever unresolved, and each
directive puts its behavior on the node of the copy that corresponds to its own
(`Machine.createView_isInstance`).
-/

namespace ReactiveViews

/-- Why a directive refuses to be put anywhere, if it does: it is a probe that is told to fail. -/
def Directive.refusal? : Directive → Option Error
  | .probe _ (some reason) _ => some (.binding reason)
  | _ => none

/-- A fragment without nodes gets an empty text when it becomes that of a view. -/
def Tree.filled : Tree → Tree
  | .node c [] => .node c [.node (.text "") []]
  | .node c (t :: ts) => .node c (t :: ts)

namespace Document

/-- **Corresponding nodes.** One path leads to them from two roots, it is the path that is read off
each of them, and what is under them looks the same. -/
structure Corresponds (d : Document) (root root' : NodeId) (path : Path) (n n' : NodeId) : Prop where
  resolve : path.resolve d root = some n
  resolve' : path.resolve d root' = some n'
  of : Path.of? d n root = some path
  of' : Path.of? d n' root' = some path
  tree : d.tree n' = d.tree n

/-- Two nodes that show the same tree correspond all the way down. -/
theorem corresponds_of_shows {d : Document} {k k' : Nat} {root root' : NodeId} {t u : Tree}
    {path : Path} (hr : d.IsTree root) (hr' : d.IsTree root') (h : d.Shows k root t)
    (h' : d.Shows k' root' t) (hp : path.subtree? t = some u) :
    ∃ n n', d.Corresponds root root' path n n' := by
  obtain ⟨n, hn, hu⟩ := resolve_of_shows h hp
  obtain ⟨n', hn', hu'⟩ := resolve_of_shows h' hp
  exact ⟨n, n', hn, hn', Path.of_resolve hr hn, Path.of_resolve hr' hn',
    (tree_of_shows hu').trans (tree_of_shows hu).symm⟩

/-- The document in which a fragment without nodes has been given an empty text. -/
def filled (d : Document) (fragment : NodeId) : List Tree → Document
  | [] => d.prepend fragment (.text "")
  | _ :: _ => d

section Filled

variable {d : Document} {fragment : NodeId} {lo : Nat} {content : Content} {ts : List Tree}

theorem shows_filled (h : d.Shows lo fragment (.node content ts)) :
    (d.filled fragment ts).Shows lo fragment (Tree.filled (.node content ts)) := by
  cases ts with
  | nil => exact shows_prepend h _
  | cons => exact h

theorem rooted_filled (h : d.Rooted lo d.size) (hlt : fragment.index < d.size) (ts : List Tree) :
    (d.filled fragment ts).Rooted lo (d.filled fragment ts).size := by
  cases ts with
  | nil =>
    rw [filled, size_prepend hlt]
    exact h.prepend hlt _
  | cons => exact h

theorem grown_filled {d₀ : Document} (h : d₀.Grown d) (hf : d₀.size ≤ fragment.index)
    (ts : List Tree) : d₀.Grown (d.filled fragment ts) := by
  cases ts with
  | nil => exact grown_prepend h hf _
  | cons => exact h

end Filled

end Document

namespace World

/-- **Put on.** A behavior is what a directive puts on a node: it is about that node, is made of what
the directive says, and is not bound. A probe has been shown the node. -/
inductive PutOn (w : World) (target : NodeId) : Directive → BehaviorId → Prop
  | handler {binding : Binding} {type : String} {b : BehaviorId}
    (h : w.behavior b = .handler { target, type, binding, bound := none, listener := none }) :
    PutOn w target (.bind binding (.event type)) b
  | binding {binding : Binding} {aspect : Aspect} {b : BehaviorId}
    (ha : ∀ type, aspect ≠ .event type)
    (h : w.behavior b = .binding
      { target, aspect, binding, observer := none, bound := none, composed := none
        listener := none, signal := none, signalNeedsQueue := true }) :
    PutOn w target (.bind binding aspect) b
  | repeated {items template : Binding} {options : RepeatOptions} {b : BehaviorId}
    {itemsObserver templateObserver : ObserverId}
    (h : w.behavior b = .repeated
      { location := target, options, itemsObserver, templateObserver, bound := none, items := none
        itemsNotifier := none, template := none, views := [] })
    (hi : w.observers.get itemsObserver =
      .made items.evaluator items.isVolatile (.itemsChanged b))
    (ht : w.observers.get templateObserver =
      .made template.evaluator template.isVolatile (.templateChanged b)) :
    PutOn w target (.repeated items template options) b
  | probe {name : String} {failBind : Option String} {b : BehaviorId}
    (h : w.behavior b = .probe ⟨name, failBind⟩)
    (hl : .probeCreated name (w.document.html target) ∈ w.log) :
    PutOn w target (.probe name none failBind) b

/-- **Instance.** A view as it is made of a template. It looks like the prototype and shares no node
with it, and there is one behavior for each directive, put on the node that corresponds to the one the
directive's path leads to. -/
structure IsInstance (w : World) (t : TemplateId) (v : ViewId) : Prop where
  template : (w.views.get v).template = t
  tree : w.document.tree (w.views.get v).fragment =
    (w.document.tree (w.templates.get t).fragment).filled
  apart {n : NodeId} : w.document.Inside (w.templates.get t).fragment n →
    ¬ w.document.Inside (w.views.get v).fragment n
  behaviors : List.Forall₂
    (fun (path, d) b => ∃ n n', w.document.Corresponds (w.templates.get t).fragment
      (w.views.get v).fragment path n n' ∧ w.PutOn n' d b)
    (w.templates.get t).directives (w.views.get v).behaviors

/-- **Furnished.** Behaviors and observers have been made, and what was done is in the log; nothing has
been done to the document. -/
structure Furnished (w w' : World) : Prop where
  document : w'.document = w.document
  templates : w'.templates = w.templates
  views : w'.views = w.views
  behaviors : w.behaviors.Grown w'.behaviors
  observers : w.observers.Grown w'.observers
  log : w.log ⊆ w'.log

namespace Furnished

variable {w w' w'' : World}

theorem refl (w : World) : w.Furnished w :=
  ⟨rfl, rfl, rfl, .refl _, .refl _, List.Subset.refl _⟩

theorem trans (h : w.Furnished w') (h' : w'.Furnished w'') : w.Furnished w'' where
  document := h'.document.trans h.document
  templates := h'.templates.trans h.templates
  views := h'.views.trans h.views
  behaviors := h.behaviors.trans h'.behaviors
  observers := h.observers.trans h'.observers
  log := fun _ hm => h'.log (h.log hm)

theorem log_cons (w : World) (entry : LogEntry) : w.Furnished { w with log := entry :: w.log } :=
  ⟨rfl, rfl, rfl, .refl _, .refl _, List.subset_cons_self _ _⟩

theorem withBehavior (w : World) (b : Behavior) : w.Furnished (w.withBehavior b) :=
  ⟨rfl, rfl, rfl, .add _ _, .refl _, List.Subset.refl _⟩

theorem withObserver (w : World) (s : ObserverState) : w.Furnished (w.withObserver s) :=
  ⟨rfl, rfl, rfl, .refl _, .add _ _, List.Subset.refl _⟩

end Furnished

/-- What has been put on a node stays there while more is made, if the document shows the node as it
did. -/
theorem PutOn.later {w w' : World} {target : NodeId} {d : Directive} {b : BehaviorId}
    (h : w.PutOn target d b) (hlt : b.index < w.behaviors.size)
    (hb : w.behaviors.Grown w'.behaviors) (ho : w.observers.Grown w'.observers)
    (hl : w.log ⊆ w'.log) (hd : w'.document.html target = w.document.html target) :
    w'.PutOn target d b := by
  have hbehavior : w'.behavior b = w.behavior b :=
    congrArg BehaviorCell.behavior (hb.get b hlt)
  have hobserver : ∀ {o : ObserverId} {evaluator isVolatile reaction},
      reaction.behavior? = some b → w.observers.get o = .made evaluator isVolatile reaction →
        w'.observers.get o = .made evaluator isVolatile reaction := by
    intro o evaluator isVolatile reaction hr h
    rw [ho.get o (lt_of_behavior? (b := b) (by rw [h]; exact hr)), h]
  cases h with
  | handler h => exact .handler (hbehavior.trans h)
  | binding ha h => exact .binding ha (hbehavior.trans h)
  | repeated h hi ht =>
    exact .repeated (hbehavior.trans h) (hobserver rfl hi) (hobserver rfl ht)
  | probe h hm => exact .probe (hbehavior.trans h) (hl (hd ▸ hm))

/-- **Installed.** A copy of a prototype has been planted, and is the new view's fragment; behaviors have
been put on the nodes that the directives' paths lead to, and the view reaches from the first of its
nodes to the last. -/
structure Installed (w w' : World) (t : TemplateId) (c : Markup.Compiled) (v : ViewId) : Prop where
  new : v = ⟨w.views.size⟩
  views : w'.views = (w.views.add (w'.views.get v)).2
  templates : w'.templates = w.templates
  behaviors : w.behaviors.Grown w'.behaviors
  template : (w'.views.get v).template = t
  fragment : (w'.views.get v).fragment = (w.document.plant (.node .fragment c.trees)).1
  document : w'.document = (w.document.plant (.node .fragment c.trees)).2.filled
    (w'.views.get v).fragment c.trees
  head : (w'.document.children (w'.views.get v).fragment).head? = some (w'.views.get v).first
  last : (w'.document.children (w'.views.get v).fragment).getLast? = some (w'.views.get v).last
  puts : List.Forall₂ (fun target b => b.index < w'.behaviors.size ∧
    ∃ n, target.1.resolve w'.document (w'.views.get v).fragment = some n ∧ w'.PutOn n target.2 b)
    c.targets (w'.views.get v).behaviors

namespace Installed

variable {w w' : World} {t : TemplateId} {c : Markup.Compiled} {v : ViewId}

theorem lt_fragment (h : w.Installed w' t c v) :
    w.document.size ≤ (w'.views.get v).fragment.index ∧
      (w'.views.get v).fragment.index < w'.document.size := by
  have hshows := Document.shows_filled
    (Document.shows_plant w.document (.node .fragment c.trees))
  rw [← h.fragment, ← h.document] at hshows
  cases hts : c.trees <;> rw [hts] at hshows <;> exact ⟨hshows.1, hshows.2.1⟩

theorem grown (h : w.Installed w' t c v) : w.document.Grown w'.document := by
  obtain ⟨hgrown, hfragment, -⟩ := Document.plant_grown w.document (.node .fragment c.trees)
  rw [h.document]
  exact Document.grown_filled hgrown (h.fragment ▸ hfragment.1) _

theorem rooted (h : w.Installed w' t c v) :
    w'.document.Rooted w.document.size w'.document.size := by
  obtain ⟨-, hfragment, -⟩ := Document.plant_grown w.document (.node .fragment c.trees)
  rw [h.document]
  exact Document.rooted_filled (Document.rooted_plant _ _) (h.fragment ▸ hfragment.2) _

theorem shows (h : w.Installed w' t c v) :
    w'.document.Shows w.document.size (w'.views.get v).fragment
      (Tree.filled (.node .fragment c.trees)) := by
  rw [h.document, h.fragment]
  exact Document.shows_filled (Document.shows_plant _ _)

/-- **What is installed is an instance** of the prototype it was copied from. -/
theorem isInstance {lo hi : Nat} (h : w.Installed w' t c v) (hp : w.HoldsPrototype t c lo hi)
    (hc : c.IsPlaced) : w'.IsInstance t v := by
  have hp' := hp.grown h.grown h.templates
  obtain ⟨hl, hh⟩ := h.lt_fragment
  refine ⟨h.template, ?_, fun {n} hn hn' => ?_, ?_⟩
  · rw [Document.tree_of_shows hp'.shows]
    exact Document.tree_of_shows h.shows
  · have hold := (hp'.rooted.inside hp'.lo_le hp'.lt_hi hn).2
    have hnew := (h.rooted.inside hl hh hn').1
    exact absurd (Nat.lt_of_lt_of_le hold (Nat.le_trans hp.made (Nat.le_trans hl hnew)))
      (Nat.lt_irrefl _)
  · rw [hp'.directives]
    refine ((List.forall₂_and_left _ _).mpr ⟨fun _ => id, h.puts⟩).imp fun target b hb => ?_
    obtain ⟨hm, -, n', hn', hput⟩ := hb
    obtain ⟨-, u, hu⟩ := hc target hm
    obtain ⟨first, others, htrees⟩ := hc.exists_cons hm
    have hsame : Tree.filled (.node .fragment c.trees) = .node .fragment c.trees := by
      rw [htrees]
      rfl
    obtain ⟨n, m', hcorresponds⟩ := Document.corresponds_of_shows
      (hp'.rooted.isTree hp'.lo_le hp'.lt_hi) (h.rooted.isTree hl hh) hp'.shows
      (hsame ▸ h.shows) hu
    obtain rfl : n' = m' := Option.some.inj (hn'.symm.trans hcorresponds.resolve')
    exact ⟨n, n', hcorresponds, hput⟩

end Installed

end World

namespace Machine

open World

variable {w : World}

/-- A behavior that has just been made. -/
theorem behavior_withBehavior (w : World) (b : Behavior) :
    (w.withBehavior b).behavior ⟨w.behaviors.size⟩ = b :=
  congrArg BehaviorCell.behavior (Store.get_add_self w.behaviors _)

/-- What making a behavior comes to, if that is what the directive puts on the node. -/
theorem puts_of_withBehavior {x : World} {target : NodeId} {d : Directive} {b : Behavior}
    (hx : w.Furnished x) (h : (x.withBehavior b).PutOn target d ⟨x.behaviors.size⟩) :
    ∃ r w', (some (.ok ⟨x.behaviors.size⟩, x.withBehavior b) :
        Option (Except Error BehaviorId × World)) = some (r, w') ∧ w.Furnished w' ∧
      (∀ e, r = .error e → d.refusal? = some e) ∧
      ∀ b, r = .ok b → b.index < w'.behaviors.size ∧ w'.PutOn target d b := by
  refine ⟨_, _, rfl, hx.trans (.withBehavior x b), nofun, ?_⟩
  rintro _ ⟨⟩
  refine ⟨?_, h⟩
  rw [Setting.size_withBehavior]
  exact Nat.lt_succ_self _

/-- **A directive puts its behavior on the node** that it is given, or refuses to. -/
theorem createBehavior_puts (target : NodeId) (d : Directive) (calls : Calls) (w : World) :
    ∃ r w', createBehavior target d calls w = some (r, w') ∧ w.Furnished w' ∧
      (∀ e, r = .error e → d.refusal? = some e) ∧
      ∀ b, r = .ok b → b.index < w'.behaviors.size ∧ w'.PutOn target d b := by
  unfold createBehavior
  split
  · exact puts_of_withBehavior (.refl w) (.handler (behavior_withBehavior w _))
  · next ha =>
    exact puts_of_withBehavior (.refl w) (.binding ha (behavior_withBehavior w _))
  · next items template options =>
    let itemsObserver : ObserverState :=
      .made items.evaluator items.isVolatile (.itemsChanged ⟨w.behaviors.size⟩)
    let templateObserver : ObserverState :=
      .made template.evaluator template.isVolatile (.templateChanged ⟨w.behaviors.size⟩)
    let x := (w.withObserver itemsObserver).withObserver templateObserver
    have hi : x.observers.get ⟨w.observers.size⟩ = itemsObserver := by
      show ((w.observers.add itemsObserver).2.add templateObserver).2.get ⟨w.observers.size⟩ = _
      rw [(Store.Grown.add _ _).get ⟨w.observers.size⟩
        (by rw [Store.size_add]; exact Nat.lt_succ_self _)]
      exact Store.get_add_self _ _
    have ht : x.observers.get ⟨(w.observers.add itemsObserver).2.size⟩ = templateObserver :=
      Store.get_add_self _ _
    have hx : w.Furnished x := (Furnished.withObserver w _).trans (.withObserver _ _)
    exact puts_of_withBehavior hx (.repeated (behavior_withBehavior x _) hi ht)
  · next name failCreate failBind =>
    have hx := Furnished.log_cons w (.probeCreated name (w.document.html target))
    cases failCreate with
    | some reason =>
      refine ⟨_, _, rfl, hx, ?_, nofun⟩
      rintro _ ⟨⟩
      rfl
    | none =>
      exact puts_of_withBehavior hx (.probe (behavior_withBehavior _ _) (List.mem_cons_self ..))

/-- **So do directives one after another**, each on its own node. -/
theorem collect_createBehavior_puts (targets : List (NodeId × Directive)) (calls : Calls)
    (w : World) :
    ∃ r w', collect (fun (target, d) => createBehavior target d) targets calls w = some (r, w') ∧
      w.Furnished w' ∧ (∀ e, r = .error e → ∃ target ∈ targets, target.2.refusal? = some e) ∧
      ∀ bs, r = .ok bs →
        List.Forall₂ (fun target b => b.index < w'.behaviors.size ∧ w'.PutOn target.1 target.2 b)
          targets bs := by
  induction targets generalizing w with
  | nil =>
    refine ⟨_, _, rfl, .refl w, by simp, ?_⟩
    rintro _ ⟨⟩
    exact .nil
  | cons target targets ih =>
    obtain ⟨r, x, hr, hx, herror, hok⟩ := createBehavior_puts target.1 target.2 calls w
    rw [collect, bind_apply]
    dsimp only
    rw [hr]
    cases r with
    | error e =>
      refine ⟨_, _, rfl, hx, ?_, by simp⟩
      rintro _ ⟨⟩
      exact ⟨target, List.mem_cons_self .., herror e rfl⟩
    | ok b =>
      obtain ⟨hlt, hput⟩ := hok b rfl
      obtain ⟨rs, w', hrs, hw', herrors, hoks⟩ := ih x
      dsimp only
      rw [bind_apply, hrs]
      cases rs with
      | error e =>
        refine ⟨_, _, rfl, hx.trans hw', ?_, by simp⟩
        rintro _ ⟨⟩
        obtain ⟨other, hm, he⟩ := herrors e rfl
        exact ⟨other, List.mem_cons_of_mem _ hm, he⟩
      | ok bs =>
        refine ⟨_, _, rfl, hx.trans hw', by simp, ?_⟩
        rintro _ ⟨⟩
        refine .cons ⟨Nat.lt_of_lt_of_le hlt hw'.behaviors.size, ?_⟩ (hoks bs rfl)
        exact hput.later hlt hw'.behaviors hw'.observers hw'.log (by rw [hw'.document])

/-- **Targets that are there are found**, each by its own path. -/
theorem resolveTargets_apply {fragment : NodeId} {directives : List (Path × Directive)}
    (found : Path → NodeId) (h : ∀ target ∈ directives,
      target.1.resolve w.document fragment = some (found target.1)) (calls : Calls) :
    resolveTargets fragment directives calls w =
      some (.ok (directives.map fun target => (found target.1, target.2)), w) := by
  induction directives with
  | nil => rfl
  | cons entry directives ih =>
    have hr := ih fun target hm => h target (List.mem_cons_of_mem _ hm)
    rw [resolveTargets, bind_apply, get_apply]
    dsimp only
    rw [h entry (List.mem_cons_self ..)]
    dsimp only
    rw [bind_apply, hr]
    rfl

/-- **A view reaches from the first node of its fragment to the last**, and has nodes. -/
theorem viewEnds_apply {lo : Nat} {fragment : NodeId} {content : Content} {ts : List Tree}
    (h : w.document.Shows lo fragment (.node content ts)) (calls : Calls) :
    ∃ first last, viewEnds fragment calls w =
        some (.ok (first, last), { w with document := w.document.filled fragment ts }) ∧
      ((w.document.filled fragment ts).children fragment).head? = some first ∧
      ((w.document.filled fragment ts).children fragment).getLast? = some last := by
  obtain ⟨-, hlt, -, hall⟩ := h
  unfold viewEnds
  rw [bind_apply, read_apply]
  dsimp only
  rcases hn : w.document.children fragment with - | ⟨n, ns⟩ <;> rcases ts with - | ⟨t, ts⟩ <;>
    rw [hn] at hall
  · have hdocument := Document.insertBefore_head (c := .text "") hlt nofun
    have hchildren : (w.document.prepend fragment (.text "")).children fragment =
        [(w.document.create (.text "")).1] := by
      rw [Document.children_prepend hlt, if_pos rfl, hn]
    rw [hn] at hdocument
    refine ⟨_, _, ?_, congrArg List.head? hchildren, congrArg List.getLast? hchildren⟩
    rw [Document.filled, ← hdocument]
    rfl
  · exact hall.elim
  · exact hall.elim
  · refine ⟨n, (n :: ns).getLast (List.cons_ne_nil _ _), ?_, congrArg List.head? hn, ?_⟩
    · rw [List.head?_cons, List.getLast?_eq_getLast_of_ne_nil (List.cons_ne_nil _ _)]
      rfl
    · rw [Document.filled, hn, List.getLast?_eq_getLast_of_ne_nil (List.cons_ne_nil _ _)]

/-- **Creating a view installs it.** It comes to an end, fails only if a directive refuses, and otherwise
there is a new view with every directive's behavior on its node. -/
theorem createView_installs {t : TemplateId} {c : Markup.Compiled} {lo hi : Nat}
    (h : w.HoldsPrototype t c lo hi) (hc : c.IsPlaced) (calls : Calls) :
    ∃ r w', createView t calls w = some (r, w') ∧ w.document.Grown w'.document ∧
      w'.templates = w.templates ∧
      (∀ e, r = .error e → ∃ target ∈ c.targets, target.2.refusal? = some e) ∧
      ∀ v, r = .ok v → w.Installed w' t c v := by
  have htree : w.document.tree (w.templates.get t).fragment = .node .fragment c.trees :=
    Document.tree_of_shows h.shows
  obtain ⟨hgrown, hfragment, -⟩ := Document.plant_grown w.document (.node .fragment c.trees)
  have hshows := Document.shows_plant w.document (.node .fragment c.trees)
  unfold createView
  rw [bind_apply, read_apply]
  dsimp only
  rw [bind_apply, Setting.cloneFragment_apply, Document.clone, htree, h.directives]
  dsimp only
  generalize hplanted : w.document.plant (.node .fragment c.trees) = planted at *
  obtain ⟨fragment, document⟩ := planted
  dsimp only at hgrown hfragment hshows ⊢
  generalize hx : ({ w with log := _, document := _ } : World) = x
  have hdocument : x.document = document := by rw [← hx]
  have hresolve : ∀ target ∈ c.targets, target.1.resolve x.document fragment =
      some ((target.1.resolve document fragment).getD fragment) := by
    intro target hm
    obtain ⟨-, u, hu⟩ := hc target hm
    obtain ⟨n, hn, -⟩ := Document.resolve_of_shows hshows hu
    rw [hdocument, hn]
    rfl
  let found : Path → NodeId := fun path => (path.resolve document fragment).getD fragment
  rw [bind_apply, resolveTargets_apply found hresolve]
  dsimp only
  obtain ⟨r, x₂, hr, hfurnished, herror, hok⟩ := collect_createBehavior_puts
    (c.targets.map fun target => (found target.1, target.2)) calls x
  rw [bind_apply, hr]
  have hdocument₂ : x₂.document = document := hfurnished.document.trans hdocument
  have htemplates₂ : x₂.templates = w.templates := hfurnished.templates.trans (by rw [← hx])
  cases r with
  | error e =>
    refine ⟨_, _, rfl, hdocument₂ ▸ hgrown, htemplates₂, ?_, nofun⟩
    rintro _ ⟨⟩
    obtain ⟨_, hmap, he⟩ := herror e rfl
    obtain ⟨target, hm, rfl⟩ := List.mem_map.mp hmap
    exact ⟨target, hm, he⟩
  | ok bs =>
    have hputs := List.forall₂_map_left_iff.mp (hok bs rfl)
    have hviews : x₂.views = w.views := hfurnished.views.trans (by rw [← hx])
    have hbehaviors : w.behaviors.Grown x₂.behaviors := by
      have hgrown := hfurnished.behaviors
      rw [← hx] at hgrown
      exact hgrown
    rw [← hdocument₂] at hshows hgrown
    obtain ⟨first, last, hends, hhead, hlast⟩ := viewEnds_apply hshows calls
    dsimp only
    rw [bind_apply, hends]
    refine ⟨_, _, rfl, Document.grown_filled hgrown hfragment.1 _, htemplates₂, nofun, ?_⟩
    rintro _ ⟨⟩
    let state : ViewState :=
      { fragment, first, last, behaviors := bs, template := t, source := none, context := none }
    have hview : (x₂.views.add state).2.get (x₂.views.add state).1 = state :=
      Store.get_add_self _ _
    refine ⟨hviews ▸ rfl, ?_, htemplates₂, hbehaviors, ?_, ?_, ?_, ?_, ?_, ?_⟩ <;> dsimp only <;>
      rw [hview]
    · rw [hviews]
    · rw [hplanted]
    · rw [hplanted, hdocument₂]
    · exact hhead
    · exact hlast
    · refine ((List.forall₂_and_left _ _).mpr ⟨fun _ => id, hputs⟩).imp fun target b hb => ?_
      obtain ⟨hm, hlt, hput⟩ := hb
      obtain ⟨tree, trees, htrees⟩ := hc.exists_cons hm
      have hfilled : x₂.document.filled fragment c.trees = x₂.document := by rw [htrees]; rfl
      refine ⟨hlt, found target.1, ?_, hput.later hlt (.refl _) (.refl _) (List.Subset.refl _) ?_⟩
      · show target.1.resolve (x₂.document.filled fragment c.trees) fragment = _
        rw [hfilled, hdocument₂, ← hdocument]
        exact hresolve target hm
      · show (x₂.document.filled fragment c.trees).html _ = _
        rw [hfilled]

/-- **Every directive's behavior is put on its node.** Creating a view of a template comes to an end,
fails only if a directive refuses, and otherwise gives an instance. -/
theorem createView_isInstance {t : TemplateId} {c : Markup.Compiled} {lo hi : Nat}
    (h : w.HoldsPrototype t c lo hi) (hc : c.IsPlaced) (calls : Calls) :
    ∃ r w', createView t calls w = some (r, w') ∧ w.document.Grown w'.document ∧
      w'.templates = w.templates ∧
      (∀ e, r = .error e → ∃ target ∈ c.targets, target.2.refusal? = some e) ∧
      ∀ v, r = .ok v → w'.IsInstance t v := by
  obtain ⟨r, w', hr, hgrown, htemplates, herror, hok⟩ := createView_installs h hc calls
  exact ⟨r, w', hr, hgrown, htemplates, herror, fun v hv => (hok v hv).isInstance h hc⟩

/-- What an instance of a compiled template has where a directive was placed. -/
theorem behavior_of_isInstance {t : TemplateId} {v : ViewId} {c : Markup.Compiled} {lo hi : Nat}
    (h : w.HoldsPrototype t c.anchored lo hi) (hv : w.IsInstance t v) {i : Nat} {path : Path}
    {d : Directive} {content : Content} (hi : c.targets[i]? = some (path, d)) (hne : path ≠ [])
    (hc : path.content? (.node .fragment c.trees) = some content) :
    ∃ n n' b, (w.views.get v).behaviors[i]? = some b ∧ w.PutOn n' d b ∧
      w.document.content n' = content ∧
      w.document.Corresponds (w.templates.get t).fragment (w.views.get v).fragment
        (c.moved path) n n' := by
  have hall := hv.behaviors
  rw [h.directives, Markup.Compiled.targets_anchored, List.forall₂_map_left_iff] at hall
  obtain ⟨hlt, hget⟩ := List.getElem?_eq_some_iff.mp hi
  have hlt' : i < (w.views.get v).behaviors.length := hall.length_eq ▸ hlt
  have hat := hall.get hlt hlt'
  rw [List.get_eq_getElem, hget] at hat
  obtain ⟨n, n', hcorresponds, hput⟩ := hat
  refine ⟨n, n', _, List.getElem?_eq_getElem hlt', hput, ?_, hcorresponds⟩
  obtain ⟨u, hu, rfl⟩ := Option.map_eq_some_iff.mp hc
  rw [← Markup.Compiled.subtree?_moved c hne] at hu
  obtain ⟨m, hm, hshows⟩ := Document.resolve_of_shows h.shows hu
  obtain rfl : n = m := Option.some.inj (hcorresponds.resolve.symm.trans hm)
  rw [← Document.content_tree, hcorresponds.tree, Document.tree_of_shows hshows]

end Machine

/-- **Directives reach their nodes.** In a tree a path and the node it leads to determine each other. So
whatever template is compiled, of whatever markup, its views are made as they should be at any time as
long as the template is untouched. -/
theorem directives_reach_their_nodes :
    (∀ (d : Document) (root : NodeId), d.IsTree root →
      (∀ n, d.Inside root n →
        ∃ path, Path.of? d n root = some path ∧ path.resolve d root = some n) ∧
      ∀ (path : Path) n, path.resolve d root = some n → Path.of? d n root = some path) ∧
    ∀ (strings : List String) (insertions : List Markup.Insertion) (calls : Calls) (w w₁ : World)
      (t : TemplateId), Machine.compileTemplate strings insertions calls w = some (.ok t, w₁) →
      ∃ c, Markup.compile strings insertions = .ok c ∧
        ∀ (calls' : Calls) (x : World), World.Untouched w.document.size t w₁ x →
          ∃ r x', Machine.createView t calls' x = some (r, x') ∧
            (∀ e, r = .error e → ∃ target ∈ c.targets, target.2.refusal? = some e) ∧
            ∀ v, r = .ok v → x'.IsInstance t v ∧
              (x'.views.get v).behaviors.length = c.targets.length ∧
              ∀ i path d, c.targets[i]? = some (path, d) →
                ∃ content s s', Markup.PlacedBetween (Markup.join 0 strings insertions).1
                    (Markup.join 0 strings insertions).2 c i path d content s s' ∧
                  ∃ n n' b, (x'.views.get v).behaviors[i]? = some b ∧ x'.PutOn n' d b ∧
                    x'.document.content n' = content ∧
                    x'.document.Corresponds (x'.templates.get t).fragment
                      (x'.views.get v).fragment (c.moved path) n n' := by
  refine ⟨fun d root hd => ⟨fun n => Path.resolve_of_inside hd, fun path n => Path.of_resolve hd⟩, ?_⟩
  intro strings insertions calls w w₁ t hcompile
  obtain ⟨c, hc, -, -, hholds, -⟩ := Machine.compileTemplate_holds hcompile
  have hrun := Machine.run_of_compile hc
  refine ⟨c, hc, fun calls' x hx => ?_⟩
  have hholdsx := hholds.untouched hx
  obtain ⟨r, x', hr, hgrown, htemplates, herror, hok⟩ :=
    Machine.createView_isInstance hholdsx (Markup.isPlaced_of_run hrun).anchored calls'
  refine ⟨r, x', hr, fun e he => ?_, fun v hv => ?_⟩
  · obtain ⟨_, hmoved, hrefuses⟩ := herror e he
    rw [Markup.Compiled.targets_anchored] at hmoved
    obtain ⟨target, hm, rfl⟩ := List.mem_map.mp hmoved
    exact ⟨target, hm, hrefuses⟩
  · have hinstance := hok v hv
    have hholds' := hholdsx.grown hgrown htemplates
    refine ⟨hinstance, ?_, fun i path d hi => ?_⟩
    · rw [← hinstance.behaviors.length_eq, hholds'.directives, Markup.Compiled.targets_anchored,
        List.length_map]
    · obtain ⟨content, s, s', hplaced⟩ := Markup.places_of_run hrun hi
      exact ⟨content, s, s', hplaced, Machine.behavior_of_isInstance hholds' hinstance hi
        hplaced.places.ne_nil hplaced.final⟩

/-- A greeting: a text that shows a property, in front of a paragraph with the property as its title. -/
def greeting : List String × List Markup.Insertion :=
  let shown : Binding := ⟨.get .source "name", false, false, .onChange⟩
  (["", "<p title=\"", "\"></p>"], [.dynamic (.binding shown), .dynamic (.binding shown)])

/-- The text comes first and is shown by a directive, so the greeting is anchored: its directives are on
the second and the third node of the prototype, and so are the behaviors of a view. -/
theorem greeting_reaches_its_nodes :
    ∃ w₁, Machine.compileTemplate greeting.1 greeting.2 (fun _ _ => none) World.empty =
        some (.ok ⟨0⟩, w₁) ∧
      ∃ v x, Machine.createView ⟨0⟩ (fun _ _ => none) w₁ = some (.ok v, x) ∧
        x.IsInstance ⟨0⟩ v ∧ (x.views.get v).behaviors.length = 2 ∧
        ∀ (i : Nat) (path : Path), ([[1], [2]] : List Path)[i]? = some path → ∃ n n' b d,
          (x.views.get v).behaviors[i]? = some b ∧ x.PutOn n' d b ∧
            x.document.Corresponds (x.templates.get ⟨0⟩).fragment (x.views.get v).fragment
              path n n' := by
  have hmoved : ((Markup.compile greeting.1 greeting.2).toOption.map fun c =>
      c.targets.map fun target => c.moved target.1) = some [[1], [2]] := by decide +kernel
  have hbinds : ((Markup.compile greeting.1 greeting.2).toOption.map fun c =>
      c.targets.all fun target => target.2.refusal?.isNone) = some true := by decide +kernel
  cases hc : Markup.compile greeting.1 greeting.2 with
  | error e =>
    rw [hc] at hmoved
    exact absurd hmoved (by simp [Except.toOption])
  | ok c =>
    rw [hc] at hmoved hbinds
    replace hmoved : c.targets.map (fun target => c.moved target.1) = [[1], [2]] :=
      Option.some.inj hmoved
    obtain ⟨w₁, hcompile⟩ :=
      Machine.compileTemplate_of_compile hc (fun _ _ => none) World.empty
    obtain ⟨c', hc', h⟩ := directives_reach_their_nodes.2 _ _ _ _ _ _ hcompile
    obtain rfl : c = c' := Except.ok.inj (hc.symm.trans hc')
    obtain ⟨r, x, hr, herror, hok⟩ := h (fun _ _ => none) w₁ (.refl _ _ _)
    refine ⟨w₁, hcompile, ?_⟩
    cases r with
    | error e =>
      obtain ⟨target, hm, hrefuses⟩ := herror e rfl
      have hbind := List.all_eq_true.mp (Option.some.inj hbinds) target hm
      rw [hrefuses] at hbind
      exact absurd hbind (by simp)
    | ok v =>
      obtain ⟨hinstance, hlength, hall⟩ := hok v rfl
      refine ⟨v, x, hr, hinstance, ?_, fun i path hi => ?_⟩
      · rw [hlength]
        simpa using congrArg List.length hmoved
      · rw [← hmoved, List.getElem?_map, Option.map_eq_some_iff] at hi
        obtain ⟨⟨path, d⟩, hi, rfl⟩ := hi
        obtain ⟨-, -, -, -, n, n', b, hb, hput, -, hcorresponds⟩ := hall i path d hi
        exact ⟨n, n', b, d, hb, hput, hcorresponds⟩

end ReactiveViews
