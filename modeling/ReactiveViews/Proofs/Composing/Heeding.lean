import ReactiveViews.Proofs.Composing.Arranged
import ReactiveViews.Proofs.Dom.Listeners
import ReactiveViews.Proofs.Dormancy.Unbinding
/-!
# What goes on around a content binding

While a content binding is at work it makes calls: its expression is evaluated, and the views that
it composes are bound and unbound. Calls *heed* the binding if they do not come back to it: they
leave what it is bound to and what it remembers, its placeholder, and where the views stand that
are its own (`World.Unmoved`). Nothing else is asked of what goes on within them, but that they
are those of a run in which nobody else binds or unbinds the views.

What a binding does besides composing, such as observing an expression, then leaves it alone as well
(`Machine.Minds`).
-/

namespace ReactiveViews

open Machine

/-- **Site.** A content binding, the node that it is put on, and the views that it may compose. -/
structure Site where
  behavior : BehaviorId
  node : NodeId
  views : ViewId → Bool

namespace World

/-- What a binding is bound to, and the view that it remembers. -/
def slot? (w : World) (b : BehaviorId) : Option (Option Bound × Option Composed) :=
  (w.bindingState? b).map fun s => (s.bound, s.composed)

/-- **Unmoved.** A binding is bound to what it was and remembers what it did, its node has the
text it had, and its views are where they were. -/
structure Unmoved (w : World) (x : Site) (w' : World) : Prop where
  slot : w'.slot? x.behavior = w.slot? x.behavior
  data : (w'.document.content x.node).data = (w.document.content x.node).data
  parent : (w.document.parent? x.node).isSome → (w'.document.parent? x.node).isSome
  atHand {v : ViewId} : x.views v → v.index < w.views.size → w.AtHand x.node v → w'.AtHand x.node v
  detached {v : ViewId} : x.views v → v.index < w.views.size → w'.isDetached v = w.isDetached v
  before {v : ViewId} : x.views v → v.index < w.views.size →
    w'.standsBefore v x.node = w.standsBefore v x.node

/-- **Bypassing.** Something has happened that leaves a binding alone, and some views are bound to
what they were. -/
structure BypassBut (w : World) (x : Site) (spared : ViewId → Bool) (w' : World) : Prop where
  linked : w'.document.Linked
  persists : w.Persists spared w'
  unmoved : w.Unmoved x w'

/-- The views of the binding are bound to what they were. -/
abbrev Bypass (w : World) (x : Site) (w' : World) : Prop := w.BypassBut x x.views w'

section Bypass

variable {w w' w'' : World} {x : Site} {spared : ViewId → Bool}

theorem Unmoved.trans (h : w.Unmoved x w') (hp : w.Persists spared w') (h' : w'.Unmoved x w'') :
    w.Unmoved x w'' where
  slot := h'.slot.trans h.slot
  data := h'.data.trans h.data
  parent hr := h'.parent (h.parent hr)
  atHand hx hv ha := h'.atHand hx (Nat.lt_of_lt_of_le hv hp.lasts.size_views) (h.atHand hx hv ha)
  detached hx hv :=
    (h'.detached hx (Nat.lt_of_lt_of_le hv hp.lasts.size_views)).trans (h.detached hx hv)
  before hx hv := (h'.before hx (Nat.lt_of_lt_of_le hv hp.lasts.size_views)).trans (h.before hx hv)

theorem BypassBut.trans (h : w.BypassBut x spared w') (h' : w'.BypassBut x spared w'') :
    w.BypassBut x spared w'' :=
  ⟨h'.linked, h.persists.trans h'.persists, h.unmoved.trans h.persists h'.unmoved⟩

/-- Where views stand depends on documents only, and on which nodes are theirs. -/
theorem Unmoved.of_related (hd : w.document.Linked) (hr : w.document.Related w'.document)
    (hv : ∀ v, (w'.views.get v).lasting = (w.views.get v).lasting)
    (hs : w'.slot? x.behavior = w.slot? x.behavior)
    (hdata : (w'.document.content x.node).data = (w.document.content x.node).data) :
    w.Unmoved x w' where
  slot := hs
  data := hdata
  parent h := by rwa [hr.parent]
  atHand {v} _ _ h := h.related hd hr (hv v)
  detached {v} _ _ := by
    unfold isDetached
    dsimp only
    rw [hr.parent]
    have hfirst := congrArg ViewState.first (hv v)
    have hfragment := congrArg ViewState.fragment (hv v)
    exact congrArg₂ (fun n m => w.document.parent? n == some m) hfirst hfragment
  before {v} _ _ := by
    unfold standsBefore
    rw [hr.previousSibling]
    have hlast := congrArg ViewState.last (hv v)
    exact congrArg (fun n => w.document.previousSibling? x.node == some n) hlast

theorem BypassBut.of_eq (hd : w.document.Linked) (hb : w'.behaviors = w.behaviors)
    (hv : w'.views = w.views) (hdoc : w'.document = w.document) (ht : w'.templates = w.templates) :
    w.BypassBut x spared w' :=
  ⟨hdoc ▸ hd, .of_eq hb hv hdoc ht, .of_related hd (.of_eq hdoc) (fun _ => by rw [hv])
    (by rw [slot?, slot?, bindingState?, bindingState?, behavior, behavior, hb]) (by rw [hdoc])⟩

/-- Listeners come and go. -/
theorem BypassBut.of_redrawn (hd : w.document.Linked) (h : w.Redrawn w')
    (hr : w.document.Related w'.document) (hk : w.document.KeepsKinds w'.document)
    (hdata : (w'.document.content x.node).data = (w.document.content x.node).data) :
    w.BypassBut x spared w' := by
  have hs : w'.slot? x.behavior = w.slot? x.behavior := by rw [h]; rfl
  exact ⟨hd.related hr, ⟨.of_eq h.behaviors h.views, hk, by rw [h]; exact .refl _⟩,
    .of_related hd hr (fun _ => by rw [h.views]) hs hdata⟩

/-- A binding changes in its state. -/
theorem slot?_alter (w : World) (b c : BehaviorId) (f : BindingState → BindingState) :
    (w.alter b (.onBinding f)).slot? c =
      if b = c then (w.bindingState? c).map fun s => ((f s).bound, (f s).composed) else w.slot? c := by
  have hget : (w.alter b (.onBinding f)).behavior c =
      if b = c then (w.behavior c).onBinding f else w.behavior c := by
    unfold World.behavior alter
    rw [Store.get_modify]
    split
    · next he => rw [he]
    · rfl
  by_cases he : b = c
  · rw [slot?, bindingState?, bindingState?, hget, if_pos he, if_pos he]
    cases w.behavior c <;> rfl
  · rw [slot?, slot?, bindingState?, bindingState?, hget, if_neg he, if_neg he]

/-- A behavior changes in what is neither its bound nor its composed view. -/
theorem BypassBut.of_alter (hd : w.document.Linked) (b : BehaviorId)
    {f : BindingState → BindingState}
    (hf : ∀ s, (Behavior.binding (f s)).lasting = (Behavior.binding s).lasting)
    (hs : ∀ s, (f s).bound = s.bound ∧ (f s).composed = s.composed) :
    w.BypassBut x spared (w.alter b (.onBinding f)) := by
  have hlasts : w.Lasts spared (w.alter b (.onBinding f)) := .of_modify fun s => by
    cases s with
    | binding s => exact hf s
    | _ => rfl
  refine ⟨hd, .of_lasts hlasts rfl rfl, .of_related hd (.of_eq rfl) (fun _ => rfl) ?_ rfl⟩
  rw [slot?_alter]
  split
  · have hsame : (fun s => ((f s).bound, (f s).composed)) = fun s => (s.bound, s.composed) :=
      funext fun s => Prod.ext (hs s).1 (hs s).2
    rw [hsame, slot?]
  · rfl

end Bypass

end World

namespace Machine

open World

/-- **Heeding.** Calls that leave a binding alone. They are those of a run in which its views are
bound and unbound by nobody else. -/
class Heeds (x : Site) (calls : Calls) : Prop where
  run : ∃ depth, ∀ {c : Call} {w : World} {r : Except Error c.Result × World},
    calls c w = some r → callsAround x.views depth c w = some r
  unmoved {c : Call} {w w' : World} {r : Except Error c.Result} :
    w.document.Linked → calls c w = some (r, w') → w.Unmoved x w'

section Heeds

variable {x : Site} {calls : Calls} [hc : Heeds x calls] {w w' : World} {α : Type}

theorem Heeds.firmly (x : Site) [hc : Heeds x calls] : Firmly calls := by
  obtain ⟨depth, hrun⟩ := hc.run
  have hfirm : Firmly (callsAround x.views depth) := inferInstance
  exact ⟨fun s change => ⟨fun h => (hfirm.deliver s change).ok (hrun h)⟩,
    ⟨fun h => hfirm.settle.ok (hrun h)⟩, fun v => ⟨fun h => (hfirm.unbindView v).ok (hrun h)⟩⟩

/-- Whatever a call is about, it leaves the binding alone, and views that it is not about are
bound to what they were. -/
theorem bypass_of_call {c : Call} {fewer : ViewId → Bool} (hf : ∀ v, fewer v → x.views v)
    (ha : sparing fewer c w = true) (hd : w.document.Linked) {r : Except Error c.Result}
    (h : calls c w = some (r, w')) : w.BypassBut x fewer w' := by
  obtain ⟨depth, hrun⟩ := hc.run
  obtain ⟨hp, hl⟩ := linked_of_callsAround hf ha hd (hrun h)
  exact ⟨hl, hp, hc.unmoved hd h⟩

/-- The setting of such calls. -/
def heedingSetting (x : Site) (calls : Calls) [hc : Heeds x calls] :
    Setting (linking fun _ => false) where
  calls := calls
  calls' := calls
  firm := Heeds.firmly x
  call {c w _ _} hd h := by
    have ha : sparing (fun _ => false) c w = true := by
      unfold sparing
      split <;> rfl
    have hbypass := bypass_of_call (x := x) (fun _ hv => absurd hv Bool.false_ne_true) ha hd h
    exact ⟨ha, h, hbypass.persists, hbypass.linked⟩

end Heeds

/-- **Minding.** A computation that bypasses a binding. -/
class Minds (x : Site) (calls : Calls) {α : Type} (m : Machine α) : Prop where
  bypass {w w' : World} {r : Except Error α} :
    w.document.Linked → m calls w = some (r, w') → w.Bypass x w'

section Minds

variable {x : Site} {calls : Calls} {α β : Type}

theorem Minds.of_eq {m : Machine α} (h : ∀ w, ∃ r w', m calls w = some (r, w') ∧
    w'.behaviors = w.behaviors ∧ w'.views = w.views ∧ w'.document = w.document ∧
      w'.templates = w.templates) : Minds x calls m := by
  refine ⟨fun {w w' r} hd hm => ?_⟩
  obtain ⟨r₁, w₁, h₁, hb, hv, hdoc, ht⟩ := h w
  obtain ⟨-, rfl⟩ : r₁ = r ∧ w₁ = w' := by simpa using h₁.symm.trans hm
  exact .of_eq hd hb hv hdoc ht

instance (a : α) : Minds x calls (pure a) := .of_eq fun w => ⟨_, w, rfl, rfl, rfl, rfl, rfl⟩

instance (e : Error) : Minds x calls (throw e : Machine α) :=
  .of_eq fun w => ⟨_, w, rfl, rfl, rfl, rfl, rfl⟩

instance : Minds x calls (get : Machine World) := .of_eq fun w => ⟨_, w, rfl, rfl, rfl, rfl, rfl⟩

instance (f : World → α) : Minds x calls (read f) := .of_eq fun w => ⟨_, w, rfl, rfl, rfl, rfl, rfl⟩

instance (r : Except Error α) : Minds x calls (ofExcept r) := by
  unfold ofExcept
  split <;> infer_instance

theorem Minds.bind {m : Machine α} {f : α → Machine β} [hm : Minds x calls m]
    (hf : ∀ a, Minds x calls (f a)) : Minds x calls (m >>= f) := by
  refine ⟨fun {w w' r} hd h => ?_⟩
  obtain ⟨e, h, -⟩ | ⟨a, w₁, h₁, h₂⟩ := bind_eq_some h
  · exact hm.bypass hd h
  · have hbypass := hm.bypass hd h₁
    exact hbypass.trans ((hf a).bypass hbypass.linked h₂)

instance (m : Machine α) (f : α → Machine β) [Minds x calls m] [hf : ∀ a, Minds x calls (f a)] :
    Minds x calls (m >>= f) :=
  .bind hf

instance (p : Prop) [Decidable p] (m m' : Machine α) [Minds x calls m] [Minds x calls m'] :
    Minds x calls (if p then m else m') := by
  split <;> infer_instance

instance (m : Machine α) [hm : Minds x calls m] : Minds x calls (attempt m) := by
  refine ⟨fun {w w' r} hd h => ?_⟩
  unfold attempt at h
  split at h
  · next r₁ w₁ h₁ =>
    obtain ⟨-, rfl⟩ : .ok r₁ = r ∧ w₁ = w' := by simpa using h
    exact hm.bypass hd h₁
  · exact absurd h (by simp)

/-- A computation run in a world where something else is held on to or watches. -/
theorem Minds.within {enter : World → World} {leave : World → World → World} {m : Machine α}
    [hm : Minds x calls m]
    (he : ∀ w, (enter w).behaviors = w.behaviors ∧ (enter w).views = w.views ∧
      (enter w).document = w.document ∧ (enter w).templates = w.templates)
    (hl : ∀ w w', (leave w w').behaviors = w'.behaviors ∧ (leave w w').views = w'.views ∧
      (leave w w').document = w'.document ∧ (leave w w').templates = w'.templates) :
    Minds x calls (Machine.within enter leave m) := by
  refine ⟨fun {w w' r} hd h => ?_⟩
  unfold Machine.within at h
  split at h
  · next r₁ w₁ h₁ =>
    obtain ⟨-, rfl⟩ : r₁ = r ∧ leave w w₁ = w' := by simpa using h
    obtain ⟨hb, hv, hdoc, ht⟩ := he w
    obtain ⟨hb', hv', hdoc', ht'⟩ := hl w w₁
    have hin : w.Bypass x (enter w) := .of_eq hd hb hv hdoc ht
    have hrun := hm.bypass hin.linked h₁
    exact (hin.trans hrun).trans (.of_eq hrun.linked hb' hv' hdoc' ht')
  · exact absurd h (by simp)

instance (things : List Held) (m : Machine α) [Minds x calls m] :
    Minds x calls (holding things m) :=
  .within (fun _ => ⟨rfl, rfl, rfl, rfl⟩) fun _ _ => ⟨rfl, rfl, rfl, rfl⟩

instance (watcher : Option ObserverId) (m : Machine α) [Minds x calls m] :
    Minds x calls (watching watcher m) :=
  .within (fun _ => ⟨rfl, rfl, rfl, rfl⟩) fun _ _ => ⟨rfl, rfl, rfl, rfl⟩

instance (m : Machine α) [Minds x calls m] : Minds x calls (untracked m) :=
  inferInstanceAs (Minds x calls (watching none m))

/-! ## What minds a binding -/

instance [Heeds x calls] (e : Expr) (env : Env) : Minds x calls (eval e env) :=
  ⟨fun hd h => bypass_of_call (c := .eval e env) (fun _ => id) rfl hd h⟩

instance (o : ObserverId) (f : ObserverState → ObserverState) : Minds x calls (modifyObserver o f) :=
  .of_eq fun _ => ⟨_, _, rfl, rfl, rfl, rfl, rfl⟩

instance (n : NotifierId) (f : Notifier → Notifier) : Minds x calls (modifyNotifier n f) :=
  .of_eq fun _ => ⟨_, _, rfl, rfl, rfl, rfl, rfl⟩

instance (n : NotifierId) (s : Subscriber) (topic : Option String) :
    Minds x calls (unsubscribe n s topic) :=
  inferInstanceAs (Minds x calls (modifyNotifier n _))

instance (n : NotifierId) (s : Subscriber) (topic : Option String) :
    Minds x calls (subscribe n s topic) :=
  inferInstanceAs (Minds x calls (modifyNotifier n _))

instance (e : Expr) (isVolatile : Bool) (reaction : Reaction) :
    Minds x calls (newObserver e isVolatile reaction) :=
  .of_eq fun _ => ⟨_, _, rfl, rfl, rfl, rfl, rfl⟩

instance (o : ObserverId) : Minds x calls (disconnect o) :=
  .of_eq fun w => ⟨_, _, Setting.disconnect_apply o calls w, rfl, rfl, rfl, rfl⟩

instance (o : ObserverId) : Minds x calls (disposeObserver o) := by
  unfold disposeObserver
  infer_instance

instance (o : ObserverId) (isAsync : Bool) : Minds x calls (setObserverMode o isAsync) :=
  inferInstanceAs (Minds x calls (modifyObserver o _))

instance [Heeds x calls] (o : ObserverId) (source : Value) (context : ContextId) :
    Minds x calls (observe o source context) := by
  unfold observe
  refine .bind fun s => ?_
  extract_lets rest
  have hrest : ∀ u, Minds x calls (rest u) := fun u => by
    refine .bind fun _ => .bind fun result => .bind fun e => ?_
    split <;> infer_instance
  split
  · exact .bind hrest
  · exact hrest ⟨⟩

instance (n : NodeId) (slot : Nat) : Minds x calls (mutate (.unlisten n slot)) := by
  refine ⟨fun {w w' r} hd h => ?_⟩
  obtain ⟨w₁, h₁, hredrawn, hdoc⟩ := mutate_apply (.unlisten n slot) calls w
  obtain ⟨-, rfl⟩ : .ok () = r ∧ w₁ = w' := by simpa using h₁.symm.trans h
  refine .of_redrawn hd hredrawn ?_ ?_ ?_ <;> rw [hdoc]
  · exact .removeListener _ n slot
  · exact .removeListener _ n slot
  · exact congrArg Content.data (Document.content_removeListener _ n x.node slot)

instance (n : NodeId) (l : Listener) : Minds x calls (listen n l) := by
  refine ⟨fun {w w' r} hd h => ?_⟩
  unfold listen at h
  rw [bind_apply, Setting.recordMutation_apply] at h
  obtain ⟨-, rfl⟩ := Prod.mk.inj (Option.some.inj h)
  refine .of_redrawn hd rfl (.addListener _ n l) (Document.Move.addListener _ n l).keepsKinds ?_
  exact congrArg Content.data (Document.content_addListener _ n x.node l)

instance : Minds x calls newNotifier := .of_eq fun _ => ⟨_, _, rfl, rfl, rfl, rfl, rfl⟩

instance (name : String) : Minds x calls (signalNotifier name) := by
  unfold signalNotifier
  refine .bind fun w => ?_
  split
  · infer_instance
  · have hput : ∀ n, Minds x calls (modify fun w => { w with signals := w.signals.put name n }) :=
      fun _ => .of_eq fun _ => ⟨_, _, rfl, rfl, rfl, rfl, rfl⟩
    infer_instance

/-- A binding changes in what is neither its bound nor its composed view. -/
theorem minds_modifyBinding (b : BehaviorId) {f : BindingState → BindingState}
    (hf : ∀ s, (Behavior.binding (f s)).lasting = (Behavior.binding s).lasting)
    (hs : ∀ s, (f s).bound = s.bound ∧ (f s).composed = s.composed) :
    Minds x calls (modifyBinding b f) := by
  refine ⟨fun {w w' r} hd h => ?_⟩
  obtain ⟨-, rfl⟩ : .ok ⟨⟩ = r ∧ w.alter b (.onBinding f) = w' := by
    simpa using (modifyBinding_apply b f calls w).symm.trans h
  exact .of_alter hd b hf hs

instance (b : BehaviorId) (s : BindingState) : Minds x calls (bindingObserver b s) := by
  unfold bindingObserver
  split
  · infer_instance
  · refine .bind fun o => ?_
    extract_lets rest
    have hgive : Minds x calls (modifyBinding b fun s => { s with observer := some o }) :=
      minds_modifyBinding b (fun _ => rfl) fun _ => ⟨rfl, rfl⟩
    have hrest : ∀ u, Minds x calls (rest u) := fun u => .bind fun _ => inferInstance
    split
    · exact .bind hrest
    · exact hrest ⟨⟩

end Minds

end Machine

end ReactiveViews
