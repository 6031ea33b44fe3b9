import ReactiveViews.Proofs.Flush
import ReactiveViews.Proofs.Runs
/-!
# Coherent worlds

A view that is not bound has no behavior that is bound, and a behavior that is not bound lists no
view that is. So it is wherever the machine is at work (`World.Coherent`), as long as nobody binds or
unbinds a view while a behavior of it is at work, which would then go on as if nothing had happened.
A run in which nobody does is `careful`.

While a view is being unbound this is not so: the view is unbound at once, and its behaviors one
after another; and each lists views that are still bound until their turn comes. So the invariant is
stated but for some views (`World.CoherentBut`).
-/

namespace ReactiveViews

namespace Tether

/-- The views that a behavior lists. -/
def nested (t : Tether) : List ViewId := (t.composed.map (·.view)).toList ++ t.views

/-- **Idle.** A behavior lists a view that is not to be bound: it has set the view aside, or is not
bound itself. -/
inductive Idle (t : Tether) : ViewId → Prop
  | composed {c : Composed} (hc : t.composed = some c)
    (h : c.isComposed = false ∨ c.needsBindOnly = true ∨ t.isBound = false) : Idle t c.view
  | listed {v : ViewId} (hv : v ∈ t.views) (h : t.isBound = false) : Idle t v

theorem mem_nested {t : Tether} {v : ViewId} :
    v ∈ t.nested ↔ (∃ c, t.composed = some c ∧ c.view = v) ∨ v ∈ t.views := by
  simp [nested]

theorem Idle.mem_nested {t : Tether} {v : ViewId} (h : t.Idle v) : v ∈ t.nested := by
  cases h with
  | composed hc => exact Tether.mem_nested.mpr (.inl ⟨_, hc, rfl⟩)
  | listed hv => exact Tether.mem_nested.mpr (.inr hv)

/-- What a behavior that is not bound lists is idle. -/
theorem idle_of_nested {t : Tether} {v : ViewId} (h : t.isBound = false) (hv : v ∈ t.nested) :
    t.Idle v := by
  obtain ⟨c, hc, rfl⟩ | hv := mem_nested.mp hv
  · exact .composed hc (.inr (.inr h))
  · exact .listed hv h

end Tether

namespace Behavior

/-- A behavior that is a binding, changed. -/
def onBinding (f : BindingState → BindingState) : Behavior → Behavior
  | binding s => binding (f s)
  | other => other

/-- An event behavior, changed. -/
def onHandler (f : HandlerState → HandlerState) : Behavior → Behavior
  | handler s => handler (f s)
  | other => other

/-- A repeat, changed. -/
def onRepeat (f : RepeatState → RepeatState) : Behavior → Behavior
  | repeated s => repeated (f s)
  | other => other

end Behavior

namespace World

/-- The tether of a behavior. -/
def tether (w : World) (b : BehaviorId) : Tether := (w.behavior b).tether

/-- A view is not bound. -/
def IsUnbound (w : World) (v : ViewId) : Prop := (w.views.get v).source = none

/-- Something that is held on to is a behavior at work or to be told of something, or its view,
which is being bound or unbound. -/
def pins (w : World) (b : BehaviorId) : Held → Bool
  | .subscriber (.behavior b') => b' == b
  | .running (.behavior b') => b' == b
  | .binding v => (w.views.get v).behaviors.contains b
  | _ => false

/-- **Pinned.** A behavior is at work or is to be told of something, or its view is being bound or
unbound. -/
def isPinned (w : World) (b : BehaviorId) : Bool := w.held.any (w.pins b)

/-- A behavior lists a view. -/
def isListed (w : World) (v : ViewId) : Bool :=
  w.behaviors.refs.any fun b => (w.tether b).nested.contains v

end World

/-- **Careful.** A view is bound or unbound only while none of its behaviors is pinned, and it is
bound only while no behavior lists it. -/
def careful (c : Call) (w : World) : Bool :=
  match c with
  | .bindView v _ _ => (w.views.get v).behaviors.all (!w.isPinned ·) && !w.isListed v
  | .unbindView v => (w.views.get v).behaviors.all (!w.isPinned ·)
  | _ => true

namespace World

/-- **Coherent but for some views.** `X` are views that may be bound although they are idle, `Y` views
that have behaviors which may be bound although the view is not. -/
structure CoherentBut (X Y : ViewId → Prop) (w : World) : Prop where
  /-- No two views have a behavior in common. -/
  unique {u v : ViewId} {b : BehaviorId} : b ∈ (w.views.get u).behaviors →
    b ∈ (w.views.get v).behaviors → u = v
  made {v : ViewId} {b : BehaviorId} : b ∈ (w.views.get v).behaviors →
    b.index < w.behaviors.size
  unbound {v : ViewId} {b : BehaviorId} : ¬ Y v → w.IsUnbound v →
    b ∈ (w.views.get v).behaviors → (w.tether b).isBound = false
  idle {b : BehaviorId} {v : ViewId} : ¬ X v → (w.tether b).Idle v → w.IsUnbound v

/-- **Coherent.** -/
def Coherent (w : World) : Prop := w.CoherentBut (fun _ => False) (fun _ => False)

/-- **Bond but for some behaviors.** What is held on to stays as it is: pinned behaviors stay bound,
but for exceptions, and so do their views. -/
structure BondBut (except : BehaviorId → Prop) (w w' : World) : Prop where
  size : w.behaviors.size ≤ w'.behaviors.size
  held : w'.held = w.held
  behaviors {v : ViewId} {b : BehaviorId} : b ∈ (w.views.get v).behaviors →
    b ∈ (w'.views.get v).behaviors
  bound {b : BehaviorId} : ¬ except b → w.isPinned b → (w.tether b).isBound →
    (w'.tether b).isBound
  source {v : ViewId} {b : BehaviorId} : b ∈ (w.views.get v).behaviors → w.isPinned b →
    ¬ w.IsUnbound v → ¬ w'.IsUnbound v

/-- **Bond.** -/
def Bond (w w' : World) : Prop := BondBut (fun _ => False) w w'

/-- Two worlds that are alike in what behaviors are tethered to and views are bound to. -/
structure Alike (w w' : World) : Prop where
  size : w.behaviors.size ≤ w'.behaviors.size
  tether (b : BehaviorId) : w'.tether b = w.tether b
  views : w'.views = w.views
  held : w'.held = w.held

/-- The world in which a behavior has changed. -/
def alter (w : World) (b : BehaviorId) (f : Behavior → Behavior) : World :=
  { w with behaviors := w.behaviors.modify b fun c => { c with behavior := f c.behavior } }

/-- The world in which a view has been bound to something else, or to nothing. -/
def rebound (w : World) (v : ViewId) (source : Option Value) (context : Option ContextId) : World :=
  { w with views := w.views.modify v fun s => { s with source, context } }

variable {X Y : ViewId → Prop} {except : BehaviorId → Prop} {w w' : World} {b : BehaviorId}
  {v : ViewId}

theorem behaviors_rebound (w : World) (v : ViewId) (source : Option Value)
    (context : Option ContextId) (u : ViewId) :
    ((w.rebound v source context).views.get u).behaviors = (w.views.get u).behaviors := by
  rw [rebound, Store.get_modify]
  split
  · next h => rw [h]
  · rfl

theorem isUnbound_rebound (w : World) (v : ViewId) (source : Option Value)
    (context : Option ContextId) (u : ViewId) :
    (w.rebound v source context).IsUnbound u ↔ if v = u then source = none else w.IsUnbound u := by
  rw [IsUnbound, rebound, Store.get_modify]
  split <;> rfl

theorem tether_alter (w : World) (b : BehaviorId) (f : Behavior → Behavior) (b' : BehaviorId) :
    (w.alter b f).tether b' = if b = b' then (f (w.behavior b)).tether else w.tether b' := by
  have hg : (w.alter b f).behaviors.get b' = if b = b' then
      { w.behaviors.get b with behavior := f (w.behavior b) } else w.behaviors.get b' :=
    w.behaviors.get_modify b b' _
  unfold World.tether World.behavior
  rw [hg]
  split <;> rfl

theorem isPinned_iff : w.isPinned b ↔ ∃ h ∈ w.held, w.pins b h := List.any_eq_true

/-- What has been pinned stays so as long as views keep their behaviors. -/
theorem pins_mono (h : ∀ {v : ViewId} {b : BehaviorId}, b ∈ (w.views.get v).behaviors →
    b ∈ (w'.views.get v).behaviors) {x : Held} (hp : w.pins b x) : w'.pins b x := by
  cases x with
  | binding v =>
    simp only [pins, List.contains_iff_mem] at hp ⊢
    exact h hp
  | subscriber s => cases s <;> exact hp
  | running t => cases t <;> exact hp
  | task | changing | view | event | node => exact hp

theorem isPinned_of_subset (hh : ∀ x ∈ w.held, x ∈ w'.held)
    (hb : ∀ {v : ViewId} {b : BehaviorId}, b ∈ (w.views.get v).behaviors →
      b ∈ (w'.views.get v).behaviors) (hp : w.isPinned b) : w'.isPinned b := by
  obtain ⟨x, hx, hp⟩ := isPinned_iff.mp hp
  exact isPinned_iff.mpr ⟨x, hh x hx, pins_mono hb hp⟩

/-- Nobody lists a view that is not listed. -/
theorem not_mem_nested (h : w.isListed v = false) (b : BehaviorId) : v ∉ (w.tether b).nested := by
  intro hv
  by_cases hb : b.index < w.behaviors.size
  · have hn := List.any_eq_false.mp h b (Store.mem_refs.mpr hb)
    exact hn (List.contains_iff_mem.mpr hv)
  · have hd : w.tether b = ⟨false, none, []⟩ := by
      unfold World.tether World.behavior
      rw [Store.get_of_size_le _ (Nat.not_lt.mp hb)]
      rfl
    rw [hd] at hv
    exact absurd hv List.not_mem_nil

namespace CoherentBut

theorem mono {X' Y' : ViewId → Prop} (h : CoherentBut X Y w) (hx : ∀ v, X v → X' v)
    (hy : ∀ v, Y v → Y' v) : CoherentBut X' Y' w where
  unique := h.unique
  made := h.made
  unbound hv := h.unbound fun hy' => hv (hy _ hy')
  idle hv := h.idle fun hx' => hv (hx _ hx')

/-- Views that are unbound need no exception from what is said of idle views. -/
theorem of_unbound {X' : ViewId → Prop} (h : CoherentBut X' Y w)
    (hx : ∀ v, X' v → X v ∨ w.IsUnbound v) : CoherentBut X Y w where
  unique := h.unique
  made := h.made
  unbound := h.unbound
  idle {b v} hv hi := by
    by_cases hv' : X' v
    · exact (hx v hv').resolve_left hv
    · exact h.idle hv' hi

theorem alike (h : CoherentBut X Y w) (ha : w.Alike w') : CoherentBut X Y w' where
  unique := by rw [ha.views]; exact h.unique
  made hb := Nat.lt_of_lt_of_le (h.made (ha.views ▸ hb)) ha.size
  unbound {v b} hv hu hb := by
    rw [ha.tether]
    rw [IsUnbound, ha.views] at hu
    exact h.unbound hv hu (ha.views ▸ hb)
  idle {b v} hv hi := by
    rw [ha.tether] at hi
    rw [IsUnbound, ha.views]
    exact h.idle hv hi

/-- One behavior changes: it is bound afterwards only if its views are, and lists idle views only if
these are not. -/
theorem alter {X' : ViewId → Prop} (h : CoherentBut X Y w) {f : Behavior → Behavior}
    (hx : ∀ v, X v → X' v)
    (hb : ∀ v, ¬ Y v → w.IsUnbound v → b ∈ (w.views.get v).behaviors →
      (f (w.behavior b)).tether.isBound = false)
    (hi : ∀ v, ¬ X' v → (f (w.behavior b)).tether.Idle v → w.IsUnbound v) :
    CoherentBut X' Y (w.alter b f) where
  unique := h.unique
  made hb := Nat.lt_of_lt_of_le (h.made hb) (Store.size_le_modify _ _ _)
  unbound {v b'} hy hu hv := by
    rw [tether_alter]
    split
    · next he =>
      subst he
      exact hb v hy hu hv
    · exact h.unbound hy hu hv
  idle {b' v} hv hid := by
    rw [tether_alter] at hid
    split at hid
    · exact hi v hv hid
    · exact h.idle (fun hx' => hv (hx v hx')) hid

end CoherentBut

namespace Alike

theorem refl (w : World) : w.Alike w := ⟨Nat.le_refl _, fun _ => rfl, rfl, rfl⟩

theorem trans {a b c : World} (h : a.Alike b) (h' : b.Alike c) : a.Alike c :=
  ⟨Nat.le_trans h.size h'.size, fun x => (h'.tether x).trans (h.tether x),
    h'.views.trans h.views, h'.held.trans h.held⟩

theorem of_eq (hb : w'.behaviors = w.behaviors) (hv : w'.views = w.views)
    (hh : w'.held = w.held) : w.Alike w' :=
  ⟨Nat.le_of_eq (congrArg Store.size hb.symm),
    fun b => congrArg (fun s : Store .behavior BehaviorCell => (s.get b).behavior.tether) hb, hv, hh⟩

theorem bond (h : w.Alike w') : BondBut except w w' where
  size := h.size
  held := h.held
  behaviors hb := by rwa [h.views]
  bound _ _ hb := by rwa [h.tether]
  source _ _ hs := by rwa [IsUnbound, h.views]

/-- One behavior changes in something else. -/
theorem of_alter {f : Behavior → Behavior} (hf : ∀ s, (f s).tether = s.tether) :
    w.Alike (w.alter b f) where
  size := Store.size_le_modify _ _ _
  tether b' := by
    rw [tether_alter]
    split
    · next h => exact h ▸ hf _
    · rfl
  views := rfl
  held := rfl

theorem of_sweep (w : World) : w.Alike w.sweep where
  size := Nat.le_of_eq Array.size_mapIdx.symm
  tether b := congrArg (fun c => c.behavior.tether) <|
    Store.get_mapIdx w.behaviors (fun i c =>
      { c with isOwned := c.isOwned && w.reachable.contains (.behavior ⟨i⟩) }) (fun _ => rfl) b
  views := rfl
  held := rfl

theorem of_follow (w : World) (next : FollowUp) : w.Alike (w.follow next) := by
  obtain h | ⟨entries, h⟩ | ⟨pool, h⟩ := w.follow_cases next <;> rw [h] <;>
    exact .of_eq rfl rfl rfl

theorem of_queued {Mild : Subject → Prop} {next : FollowUp} (h : Queued Mild w next w') :
    w.Alike w' := by
  cases h <;> exact .of_eq rfl rfl rfl

theorem of_adjustment (h : Adjustment w w') : w.Alike w' := by
  cases h with
  | @await _ queue next _ =>
    have hq : w.Alike { w with queue } := .of_eq rfl rfl rfl
    exact hq.trans (.of_follow _ next)
  | install | mode | pool => exact .of_eq rfl rfl rfl

end Alike

/-- Nothing else matters but behaviors and views. -/
theorem CoherentBut.of_eq (h : CoherentBut X Y w) (hb : w'.behaviors = w.behaviors)
    (hv : w'.views = w.views) : CoherentBut X Y w' := by
  have h' : CoherentBut X Y { w' with held := w.held } := h.alike (.of_eq hb hv rfl)
  exact ⟨h'.unique, h'.made, h'.unbound, h'.idle⟩

/-- A view that is unbound is an exception until its behaviors are. -/
theorem CoherentBut.unbind (h : CoherentBut X Y w) (v : ViewId) :
    CoherentBut X (fun u => Y u ∨ u = v) (w.rebound v none none) := by
  have hl := behaviors_rebound w v none none
  have hs := isUnbound_rebound w v none none
  refine ⟨fun {x y b} hx hy => h.unique (hl x ▸ hx) (hl y ▸ hy), fun {x b} hx => h.made (hl x ▸ hx),
    fun {x b} hy hu hb => ?_, fun {b x} hx hi => (hs x).mpr ?_⟩
  · have hu := (hs x).mp hu
    rw [if_neg fun he => hy (.inr he.symm)] at hu
    exact h.unbound (fun hy' => hy (.inl hy')) hu (hl x ▸ hb)
  · split
    · rfl
    · exact h.idle hx hi

/-- A view is bound that nobody lists. -/
theorem CoherentBut.bind (h : CoherentBut X Y w) {v : ViewId} (hn : ∀ b, v ∉ (w.tether b).nested)
    (source : Value) (context : Option ContextId) :
    CoherentBut X Y (w.rebound v (some source) context) := by
  have hl := behaviors_rebound w v (some source) context
  have hs := isUnbound_rebound w v (some source) context
  refine ⟨fun {x y b} hx hy => h.unique (hl x ▸ hx) (hl y ▸ hy), fun {x b} hx => h.made (hl x ▸ hx),
    fun {x b} hy hu hb => ?_, fun {b x} hx hi => (hs x).mpr ?_⟩
  · have hu := (hs x).mp hu
    split at hu
    · exact absurd hu nofun
    · exact h.unbound hy hu (hl x ▸ hb)
  · have hne : v ≠ x := fun he => hn b (he ▸ hi.mem_nested)
    rw [if_neg hne]
    exact h.idle hx hi

namespace BondBut

theorem refl (w : World) : BondBut except w w := (Alike.refl w).bond

theorem pinned (h : BondBut except w w') (hp : w.isPinned b) : w'.isPinned b :=
  isPinned_of_subset (fun _ hx => h.held ▸ hx) h.behaviors hp

theorem trans {a b c : World} (h : BondBut except a b) (h' : BondBut except b c) :
    BondBut except a c where
  size := Nat.le_trans h.size h'.size
  held := h'.held.trans h.held
  behaviors hb := h'.behaviors (h.behaviors hb)
  bound he hp hb := h'.bound he (h.pinned hp) (h.bound he hp hb)
  source hb hp hs := h'.source (h.behaviors hb) (h.pinned hp) (h.source hb hp hs)

theorem mono {except' : BehaviorId → Prop} (h : BondBut except w w')
    (he : ∀ b, except b → except' b) : BondBut except' w w' :=
  { h with bound := fun hb => h.bound fun hx => hb (he _ hx) }

/-- What was done with more held on to. -/
theorem leave {things : List Held} (h : BondBut except { w with held := things ++ w.held } w') :
    BondBut except w { w' with held := w.held } := by
  have hp : ∀ {b}, w.isPinned b → ({ w with held := things ++ w.held } : World).isPinned b :=
    isPinned_of_subset (fun _ => List.mem_append_right _) id
  exact ⟨h.size, rfl, h.behaviors, fun he hb => h.bound he (hp hb),
    fun hb hb' => h.source hb (hp hb')⟩

/-- One behavior changes, and stays bound unless it is an exception. -/
theorem of_alter {f : Behavior → Behavior}
    (hf : except b ∨ ((w.tether b).isBound → (f (w.behavior b)).tether.isBound)) :
    BondBut except w (w.alter b f) where
  size := Store.size_le_modify _ _ _
  held := rfl
  behaviors := id
  bound {b'} he _ hb := by
    rw [tether_alter]
    split
    · next h =>
      subst h
      exact hf.resolve_left he hb
    · exact hb
  source _ _ := id

end BondBut

/-- A view with a behavior has been made. -/
theorem index_lt_of_mem_behaviors (hb : b ∈ (w.views.get v).behaviors) :
    v.index < w.views.size := by
  refine w.views.index_lt_of_get_ne fun hd => ?_
  rw [hd] at hb
  exact absurd hb List.not_mem_nil

/-- A behavior that is bound has been made. -/
theorem index_lt_of_isBound (hb : (w.tether b).isBound) : b.index < w.behaviors.size := by
  refine w.behaviors.index_lt_of_get_ne fun hd => ?_
  rw [World.tether, World.behavior, hd] at hb
  exact absurd hb Bool.false_ne_true

namespace Created

/-- A behavior is as it was, or is new and not bound. -/
theorem tether_or_new (hc : Created w w') (b : BehaviorId) :
    b.index < w.behaviors.size ∧ w'.tether b = w.tether b ∨
      w.behaviors.size ≤ b.index ∧ w'.tether b = ⟨false, none, []⟩ := by
  rcases Nat.lt_or_ge b.index w.behaviors.size with hb | hb
  · have htether := congrArg (fun c : BehaviorCell => c.behavior.tether) (hc.behaviors.get b hb)
    exact .inl ⟨hb, htether⟩
  · refine .inr ⟨hb, ?_⟩
    rw [World.tether, ← (hc.newBehavior b hb).bare]
    cases w'.behavior b <;> rfl

/-- A behavior of a view was one of it before, or it and the view are new. -/
theorem mem_behaviors_or_new (hc : Created w w') (hb : b ∈ (w'.views.get v).behaviors) :
    b ∈ (w.views.get v).behaviors ∧ w'.views.get v = w.views.get v ∨
      v.index = w.views.size ∧ w.behaviors.size ≤ b.index ∧ b.index < w'.behaviors.size := by
  rcases Nat.lt_or_ge v.index w.views.size with hv | hv
  · have hview := hc.views.get v hv
    exact .inl ⟨hview ▸ hb, hview⟩
  · have hlt := Nat.lt_of_lt_of_le (index_lt_of_mem_behaviors hb) hc.size_views
    exact .inr ⟨Nat.le_antisymm (Nat.le_of_lt_succ hlt) hv, (hc.newView v hv).behaviors b hb⟩

/-- What was not bound is not. -/
theorem isUnbound (hc : Created w w') (hv : w.IsUnbound v) : w'.IsUnbound v := by
  rcases Nat.lt_or_ge v.index w.views.size with hlt | hlt
  · rwa [IsUnbound, hc.views.get v hlt]
  · exact (hc.newView v hlt).source

end Created

/-- A view that has just been created, with its behaviors, is coherent. -/
theorem CoherentBut.created (h : CoherentBut X Y w) (hc : Created w w') : CoherentBut X Y w' where
  unique {u v b} hu hv := by
    -- A new view has new behaviors only, so both views are old or both are the new one.
    obtain ⟨hu, -⟩ | ⟨hu, hb, -⟩ := hc.mem_behaviors_or_new hu
    · obtain ⟨hv, -⟩ | ⟨-, hb, -⟩ := hc.mem_behaviors_or_new hv
      · exact h.unique hu hv
      · exact absurd (h.made hu) (Nat.not_lt.mpr hb)
    · obtain ⟨hv, -⟩ | ⟨hv, -, -⟩ := hc.mem_behaviors_or_new hv
      · exact absurd (h.made hv) (Nat.not_lt.mpr hb)
      · cases u
        cases v
        exact congrArg Ref.mk (hu.trans hv.symm)
  made hb := by
    obtain ⟨hb, -⟩ | ⟨-, -, hb⟩ := hc.mem_behaviors_or_new hb
    · exact Nat.lt_of_lt_of_le (h.made hb) hc.behaviors.size
    · exact hb
  unbound {v b} hy hs hb := by
    obtain ⟨hlt, hold⟩ | ⟨-, hnew⟩ := hc.tether_or_new b
    · obtain ⟨hb, hview⟩ | ⟨-, hge, -⟩ := hc.mem_behaviors_or_new hb
      · rw [IsUnbound, hview] at hs
        rw [hold]
        exact h.unbound hy hs hb
      · exact absurd hlt (Nat.not_lt.mpr hge)
    · rw [hnew]
  idle {b v} hx hi := by
    obtain ⟨-, hold⟩ | ⟨-, hnew⟩ := hc.tether_or_new b
    · exact hc.isUnbound (h.idle hx (hold ▸ hi))
    · rw [hnew] at hi
      exact absurd hi.mem_nested List.not_mem_nil

theorem BondBut.of_created (hc : Created w w') : BondBut except w w' := by
  have hview : ∀ {v : ViewId} {b : BehaviorId}, b ∈ (w.views.get v).behaviors →
      w'.views.get v = w.views.get v :=
    fun hb => hc.views.get _ (index_lt_of_mem_behaviors hb)
  refine ⟨hc.behaviors.size, by rw [hc.rest], fun hb => hview hb ▸ hb, fun {b} _ _ hb => ?_,
    fun hb _ hs => ?_⟩
  · rwa [World.tether, World.behavior, hc.behaviors.get b (index_lt_of_isBound hb)]
  · rwa [IsUnbound, hview hb]

end World

/-- What the machine does without tethering a behavior or binding a view. -/
def untethered : Subject → Prop
  | .tether _ | .view _ => False
  | _ => True

namespace World

variable {w w' : World}

/-- **A change of anything else** leaves things alike, or creates a view. -/
theorem alike_or_created (h : Change untethered w w') : w.Alike w' ∨ Created w w' := by
  cases h with
  | created h => exact .inr h
  | behavior _ ht _ => exact .inl (.of_alter (ht.resolve_right fun h => h.1))
  | @giveObserver b o _ _ =>
    exact .inl <| .of_alter (f := .onBinding fun s => { s with observer := some o }) fun s => by
      cases s <;> rfl
  | view _ _ h => exact h.elim
  | sweep => exact .inl (.of_sweep w)
  | ask scheduler => exact .inl (.of_follow w (.schedule scheduler))
  | queued h => exact .inl ((Alike.of_queued h).trans (.of_follow _ _))
  | request =>
    have h : w.Alike { w with queue := w.queue.requestIfNeeded.1 } := .of_eq rfl rfl rfl
    exact .inl (h.trans (.of_follow _ _))
  | _ => exact .inl (.of_eq rfl rfl rfl)

theorem coherent_of_change (hi : w.Coherent) (h : Change untethered w w') :
    w.Bond w' ∧ w'.Coherent := by
  obtain h | h := alike_or_created h
  · exact ⟨h.bond, CoherentBut.alike hi h⟩
  · exact ⟨.of_created h, CoherentBut.created hi h⟩

end World

end ReactiveViews
