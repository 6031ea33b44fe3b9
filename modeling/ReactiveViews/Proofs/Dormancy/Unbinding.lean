import ReactiveViews.Proofs.Dormancy.Coherent
/-!
# Unbinding

Unbinding a view makes no calls but to unbind the views that its behaviors list. Whatever the world
was like before, it has then been *unwound*: what was unbound stays so, nothing more is listed, and
if it was coherent but for some views it still is (`unbindView_leads`).

While a behavior is being unbound, the views that it lists are idle already and are still bound.
So a world is unwound but for some views, until they have been seen to.
-/

namespace ReactiveViews

namespace Behavior

/-- What a binding remembers of its composed view says nothing of whether it is bound. -/
theorem tether_recomposed (composed : Option Composed) (s : Behavior) :
    (s.onBinding fun s => { s with composed }).tether = { s.tether with composed } ∨
      (s.onBinding fun s => { s with composed }).tether = s.tether := by
  cases s with
  | binding s => exact .inl rfl
  | handler s | repeated s | probe s => exact .inr rfl

end Behavior

namespace World

/-- **Unwound but for some views.** What has been unbound stays so, behaviors list no further views,
and what was coherent still is; `Z` are views that have become idle and may still be bound. -/
structure UnwoundBut (except : BehaviorId → Prop) (Z : ViewId → Prop) (w w' : World) : Prop extends
    BondBut except w w' where
  lists (v : ViewId) : (w'.views.get v).behaviors = (w.views.get v).behaviors
  loose {b : BehaviorId} : (w.tether b).isBound = false → (w'.tether b).isBound = false
  unbound {v : ViewId} : w.IsUnbound v → w'.IsUnbound v
  nested {b : BehaviorId} {v : ViewId} : v ∈ (w'.tether b).nested → v ∈ (w.tether b).nested
  coherent {X Y : ViewId → Prop} : CoherentBut X Y w → CoherentBut (fun v => X v ∨ Z v) Y w'

/-- **Unwound.** -/
def Unwound (except : BehaviorId → Prop) (w w' : World) : Prop :=
  UnwoundBut except (fun _ => False) w w'

variable {X Y Z Z' : ViewId → Prop} {except : BehaviorId → Prop} {w w' : World} {b : BehaviorId}
  {v : ViewId}

namespace UnwoundBut

theorem of_alike (h : w.Alike w') : UnwoundBut except Z w w' where
  toBondBut := h.bond
  lists v := by rw [h.views]
  loose hb := by rwa [h.tether]
  unbound hv := by rwa [IsUnbound, h.views]
  nested hv := by rwa [h.tether] at hv
  coherent ho := (ho.alike h).mono (fun _ => .inl) fun _ => id

theorem trans {a b c : World} (h : UnwoundBut except Z a b) (h' : UnwoundBut except Z b c) :
    UnwoundBut except Z a c where
  toBondBut := h.toBondBut.trans h'.toBondBut
  lists v := (h'.lists v).trans (h.lists v)
  loose hb := h'.loose (h.loose hb)
  unbound hv := h'.unbound (h.unbound hv)
  nested hv := h.nested (h'.nested hv)
  coherent ho := (h'.coherent (h.coherent ho)).mono (fun _ hv => hv.elim id .inr) fun _ => id

theorem mono {except' : BehaviorId → Prop} (h : UnwoundBut except Z w w')
    (he : ∀ b, except b → except' b) (hz : ∀ v, Z v → Z' v) : UnwoundBut except' Z' w w' :=
  { h with
    toBondBut := h.toBondBut.mono he
    coherent := fun ho => (h.coherent ho).mono (fun v hv => hv.imp_right (hz v)) fun _ => id }

/-- All views have been seen to. -/
theorem settle (h : UnwoundBut except Z w w') (hz : ∀ v, Z v → w'.IsUnbound v) :
    Unwound except w w' :=
  { h with
    coherent := fun ho => (h.coherent ho).of_unbound fun v hv =>
      hv.elim (fun hx => .inl (.inl hx)) fun hv => .inr (hz v hv) }

end UnwoundBut

theorem Unwound.refl (w : World) : Unwound except w w := .of_alike (Alike.refl w)

/-- **Waiting.** A view that a behavior lists, and has not set aside, is to be unbound with it. -/
def Waiting (w : World) (b : BehaviorId) (v : ViewId) : Prop :=
  v ∈ (w.tether b).nested ∧ ¬ (w.tether b).Idle v

/-- What waits for a binding is the view that it shows. -/
theorem Waiting.composed {isBound : Bool} {composed : Option Composed}
    (ht : w.tether b = ⟨isBound, composed, []⟩) (h : w.Waiting b v) :
    ∃ c, composed = some c ∧ c.isComposed ∧ c.view = v := by
  obtain ⟨hv, hi⟩ := h
  rw [ht] at hv hi
  obtain ⟨c, hc, rfl⟩ | hv := Tether.mem_nested.mp hv
  · exact ⟨c, hc, Bool.not_eq_false _ ▸ fun hn => hi (.composed hc (.inl hn)), rfl⟩
  · exact absurd hv List.not_mem_nil

/-- **Released.** A behavior has been unbound; views that it lists may still have to be. -/
structure Released (b : BehaviorId) (Z : ViewId → Prop) (w w' : World) : Prop extends
    UnwoundBut (· = b) Z w w' where
  isBound : (w'.tether b).isBound = false

namespace Released

theorem trans (h : Released b Z w w') {w'' : World} (h' : UnwoundBut (· = b) Z w' w'') :
    Released b Z w w'' :=
  ⟨h.toUnwoundBut.trans h', h'.loose h.isBound⟩

theorem alike (h : Released b Z w w') {w'' : World} (ha : w'.Alike w'') : Released b Z w w'' :=
  h.trans (.of_alike ha)

/-- A behavior that was not bound. -/
theorem of_loose (h : (w.tether b).isBound = false) : Released b (fun _ => False) w w :=
  ⟨Unwound.refl w, h⟩

/-- **Release.** A behavior that is no longer bound. -/
theorem release {f : Behavior → Behavior}
    (hf : (f (w.behavior b)).tether = { w.tether b with isBound := false }) :
    Released b (w.Waiting b) w (w.alter b f) where
  toBondBut := .of_alter (.inl rfl)
  lists _ := rfl
  loose {b'} hb := by
    rw [tether_alter]
    split
    · rw [hf]
    · exact hb
  isBound := by rw [tether_alter, if_pos rfl, hf]
  unbound := id
  nested {b' v} hv := by
    rw [tether_alter] at hv
    split at hv
    · next he =>
      subst he
      rw [hf] at hv
      exact hv
    · exact hv
  coherent {X Y} ho := by
    refine ho.alter (fun _ => .inl) (fun v _ _ _ => by rw [hf]) fun v hv hi => ?_
    rw [hf] at hi
    have hn : v ∈ (w.tether b).nested := hi.mem_nested
    exact ho.idle (fun hx => hv (.inl hx)) (Classical.byContradiction fun h => hv (.inr ⟨hn, h⟩))

/-- It remembers a view that is unbound and that it had listed before. -/
theorem remember {c : Composed} (h : Released b Z w w') (hc : c.view ∈ (w.tether b).nested)
    (hu : w'.IsUnbound c.view) :
    Released b Z w (w'.alter b (.onBinding fun s => { s with composed := some c })) := by
  have hf := Behavior.tether_recomposed (some c) (w'.behavior b)
  have hbound : ((w'.behavior b).onBinding fun s => { s with composed := some c }).tether.isBound =
      (w'.tether b).isBound := by
    rcases hf with hf | hf <;> rw [hf] <;> rfl
  refine { h with
    toBondBut := h.toBondBut.trans (.of_alter (.inl rfl)), isBound := ?_, loose := ?_, nested := ?_
    coherent := ?_ }
  · intro b' hb
    rw [tether_alter]
    split
    · exact hbound.trans h.isBound
    · exact h.loose hb
  · intro b' v hv
    rw [tether_alter] at hv
    split at hv
    · next he =>
      subst he
      rcases hf with hf | hf
      · rw [hf] at hv
        obtain ⟨c', hc', rfl⟩ | hv := Tether.mem_nested.mp hv
        · obtain rfl := Option.some.inj hc'
          exact hc
        · exact h.nested (Tether.mem_nested.mpr (.inr hv))
      · rw [hf] at hv
        exact h.nested hv
    · exact h.nested hv
  · intro X Y ho
    have ho' := h.coherent ho
    refine ho'.alter (fun _ => id) (fun _ _ _ _ => hbound.trans h.isBound) fun v hv hi => ?_
    rcases hf with hf | hf
    · rw [hf] at hi
      cases hi with
      | composed hc' _ =>
        obtain rfl := Option.some.inj hc'
        exact hu
      | listed hl hb => exact ho'.idle hv (.listed hl hb)
    · exact ho'.idle hv (hf ▸ hi)
  · rw [tether_alter, if_pos rfl]
    exact hbound.trans h.isBound

theorem settle (h : Released b Z w w') (hz : ∀ v, Z v → w'.IsUnbound v) :
    Released b (fun _ => False) w w' :=
  ⟨h.toUnwoundBut.settle hz, h.isBound⟩

end Released

/-- **A view has been unwound** when its behaviors have been, while it was held on to. -/
theorem unwound_of_inner {v : ViewId} (hfree : ∀ b ∈ (w.views.get v).behaviors, w.isPinned b = false)
    (hu : Unwound (· ∈ (w.views.get v).behaviors)
      { w.rebound v none none with held := [.binding v] ++ w.held } w')
    (hb : ∀ b ∈ (w.views.get v).behaviors, (w'.tether b).isBound = false) :
    Unwound (fun _ => False) w { w' with held := w.held } := by
  have hbond : BondBut (· ∈ (w.views.get v).behaviors) (w.rebound v none none)
    { w' with held := w.held } := BondBut.leave hu.toBondBut
  have hpinned : ∀ {b}, w.isPinned b → (w.rebound v none none).isPinned b :=
    isPinned_of_subset (fun _ => id) fun hb => by rwa [behaviors_rebound]
  have hnone : ∀ {b}, w.isPinned b → b ∉ (w.views.get v).behaviors := fun hp hb =>
    absurd (hp.symm.trans (hfree _ hb)) nofun
  refine ⟨⟨hbond.size, rfl, fun hb => ?_, fun _ hp hb => ?_, fun hb hp hs => ?_⟩, fun u => ?_, hu.loose,
    fun hs => hu.unbound ?_, hu.nested, fun {X Y} ho => ?_⟩
  · exact hbond.behaviors (by rwa [behaviors_rebound])
  · exact hbond.bound (hnone hp) (hpinned hp) hb
  · refine hbond.source (by rwa [behaviors_rebound]) (hpinned hp) fun hs' => ?_
    rw [isUnbound_rebound] at hs'
    split at hs'
    · next he => exact hnone hp (he ▸ hb)
    · exact hs hs'
  · exact (hu.lists u).trans (behaviors_rebound ..)
  · refine (isUnbound_rebound w v none none _).mpr ?_
    split
    · rfl
    · exact hs
  · -- The view itself was an exception while its behaviors were being unbound, and no longer is.
    have hc := hu.coherent ((ho.unbind v).of_eq rfl rfl)
    refine ⟨hc.unique, hc.made, fun {x b} hy hs hb' => ?_, hc.idle⟩
    by_cases he : x = v
    · subst he
      exact hb b ((hu.lists x).trans (behaviors_rebound ..) ▸ hb')
    · exact hc.unbound (fun h => h.elim hy he) hs hb'

end World

/-- What holds when a call is made of a session in which everybody is careful. -/
def dormancyEntry : Call → World → Prop
  | .unbindView _, _ => True
  | .deliver s _, w => w.Coherent ∧ .subscriber s ∈ w.held
  | .update t, w => w.Coherent ∧ .running t ∈ w.held
  | _, w => w.Coherent

/-- What holds of a call that has ended. -/
def dormancyExit : (c : Call) → World → Except Error c.Result → World → Prop
  | .unbindView v, w, r, w' =>
    @Eq (Except Error Unit) r (.ok ()) ∧ World.Unwound (fun _ => False) w w' ∧ w'.IsUnbound v
  | _, w, _, w' => w.Bond w' ∧ w'.Coherent

/-- **The regime of coherent worlds.** -/
def dormancy : Regime where
  allowed := careful
  Mild := untethered
  Inv := World.Coherent
  Rel := World.Bond
  Entry := dormancyEntry
  Exit := dormancyExit
  refl := .refl
  trans := .trans
  entry {c w} hc hv hw := by
    cases c with
    | bindView | unbindView => exact absurd hv (by simp [Call.view?])
    | deliver | update | settle | drainPool => exact hc.elim
    | eval | bubble | perform => exact hw
  exit {c w w' r} hc hv _ he := by
    cases c with
    | bindView | unbindView => exact absurd hv (by simp [Call.view?])
    | deliver | update | settle | drainPool => exact hc.elim
    | eval | bubble | perform => exact he
  change := World.coherent_of_change
  enter hs hw := by
    cases hs <;> exact World.CoherentBut.of_eq hw rfl rfl
  leave hs hw hr hi := by
    cases hs with
    | hold things | change things =>
      exact ⟨World.BondBut.leave hr, World.CoherentBut.of_eq hi rfl rfl⟩
    | watch | handle =>
      exact ⟨⟨hr.size, hr.held, hr.behaviors, hr.bound, hr.source⟩,
        World.CoherentBut.of_eq hi rfl rfl⟩
  grown hr := hr.size
  light _ _ := .inr fun _ => trivial
  takes _ _ := .inr trivial
  calledBack _ _ := .inr trivial
  watcher _ _ := .inr fun _ => trivial
  behaviors _ _ _ := trivial
  observers _ _ _ := .inr fun _ => trivial
  aspects _ _ _ := trivial

instance : dormancy.Accessible where
  entry {c w} hv hw := by
    cases c with
    | unbindView => trivial
    | bindView => exact hw
    | _ => exact absurd rfl hv
  exit {c w w' r} hv hw he := by
    cases c with
    | unbindView =>
      obtain ⟨-, hu, -⟩ := he
      exact ⟨hu.toBondBut, (hu.coherent hw).mono (by simp) fun _ => id⟩
    | bindView => exact he
    | _ => exact absurd rfl hv
  access hw hc :=
    have ha : World.Alike _ _ := by cases hc <;> exact .of_eq rfl rfl rfl
    ⟨ha.bond, World.CoherentBut.alike hw ha⟩

instance (name : String) : dormancy.Slight (.listener name) := ⟨trivial⟩

instance : dormancy.Uniform where
  tickets := trivial
  behavior _ := trivial
  aspect _ _ := trivial
  setup hw hc :=
    have ha : World.Alike _ _ := by cases hc <;> exact .of_eq rfl rfl rfl
    ⟨ha.bond, World.CoherentBut.alike hw ha⟩
  cues := trivial
  deliver hw hs := ⟨hw, hs⟩
  delivered _ h := h
  write hw hc :=
    have ha : World.Alike _ _ := by cases hc <;> exact .of_eq rfl rfl rfl
    ⟨ha.bond, World.CoherentBut.alike hw ha⟩
  flush {c _} hc hw := by
    cases c with
    | settle | drainPool => exact hw
    | _ => exact hc.elim
  flushed {c _ _ _} hc _ h := by
    cases c with
    | settle | drainPool => exact h
    | _ => exact hc.elim
  pressed hw hc :=
    have ha := World.Alike.of_queued hc
    ⟨ha.bond, World.CoherentBut.alike hw ha⟩
  adjust hw hc :=
    have ha := World.Alike.of_adjustment hc
    ⟨ha.bond, World.CoherentBut.alike hw ha⟩

namespace Machine

variable {α β : Type}

theorem modifyBinding_apply (b : BehaviorId) (f : BindingState → BindingState) (calls : Calls)
    (w : World) : modifyBinding b f calls w = some (.ok ⟨⟩, w.alter b (.onBinding f)) := rfl

theorem modifyHandler_apply (b : BehaviorId) (f : HandlerState → HandlerState) (calls : Calls)
    (w : World) : modifyHandler b f calls w = some (.ok ⟨⟩, w.alter b (.onHandler f)) := rfl

theorem modifyRepeat_apply (b : BehaviorId) (f : RepeatState → RepeatState) (calls : Calls)
    (w : World) : modifyRepeat b f calls w = some (.ok ⟨⟩, w.alter b (.onRepeat f)) := rfl

theorem modifyView_apply (v : ViewId) (source : Option Value) (context : Option ContextId)
    (calls : Calls) (w : World) :
    modifyView v (fun s => { s with source, context }) calls w =
      some (.ok ⟨⟩, w.rebound v source context) := rfl

/-- **Still.** A computation that makes no calls, tethers nothing and does not fail. -/
class Still (m : Machine α) : Prop where
  leads {G : Regime} (S : Setting G) (w : World) :
    S.Leads m w fun r w' => (∃ a, r = .ok a) ∧ w.Alike w'

theorem Still.of_eq {m : Machine α} (h : ∀ w : World, ∃ a w', (∀ calls, m calls w = some (.ok a, w')) ∧
    w.Alike w') : Still m where
  leads S w := by
    obtain ⟨a, w', hm, ha⟩ := h w
    exact .of_eq hm ⟨⟨a, rfl⟩, ha⟩

instance (a : α) : Still (pure a) := .of_eq fun w => ⟨a, w, fun _ => rfl, .refl w⟩

theorem Still.modify {f : World → World} (h : ∀ w : World, w.Alike (f w)) :
    Still (modify f : Machine PUnit) :=
  .of_eq fun w => ⟨⟨⟩, f w, fun _ => rfl, h w⟩

theorem Still.bind {m : Machine α} {f : α → Machine β} [hm : Still m] (hf : ∀ a, Still (f a)) :
    Still (m >>= f) where
  leads S w := by
    refine (hm.leads S w).bind (by simp) fun a w₁ h₁ => ?_
    exact ((hf a).leads S w₁).mono fun _ _ h => ⟨h.1, h₁.2.trans h.2⟩

theorem Still.get {f : World → Machine α} (hf : ∀ w, Still (f w)) :
    Still ((MonadState.get : Machine World) >>= f) where
  leads S w := (hf w).leads S w

theorem Still.read {g : World → β} {f : β → Machine α} (hf : ∀ b, Still (f b)) :
    Still (Machine.read g >>= f) where
  leads S w := (hf (g w)).leads S w

instance (f : β → Machine Unit) [hf : ∀ b, Still (f b)] (l : List β) : Still (each f l) := by
  induction l with
  | nil =>
    unfold each
    infer_instance
  | cons b l ih =>
    unfold each
    exact .bind fun _ => ih

instance (entry : LogEntry) : Still (logEntry entry) :=
  .modify fun _ => .of_eq rfl rfl rfl

instance (m : Mutation) : Still (mutate m) := by
  have hm : Still (modifyDocument (·.mutate m)) := .modify fun _ => .of_eq rfl rfl rfl
  have hr : Still (recordMutation m) := by
    unfold recordMutation
    refine .get fun w => ?_
    split <;> infer_instance
  unfold mutate
  exact .bind fun _ => hm

instance (v : ViewId) : Still (removeView v) := by
  unfold removeView
  refine .get fun w => ?_
  split <;> infer_instance

instance (n : NotifierId) (s : Subscriber) (topic : Option String) :
    Still (unsubscribe n s topic) :=
  .modify fun _ => .of_eq rfl rfl rfl

instance (c : ContextId) (source : Value) : Still (childContext c source) :=
  .of_eq fun _ => ⟨_, _, fun _ => rfl, .of_eq rfl rfl rfl⟩

instance (o : ObserverId) : Still (disposeObserver o) := by
  have hm : ∀ f, Still (modifyObserver o f) := fun f => .modify fun _ => .of_eq rfl rfl rfl
  have hd : Still (disconnect o) := by
    unfold disconnect
    exact .read fun _ => .bind fun _ => inferInstance
  unfold disposeObserver
  exact .bind fun _ => hm _

end Machine

namespace Setting

open Machine World

variable {α β : Type}

theorem Leads.get {G : Regime} {S : Setting G} {f : World → Machine α} {w : World}
    {Q : Except Error α → World → Prop} (h : S.Leads (f w) w Q) :
    S.Leads (MonadState.get >>= f) w Q :=
  h

/-- What is still leaves things alike, and the rest goes on from there. -/
theorem Leads.still {G : Regime} {S : Setting G} {m : Machine α} [hm : Still m]
    {f : α → Machine β} {w : World} {Q : Except Error β → World → Prop}
    (hf : ∀ a w', w.Alike w' → S.Leads (f a) w' Q) : S.Leads (m >>= f) w Q :=
  (hm.leads S w).bind (by simp) fun a w' h => hf a w' h.2

/-- One after another, each unwound and left in a condition that unwinding keeps. -/
theorem unwinding_leads {G : Regime} {S : Setting G} {f : β → Machine Unit}
    {except : BehaviorId → Prop} {P : β → World → Prop} (l : List β)
    (hp : ∀ {a w w'}, Unwound except w w' → P a w → P a w')
    (hf : ∀ a ∈ l, ∀ w, S.Leads (f a) w fun r w' => r = .ok () ∧ Unwound except w w' ∧ P a w')
    (w : World) :
    S.Leads (each f l) w fun r w' => r = .ok () ∧ Unwound except w w' ∧ ∀ a ∈ l, P a w' := by
  induction l generalizing w with
  | nil => exact .of_eq (fun _ => rfl) ⟨rfl, .refl w, by simp⟩
  | cons a l ih =>
    unfold each
    refine (hf a (List.mem_cons_self ..) w).bind (by simp) fun _ w₁ h₁ => ?_
    refine (ih (fun a ha => hf a (List.mem_cons_of_mem _ ha)) w₁).mono fun r w' h' => ?_
    refine ⟨h'.1, (h₁.2.1.trans h'.2.1), List.forall_mem_cons.mpr ⟨hp h'.2.1 h₁.2.2, h'.2.2⟩⟩

variable {S : Setting dormancy} {b : BehaviorId} {w : World}

theorem call_unbindView_leads (v : ViewId) (w : World) :
    @Leads Unit dormancy S (Machine.call (.unbindView v)) w fun r w' =>
      r = .ok () ∧ Unwound (fun _ => False) w w' ∧ w'.IsUnbound v :=
  Leads.call (c := .unbindView v) trivial

theorem unbindBinding_leads {s : BindingState} (hs : w.behavior b = .binding s) :
    S.Leads (unbindBinding b) w fun r w' => r = .ok () ∧ Released b (fun _ => False) w w' := by
  have hst : w.bindingState? b = some s := by rw [bindingState?, hs]
  have htether : w.tether b = ⟨s.bound.isSome, s.composed, []⟩ := by rw [World.tether, hs]; rfl
  unfold unbindBinding
  refine .get ?_
  split
  · next h => exact absurd (hst.symm.trans h) nofun
  next s' h =>
  obtain rfl := Option.some.inj (hst.symm.trans h)
  split
  · next h =>
    refine .of_eq (fun _ => rfl) ⟨rfl, .of_loose ?_⟩
    rw [htether]
    exact Option.isNone_iff_eq_none.mp h ▸ rfl
  -- The steps are taken from the last to the first: each goes on to the next one.
  extract_lets release cancel unlisten
  have hrelease : ∀ u w', Released b (w.Waiting b) w w' → S.Leads (release u) w' fun r w' =>
      r = .ok () ∧ Released b (fun _ => False) w w' := by
    intro u w' hr
    unfold release
    split
    · next c hc =>
      split
      · have hview : c.view ∈ (w.tether b).nested := by
          rw [htether]
          exact Tether.mem_nested.mpr (.inl ⟨c, hc, rfl⟩)
        -- Nothing else waits for the binding, so all is settled once the view is unbound.
        refine (call_unbindView_leads c.view w').bind (by simp) fun _ w₁ h₁ => ?_
        have hr₁ := (hr.trans (h₁.2.1.mono (by simp) (by simp))).settle fun v hv => by
          obtain ⟨c', hc', -, rfl⟩ := hv.composed htether
          obtain rfl := Option.some.inj (hc'.symm.trans hc)
          exact h₁.2.2
        refine .of_eq (fun calls => modifyBinding_apply b _ calls w₁) ⟨rfl, ?_⟩
        exact hr₁.remember hview h₁.2.2
      · next hn =>
        refine .of_eq (fun _ => rfl) ⟨rfl, hr.settle fun v hv => ?_⟩
        obtain ⟨c', hc', hshown, -⟩ := hv.composed htether
        obtain rfl := Option.some.inj (hc'.symm.trans hc)
        exact absurd hshown hn
    · next hc =>
      refine .of_eq (fun _ => rfl) ⟨rfl, hr.settle fun v hv => ?_⟩
      obtain ⟨c', hc', -⟩ := hv.composed htether
      cases hc'.symm.trans hc
  have hcancel : ∀ u w', Released b (w.Waiting b) w w' → S.Leads (cancel u) w' fun r w' =>
      r = .ok () ∧ Released b (fun _ => False) w w' := by
    intro u w' hr
    unfold cancel
    split
    · exact .still fun u w₁ ha => hrelease u w₁ (hr.alike ha)
    · exact hrelease () w' hr
  have hunlisten : ∀ u w', Released b (w.Waiting b) w w' → S.Leads (unlisten u) w' fun r w' =>
      r = .ok () ∧ Released b (fun _ => False) w w' := by
    intro u w' hr
    unfold unlisten
    split
    · exact .still fun u w₁ ha => hcancel u w₁ (hr.alike ha)
    · exact hcancel () w' hr
  refine .step (fun calls => modifyBinding_apply b _ calls w) ?_
  have hr : Released b (w.Waiting b) w (w.alter b (.onBinding fun s =>
      { s with bound := none, listener := none, signal := none })) :=
    .release (by rw [hs, htether]; rfl)
  split
  · exact .still fun u w₁ ha => hunlisten u w₁ (hr.alike ha)
  · exact hunlisten () _ hr

theorem unbindHandler_leads {s : HandlerState} (hs : w.behavior b = .handler s) :
    S.Leads (unbindHandler b) w fun r w' => r = .ok () ∧ Released b (fun _ => False) w w' := by
  have hst : w.handlerState? b = some s := by rw [handlerState?, hs]
  have htether : w.tether b = ⟨s.bound.isSome, none, []⟩ := by rw [World.tether, hs]; rfl
  unfold unbindHandler
  refine .get ?_
  split
  · next h => exact absurd (hst.symm.trans h) nofun
  next s' h =>
  obtain rfl := Option.some.inj (hst.symm.trans h)
  split
  · next h =>
    refine .of_eq (fun _ => rfl) ⟨rfl, .of_loose ?_⟩
    rw [htether]
    exact Option.isNone_iff_eq_none.mp h ▸ rfl
  have hr : Released b (fun _ => False) w
      (w.alter b (.onHandler fun s => { s with bound := none, listener := none })) := by
    refine (Released.release (by rw [hs, htether]; rfl)).settle fun v hv => ?_
    obtain ⟨c, hc, -⟩ := hv.composed htether
    cases hc
  refine .step (fun calls => modifyHandler_apply b _ calls w) ?_
  split
  · next slot _ =>
    have hm := Still.leads (m := mutate (.unlisten s.target slot)) S
    refine (hm _).mono fun r w₁ h₁ => ?_
    obtain ⟨⟨u, rfl⟩, ha⟩ := h₁
    exact ⟨rfl, hr.alike ha⟩
  · exact .of_eq (fun _ => rfl) ⟨rfl, hr⟩

theorem unbindRepeat_leads {s : RepeatState} (hs : w.behavior b = .repeated s) :
    S.Leads (unbindRepeat b) w fun r w' => r = .ok () ∧ Released b (fun _ => False) w w' := by
  have hst : w.repeatState? b = some s := by rw [repeatState?, hs]
  have htether : w.tether b = ⟨s.bound.isSome, none, s.views⟩ := by rw [World.tether, hs]; rfl
  unfold unbindRepeat
  refine .get ?_
  split
  · next h => exact absurd (hst.symm.trans h) nofun
  next s' h =>
  obtain rfl := Option.some.inj (hst.symm.trans h)
  split
  · next h =>
    refine .of_eq (fun _ => rfl) ⟨rfl, .of_loose ?_⟩
    rw [htether]
    exact Option.isNone_iff_eq_none.mp h ▸ rfl
  extract_lets dispose
  have hdispose : ∀ u w', Released b (w.Waiting b) w w' → S.Leads (dispose u) w' fun r w' =>
      r = .ok () ∧ Released b (fun _ => False) w w' := by
    intro u w' hr
    have hviews := unwinding_leads (S := S) (P := fun v w => w.IsUnbound v) s.views
      (fun h => h.unbound) (fun v _ w => call_unbindView_leads v w) w'
    refine hviews.bind (by simp) fun _ w₁ h₁ => ?_
    have hr₁ : Released b (fun _ => False) w w₁ := by
      refine (hr.trans (h₁.2.1.mono (by simp) (by simp))).settle fun v hv => h₁.2.2 v ?_
      have hv := hv.1
      rw [htether] at hv
      exact hv
    refine .still fun _ w₂ ha₂ => ?_
    have hm := Still.leads (m := disposeObserver s.templateObserver) S
    refine (hm _).mono fun r w₃ h₃ => ?_
    obtain ⟨⟨u, rfl⟩, ha₃⟩ := h₃
    exact ⟨rfl, (hr₁.alike ha₂).alike ha₃⟩
  have hr : Released b (w.Waiting b) w (w.alter b (.onRepeat fun s =>
      { s with bound := none, items := none, itemsNotifier := none })) :=
    .release (by rw [hs, htether]; rfl)
  refine .step (fun calls => modifyRepeat_apply b _ calls w) ?_
  split
  · exact .still fun u w₁ ha => hdispose u w₁ (hr.alike ha)
  · exact hdispose () _ hr

/-- **Unbinding a behavior** leaves it unbound, and unwinds what it lists. -/
theorem unbindBehavior_leads (b : BehaviorId) (w : World) :
    S.Leads (unbindBehavior b) w fun r w' => r = .ok () ∧ Released b (fun _ => False) w w' := by
  unfold unbindBehavior
  refine .get ?_
  split
  · next s hs => exact unbindBinding_leads hs
  · next s hs => exact unbindHandler_leads hs
  · next s hs => exact unbindRepeat_leads hs
  · next s hs =>
    have hm := Still.leads (m := logEntry (.probeUnbound s.name)) S
    refine (hm w).mono fun r w' h => ?_
    obtain ⟨⟨u, rfl⟩, ha⟩ := h
    exact ⟨rfl, .of_alike ha, by rw [ha.tether, World.tether, hs]; rfl⟩

/-- The behaviors of a view are unbound in order. -/
theorem unbindBehaviors_leads (bs : List BehaviorId) (w : World) :
    S.Leads (each unbindBehavior bs) w fun r w' =>
      r = .ok () ∧ Unwound (· ∈ bs) w w' ∧ ∀ b ∈ bs, (w'.tether b).isBound = false := by
  refine unwinding_leads (P := fun b w => (w.tether b).isBound = false) bs (fun h => h.loose)
    (fun b hb w => ?_) w
  refine (unbindBehavior_leads b w).mono fun r w' h => ⟨h.1, ?_, h.2.isBound⟩
  exact h.2.toUnwoundBut.mono (fun _ he => he ▸ hb) fun _ => id

/-- **Unbinding a view** leaves it unbound, and unwinds it and all that it shows. -/
theorem unbindView_leads {v : ViewId} (ha : careful (.unbindView v) w) :
    S.Leads (unbindView v) w fun r w' =>
      r = .ok () ∧ Unwound (fun _ => False) w w' ∧ w'.IsUnbound v := by
  unfold unbindView
  refine .read ?_
  split
  · next h =>
    exact .of_eq (fun _ => rfl) ⟨rfl, .refl w, Option.isNone_iff_eq_none.mp h⟩
  refine .step (fun calls => modifyView_apply v none none calls w) ?_
  refine (Leads.within (unbindBehaviors_leads _ _)).mono ?_
  rintro r _ ⟨w₁, rfl, hr, hu, hb⟩
  have hfree : ∀ b ∈ (w.views.get v).behaviors, w.isPinned b = false := by
    have ha : (w.views.get v).behaviors.all (!w.isPinned ·) = true := ha
    simpa using ha
  exact ⟨hr, unwound_of_inner hfree hu hb, hu.unbound ((isUnbound_rebound ..).mpr (by simp))⟩

end Setting

end ReactiveViews
