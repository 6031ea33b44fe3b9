import ReactiveViews.Proofs.Change
import ReactiveViews.Proofs.Firm
/-!
# Keeping an invariant through a run

What is proved about runs has one shape. Something holds of the world wherever the
machine is at work, an *invariant*; the world after a computation stands in some
*relation* to the world before; and the computation would have gone the same way
had its calls been made in a second way that differs only where the invariant
fails. A `Regime` is an invariant and a relation that every `World.Change` to what is
mild and every scope respects, and what is asked and promised of calls. A `Setting` is
a regime with two ways of making calls that keep to it.

`Agrees` says that a computation keeps to a setting. It is a class, so that it is
found for a computation as soon as it is known of its parts.

The second way of calling is how something is said about what happens in the
course of a run. If a run comes out the same although calls at worlds without the
invariant are given up, then the invariant held at every call.
-/

namespace ReactiveViews

/-- **Scope.** The ways in which a computation is run in a changed world. What is held on to here
is no task: tasks are held by a flush. -/
inductive Scope (Mild : Subject → Prop) (w : World) :
    (World → World) → (World → World → World) → Prop
  | hold (things : List Held) (ht : ∀ t, .task t ∉ things ∧ .running t ∉ things)
    (hc : ∀ source name, .changing source name ∉ things)
    (ho : ∀ o, .subscriber (.observer o) ∈ things → w.Light Mild o) :
    Scope Mild w (fun w => { w with held := things ++ w.held })
      (fun before after => { after with held := before.held })
  | change (things : List Held) (hc : ∀ h ∈ things, ∃ source name, h = .changing source name)
    (hm : ∀ b, Mild (.behavior b)) :
    Scope Mild w (fun w => { w with held := things ++ w.held })
      (fun before after => { after with held := before.held })
  | watch (watcher : Option ObserverId) (ho : ∀ o, watcher = some o → w.Light Mild o) :
    Scope Mild w (fun w => { w with watcher })
      (fun before after => { after with watcher := before.watcher })
  | handle (e : EventId) :
    Scope Mild w (fun w => { w with currentEvent := some e })
      (fun before after => { after with currentEvent := before.currentEvent })

/-- **Plain.** A call that may be made wherever the machine is at work. The others are made where
something is in progress: a notification, a flush. -/
def Call.IsPlain : Call → Prop
  | .eval _ _ | .bindView _ _ _ | .unbindView _ | .bubble _ _ | .perform _ => True
  | .deliver _ _ | .update _ | .settle | .drainPool => False

/-- The view that a call binds or unbinds. -/
def Call.view? : Call → Option ViewId
  | .bindView v _ _ | .unbindView v => some v
  | _ => none

/-- A call that flushes the queue. -/
def Call.IsFlush : Call → Prop
  | .settle | .drainPool => True
  | _ => False

/-- **Regime.** An invariant and a relation that nothing the machine does to mild subjects breaks,
as long as only allowed calls are made. -/
structure Regime where
  /-- The calls that may be made, and where. -/
  allowed : Call → World → Bool
  /-- What the regime has nothing special to say of. -/
  Mild : Subject → Prop
  /-- What holds wherever the machine is at work. -/
  Inv : World → Prop
  /-- How the world after a computation stands to the world before. -/
  Rel : World → World → Prop
  /-- What holds when a call is made. -/
  Entry : Call → World → Prop
  /-- What holds of a call that has ended. -/
  Exit (c : Call) : World → Except Error c.Result → World → Prop
  refl (w : World) : Rel w w
  trans {a b c : World} : Rel a b → Rel b c → Rel a c
  entry {c : Call} {w : World} : c.IsPlain → c.view? = none → Inv w → Entry c w
  exit {c : Call} {w w' : World} {r : Except Error c.Result} :
    c.IsPlain → c.view? = none → Inv w → Exit c w r w' → Rel w w' ∧ Inv w'
  change {w w' : World} : Inv w → World.Change Mild w w' → Rel w w' ∧ Inv w'
  enter {enter : World → World} {leave : World → World → World} {w : World} :
    Scope Mild w enter leave → Inv w → Inv (enter w)
  leave {enter : World → World} {leave : World → World → World} {w w' : World} :
    Scope Mild w enter leave → Inv w → Rel (enter w) w' → Inv w' →
      Rel w (leave w w') ∧ Inv (leave w w')
  /- What has been made stays, what is light stays so, cues that are taken are taken for good, and what
  is reached from something mild is mild. -/
  grown {w w' : World} : Rel w w' → w.behaviors.size ≤ w'.behaviors.size
  light {w w' : World} {o : ObserverId} : Rel w w' → w.Light Mild o → w'.Light Mild o
  takes {w w' : World} {b : BehaviorId} {cue : Cue} : Rel w w' → w.Takes Mild b cue → w'.Takes Mild b cue
  calledBack {w : World} {o : ObserverId} {b : BehaviorId} : Inv w →
    (w.observers.get o).reaction.behavior? = some b → w.Takes Mild b .observer
  watcher {w : World} {o : ObserverId} : Inv w → w.watcher = some o → w.Light Mild o
  behaviors {w : World} {v : ViewId} {b : BehaviorId} : Inv w → Mild (.view v) →
    b ∈ (w.views.get v).behaviors → Mild (.behavior b)
  observers {w : World} {b : BehaviorId} {o : ObserverId} : Inv w → Mild (.behavior b) →
    o ∈ (w.behavior b).observers → w.Light Mild o
  aspects {w : World} {b : BehaviorId} {s : BindingState} : Inv w → Mild (.behavior b) →
    w.behavior b = .binding s → Mild (.aspect s.target s.aspect)

namespace Regime

/-- **Slight.** The regime has nothing special to say of a subject. -/
class Slight (G : Regime) (x : Subject) : Prop where
  mild : G.Mild x

/-- **Open regime.** There is nothing special to say but of how behaviors are tethered and views
bound, and setting things up respects the regime. -/
class Open (G : Regime) : Prop where
  behavior (b : BehaviorId) : G.Mild (.behavior b)
  aspect (n : NodeId) (a : Aspect) : G.Mild (.aspect n a)
  setup {w w' : World} : G.Inv w → World.Setup w w' → G.Rel w w' ∧ G.Inv w'

/-- **Loose regime.** There is nothing special to say of that either, but of views that are neither
bound nor unbound. -/
class Loose (G : Regime) : Prop where
  tether (b : BehaviorId) : G.Mild (.tether b)
  lists (b : BehaviorId) : G.Mild (.lists b)
  view {c : Call} {w : World} {v : ViewId} : c.view? = some v → G.allowed c w → G.Mild (.view v)

/-- **Accessible regime.** Whoever gets hold of a view may bind and unbind it, and whoever gets hold of a
context may move it; handles may be given to both. -/
class Accessible (G : Regime) : Prop where
  entry {c : Call} {w : World} : c.view? ≠ none → G.Inv w → G.Entry c w
  exit {c : Call} {w w' : World} {r : Except Error c.Result} :
    c.view? ≠ none → G.Inv w → G.Exit c w r w' → G.Rel w w' ∧ G.Inv w'
  access {w w' : World} : G.Inv w → World.Access w w' → G.Rel w w' ∧ G.Inv w'

/-- **Writable regime.** Every write respects the regime. -/
class Writable (G : Regime) : Prop extends G.Open where
  write {w w' : World} : G.Inv w → World.Write w w' → G.Rel w w' ∧ G.Inv w'

/-- **Plain regime.** Nothing is special but the queue and who is told of what: subscribers that are
held on to may be told of anything where the invariant holds. -/
class Plain (G : Regime) : Prop extends G.Writable where
  cues : G.Mild .cues
  deliver {s : Subscriber} {change : Change} {w : World} : G.Inv w → .subscriber s ∈ w.held →
    G.Entry (.deliver s change) w
  delivered {s : Subscriber} {change : Change} {w w' : World} {r : Except Error Unit} :
    G.Inv w → G.Exit (.deliver s change) w r w' → G.Rel w w' ∧ G.Inv w'

/-- **Free regime.** The queue is not special: it may be flushed where the invariant holds, and
whatever is done to it respects the regime. -/
class Free (G : Regime) : Prop extends G.Open where
  tickets : G.Mild .tickets
  flush {c : Call} {w : World} : c.IsFlush → G.Inv w → G.Entry c w
  flushed {c : Call} {w w' : World} {r : Except Error c.Result} :
    c.IsFlush → G.Inv w → G.Exit c w r w' → G.Rel w w' ∧ G.Inv w'
  pressed {w w' : World} : G.Inv w → World.Queued G.Mild w .runNow w' → G.Rel w w' ∧ G.Inv w'
  adjust {w w' : World} : G.Inv w → World.Adjustment w w' → G.Rel w w' ∧ G.Inv w'

/-- **Uniform regime.** Neither who is told of what nor the queue is special. -/
class Uniform (G : Regime) : Prop extends G.Plain, G.Free

instance (G : Regime) [h : G.Open] (b : BehaviorId) : G.Slight (.behavior b) := ⟨h.behavior b⟩

instance (G : Regime) [h : G.Loose] (b : BehaviorId) : G.Slight (.tether b) := ⟨h.tether b⟩

instance (G : Regime) [h : G.Loose] (b : BehaviorId) : G.Slight (.lists b) := ⟨h.lists b⟩

instance (G : Regime) [h : G.Plain] : G.Slight .cues := ⟨h.cues⟩

instance (G : Regime) [h : G.Open] (n : NodeId) (a : Aspect) : G.Slight (.aspect n a) :=
  ⟨h.aspect n a⟩

instance (G : Regime) [h : G.Free] : G.Slight .tickets := ⟨h.tickets⟩

theorem Open.light (G : Regime) [h : G.Open] (w : World) (o : ObserverId) : w.Light G.Mild o :=
  .inr h.behavior

end Regime

/-- **Setting.** Two ways of making calls under one regime. What the first way comes to, the
second comes to as well. -/
structure Setting (G : Regime) where
  calls : Calls
  calls' : Calls
  firm : Machine.Firmly calls
  call {c : Call} {w w' : World} {r : Except Error c.Result} :
    G.Entry c w → calls c w = some (r, w') →
      G.allowed c w ∧ calls' c w = some (r, w') ∧ G.Exit c w r w'

namespace Setting

variable {α β : Type} {G : Regime} {S : Setting G}

instance : Machine.Firmly S.calls := S.firm

/-- What a computation comes to from one world on, if it comes to anything: the same with both
ways of calling, and something that holds. -/
def Leads (S : Setting G) (m : Machine α) (w : World) (Q : Except Error α → World → Prop) : Prop :=
  ∀ r w', m S.calls w = some (r, w') → m S.calls' w = some (r, w') ∧ Q r w'

/-- A computation keeps to the setting from one world on. -/
def AgreesAt (S : Setting G) (m : Machine α) (w : World) : Prop :=
  S.Leads m w fun _ w' => G.Rel w w' ∧ G.Inv w'

/-- **Agreement.** A computation keeps to the setting from every world with the invariant on. -/
class Agrees (S : Setting G) (m : Machine α) : Prop where
  agreesAt {w : World} : G.Inv w → S.AgreesAt m w

/-! ## From one world on -/

theorem Leads.mono {m : Machine α} {w : World} {Q Q' : Except Error α → World → Prop}
    (h : S.Leads m w Q) (hq : ∀ r w', Q r w' → Q' r w') : S.Leads m w Q' := by
  intro r w' hc
  obtain ⟨h1, h2⟩ := h r w' hc
  exact ⟨h1, hq r w' h2⟩

theorem Leads.and {m : Machine α} {w : World} {Q Q' : Except Error α → World → Prop}
    (h : S.Leads m w Q) (h' : S.Leads m w Q') : S.Leads m w fun r w' => Q r w' ∧ Q' r w' :=
  fun r w' hc => ⟨(h r w' hc).1, (h r w' hc).2, (h' r w' hc).2⟩

/-- One part after another. -/
theorem Leads.bind {m : Machine α} {f : α → Machine β} {w : World}
    {Q : Except Error α → World → Prop} {Q' : Except Error β → World → Prop} (hm : S.Leads m w Q)
    (he : ∀ e w', Q (.error e) w' → Q' (.error e) w')
    (hf : ∀ a w', Q (.ok a) w' → S.Leads (f a) w' Q') : S.Leads (m >>= f) w Q' := by
  intro r w' h
  obtain ⟨e, h1, rfl⟩ | ⟨a, w₁, h1, h2⟩ := Machine.bind_eq_some h
  · obtain ⟨h3, h4⟩ := hm _ _ h1
    exact ⟨by rw [Machine.bind_apply, h3], he e w' h4⟩
  · obtain ⟨h3, h4⟩ := hm _ _ h1
    obtain ⟨h5, h6⟩ := hf a w₁ h4 _ _ h2
    exact ⟨by rw [Machine.bind_apply, h3]; exact h5, h6⟩

/-- A computation that comes to one thing however calls are made. -/
theorem Leads.of_eq {m : Machine α} {w w₁ : World} {r : Except Error α}
    {Q : Except Error α → World → Prop} (hm : ∀ calls, m calls w = some (r, w₁)) (hq : Q r w₁) :
    S.Leads m w Q := by
  intro r' w' h
  rw [hm] at h
  obtain ⟨rfl, rfl⟩ : r = r' ∧ w₁ = w' := by simpa using h
  exact ⟨hm _, hq⟩

/-- Two computations of which one comes to what the other does. -/
theorem Leads.congr {m m' : Machine α} {w w₁ : World} {Q : Except Error α → World → Prop}
    (hm : ∀ calls, m calls w = m' calls w₁) (h : S.Leads m' w₁ Q) : S.Leads m w Q := by
  intro r w' hc
  rw [hm] at hc ⊢
  exact h r w' hc

/-- What is done first comes to one thing, and the rest goes on from there. -/
theorem Leads.step {m : Machine α} {f : α → Machine β} {w w₁ : World} {a : α}
    {Q : Except Error β → World → Prop} (hm : ∀ calls, m calls w = some (.ok a, w₁))
    (h : S.Leads (f a) w₁ Q) : S.Leads (m >>= f) w Q :=
  h.congr fun calls => by rw [Machine.bind_apply, hm]

theorem Leads.read {g : World → β} {f : β → Machine α} {w : World}
    {Q : Except Error α → World → Prop} (h : S.Leads (f (g w)) w Q) :
    S.Leads (Machine.read g >>= f) w Q :=
  h

theorem Leads.attempt {m : Machine α} {w : World} {Q : Except Error α → World → Prop}
    (h : S.Leads m w Q) :
    S.Leads (Machine.attempt m) w fun r w' => ∃ a, r = .ok a ∧ Q a w' := by
  intro r w' hc
  unfold Machine.attempt at hc ⊢
  cases hm : m S.calls w with
  | none =>
    rw [hm] at hc
    exact absurd hc (by simp)
  | some x =>
    obtain ⟨r₁, w₁⟩ := x
    rw [hm] at hc
    obtain ⟨rfl, rfl⟩ : .ok r₁ = r ∧ w₁ = w' := by simpa using hc
    obtain ⟨h1, h2⟩ := h _ _ hm
    rw [h1]
    exact ⟨rfl, r₁, rfl, h2⟩

/-- Whatever comes of the first part, the second goes on with it. -/
theorem Leads.attempt_bind {m : Machine α} {f : Except Error α → Machine β} {w : World}
    {Q : Except Error α → World → Prop} {Q' : Except Error β → World → Prop} (hm : S.Leads m w Q)
    (hf : ∀ a w', Q a w' → S.Leads (f a) w' Q') : S.Leads (Machine.attempt m >>= f) w Q' := by
  refine hm.attempt.bind (by simp) ?_
  rintro a w₁ ⟨a', ha, h⟩
  cases ha
  exact hf a w₁ h

/-- A computation run in a changed world. -/
theorem Leads.within {enter : World → World} {leave : World → World → World} {m : Machine α}
    {w : World} {Q : Except Error α → World → Prop} (h : S.Leads m (enter w) Q) :
    S.Leads (Machine.within enter leave m) w fun r w' => ∃ w₁, w' = leave w w₁ ∧ Q r w₁ := by
  intro r w' hc
  unfold Machine.within at hc ⊢
  cases hm : m S.calls (enter w) with
  | none =>
    rw [hm] at hc
    exact absurd hc (by simp)
  | some x =>
    obtain ⟨r₁, w₁⟩ := x
    rw [hm] at hc
    obtain ⟨rfl, rfl⟩ : r₁ = r ∧ leave w w₁ = w' := by simpa using hc
    obtain ⟨h1, h2⟩ := h _ _ hm
    rw [h1]
    exact ⟨rfl, w₁, rfl, h2⟩

/-- Seen from an earlier world, a computation that keeps to the setting does so as well. -/
theorem AgreesAt.since {m : Machine α} {w w₁ : World} (hr : G.Rel w w₁) (h : S.AgreesAt m w₁) :
    S.Leads m w₁ fun _ w' => G.Rel w w' ∧ G.Inv w' :=
  h.mono fun _ _ h' => ⟨G.trans hr h'.1, h'.2⟩

/-- Nothing happens before the rest is done in a world reached by a change. -/
theorem AgreesAt.of_eq {m m' : Machine α} {w w₁ : World} (hm : ∀ calls, m calls w = m' calls w₁)
    (hr : G.Rel w w₁) (h : S.AgreesAt m' w₁) : S.AgreesAt m w := by
  exact (h.since hr).congr hm

theorem AgreesAt.of_change {m m' : Machine α} {w w₁ : World} (hw : G.Inv w)
    (hc : World.Change G.Mild w w₁) (h : S.Agrees m') (hm : ∀ calls, m calls w = m' calls w₁) :
    S.AgreesAt m w := by
  obtain ⟨hr, hi⟩ := G.change hw hc
  exact .of_eq hm hr (h.agreesAt hi)

theorem AgreesAt.of_write [hG : G.Writable] {m m' : Machine α} {w w₁ : World} (hw : G.Inv w)
    (hc : World.Write w w₁) (h : S.Agrees m') (hm : ∀ calls, m calls w = m' calls w₁) :
    S.AgreesAt m w := by
  obtain ⟨hr, hi⟩ := hG.write hw hc
  exact .of_eq hm hr (h.agreesAt hi)

/-- One part after another, the second from wherever the first has led. -/
theorem AgreesAt.chain {m : Machine α} {f : α → Machine β} {w : World} (hm : S.AgreesAt m w)
    (hf : ∀ a w', G.Rel w w' → G.Inv w' → S.AgreesAt (f a) w') : S.AgreesAt (m >>= f) w := by
  refine Leads.bind hm (fun _ _ h => h) fun a w₁ h => ?_
  exact (hf a w₁ h.1 h.2).since h.1

theorem AgreesAt.bind {m : Machine α} {f : α → Machine β} {w : World} (hm : S.AgreesAt m w)
    (hf : ∀ a w', G.Inv w' → S.AgreesAt (f a) w') : S.AgreesAt (m >>= f) w :=
  hm.chain fun a w' _ => hf a w'

/-- First one change, then the rest. -/
theorem AgreesAt.write {m : Machine PUnit} {f : PUnit → Machine α} {w w₁ : World} (hw : G.Inv w)
    (hc : World.Change G.Mild w w₁) (hm : ∀ calls, m calls w = some (.ok ⟨⟩, w₁))
    (h : S.Agrees (f ⟨⟩)) : S.AgreesAt (m >>= f) w :=
  .of_change hw hc h fun calls => by rw [Machine.bind_apply, hm]

theorem AgreesAt.overwrite [G.Writable] {m : Machine PUnit} {f : PUnit → Machine α} {w w₁ : World}
    (hw : G.Inv w) (hc : World.Write w w₁) (hm : ∀ calls, m calls w = some (.ok ⟨⟩, w₁))
    (h : S.Agrees (f ⟨⟩)) : S.AgreesAt (m >>= f) w :=
  .of_write hw hc h fun calls => by rw [Machine.bind_apply, hm]

theorem AgreesAt.get {f : World → Machine α} {w : World} (h : S.AgreesAt (f w) w) :
    S.AgreesAt (get >>= f) w :=
  h

theorem AgreesAt.read {g : World → β} {f : β → Machine α} {w : World}
    (h : S.AgreesAt (f (g w)) w) : S.AgreesAt (Machine.read g >>= f) w :=
  h

/-- A computation that first looks at the world agrees if it does whatever it sees. -/
theorem Agrees.get {f : World → Machine α} (h : ∀ w, G.Inv w → S.AgreesAt (f w) w) :
    S.Agrees (get >>= f) :=
  ⟨fun {w} hw => h w hw⟩

theorem Agrees.read {g : World → β} {f : β → Machine α}
    (h : ∀ w, G.Inv w → S.AgreesAt (f (g w)) w) : S.Agrees (Machine.read g >>= f) :=
  ⟨fun {w} hw => h w hw⟩

/-! ## Parts and wholes -/

instance (a : α) : S.Agrees (pure a) := by
  refine ⟨fun {w} hw r w' h => ?_⟩
  obtain ⟨rfl, rfl⟩ : .ok a = r ∧ w = w' := by simpa [Machine.pure_apply] using h
  exact ⟨rfl, G.refl w, hw⟩

instance (e : Error) : S.Agrees (throw e : Machine α) := by
  refine ⟨fun {w} hw r w' h => ?_⟩
  obtain ⟨rfl, rfl⟩ : .error e = r ∧ w = w' := by simpa [Machine.throw_apply] using h
  exact ⟨rfl, G.refl w, hw⟩

instance : S.Agrees (get : Machine World) := by
  refine ⟨fun {w} hw r w' h => ?_⟩
  obtain ⟨rfl, rfl⟩ : .ok w = r ∧ w = w' := by simpa [Machine.get_apply] using h
  exact ⟨rfl, G.refl w, hw⟩

theorem Agrees.bind {m : Machine α} {f : α → Machine β} [hm : S.Agrees m]
    (hf : ∀ a, S.Agrees (f a)) : S.Agrees (m >>= f) :=
  ⟨fun hw => (hm.agreesAt hw).bind fun a _ hw' => (hf a).agreesAt hw'⟩

instance (m : Machine α) (f : α → Machine β) [S.Agrees m] [hf : ∀ a, S.Agrees (f a)] :
    S.Agrees (m >>= f) :=
  .bind hf

instance (p : Prop) [Decidable p] (m m' : Machine α) [S.Agrees m] [S.Agrees m'] :
    S.Agrees (if p then m else m') := by
  split
  · infer_instance
  · infer_instance

instance (f : World → α) : S.Agrees (Machine.read f) := by
  unfold Machine.read
  infer_instance

instance (r : Except Error α) : S.Agrees (Machine.ofExcept r) := by
  unfold Machine.ofExcept
  split
  · infer_instance
  · infer_instance

/-- A computation that sets something up. -/
theorem Agrees.setup [hG : G.Open] {f : World → World} (h : ∀ w, World.Setup w (f w)) :
    S.Agrees (modify f : Machine PUnit) := by
  refine ⟨fun {w} hw r w' hm => ?_⟩
  obtain ⟨rfl, rfl⟩ : .ok ⟨⟩ = r ∧ f w = w' := by simpa [Machine.modify_apply] using hm
  exact ⟨rfl, hG.setup hw (h w)⟩

/-- A computation that sets something up and gives something. -/
theorem Agrees.setupGet [hG : G.Open] {f : World → α × World}
    (h : ∀ w, World.Setup w (f w).2) : S.Agrees (modifyGet f : Machine α) := by
  refine ⟨fun {w} hw r w' hm => ?_⟩
  obtain ⟨rfl, rfl⟩ : .ok (f w).1 = r ∧ (f w).2 = w' := by
    simpa [Machine.modifyGet_apply] using hm
  exact ⟨rfl, hG.setup hw (h w)⟩

/-- A computation that is one access. -/
theorem Agrees.access [hG : G.Accessible] {f : World → World} (h : ∀ w, World.Access w (f w)) :
    S.Agrees (modify f : Machine PUnit) := by
  refine ⟨fun {w} hw r w' hm => ?_⟩
  obtain ⟨rfl, rfl⟩ : .ok ⟨⟩ = r ∧ f w = w' := by simpa [Machine.modify_apply] using hm
  exact ⟨rfl, hG.access hw (h w)⟩

/-- A computation that is one write. -/
theorem Agrees.write [hG : G.Writable] {f : World → World} (h : ∀ w, World.Write w (f w)) :
    S.Agrees (modify f : Machine PUnit) := by
  refine ⟨fun {w} hw r w' hm => ?_⟩
  obtain ⟨rfl, rfl⟩ : .ok ⟨⟩ = r ∧ f w = w' := by simpa [Machine.modify_apply] using hm
  exact ⟨rfl, hG.write hw (h w)⟩

/-- A computation that is one adjustment. -/
theorem Agrees.adjust [hG : G.Free] {f : World → World} (h : ∀ w, World.Adjustment w (f w)) :
    S.Agrees (modify f : Machine PUnit) := by
  refine ⟨fun {w} hw r w' hm => ?_⟩
  obtain ⟨rfl, rfl⟩ : .ok ⟨⟩ = r ∧ f w = w' := by simpa [Machine.modify_apply] using hm
  exact ⟨rfl, hG.adjust hw (h w)⟩

/-- A computation that is one change of the world. -/
theorem Agrees.modify {f : World → World} (h : ∀ w, World.Change G.Mild w (f w)) :
    S.Agrees (modify f : Machine PUnit) := by
  refine ⟨fun {w} hw r w' hm => ?_⟩
  obtain ⟨rfl, rfl⟩ : .ok ⟨⟩ = r ∧ f w = w' := by simpa [Machine.modify_apply] using hm
  exact ⟨rfl, G.change hw (h w)⟩

theorem AgreesAt.modify {f : World → World} {w : World} (hw : G.Inv w)
    (h : World.Change G.Mild w (f w)) : S.AgreesAt (modify f : Machine PUnit) w := by
  intro r w' hm
  obtain ⟨rfl, rfl⟩ : .ok ⟨⟩ = r ∧ f w = w' := by simpa [Machine.modify_apply] using hm
  exact ⟨rfl, G.change hw h⟩

/-- A computation that changes the world once and gives something. -/
theorem Agrees.modifyGet {f : World → α × World} (h : ∀ w, World.Change G.Mild w (f w).2) :
    S.Agrees (modifyGet f : Machine α) := by
  refine ⟨fun {w} hw r w' hm => ?_⟩
  obtain ⟨rfl, rfl⟩ : .ok (f w).1 = r ∧ (f w).2 = w' := by
    simpa [Machine.modifyGet_apply] using hm
  exact ⟨rfl, G.change hw (h w)⟩

/-- A call comes to what is promised of it. -/
theorem Leads.call {c : Call} {w : World} (h : G.Entry c w) :
    S.Leads (Machine.call c) w (G.Exit c w) :=
  fun _ _ hc => (S.call h hc).2

theorem Agrees.call {c : Call} (h : c.IsPlain) (hv : c.view? = none) : S.Agrees (Machine.call c) :=
  ⟨fun hw => (Leads.call (G.entry h hv hw)).mono fun _ _ => G.exit h hv hw⟩

theorem Agrees.callView [hG : G.Accessible] {c : Call} (hv : c.view? ≠ none) :
    S.Agrees (Machine.call c) :=
  ⟨fun hw => (Leads.call (hG.entry hv hw)).mono fun _ _ => hG.exit hv hw⟩

theorem Agrees.flush [hG : G.Free] {c : Call} (h : c.IsFlush) : S.Agrees (Machine.call c) :=
  ⟨fun hw => (Leads.call (hG.flush h hw)).mono fun _ _ => hG.flushed h hw⟩

/- One instance for each call: what a call gives has to be seen through. -/

instance (e : Expr) (env : Env) : @Agrees Value G S (Machine.call (.eval e env)) := .call trivial rfl

instance [G.Accessible] (v : ViewId) (source : Value) (context : ContextId) :
    @Agrees Unit G S (Machine.call (.bindView v source context)) :=
  .callView (Option.some_ne_none v)

instance [G.Accessible] (v : ViewId) : @Agrees Unit G S (Machine.call (.unbindView v)) :=
  .callView (Option.some_ne_none v)

instance (n : NodeId) (e : EventId) : @Agrees Unit G S (Machine.call (.bubble n e)) :=
  .call (c := .bubble n e) trivial rfl

instance (c : Command) : @Agrees Answer G S (Machine.call (.perform c)) :=
  .call (c := .perform c) trivial rfl

instance [G.Free] : @Agrees FlushReport G S (Machine.call .settle) := .flush trivial

instance [G.Free] : @Agrees Unit G S (Machine.call .drainPool) := .flush trivial

theorem AgreesAt.attempt {m : Machine α} {w : World} (h : S.AgreesAt m w) :
    S.AgreesAt (Machine.attempt m) w :=
  (Leads.attempt h).mono fun _ _ ⟨_, _, h'⟩ => h'

instance (m : Machine α) [h : S.Agrees m] : S.Agrees (Machine.attempt m) :=
  ⟨fun hw => (h.agreesAt hw).attempt⟩

/-- What holds at the end of a computation run in a changed world holds where it is left. -/
theorem AgreesAt.within {enter : World → World} {leave : World → World → World} {m : Machine α}
    {w : World} (hm : S.AgreesAt m (enter w))
    (hl : ∀ w', G.Rel (enter w) w' → G.Inv w' → G.Rel w (leave w w') ∧ G.Inv (leave w w')) :
    S.AgreesAt (Machine.within enter leave m) w := by
  refine (Leads.within hm).mono ?_
  rintro _ _ ⟨w₁, rfl, hr, hi⟩
  exact hl w₁ hr hi

theorem AgreesAt.scoped {enter : World → World} {leave : World → World → World} {m : Machine α}
    {w : World} (hs : Scope G.Mild w enter leave) (hw : G.Inv w) (h : S.AgreesAt m (enter w)) :
    S.AgreesAt (Machine.within enter leave m) w :=
  .within h fun _ => G.leave hs hw

theorem Agrees.scoped {enter : World → World} {leave : World → World → World} {m : Machine α}
    (hs : ∀ w, Scope G.Mild w enter leave) (h : S.Agrees m) :
    S.Agrees (Machine.within enter leave m) :=
  ⟨fun {w} hw => .scoped (hs w) hw (h.agreesAt (G.enter (hs w) hw))⟩

/-- Things of which none is a task, an observer or something that has changed. -/
class Idle (things : List Held) : Prop where
  task : ∀ t, .task t ∉ things ∧ .running t ∉ things
  changing : ∀ source name, .changing source name ∉ things
  observer : ∀ o, .subscriber (.observer o) ∉ things

instance (b : BehaviorId) : Idle [.subscriber (.behavior b)] := ⟨by simp, by simp, by simp⟩

instance (v : ViewId) : Idle [.binding v] := ⟨by simp, by simp, by simp⟩

instance (e : EventId) (n : NodeId) : Idle [.event e, .node n] := ⟨by simp, by simp, by simp⟩

instance (views : List ViewId) : Idle (views.map .view) := ⟨by simp, by simp, by simp⟩

instance (things : List Held) [h : Idle things] (m : Machine α) [hm : S.Agrees m] :
    S.Agrees (Machine.holding things m) :=
  .scoped (fun _ => .hold things h.task h.changing fun o ho => absurd ho (h.observer o)) hm

/-- A subscriber is told while those are held on to who are still to be told. -/
instance [hG : G.Plain] (s : Subscriber) (rest : List Subscriber) (change : Change) :
    @Agrees Unit G S
      (Machine.holding ((s :: rest).map .subscriber) (Machine.call (.deliver s change))) := by
  have hs : ∀ w, Scope G.Mild w _ _ := fun w =>
    .hold ((s :: rest).map .subscriber) (by simp) (by simp) fun _ _ => .inr hG.behavior
  refine ⟨fun {w} hw => .scoped (hs w) hw ?_⟩
  have hi := G.enter (hs w) hw
  exact (Leads.call (hG.deliver hi (by simp))).mono fun _ _ => hG.delivered hi

theorem agrees_changing [hG : G.Open] {l : List Held}
    (hc : ∀ h ∈ l, ∃ source name, h = .changing source name) {m : Machine α}
    (hm : S.Agrees m) : S.Agrees (Machine.holding l m) :=
  .scoped (fun _ => .change l hc hG.behavior) hm

instance [G.Open] (source : Observable) (name : String) (m : Machine α) [hm : S.Agrees m] :
    S.Agrees (Machine.holding [.changing source name] m) :=
  agrees_changing (by simp) hm

instance (m : Machine α) [h : S.Agrees m] : S.Agrees (Machine.untracked m) :=
  .scoped (fun _ => .watch none nofun) h

instance (e : EventId) (m : Machine α) [h : S.Agrees m] : S.Agrees (Machine.handling e m) :=
  .scoped (fun _ => .handle e) h

theorem Agrees.each {f : β → Machine Unit} {l : List β} (h : ∀ b ∈ l, S.Agrees (f b)) :
    S.Agrees (Machine.each f l) := by
  induction l with
  | nil =>
    unfold Machine.each
    infer_instance
  | cons b l ih =>
    have hb := h b (List.mem_cons_self ..)
    have hl := ih fun b hb => h b (List.mem_cons_of_mem _ hb)
    unfold Machine.each
    infer_instance

instance (f : β → Machine Unit) [h : ∀ b, S.Agrees (f b)] (l : List β) :
    S.Agrees (Machine.each f l) :=
  .each fun b _ => h b

instance (f : β → Machine α) [∀ b, S.Agrees (f b)] (l : List β) :
    S.Agrees (Machine.collect f l) := by
  induction l with
  | nil =>
    unfold Machine.collect
    infer_instance
  | cons b l ih =>
    unfold Machine.collect
    infer_instance

end Setting

end ReactiveViews
