import ReactiveViews.Proofs.Currency.Current
/-!
# Two-way bindings

A two-way binding of a property follows the property as any synchronous binding does. When the event comes
that it listens to, it reads its node, converts what it has read, and writes the property. If that says
something new, the write comes back to the node, and the two agree. But a write of the value that the
property already has does nothing at all, and nobody is told of it: then the node keeps what was put into it,
although the conversion has made something else of that (`two_way_bindings_agree`).

Somebody else may write to the node at any time, and so a two-way attachment is not always fresh. It always
has a record of its property, so that it is tended while the property is changing; and between writes it
is tended if it is accepted that the node shows what was put into it (`Attachment.editedAt`).
-/

namespace ReactiveViews

open Machine

/-- **Two-way attachment.** A property of an object is bound to a property of a node, and a listener is
registered for a type of event. -/
structure Attachment.IsTwoWay (a : Attachment) (o : ObjectId) (name prop type : String)
    (convert : Option Expr) : Prop where
  formula : a.formula = .get .source name
  source : a.bound.source = .object o
  aspect : a.aspect = .prop prop
  mode : a.state.binding.mode = .twoWay (.property name) type convert
  listener : ∃ slot, a.state.listener = some slot
  unedited : a.edited = none

/-- An attachment of which it is accepted that one value is shown at another one. -/
def Attachment.editedAt (a : Attachment) (v shown : Value) : Attachment :=
  { a with edited := some (v, shown) }

variable {w w' : World} {a : Attachment} {o : ObjectId} {name prop type : String}
  {convert : Option Expr} {s p : Value}

/-- An attachment that listens. -/
def Attachment.listening (a : Attachment) (slot : Nat) : Attachment :=
  { a with state := { a.state with listener := some slot } }

namespace World

/-- **A course of two-way binding.** A two-way binding is bound; then properties are written, its node is
edited, events are dispatched, and between that happens whatever spares the attachment. -/
inductive Twinned (a : Attachment) : World → Prop
  | bind {w w' : World} {b : BehaviorId} {s : BindingState} {bound : Bound} {v : Value}
    {reads : List PropertyRead} {how : Assign} {type : String} {convert : Option Expr} {depth : Nat}
    {r : Except Error Unit} (hw : w.watcher = none) (hb : w.Bindable b s bound v reads)
    (hm : s.binding.mode = .twoWay how type convert)
    (hl : (w.document.get s.target).listeners.Sound)
    (hr : bindBinding b bound.source bound.context (runUnder (admits []) depth) w = some (r, w'))
    (ha : w'.attachment? b = some a) : Twinned a w'
  | write {w w' : World} {x : ObjectId} {name : String} {v : Value} {depth : Nat}
    {r : Except Error Unit} (h : Twinned a w)
    (hr : setProperty x name v (runUnder (admits [a]) depth) w = some (r, w')) : Twinned a w'
  | edit {w : World} (h : Twinned a w) (n : NodeId) (prop : String) (v : Value) :
    Twinned a { w with document := w.document.setProperty n prop v }
  | dispatch {w w' : World} {n : NodeId} {e : EventId} {depth : Nat} {r : Except Error Bool}
    (h : Twinned a w) (hr : dispatch n e (runUnder (admits [a]) depth) w = some (r, w')) : Twinned a w'
  | aside {w w' : World} (h : Twinned a w) (hs : w.Spares a w') : Twinned a w'

end World

namespace Attachment.IsTwoWay

/-- The property is what the expression comes to, and nothing else is read. -/
theorem compute (ha : a.IsTwoWay o name prop type convert) (w : World) :
    w.compute? a.env a.formula = some (w.peek o name, [(o, name)]) := by
  rw [ha.formula, World.compute?, World.compute?, show a.env.source = .object o from ha.source]
  rfl

theorem displays_iff (ha : a.IsTwoWay o name prop type convert) {v : Value} :
    w.Displays a.target a.aspect v ↔ w.document.property a.target prop = v := by
  rw [ha.aspect]
  exact Iff.rfl

/-- An attachment that is tended while its property is changing has a record of it. -/
theorem recorded (ha : a.IsTwoWay o name prop type convert) (h : w.Tended [(o, name)] a) :
    w.HasRecord a.observer (o, name) := by
  obtain ⟨v, shown, reads, hv, -, -, hr⟩ | ⟨p, hp, hr⟩ := h.settled
  · obtain ⟨-, rfl⟩ := Prod.mk.inj (Option.some.inj ((ha.compute w).symm.trans hv))
    exact hr _ List.mem_cons_self
  · obtain rfl := List.mem_singleton.mp hp
    exact hr

/-- It is tended in any case if it is accepted that the node shows what it does. -/
theorem tended_editedAt (ha : a.IsTwoWay o name prop type convert) (h : w.Tended [(o, name)] a) :
    w.Tended [] (a.editedAt (w.peek o name) (w.document.property a.target prop)) := by
  have ht := h.tied
  refine ⟨h.watcher, ⟨ht.behavior, ht.observer, ht.live, ht.tracking, ht.volatile, ht.listens⟩,
    .inl ⟨_, _, _, ha.compute w, ha.displays_iff.mpr rfl, .inr rfl, fun read hr => ?_⟩⟩
  obtain rfl := List.mem_singleton.mp hr
  exact ha.recorded h

/-- What is tended in that way is fresh, or it is as it was when the node was edited. -/
theorem tended_or_same (ha : a.IsTwoWay o name prop type convert) (h : w.Tended [] (a.editedAt s p)) :
    w.Tended [] a ∨ (w.peek o name = s ∧ w.document.property a.target prop = p) := by
  have ht := h.tied
  obtain ⟨v, shown, reads, hv, hd, haccepts, hr⟩ := h.fresh
  obtain ⟨rfl, rfl⟩ := Prod.mk.inj (Option.some.inj ((ha.compute w).symm.trans hv))
  obtain he | he := haccepts
  · exact .inl ⟨h.watcher, ⟨ht.behavior, ht.observer, ht.live, ht.tracking, ht.volatile, ht.listens⟩,
      .inl ⟨_, shown, _, hv, hd, .inl he, hr⟩⟩
  · obtain ⟨rfl, rfl⟩ := Prod.mk.inj (Option.some.inj he)
    exact .inr ⟨rfl, ha.displays_iff.mp hd⟩

/-- Node and object agree if the attachment is fresh. -/
theorem agrees (ha : a.IsTwoWay o name prop type convert) (h : w.Tended [] a) :
    w.document.property a.target prop = w.peek o name := by
  obtain ⟨v, shown, reads, hv, hd, haccepts, -⟩ := h.fresh
  obtain ⟨rfl, -⟩ := Prod.mk.inj (Option.some.inj ((ha.compute w).symm.trans hv))
  obtain rfl := haccepts.resolve_right (by simp [ha.unedited])
  exact ha.displays_iff.mp hd

end Attachment.IsTwoWay

namespace Machine

variable {calls : Calls} {e : EventId}

/-- **Rejecting.** Where the property of the object is one value and that of the node another one, the
conversion of the latter is the same as the former. -/
def Rejects (calls : Calls) (a : Attachment) (o : ObjectId) (name prop : String)
    (convert : Option Expr) (s p : Value) : Prop :=
  ∃ w v w', w.peek o name = s ∧ w.document.property a.target prop = p ∧
    convertValue convert p calls w = some (.ok v, w') ∧ s.same v = true

variable [Firmly calls] [Attends calls a] [Attends calls (a.editedAt s p)]

/-- **Assigning back** makes node and object agree, unless what the node shows is rejected. -/
theorem assignBack_agrees (ha : a.IsTwoWay o name prop type convert) (hw : w.Tended [(o, name)] a)
    (he : w.Tended [] (a.editedAt s p)) {r : Except Error Unit}
    (h : assignBack a.behavior calls w = some (r, w')) :
    w'.Tended [] a ∨ Rejects calls a o name prop convert s p := by
  obtain hfresh | ⟨hs, hp⟩ := ha.tended_or_same he
  · have ht : Tends calls a (assignBack a.behavior) := inferInstance
    exact .inl (ht.tends hfresh h)
  have hstate : w.bindingState? a.behavior = some a.state := by
    rw [World.bindingState?, World.behavior, hw.tied.behavior]
  have hread : w.readAspect a.state.target a.state.aspect = p := by
    rw [show a.state.aspect = .prop prop from ha.aspect]
    exact hp
  unfold assignBack at h
  rw [bind_apply, get_apply] at h
  dsimp only at h
  rw [hstate] at h
  dsimp only at h
  rw [a.bound_eq, ha.mode] at h
  dsimp only at h
  rw [hread] at h
  have hconvert : Firm calls (convertValue convert p) := inferInstance
  obtain ⟨err, hc, -⟩ | ⟨v, w₁, hc, h⟩ := bind_eq_some h
  · obtain ⟨v, hv⟩ := hconvert.ok hc
    exact absurd hv (by simp)
  obtain ⟨err, hx, -⟩ | ⟨outcome, w₂, hattempt, h⟩ := bind_eq_some h
  · obtain ⟨x, -, hx⟩ := attempt_eq_some.mp hx
    exact absurd hx (by simp)
  obtain ⟨written, hassign, -⟩ := attempt_eq_some.mp hattempt
  have hend : w₂.Tended [] a → w'.Tended [] a := by
    intro hw₂
    cases outcome with
    | ok =>
      obtain ⟨rfl, rfl⟩ := Prod.mk.inj (Option.some.inj h)
      exact hw₂
    | error err =>
      have ht : Tends calls a (logError "two-way assignment failed" err) := inferInstance
      exact ht.tends hw₂ h
  have hset : setProperty o name v calls w₁ = some (written, w₂) := by
    unfold assign at hassign
    rw [ha.source] at hassign
    exact hassign
  have htold : Tends calls a (convertValue convert p) := inferInstance
  have htold' : Tends calls (a.editedAt s p) (convertValue convert p) := inferInstance
  have hw₁ := htold.tends hw hc
  obtain hfresh | ⟨hs₁, -⟩ := ha.tended_or_same (htold'.tends he hc)
  · have ht : Tends calls a (setProperty o name v) := inferInstance
    exact .inl (hend (ht.tends hfresh hset))
  cases hsame : (w₁.peek o name).same v with
  | true => exact .inr ⟨w, v, w₁, hs, hp, hc, hs₁ ▸ hsame⟩
  | false =>
    have hx := (hw₁.tied.observable (ha.recorded hw₁)).2
    exact .inl (hend (setProperty_settles hx hsame hw₁ hset))

/-- So do the handlers for an event, if assigning back is one of them. -/
theorem handlers_agree (ha : a.IsTwoWay o name prop type convert) {handlers : List Handler}
    (hm : .assign a.behavior ∈ handlers) (hw : w.Tended [(o, name)] a)
    (he : w.Tended [] (a.editedAt s p)) {r : Except Error Unit}
    (h : each (callHandler e) handlers calls w = some (r, w')) :
    w'.Tended [] a ∨ Rejects calls a o name prop convert s p := by
  induction handlers generalizing w with
  | nil => exact absurd hm List.not_mem_nil
  | cons handler rest ih =>
    unfold each at h
    have hfirm : Firm calls (callHandler e handler) := inferInstance
    have ht : Tends calls a (callHandler e handler) := inferInstance
    have ht' : Tends calls (a.editedAt s p) (callHandler e handler) := inferInstance
    have hrest : Tends calls a (each (callHandler e) rest) := inferInstance
    obtain ⟨err, hfirst, -⟩ | ⟨x, w₁, hfirst, h⟩ := bind_eq_some h
    · obtain ⟨x, hx⟩ := hfirm.ok hfirst
      exact absurd hx (by simp)
    obtain rfl | hm := List.mem_cons.mp hm
    · rw [callHandler, bind_apply, get_apply] at hfirst
      dsimp only at hfirst
      rw [if_pos (by rw [World.isOwned, hw.tied.behavior])] at hfirst
      obtain ⟨w₂, hassign, rfl⟩ := within_eq_some.mp hfirst
      have hhold := World.Aside.hold w ([.subscriber (.behavior a.behavior)] ++ w.held)
      obtain hfresh | hrejects := assignBack_agrees ha (hw.aside hhold) (he.aside hhold) hassign
      · exact .inl (hrest.tends (hfresh.aside (.hold w₂ w.held)) h)
      · exact .inr hrejects
    · exact ih hm (ht.tends hw hfirst) (ht'.tends he hfirst) h

/-- So does an event at the node of the type that is listened to. -/
theorem bubble_agrees (ha : a.IsTwoWay o name prop type convert) (hw : w.Tended [(o, name)] a)
    (he : w.Tended [] (a.editedAt s p)) (htype : (w.events.get e).type = type)
    {r : Except Error Unit} (h : bubble a.target e calls w = some (r, w')) :
    w'.Tended [] a ∨ Rejects calls a o name prop convert s p := by
  obtain ⟨slot, hslot⟩ := ha.listener
  obtain ⟨how, type', convert', hmode, hlistener⟩ := hw.tied.listens slot hslot
  obtain ⟨-, rfl, -⟩ := BindingMode.twoWay.inj (ha.mode.symm.trans hmode)
  rw [bubble_apply, htype] at h
  replace hw := hw.takeHandlers a.target type
  replace he := he.takeHandlers a.target type
  have hascend : Tends calls a (ascend a.target e) := inferInstance
  have hfirm : ∀ handlers, Firm calls (holding [.event e, .node a.target] (each (callHandler e) handlers)) :=
    fun _ => inferInstance
  obtain ⟨err, hhandlers, -⟩ | ⟨x, w₁, hhandlers, h⟩ := bind_eq_some h
  · obtain ⟨x, hx⟩ := (hfirm _).ok hhandlers
    exact absurd hx (by simp)
  obtain ⟨w₂, hrun, rfl⟩ := within_eq_some.mp hhandlers
  have hm := Document.mem_takeHandlers hlistener
  obtain hfresh | hrejects := handlers_agree ha hm (hw.aside (.hold _ _)) (he.aside (.hold _ _)) hrun
  · exact .inl (hascend.tends (hfresh.aside (.hold w₂ _)) h)
  · exact .inr hrejects

omit [Firmly calls] [Attends calls a] [Attends calls (a.editedAt s p)] in
/-- What is admitted has nothing to do with what has been edited. -/
theorem runUnder_attends_editedAt (a : Attachment) (s p : Value) (depth : Nat) :
    Attends (runUnder (admits [a]) depth) (a.editedAt s p) := by
  have h : admits [a] = admits [a.editedAt s p] := rfl
  rw [h]
  exact runUnder_attends (List.mem_singleton_self _) depth

/-- So does dispatching it. -/
theorem dispatch_agrees (ha : a.IsTwoWay o name prop type convert) (hw : w.Tended [(o, name)] a)
    (htype : (w.events.get e).type = type) {depth : Nat} {r : Except Error Bool}
    (h : dispatch a.target e (runUnder (admits [a]) depth) w = some (r, w')) :
    w'.Tended [] a ∨ ∃ depth', Rejects (runUnder (admits [a]) depth') a o name prop convert
      (w.peek o name) (w.document.property a.target prop) := by
  have he := ha.tended_editedAt hw
  have hset : modifyEvent e (fun s => { s with target := s.target.or (some a.target) })
      (runUnder (admits [a]) depth) w = some (.ok (), { w with
        events := w.events.modify e fun s => { s with target := s.target.or (some a.target) } }) := rfl
  replace htype : ((w.events.modify e fun s => { s with target := s.target.or (some a.target) }).get
      e).type = type := by
    rw [Store.get_modify, if_pos rfl, ← htype]
  unfold dispatch at h
  rw [bind_apply, hset] at h
  dsimp only at h
  generalize w.events.modify e _ = events at h htype
  have haside : w.Aside { w with events } := ⟨rfl, rfl, rfl, rfl, rfl, rfl, rfl, rfl, rfl⟩
  cases depth with
  | zero => exact absurd h (by simp [bind_apply, call, runUnder])
  | succ depth =>
    have := runUnder_attends (List.mem_singleton_self a) depth
    have := runUnder_attends_editedAt a (w.peek o name) (w.document.property a.target prop) depth
    have hend : ∀ {w₁ r₁}, call (.bubble a.target e) (runUnder (admits [a]) (depth + 1))
        { w with events } = some (r₁, w₁) → w₁.Tended [] a ∨ ∃ depth',
          Rejects (runUnder (admits [a]) depth') a o name prop convert (w.peek o name)
            (w.document.property a.target prop) := fun hb =>
      (bubble_agrees ha (hw.aside haside) (he.aside haside) htype (runUnder_succ hb).2).imp_right
        fun hrejects => ⟨depth, hrejects⟩
    obtain ⟨err, hb, -⟩ | ⟨x, w₁, hb, h⟩ := bind_eq_some h
    · exact hend hb
    · obtain ⟨rfl, rfl⟩ := Prod.mk.inj (Option.some.inj h)
      exact hend hb

end Machine

namespace World

/-- Whatever spares the attachment leaves it tended while its property is changing, also an edit of its
node. -/
theorem Spares.twoWay (hs : w.Spares a w') (ha : a.IsTwoWay o name prop type convert)
    (h : w.Tended [(o, name)] a) : w'.Tended [(o, name)] a := by
  refine ⟨hs.watcher.trans h.watcher, h.tied.spared hs, .inr ⟨_, List.mem_cons_self, ?_⟩⟩
  exact (HasRecord.of_records (congrArg ObserverState.records hs.observer)).mpr (ha.recorded h)

theorem spares_edit (w : World) (a : Attachment) (n : NodeId) (prop : String) (v : Value) :
    w.Spares a { w with document := w.document.setProperty n prop v } := by
  have hsame : w.SameValues { w with document := w.document.setProperty n prop v } :=
    .of_eq rfl rfl rfl rfl
  refine ⟨hsame.toStands, rfl, rfl, rfl, id, fun _ hl => ?_⟩
  rwa [Document.listener?, Document.setProperty, Document.listeners_modifyContent]

theorem listen_apply (n : NodeId) (l : Listener) (calls : Calls) (w : World) :
    ∃ log, Machine.listen n l calls w = some (.ok (w.document.addListener n l).1,
      { w with document := (w.document.addListener n l).2, log }) := by
  unfold Machine.listen
  rw [bind_apply, Setting.recordMutation_apply]
  exact ⟨_, rfl⟩

/-- **An attachment begins to listen.** -/
theorem Tended.listens {how : Assign} (h : w.Tended [] a)
    (hm : a.state.binding.mode = .twoWay how type convert)
    (hl : (w.document.get a.target).listeners.Sound) {calls : Calls} {r : Except Error Unit}
    (hr : (do
      let slot ← Machine.listen a.target ⟨type, .assign a.behavior, false⟩
      modifyBinding a.behavior fun s => { s with listener := some slot } : Machine Unit) calls w =
        some (r, w')) :
    ∃ slot, w'.Tended [] (a.listening slot) := by
  obtain ⟨log, hlisten⟩ := listen_apply a.target ⟨type, .assign a.behavior, false⟩ calls w
  have hlistener := Document.listener?_addListener hl ⟨type, .assign a.behavior, false⟩
  have hcontent := fun n => Document.content_addListener w.document a.target n
    ⟨type, .assign a.behavior, false⟩
  rw [bind_apply, hlisten] at hr
  dsimp only at hr
  generalize w.document.addListener a.target ⟨type, .assign a.behavior, false⟩ = added at hr hlistener hcontent
  obtain ⟨slot, document⟩ := added
  have hw' := (Prod.mk.inj (Option.some.inj hr)).2
  have hsame : w.SameValues w' := by
    rw [← hw']
    exact .of_eq rfl rfl rfl rfl
  have hbehavior : w'.behaviors.get a.behavior = ⟨.binding (a.listening slot).state, true⟩ := by
    rw [← hw']
    refine (Store.get_modify _ _ _ _).trans ((if_pos rfl).trans ?_)
    rw [h.tied.behavior]
    rfl
  have hobservers : w'.observers = w.observers := by rw [← hw']
  have hnotifiers : w'.notifiers = w.notifiers := by rw [← hw']
  have hdocument : w'.document = document := by rw [← hw']
  have hrecorded : ∀ read, w'.HasRecord a.observer read ↔ w.HasRecord a.observer read := fun read =>
    HasRecord.of_records (by rw [hobservers])
  obtain ⟨v, shown, reads, hv, hd, haccepts, hreads⟩ := h.fresh
  refine ⟨slot, (by rw [← hw']; exact h.watcher), ⟨hbehavior, ?_, fun record hr => ?_, ?_, h.tied.volatile,
    fun slot' hs => ?_⟩, .inl ⟨v, shown, reads, compute?_agree hv (hsame.agreesOn _), ?_, haccepts,
    fun read hr => (hrecorded read).mpr (hreads read hr)⟩⟩
  · rw [hobservers]
    exact h.tied.observer
  · rw [hobservers] at hr
    exact (h.tied.live record hr).stands hsame.toStands fun hr => by rwa [Registered, hnotifiers]
  · rw [hobservers]
    refine h.tied.tracking.imp_right ?_
    rintro ⟨reads, honly, hreads⟩
    exact ⟨reads, honly, fun read hr => (hrecorded read).mpr (hreads read hr)⟩
  · obtain rfl := Option.some.inj hs
    rw [hdocument]
    exact ⟨how, type, convert, hm, hlistener⟩
  · exact hd.of_sameIn (fun s _ => .of_eq (by rw [hdocument, hcontent]) s) hsame.display

/-- **A two-way attachment is tended all along** while its property is changing. -/
theorem Twinned.tended (h : w.Twinned a) (ha : a.IsTwoWay o name prop type convert) :
    w.Tended [(o, name)] a := by
  induction h with
  | @bind w w' b s bound v reads how type convert depth r hw hb hm hl hr hattachment =>
    rw [bindBinding_sources hb.cell hb.unbound (.inr ⟨_, _, _, hm⟩), hm] at hr
    have hruns := runUnder_runsFormulas (admits []) depth
    obtain ⟨err, hrefresh, -⟩ | ⟨⟨⟩, w₁, hrefresh, hr⟩ := bind_eq_some hr
    · exact absurd (refreshBinding_attaches hruns hb hw hrefresh).1 (by simp)
    · obtain ⟨-, x, hattached, -, hlisteners⟩ := refreshBinding_attaches hruns hb hw hrefresh
      obtain ⟨slot, hlistening⟩ := hattached.listens hm (by rw [hlisteners]; exact hl) hr
      obtain rfl := Option.some.inj ((hlistening.tied.attachment? rfl).symm.trans hattachment)
      exact hlistening.mono (by simp)
  | @write w w' x other v depth r _ hr ih =>
    have := runUnder_attends (List.mem_singleton_self a) depth
    have ht : Tends (runUnder (admits [a]) depth) a (setProperty x other v) := inferInstance
    exact ht.tends ih hr
  | @edit w _ n other v ih => exact (w.spares_edit a n other v).twoWay ha ih
  | @dispatch w w' n e depth r _ hr ih =>
    have := runUnder_attends (List.mem_singleton_self a) depth
    have ht : Tends (runUnder (admits [a]) depth) a (Machine.dispatch n e) := inferInstance
    exact ht.tends ih hr
  | aside _ hs ih => exact hs.twoWay ha ih

end World

/-- **A two-way binding leaves node and object in agreement** when its event has been dispatched, unless it
has rejected what the node shows: then the property of the object is what it was and has been the same as
the conversion of what the node shows, and the node keeps that. -/
theorem two_way_bindings_agree {a : Attachment} {o : ObjectId} {name prop type : String}
    {convert : Option Expr} {w w' : World} {e : EventId} {depth : Nat} {r : Except Error Bool}
    (ha : a.IsTwoWay o name prop type convert) (h : World.Twinned a w)
    (htype : (w.events.get e).type = type)
    (hr : dispatch a.target e (runUnder (admits [a]) depth) w = some (r, w')) :
    w'.document.property a.target prop = w'.peek o name ∨
      (w'.document.property a.target prop = w.document.property a.target prop ∧
        w'.peek o name = w.peek o name ∧
        ∃ depth', Rejects (runUnder (admits [a]) depth') a o name prop convert (w.peek o name)
          (w.document.property a.target prop)) := by
  have hw := h.tended ha
  obtain hfresh | hrejects := dispatch_agrees ha hw htype hr
  · exact .inl (ha.agrees hfresh)
  -- The node may have been left as it is, and may yet agree by then.
  have := runUnder_attends_editedAt a (w.peek o name) (w.document.property a.target prop) depth
  have ht : Tends (runUnder (admits [a]) depth)
      (a.editedAt (w.peek o name) (w.document.property a.target prop)) (dispatch a.target e) :=
    inferInstance
  obtain hfresh | ⟨hs, hp⟩ := ha.tended_or_same (ht.tends (ha.tended_editedAt hw) hr)
  · exact .inl (ha.agrees hfresh)
  · exact .inr ⟨hp, hs, hrejects⟩

/-- The property that a two-way binding assigns to, its event and its conversion. -/
def BindingMode.assignment? : BindingMode → Option (String × String × Option Expr)
  | .twoWay (.property name) type convert => some (name, type, convert)
  | _ => none

theorem BindingMode.assignment?_eq_some {m : BindingMode} {name type : String} {convert : Option Expr}
    (h : m.assignment? = some (name, type, convert)) : m = .twoWay (.property name) type convert := by
  unfold BindingMode.assignment? at h
  split at h
  · cases h
    rfl
  · exact absurd h (by simp)

/-- A view with an input that is bound to a property, to which a mark is added, and an event. -/
def markingSession (start : String) : List Command :=
  [.type (.defineProperties "T" ["x"] none), .object (.create "m" (some "T") [("x", .text start)]),
    .template (.compile "t" ["<input :value=\"", "\">"]
      [.binding ((Binding.twoWayProp "x").converting (.cat [.extra, .literal (.text "!")]))] none),
    .view (.create "v" "t"), .event (.create "e" (.fresh "change" none))]

/-- The view is bound, its input is edited, and the event is dispatched there. -/
def marks (start edit : String) (p : World → World → Attachment → World → Bool) : Bool :=
  (Session.play (fun _ _ => true) (markingSession start) World.empty).any fun w =>
    comesTo (bindBinding ⟨0⟩ (.object ⟨0⟩) ⟨0⟩ (runUnder (admits []) 20) w) fun _ w₁ =>
      (w₁.attachment? ⟨0⟩).any fun a =>
        comesTo (dispatch a.target ⟨0⟩ (runUnder (admits [a]) 20)
          { w₁ with document := w₁.document.setProperty a.target "value" (.text edit) }) fun _ w₂ =>
          p w w₁ a w₂

-- What has been put into the input is converted into what the property is already, and stays there.
example : marks "1!" "1" (fun _ _ a w => (w.peek ⟨0⟩ "x").same (.text "1!") &&
    (w.document.property a.target "value").same (.text "1")) = true := by
  decide +kernel

/-- What has been put into the input is converted into something new, and the input shows that. -/
theorem marked_edit_agrees : ∃ w w' a convert r, World.Twinned a w ∧
    a.IsTwoWay ⟨0⟩ "x" "value" "change" convert ∧
    w.document.property a.target "value" = .text "2" ∧
    dispatch a.target ⟨0⟩ (runUnder (admits [a]) 20) w = some (.ok r, w') ∧
    w'.peek ⟨0⟩ "x" = .text "2!" ∧ w'.document.property a.target "value" = .text "2!" := by
  have hplay : marks "1" "2" (fun w w₁ a w₂ => w.watcher.isNone && w.isBindable ⟨0⟩ ⟨.object ⟨0⟩, ⟨0⟩⟩ &&
      (w.bindingState? ⟨0⟩).any (fun s => s.binding.mode.assignment?.isSome &&
        decide (w.document.get s.target).listeners.Sound) &&
      decide (a.formula.sourceProperty? = some "x") && a.bound.source.same (.object ⟨0⟩) &&
      decide (a.aspect = .prop "value") && a.state.listener.isSome && a.edited.isNone &&
      a.state.binding.mode.assignment?.any (fun m => m.1 == "x" && m.2.1 == "change") &&
      (w₁.events.get ⟨0⟩).type == "change" && (w₁.peek ⟨0⟩ "x").same (.text "1") &&
      (w₂.peek ⟨0⟩ "x").same (.text "2!")) = true := by
    decide +kernel
  obtain ⟨w, -, hplay⟩ := (Option.any_eq_true _ _).mp hplay
  obtain ⟨⟨⟩, w₁, hbind, hplay⟩ := exists_of_comesTo hplay
  obtain ⟨a, ha, hplay⟩ := (Option.any_eq_true _ _).mp hplay
  obtain ⟨r, w₂, hdispatch, hplay⟩ := exists_of_comesTo hplay
  simp only [Bool.and_eq_true, Option.isNone_iff_eq_none, decide_eq_true_eq, beq_iff_eq] at hplay
  obtain ⟨⟨⟨⟨⟨⟨⟨⟨⟨⟨⟨hw, hbindable⟩, hstate⟩, hformula⟩, hsource⟩, haspect⟩, hlistener⟩, hedited⟩, hmode⟩,
    htype⟩, hbefore⟩, hafter⟩ := hplay
  obtain ⟨s, v, reads, hb⟩ := World.exists_bindable hbindable
  obtain ⟨s', hs', hassigns⟩ := (Option.any_eq_true _ _).mp hstate
  obtain rfl : s = s' := by
    rw [World.bindingState?, World.behavior, hb.cell] at hs'
    exact Option.some.inj hs'
  rw [Bool.and_eq_true, decide_eq_true_eq] at hassigns
  obtain ⟨⟨name, type, convert⟩, hassigned⟩ := Option.isSome_iff_exists.mp hassigns.1
  obtain ⟨⟨name', type', convert'⟩, hassigned', hnames⟩ := (Option.any_eq_true _ _).mp hmode
  simp only [Bool.and_eq_true, beq_iff_eq] at hnames
  obtain ⟨rfl, rfl⟩ := hnames
  have htwoWay : a.IsTwoWay ⟨0⟩ "x" "value" "change" convert' :=
    ⟨Expr.sourceProperty?_eq_some hformula, Value.eq_object_of_same hsource, haspect,
      BindingMode.assignment?_eq_some hassigned', Option.isSome_iff_exists.mp hlistener, hedited⟩
  have htwinned := (World.Twinned.bind hw hb (BindingMode.assignment?_eq_some hassigned) hassigns.2 hbind
    ha).edit a.target "value" (.text "2")
  replace hafter := Value.eq_text_of_same hafter
  have hedit : (w₁.document.setProperty a.target "value" (.text "2")).property a.target "value" =
      .text "2" := by
    rw [Document.property, Document.setProperty, Document.content_modifyContent, if_pos rfl,
      Keyed.find?_put, if_pos rfl]
    rfl
  refine ⟨_, w₂, a, convert', r, htwinned, htwoWay, hedit, hdispatch, hafter, ?_⟩
  obtain hagrees | ⟨-, hsame, -⟩ := two_way_bindings_agree htwoWay htwinned htype hdispatch
  · exact hagrees.trans hafter
  · -- The property of the object has changed, so nothing has been rejected.
    have hsame : w₂.peek ⟨0⟩ "x" = w₁.peek ⟨0⟩ "x" := hsame
    rw [hafter, Value.eq_text_of_same hbefore] at hsame
    exact absurd hsame (by simp)

end ReactiveViews
