import ReactiveViews.Proofs.Frames.Behaviors
/-!
# Frames of commands

With these every call keeps to a setting, as far as flushing does.
-/

namespace ReactiveViews.Setting

open Machine

variable {α : Type} {G : Regime} {S : Setting G} [G.Open] [S.Steady]

/-! ## Handles -/

/-- A handle to something inert, found where the handle is given. -/
class Inert (h : Handle) : Prop where
  inert : h.IsInert

instance (o : ObjectId) : Inert (.object o) := ⟨trivial⟩

instance (a : ArrayId) : Inert (.array a) := ⟨trivial⟩

instance (t : TemplateId) : Inert (.template t) := ⟨trivial⟩

instance (n : NotifierId) : Inert (.notifier n) := ⟨trivial⟩

instance (s : SubscriberId) : Inert (.subscriber s) := ⟨trivial⟩

instance (o : ObserverId) : Inert (.observer o) := ⟨trivial⟩

instance (t : TaskId) : Inert (.task t) := ⟨trivial⟩

instance (n : NodeId) : Inert (.node n) := ⟨trivial⟩

instance (e : EventId) : Inert (.event e) := ⟨trivial⟩

instance (slot : Nat) : Inert (.listener slot) := ⟨trivial⟩

instance (t : TicketId) : Inert (.ticket t) := ⟨trivial⟩

instance (name : String) (h : Handle) [hh : Inert h] : S.Agrees (giveHandle name h) :=
  .setup fun w => .give w name hh.inert

omit [G.Open] [S.Steady] in
theorem giveHandle_agrees [G.Accessible] (name : String) (h : Handle) :
    S.Agrees (giveHandle name h) :=
  .access fun w => .give w name h

instance (name kind : String) (f : Handle → Option α) : S.Agrees (lookUp name kind f) := by
  unfold lookUp
  refine .get fun w hw => ?_
  split
  · exact Agrees.agreesAt hw
  · exact Agrees.agreesAt hw

omit [G.Open] [S.Steady] in
/-- What is looked up is what a handle stands for. -/
theorem lookUp_leads (name kind : String) (f : Handle → Option α) (w : World) :
    S.Leads (lookUp name kind f) w fun r w' => w' = w ∧
      ∀ x, r = .ok x → ∃ h, w.handles.find? name = some h ∧ f h = some x := by
  unfold lookUp
  refine .read (g := id) ?_
  dsimp only [id]
  split
  · next x hx =>
    refine .of_eq (fun _ => rfl) ⟨rfl, fun y hy => ?_⟩
    obtain rfl : x = y := Except.ok.inj hy
    exact Option.bind_eq_some_iff.mp hx
  · exact .of_eq (fun _ => rfl) ⟨rfl, nofun⟩

instance (name : String) : S.Agrees (objectNamed name) := by
  unfold objectNamed
  infer_instance

instance (name : String) : S.Agrees (arrayNamed name) := by
  unfold arrayNamed
  infer_instance

instance (name : String) : S.Agrees (templateNamed name) := by
  unfold templateNamed
  infer_instance

instance (name : String) : S.Agrees (subscriberNamed name) := by
  unfold subscriberNamed
  infer_instance

instance (name : String) : S.Agrees (observerNamed name) := by
  unfold observerNamed
  infer_instance

instance (name : String) : S.Agrees (contextNamed name) := by
  unfold contextNamed
  infer_instance

instance (name : String) : S.Agrees (taskNamed name) := by
  unfold taskNamed
  infer_instance

instance (name : String) : S.Agrees (nodeNamed name) := by
  unfold nodeNamed
  infer_instance

instance (name : String) : S.Agrees (eventNamed name) := by
  unfold eventNamed
  infer_instance

instance (name : String) : S.Agrees (viewNamed name) := by
  unfold viewNamed
  infer_instance

instance (name : String) : S.Agrees (listenerNamed name) := by
  unfold listenerNamed
  infer_instance

instance (name : String) : S.Agrees (ticketNamed name) := by
  unfold ticketNamed
  infer_instance

instance (name : Option String) : S.Agrees (optionalNode name) := by
  unfold optionalNode
  split
  · infer_instance
  · infer_instance

instance (name : Option String) : S.Agrees (contextOrRoot name) := by
  unfold contextOrRoot
  split
  · infer_instance
  · infer_instance

instance (target : Target) : S.Agrees (targetNotifier target) := by
  unfold targetNotifier
  split
  · infer_instance
  · refine .get fun w hw => ?_
    split
    · exact Agrees.agreesAt hw
    · exact Agrees.agreesAt hw
    · exact Agrees.agreesAt hw
    · exact Agrees.agreesAt hw
    · exact Agrees.agreesAt hw

/-! ## Values, types, objects and arrays -/

instance (v : Value) : S.Agrees (answerValue v) := by
  unfold answerValue
  infer_instance

instance (v : Option Value) : S.Agrees (answerOptional v) := by
  unfold answerOptional
  infer_instance

instance (c : ValueCommand) : S.Agrees (performValue c) := by
  cases c with
  | describe | same | eval | aspect | isVoid | debugBinding | debugValue =>
    unfold performValue
    infer_instance
  | debugHandle name =>
    unfold performValue
    refine .get fun w hw => ?_
    split
    · exact Agrees.agreesAt hw
    · exact Agrees.agreesAt hw

instance (f : Registry → Registry) : S.Agrees (modifyRegistry f) :=
  .setup fun w => .registry w _

instance (c : TypeCommand) : S.Agrees (performType c) := by
  cases c with
  | defineType | defineProperties | accessors | accessor =>
    unfold performType
    infer_instance

instance (c : ObjectCommand) : S.Agrees (performObject c) := by
  cases c with
  | create | get | peek | set | isObservable | typeName =>
    unfold performObject
    infer_instance

instance (key : Expr) (v : Value) : S.Agrees (sortKey key v) := by
  unfold sortKey
  refine .bind fun outcome => ?_
  split
  · infer_instance
  · infer_instance

instance (a : ArrayId) (key : Expr) (order : SortOrder) (descending : Bool) :
    S.Agrees (sortItems a key order descending) := by
  unfold sortItems
  refine .bind fun items => .bind fun keys => .bind fun w => ?_
  dsimp only
  exact reorderItems_agrees a rfl

instance (a : ArrayId) : S.Agrees (reorderItems a List.reverse) := reorderItems_agrees a rfl

instance (mode : ArrayObservation) : S.Agrees (modify fun w : World =>
    { w with arrayObservation := mode } : Machine PUnit) :=
  .setup fun w => .arrayObservation w mode

/-- A command that does not replace all items of an array. -/
def Piecemeal : ArrayCommand → Prop
  | .replace _ _ => False
  | _ => True

theorem agrees_performArray {c : ArrayCommand} (h : Piecemeal c) : S.Agrees (performArray c) := by
  cases c with
  | replace => exact h.elim
  | observation | create | items | get | push | pop | shift | remove | put | unshift | insert
      | splice | clear | reverse | sort | flush =>
    unfold performArray
    infer_instance

omit [G.Open] [S.Steady] in
theorem agrees_replace (hr : ∀ a added, S.Agrees (replaceItems a added)) (handle : String)
    (items : List Literal) : S.Agrees (performArray (.replace handle items)) := by
  unfold performArray
  infer_instance

/-! ## Notifiers, observers, contexts and the queue -/

instance (s : Scripted) : S.Agrees (modifyGet fun w : World =>
    ((w.subscribers.add ⟨s, []⟩).1, { w with subscribers := (w.subscribers.add ⟨s, []⟩).2 }) :
    Machine SubscriberId) :=
  .setupGet fun w => .newSubscriber w s

omit [G.Open] in
instance [G.Writable] (n : NotifierId) (s : SubscriberId) (topic : Option String) :
    S.Agrees (subscribe n (.scripted s) topic) :=
  .write fun w => .subscribe w n s topic

omit [G.Open] in
instance [G.Writable] (s : String) (t : Target) (name : Option String) :
    S.Agrees (performNotifier (.subscribe s t name)) := by
  unfold performNotifier
  infer_instance

/-- A command that does not subscribe anybody. -/
def Quiet : NotifierCommand → Prop
  | .subscribe _ _ _ => False
  | _ => True

theorem agrees_performNotifier {c : NotifierCommand} (h : Quiet c) :
    S.Agrees (performNotifier c) := by
  cases c with
  | subscribe => exact h.elim
  | create | createSubscriber | unsubscribe | count | sendSignal | same | sourcePeek =>
    unfold performNotifier
    infer_instance
  | notify target name kind =>
    unfold performNotifier
    refine .bind fun n => ?_
    extract_lets change
    have hn : S.Agrees (Machine.notify n change) := notify_agrees n (by cases kind <;> rfl)
    infer_instance

instance (c : ObserverCommand) : S.Agrees (performObserver c) := by
  cases c with
  | create | observe | info | setMode | dispose =>
    unfold performObserver
    infer_instance

instance (c : ContextId) (query : PositionQuery) : S.Agrees (holdsAt c query) := by
  unfold holdsAt
  infer_instance

/-- **Naming.** Commands that get hold of views and contexts keep to the setting. -/
class Naming (S : Setting G) : Prop where
  performContext (c : ContextCommand) : S.Agrees (performContext c)
  renderFresh (t : TemplateId) (source : Literal) : S.Agrees (renderFresh t source)
  performView (c : ViewCommand) : S.Agrees (performView c)

theorem performContext_agrees [G.Accessible] (c : ContextCommand) : S.Agrees (performContext c) := by
  have hg : ∀ name h, S.Agrees (giveHandle name h) := giveHandle_agrees
  cases c with
  | create | child | item | move | info =>
    unfold Machine.performContext
    infer_instance

instance (s : Scripted) : S.Agrees (modifyGet fun w : World =>
    ((w.tasks.add s).1, { w with tasks := (w.tasks.add s).2 }) : Machine TaskId) :=
  .setupGet fun w => .newTask w s

instance : S.Agrees (modify fun w : World => { w with pool := none } : Machine PUnit) :=
  .setup .dropPool

omit [G.Open] [S.Steady] in
/-- A ticket is drawn, and then it waits for a flush or is good at once. -/
theorem nextFlush_agreesAt [hm : G.Slight .tickets] {w : World} (hw : G.Inv w)
    (ha : ∀ x ticket queue next, G.Inv x → x.queue = w.queue →
      x.queue.await ticket = some (queue, next) →
      G.Rel x (({ x with queue } : World).follow next) ∧
        G.Inv (({ x with queue } : World).follow next)) : S.AgreesAt nextFlush w := by
  obtain ⟨hr, hi⟩ := G.change hw (.tickets w (w.tickets.add false).2 hm.mild)
  unfold nextFlush
  refine Leads.step (fun _ => rfl) (.step (fun _ => rfl) ?_)
  dsimp only
  split
  · exact AgreesAt.since hr (Agrees.agreesAt hi)
  · next queue next he =>
    have hn := Queue.await_ne_runNow he
    refine AgreesAt.since hr (Leads.step (fun _ => rfl) (.step (followUp_apply · _ hn) ?_))
    exact .of_eq (fun _ => rfl) (ha _ _ queue next hi rfl he)

/-- A command that neither flushes the queue nor says how it is flushed or waits for that. -/
def Calm : QueueCommand → Prop
  | .createTask _ _ | .enqueue _ | .status | .dropPool | .poll _ => True
  | .process | .settle | .processResult | .setMode _ | .configure _ _ | .runPool | .next _ => False

theorem agrees_performQueue {c : QueueCommand} (h : Calm c) : S.Agrees (performQueue c) := by
  cases c with
  | process | settle | processResult | setMode | configure | runPool | next => exact h.elim
  | createTask | enqueue | status | dropPool | poll =>
    unfold performQueue
    infer_instance

/-! ## Nodes, events, templates and views -/

instance (mode : HostMode) : S.Agrees (modify fun w : World =>
    { w with hostMode := mode } : Machine PUnit) :=
  .setup fun w => .hostMode w mode

instance (parent child : NodeId) : S.Agrees (modifyDocument (·.append parent child)) :=
  .modify fun w => .moved w (.insert _ parent child none) fun _ =>
    Document.noneJoin_of_same (w.document.listeners_insertBefore parent child none)

instance (n : NodeId) : S.Agrees (modifyDocument (·.detach n)) :=
  .modify fun w => .moved w (.remove _ n) fun _ =>
    Document.noneJoin_of_same (w.document.listeners_detach n)

instance (parent child : NodeId) : S.Agrees (modifyDocument (·.removeChild parent child)) :=
  .setup fun w => .edit w (.removeChild _ parent child) fun _ =>
    Document.noneJoin_of_same (w.document.listeners_removeChild parent child)

instance (n : NodeId) : S.Agrees (onDocument (·.clone n)) :=
  .setupGet fun w => .edit w (.clone _ n) fun _ =>
    Document.noneJoin_of_same (w.document.listeners_plant _)

instance (n : NodeId) (text : String) : S.Agrees (modifyDocument (·.setText n text)) :=
  .setup fun w => .edit w (.setText _ n text) fun _ =>
    Document.noneJoin_of_same (w.document.listeners_setText n text)

instance (n : NodeId) (data : String) : S.Agrees (modifyDocument (·.setData n data)) :=
  .setup fun w => .edit w (.setData _ n data) fun _ =>
    Document.noneJoin_of_same fun m => w.document.listeners_modifyContent n m _

instance (n : NodeId) (name : String) (value : Option String) :
    S.Agrees (modifyDocument (·.setAttribute n name value)) :=
  .setup fun w => .edit w (.setAttribute _ n name value) fun _ =>
    Document.noneJoin_of_same fun m => w.document.listeners_modifyContent n m _

instance (n : NodeId) (name : String) (value : Value) :
    S.Agrees (modifyDocument (·.setProperty n name value)) :=
  .setup fun w => .edit w (.setProperty _ n name value) fun _ =>
    Document.noneJoin_of_same fun m => w.document.listeners_modifyContent n m _

instance (n : NodeId) (slot : Nat) : S.Agrees (modifyDocument (·.removeListener n slot)) :=
  .modify fun w => .moved w (.removeListener _ n slot) fun _ =>
    w.document.noneJoin_removeListener n slot

instance (c : NodeCommand) : S.Agrees (performNode c) := by
  cases c with
  | setHost | create | append | insertBefore | detach | removeChild | clone | html | text
      | setText | setData | info | getAttribute | setAttribute | removeAttribute | getProperty
      | setProperty | path | pathOf =>
    unfold performNode
    infer_instance
  | pick handle node path =>
    unfold performNode
    refine .bind fun n => .get fun w hw => ?_
    split
    · exact Agrees.agreesAt hw
    · exact Agrees.agreesAt hw

instance (s : EventState) : S.Agrees (modifyGet fun w : World =>
    ((w.events.add s).1, { w with events := (w.events.add s).2 }) : Machine EventId) :=
  .setupGet fun w => .newEvent w s

instance (event : EventSource) : S.Agrees (eventOf event) := by
  cases event with
  | handle name =>
    unfold eventOf
    infer_instance
  | fresh type detail =>
    unfold eventOf
    dsimp only
    split
    · infer_instance
    · infer_instance

omit [S.Steady] in
theorem agrees_listen {name : String}
    (h : ∀ other, G.Mild (.listener other) ∨ (name == other) = false) (node type : String) (once : Bool)
    (actions : List Action) : S.Agrees (performEvent (.listen name node type once actions)) := by
  have ha : ∀ n, S.Agrees (onDocument (·.addListener n ⟨type, .scripted name actions, once⟩)) :=
    fun n => agrees_addListener n h
  unfold performEvent
  infer_instance

/-- A command that registers no scripted listener. -/
def Mute : EventCommand → Prop
  | .listen .. => False
  | _ => True

omit [S.Steady] in
theorem agrees_performEvent {c : EventCommand} (h : Mute c) : S.Agrees (performEvent c) := by
  cases c with
  | listen => exact h.elim
  | unlisten | listeners | create | info | dispatch =>
    unfold performEvent
    infer_instance

instance (form : RepeatForm) : S.Agrees (repeatDirective form) := by
  unfold repeatDirective
  split
  · infer_instance
  · infer_instance

instance (i : Interpolation) : S.Agrees (insertionOf i) := by
  cases i with
  | markup | binding | repeated | probe =>
    unfold insertionOf
    infer_instance

instance (aspect : Option String) (i : Interpolation) : S.Agrees (directiveOf aspect i) := by
  cases i with
  | markup | binding | repeated | probe =>
    unfold directiveOf
    infer_instance

instance (parts : List (String × Option String × Interpolation)) :
    S.Agrees (templateParts parts) := by
  unfold templateParts
  infer_instance

omit [S.Steady] in
theorem renderFresh_agrees [G.Accessible] (t : TemplateId) (source : Literal) :
    S.Agrees (renderFresh t source) := by
  have hg : ∀ name h, S.Agrees (giveHandle name h) := giveHandle_agrees
  unfold Machine.renderFresh
  infer_instance

omit [G.Open] [S.Steady] in
theorem performView_agrees [G.Accessible] (c : ViewCommand) : S.Agrees (performView c) := by
  have hg : ∀ name h, S.Agrees (giveHandle name h) := giveHandle_agrees
  cases c with
  | create | render | bind | unbind | append | insertBefore | remove | dispose | info =>
    unfold Machine.performView
    infer_instance

instance [G.Accessible] : S.Naming := ⟨performContext_agrees, renderFresh_agrees, performView_agrees⟩

variable [hN : S.Naming]

instance (c : ContextCommand) : S.Agrees (performContext c) := hN.performContext c

instance (t : TemplateId) (source : Literal) : S.Agrees (renderFresh t source) :=
  hN.renderFresh t source

instance (c : ViewCommand) : S.Agrees (performView c) := hN.performView c

instance (c : TemplateCommand) : S.Agrees (performTemplate c) := by
  cases c with
  | compile handle strings interpolations source =>
    unfold performTemplate
    refine .bind fun insertions => .bind fun t => ?_
    extract_lets answer
    have ha : ∀ rendered, S.Agrees (answer rendered) :=
      fun _ => inferInstanceAs (S.Agrees (_ >>= _))
    split
    · exact .bind fun rendered => .bind ha
    · exact .bind ha
  | assemble | evaluate =>
    unfold performTemplate
    infer_instance

/-! ## Calls -/

omit [G.Open] [S.Steady] hN in
theorem agrees_drop {name : String} (hm : G.Mild (.listener name)) :
    S.Agrees (performOne (.drop name)) := by
  have he : S.Agrees (modify fun w : World => { w with handles := w.handles.erase name } :
      Machine PUnit) := .modify fun w => .drop w name hm
  unfold performOne
  infer_instance

/-- **Audible.** Registering a scripted listener keeps to the setting where that may be done, and so does
dropping a handle, which may be that of a listener, and calling the listeners of a node. -/
class Audible (S : Setting G) : Prop where
  drop {name : String} {w : World} : G.Inv w → G.allowed (.perform (.drop name)) w →
    S.AgreesAt (performOne (.drop name)) w
  listen {name node type : String} {once : Bool} {actions : List Action} {w : World} : G.Inv w →
    G.allowed (.perform (.event (.listen name node type once actions))) w →
      S.AgreesAt (performEvent (.listen name node type once actions)) w
  bubble (n : NodeId) (e : EventId) : S.Agrees (bubble n e)

omit hN in
instance [h : ∀ name, G.Slight (.listener name)] : S.Audible where
  drop {name _} hw _ := (agrees_drop (h name).mild).agreesAt hw
  listen hw _ := (agrees_listen (fun other => .inl (h other).mild) _ _ _ _).agreesAt hw
  bubble _ _ := inferInstance

/-- **Replacing.** Replacing all items of an array keeps to the setting where that may be commanded. -/
class Replacing (S : Setting G) : Prop where
  replace {handle : String} {items : List Literal} {w : World} : G.Inv w →
    G.allowed (.perform (.array (.replace handle items))) w →
      S.AgreesAt (performArray (.replace handle items)) w

omit [G.Open] hN in
instance [G.Writable] [S.Telling] : S.Replacing where
  replace hw _ := (agrees_replace inferInstance _ _).agreesAt hw

/-- **Commanded.** Commands that replace all items of an array, subscribe somebody, flush the queue, say how it is
flushed or wait for that keep to the setting where they may be given. -/
class Commanded (S : Setting G) : Prop extends S.Audible, S.Replacing where
  subscribe {subscriber : String} {target : Target} {name : Option String} {w : World} :
    G.Inv w → G.allowed (.perform (.notifier (.subscribe subscriber target name))) w →
      S.AgreesAt (performNotifier (.subscribe subscriber target name)) w
  queue {c : QueueCommand} {w : World} : ¬ Calm c → G.Inv w →
    G.allowed (.perform (.queue c)) w → S.AgreesAt (performQueue c) w

variable [hS : S.Commanded]

theorem performOne_agreesAt {c : Command} {w : World} (hw : G.Inv w)
    (ha : G.allowed (.perform c) w) : S.AgreesAt (performOne c) w := by
  cases c with
  | notifier c =>
    have hm : S.AgreesAt (performNotifier c) w := by
      by_cases h : Quiet c
      · exact (agrees_performNotifier h).agreesAt hw
      · cases c with
        | subscribe => exact hS.subscribe hw ha
        | _ => exact absurd trivial h
    exact hm
  | queue c =>
    have hm : S.AgreesAt (performQueue c) w := by
      by_cases h : Calm c
      · exact (agrees_performQueue h).agreesAt hw
      · exact hS.queue h hw ha
    exact hm
  | event c =>
    have hm : S.AgreesAt (performEvent c) w := by
      by_cases h : Mute c
      · exact (agrees_performEvent h).agreesAt hw
      · cases c with
        | listen => exact hS.listen hw ha
        | _ => exact absurd trivial h
    exact hm
  | array c =>
    have hm : S.AgreesAt (performArray c) w := by
      by_cases h : Piecemeal c
      · exact (agrees_performArray h).agreesAt hw
      · cases c with
        | replace => exact hS.replace hw ha
        | _ => exact absurd trivial h
    exact hm
  | drop name => exact hS.drop hw ha
  | value | type | object | observer | context | node | template | view =>
    unfold performOne
    exact Agrees.agreesAt hw

theorem perform_agreesAt {c : Command} {w : World} (hw : G.Inv w)
    (ha : G.allowed (.perform c) w) : S.AgreesAt (perform c) w := by
  refine .within (performOne_agreesAt hw ha) fun w' hr hi => ?_
  obtain ⟨hs, hi⟩ := G.change hi (.sweep w')
  exact ⟨G.trans hr hs, hi⟩

/-- **Every plain call keeps to the setting** that neither binds nor unbinds a view. -/
theorem body_agreesAt {c : Call} (hc : c.IsPlain) (hv : c.view? = none) {w : World}
    (hw : G.Inv w) (ha : G.allowed c w) : S.AgreesAt (body c) w := by
  cases c with
  | perform c => exact perform_agreesAt hw ha
  | deliver | update | settle | drainPool => exact hc.elim
  | bindView | unbindView => exact absurd hv (by simp [Call.view?])
  | bubble n e => exact (hS.bubble n e).agreesAt hw
  | eval =>
    unfold body
    exact Agrees.agreesAt hw

omit [G.Open] [S.Steady] hN hS in
/-- Under a loose regime so do those that do. -/
theorem view_agreesAt [G.Loose] [∀ b, S.Listing b] {c : Call} {v : ViewId} (hv : c.view? = some v) {w : World}
    (hw : G.Inv w) (ha : G.allowed c w) : S.AgreesAt (body c) w := by
  have : G.Slight (.view v) := ⟨Regime.Loose.view hv ha⟩
  cases c with
  | bindView u source context =>
    obtain rfl := Option.some.inj hv
    exact Agrees.agreesAt (m := bindView u source context) hw
  | unbindView u =>
    obtain rfl := Option.some.inj hv
    exact Agrees.agreesAt (m := unbindView u) hw
  | _ => exact absurd hv nofun

end ReactiveViews.Setting

/-! ## Free regimes -/

namespace ReactiveViews.Setting.Free

open Machine

variable {G : Regime} {S : Setting G} [hG : G.Free]

instance [S.Agrees Machine.process] : S.Agrees settle := by
  unfold settle
  infer_instance

instance (mode : UpdateMode) : S.Agrees (setMode mode) := by
  have hm : S.Agrees (modify fun w : World => { w with queue := { w.queue with mode } } :
      Machine PUnit) := .adjust fun w => .mode w mode
  unfold setMode
  infer_instance

instance (mode : UpdateMode) (scheduler : Scheduler) : S.Agrees (configure mode scheduler) := by
  have hp : S.Agrees (modify fun w : World => { w with pool := some 0 } : Machine PUnit) :=
    .adjust fun w => .pool w _
  have hi : S.Agrees (modify fun w : World => { w with queue := (w.queue.install scheduler).1 } :
      Machine PUnit) := .adjust fun w => .install w scheduler
  unfold configure
  extract_lets install
  have hinstall : ∀ u, S.Agrees (install u) := by
    intro u
    refine .get fun w hw => ?_
    exact (hi.agreesAt hw).bind fun _ _ => Agrees.agreesAt
  split
  · exact .bind hinstall
  · exact hinstall ()

instance [S.Agrees Machine.process] : S.Agrees drainPool := by
  unfold drainPool
  refine .get fun w hw => ?_
  split
  · next spawned _ =>
    have hset : S.AgreesAt (set { w with pool := some spawned } : Machine PUnit) w :=
      Leads.of_eq (fun _ => rfl) (hG.adjust hw (.pool w (some spawned)))
    exact hset.bind fun _ _ => Agrees.agreesAt
  · exact Agrees.agreesAt hw

instance : S.Agrees nextFlush :=
  ⟨fun hw => nextFlush_agreesAt hw fun x _ _ _ hx _ ha => hG.adjust hx (.await x ha)⟩

instance (c : QueueCommand) [S.Steady] [S.Agrees Machine.process] : S.Agrees (performQueue c) := by
  cases c with
  | createTask | enqueue | process | settle | processResult | status | setMode | configure
      | runPool | dropPool | next | poll =>
    unfold performQueue
    infer_instance

instance [G.Writable] [S.Steady] [S.Audible] [S.Replacing] [S.Agrees Machine.process] : S.Commanded where
  subscribe hw _ := Agrees.agreesAt hw
  queue _ hw _ := Agrees.agreesAt hw

end ReactiveViews.Setting.Free

/-! ## Uniform regimes -/

namespace ReactiveViews.Setting.Uniform

open Machine

variable {G : Regime} {S : Setting G} [G.Uniform] [S.Agrees Machine.process]

/-- Under a loose regime every other call keeps to the setting as well, as far as flushing does. -/
theorem agrees_body [∀ b, S.Listing b] {c : Call} (hc : ¬ c.IsPlain) : S.Agrees (body c) := by
  cases c with
  | eval | bindView | unbindView | bubble | perform => exact absurd trivial hc
  | deliver | update | settle | drainPool =>
    unfold body
    infer_instance

end ReactiveViews.Setting.Uniform
