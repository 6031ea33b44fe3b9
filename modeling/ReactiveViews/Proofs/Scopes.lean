import ReactiveViews.Proofs.Flush
import ReactiveViews.Proofs.Runs
/-!
# Evaluating in a scope

The observer that is watching is kept in one place of the world. An evaluation puts its observer
there, or nobody, and puts back whom it has found when it ends, and evaluations nest. So whom a read
is recorded for is settled by what happened before it. It could as well be settled by where the read
stands: each evaluation and each untracked part is a *scope*, of one observer or of nobody, and a read
belongs to the innermost scope around it.

`Machine.runIn` evaluates in this way. The scope is passed down, and nobody looks at who is watching.
Both ways of evaluating come to the same (`Machine.run_eq_runIn`), whatever the expression and however
its parts fail, by induction on the depth of evaluations in evaluations. One computation mirrors
another if it does the same with the scope for a watcher (`Machine.Mirrors`), and what is made of
parts that mirror each other does so too. Only what acts on others, a write or a command, is run as it
is with the scope for a watcher, and then it matters that whatever is called leaves the same observer
watching (`guarding_kept`).
-/

namespace ReactiveViews

/-! ## Whoever is watching is put back -/

namespace World

variable {w w' : World}

@[simp] theorem watcher_follow (w : World) (next : FollowUp) : (w.follow next).watcher = w.watcher := by
  obtain h | ⟨entries, h⟩ | ⟨pool, h⟩ := w.follow_cases next <;> rw [h]

theorem Queued.watcher {Mild : Subject → Prop} {next : FollowUp} (h : Queued Mild w next w') :
    w'.watcher = w.watcher := by
  cases h <;> rfl

/-- No listed change has anybody else watch. -/
theorem Change.watcher {Mild : Subject → Prop} (h : Change Mild w w') : w'.watcher = w.watcher := by
  cases h with
  | created h => rw [h.rest]
  | queued h _ => rw [watcher_follow, h.watcher]
  | ask scheduler => exact watcher_follow w (.schedule scheduler)
  | request => exact watcher_follow _ _
  | _ => rfl

theorem Adjustment.watcher (h : Adjustment w w') : w'.watcher = w.watcher := by
  cases h with
  | await => exact watcher_follow _ _
  | install | mode | pool => rfl

/-- The same observer is watching, and what has been made stays. -/
structure Guards (w w' : World) : Prop where
  watcher : w'.watcher = w.watcher
  grown : w.behaviors.size ≤ w'.behaviors.size

end World

/-- **The regime of the watcher.** -/
def guarding : Regime where
  allowed _ _ := true
  Mild _ := True
  Inv _ := True
  Rel := World.Guards
  Entry _ _ := True
  Exit _ w _ w' := w.Guards w'
  refl _ := ⟨rfl, Nat.le_refl _⟩
  trans h h' := ⟨h'.watcher.trans h.watcher, Nat.le_trans h.grown h'.grown⟩
  entry _ _ _ := trivial
  exit _ _ _ h := ⟨h, trivial⟩
  change _ hc := ⟨⟨hc.watcher, hc.size_behaviors⟩, trivial⟩
  enter _ _ := trivial
  leave hs _ hr _ := by
    refine ⟨?_, trivial⟩
    -- Only one of the four puts a watcher, and it is put back whatever has happened inside.
    cases hs with
    | hold | change | handle => exact ⟨hr.watcher, hr.grown⟩
    | watch => exact ⟨rfl, hr.grown⟩
  grown h := h.grown
  light _ _ := .inr fun _ => trivial
  takes _ _ := .inr trivial
  calledBack _ _ := .inr trivial
  watcher _ _ := .inr fun _ => trivial
  behaviors _ _ _ := trivial
  observers _ _ _ := .inr fun _ => trivial
  aspects _ _ _ := trivial

instance (name : String) : guarding.Slight (.listener name) := ⟨trivial⟩

instance : guarding.Loose where
  tether _ := trivial
  lists _ := trivial
  view _ _ := trivial

instance : guarding.Accessible where
  entry _ _ := trivial
  exit _ _ h := ⟨h, trivial⟩
  access _ hc := ⟨by cases hc <;> exact ⟨rfl, Nat.le_refl _⟩, trivial⟩

instance : guarding.Uniform where
  tickets := trivial
  behavior _ := trivial
  aspect _ _ := trivial
  setup _ hc := ⟨by cases hc <;> exact ⟨rfl, Nat.le_refl _⟩, trivial⟩
  cues := trivial
  deliver _ _ := trivial
  delivered _ h := ⟨h, trivial⟩
  write _ hc := ⟨by cases hc <;> exact ⟨rfl, Nat.le_refl _⟩, trivial⟩
  flush _ _ := trivial
  flushed _ _ h := ⟨h, trivial⟩
  pressed _ hc :=
    ⟨⟨hc.watcher, Nat.le_of_eq (congrArg Store.size hc.behaviors.symm)⟩, trivial⟩
  adjust _ hc := ⟨⟨hc.watcher, Nat.le_of_eq (congrArg Store.size hc.behaviors.symm)⟩, trivial⟩

/-- While the tasks of a flush run, the same observer is watching between them. -/
def guardingFlushing : Flushing guarding where
  Owed start _ w := start.Guards w
  log _ h := ⟨h.watcher, h.grown⟩
  turn _ := trivial
  ran h _ he := ⟨he.watcher.trans h.watcher, Nat.le_trans h.grown he.grown⟩

theorem guarding_kept : guarding.Kept := by
  refine Regime.Uniform.kept (fun S => ⟨fun {w} _ => ?_⟩) (fun _ _ => trivial) (fun hr _ => hr)
    fun S {t w} _ _ => Setting.Agrees.agreesAt (m := Machine.update t) trivial
  refine guardingFlushing.process_agreesAt S (fun _ => ⟨rfl, Nat.le_refl _⟩) fun x hx => ?_
  cases hx with
  | none => exact ⟨⟨rfl, Nat.le_refl _⟩, trivial⟩
  | all _ h => exact ⟨⟨h.watcher, h.grown⟩, trivial⟩

namespace Machine

/-- **Whoever was watching is watching again** when a computation has ended, also with a failure. -/
theorem watcher_of_run {α : Type} {m : Machine α} (hm : ∀ S : Setting guarding, S.Agrees m)
    {depth : Nat} {w w' : World} {r : Except Error α} (h : m (run depth) w = some (r, w')) :
    w'.watcher = w.watcher := by
  rw [← runUnder_true] at h
  exact ((hm (guarding.setting guarding_kept depth)).agreesAt trivial r w' h).2.1.watcher

/-! ## Evaluating in a scope -/

/-- **Noting.** A read is recorded for the observer whose scope it is in, and for nobody outside of
the scopes of observers. -/
def note (scope : Option ObserverId) (source : Observable) (name : String) : Machine Unit :=
  match scope with
  | some o => watch o source name
  | none => pure ()

/-- A read of a property in a scope. It is noted if the property is observable. -/
def getIn (scope : Option ObserverId) (o : ObjectId) (name : String) : Machine Value := do
  match scope with
  | some _ =>
    if (← accessorOf? (← read (·.typeOf o)) name).isSome then note scope (.object o) name
  | none => pure ()
  read (·.peek o name)

/-- The position in the list, noted in a scope. -/
def indexIn (scope : Option ObserverId) (c : ContextId) : Machine Nat := do
  note scope (.context c) "index"
  read fun w => (w.contexts.get c).index

/-- The length of the list, noted in a scope. -/
def lengthIn (scope : Option ObserverId) (c : ContextId) : Machine Nat := do
  note scope (.context c) "length"
  read fun w => (w.contexts.get c).length

/-- The answer to a question about a position, of which no more is asked than needed. -/
def answerFrom (index length : Machine Nat) : PositionQuery → Machine Value
  | .index => return .ofNat (← index)
  | .length => return .ofNat (← length)
  | .first => return .bool ((← index) == 0)
  | .last => do
    let index ← index
    return .bool (index + 1 == (← length))
  | .middle => do
    let index ← index
    if index = 0 then return .bool false
    return .bool (index + 1 < (← length))
  | .even => return .bool ((← index) % 2 == 0)
  | .odd => return .bool ((← index) % 2 == 1)

theorem queryPosition_eq (c : ContextId) (query : PositionQuery) :
    queryPosition c query = answerFrom (contextIndex c) (contextLength c) query := by
  cases query <;> rfl

/-- What an observer does around the evaluation of its expression, which is given the scope that it
is evaluated in: the observer's if it discovers its dependencies, and nobody's if it keeps those that
it has. -/
def observing (o : ObserverId) (evaluate : Option ObserverId → Expr → Machine Value) :
    Machine Value := do
  let s ← read fun w => w.observers.get o
  if s.needsRefresh && !s.records.isEmpty then disconnect o
  modifyObserver o fun s => { s with needsRefresh := s.isVolatile }
  let result ← attempt <| holding [.subscriber (.observer o)] <|
    evaluate (if s.needsRefresh then some o else none) s.evaluator
  match ← read fun w => (w.observers.get o).deferredError with
  | some e =>
    modifyObserver o fun s => { s with deferredError := none }
    throw e
  | none => ofExcept result

theorem observe_eq (o : ObserverId) (source : Value) (context : ContextId) :
    observe o source context =
      observing o fun watcher e => watching watcher (eval e ⟨source, context, .null⟩) := rfl

/-- Runs a computation with other calls. -/
def withCalls {α : Type} (calls : Calls) (m : Machine α) : Machine α := fun _ => m calls

/-- **Evaluation in a scope**, given what calls do in each scope, and in the world outside. Reads are
noted in the scope, an untracked part is in nobody's, and what an observer evaluates is in its own.
What acts on others is run in the world outside, with the scope for a watcher. Everything else reads
nothing. -/
def evalIn (inside : Option ObserverId → Calls) (outside : Calls) (scope : Option ObserverId)
    (e : Expr) (env : Env) : Machine Value := do
  match e with
  | .get object name =>
    match ← eval object env with
    | .object o => getIn scope o name
    | _ => return .null
  | .length e =>
    match ← eval e env with
    | .array a =>
      note scope (.array a) "length"
      return .ofNat (← read (·.itemsOf a)).length
    | _ => return .null
  | .position hops query =>
    match enclosing? (← get) hops env.context with
    | some c => answerFrom (indexIn scope c) (lengthIn scope c) query
    | none => return .null
  | .track on name =>
    match ← eval on env with
    | .object o => note scope (.object o) name
    | .array a => note scope (.array a) name
    | _ => note scope (.context env.context) name
    return .null
  | .volatile =>
    match scope with
    | some o => modifyObserver o fun s => { s with needsRefresh := true }
    | none => pure ()
    return .null
  | .tracking => return .bool scope.isSome
  | .untracked e => withCalls (inside none) (eval e env)
  | .observe observer on =>
    let v ← eval on env
    match (← get).handles.find? observer with
    | some (.observer o) =>
      observing o fun scope e => withCalls (inside scope) (eval e ⟨v, env.context, .null⟩)
    | _ => return .null
  | .set object name value =>
    let target ← eval object env
    let v ← eval value env
    match target with
    | .object o => withCalls outside (watching scope (setProperty o name v))
    | _ => pure ()
    return .null
  | .push array value =>
    let target ← eval array env
    let v ← eval value env
    match target with
    | .array a => withCalls outside (watching scope (pushItem a v))
    | _ => pure ()
    return .null
  | .perform command => withCalls outside (watching scope (evalExpr (.perform command) env))
  | e => evalExpr e env

/-- **Running in a scope.** What evaluations come to in a scope to a depth. -/
def runIn : Nat → Option ObserverId → Calls
  | 0, _ => fun _ _ => none
  | depth + 1, scope => fun c =>
    match c with
    | .eval e env => evalIn (runIn depth) (run depth) scope e env (runIn depth scope)
    | _ => fun _ => none

/-! ## Both ways come to the same -/

/-- What a computation comes to, with somebody else watching at the end. -/
def watchedBy {α : Type} (scope : Option ObserverId) (x : Option (Except Error α × World)) :
    Option (Except Error α × World) :=
  x.map fun (r, w) => (r, { w with watcher := scope })

/-- **Mirroring.** With the scope for a watcher one computation does what another does whoever is
watching. -/
class Mirrors {α : Type} (calls calls' : Calls) (scope : Option ObserverId) (m m' : Machine α) : Prop where
  eq (w : World) : m calls { w with watcher := scope } = watchedBy scope (m' calls' w)

/-- Something read off the world that does not depend on who is watching. -/
class Blind {β : Type} (f : World → β) : Prop where
  eq (w : World) (watcher : Option ObserverId) : f { w with watcher } = f w

namespace Mirrors

variable {α β : Type} {calls calls' : Calls} {scope : Option ObserverId}

instance (a : α) : Mirrors calls calls' scope (pure a) (pure a) := ⟨fun _ => rfl⟩

instance (e : Error) : Mirrors calls calls' scope (throw e : Machine α) (throw e) := ⟨fun _ => rfl⟩

instance (f : World → α) [hf : Blind f] : Mirrors calls calls' scope (read f) (read f) := by
  refine ⟨fun w => ?_⟩
  rw [read_apply, read_apply, hf.eq]
  rfl

/-- One part after another. -/
theorem bind {m m' : Machine α} {f f' : α → Machine β} [hm : Mirrors calls calls' scope m m']
    (hf : ∀ a, Mirrors calls calls' scope (f a) (f' a)) :
    Mirrors calls calls' scope (m >>= f) (m' >>= f') := by
  refine ⟨fun w => ?_⟩
  rw [bind_apply, bind_apply, hm.eq]
  cases m' calls' w with
  | none => rfl
  | some x =>
    obtain ⟨_ | a, w'⟩ := x
    · rfl
    · exact (hf a).eq w'

instance (m m' : Machine α) (f f' : α → Machine β) [Mirrors calls calls' scope m m']
    [hf : ∀ a, Mirrors calls calls' scope (f a) (f' a)] :
    Mirrors calls calls' scope (m >>= f) (m' >>= f') :=
  bind hf

instance (p : Prop) [Decidable p] (m m' n n' : Machine α) [Mirrors calls calls' scope m m']
    [Mirrors calls calls' scope n n'] :
    Mirrors calls calls' scope (if p then m else n) (if p then m' else n') := by
  split
  · infer_instance
  · infer_instance

theorem write {f : World → World}
    (h : ∀ w, f { w with watcher := scope } = { f w with watcher := scope }) :
    Mirrors calls calls' scope (modify f : Machine PUnit) (modify f) := by
  refine ⟨fun w => ?_⟩
  rw [modify_apply, modify_apply, h]
  rfl

theorem writeGet {f : World → α × World}
    (h : ∀ w, f { w with watcher := scope } = ((f w).1, { (f w).2 with watcher := scope })) :
    Mirrors calls calls' scope (modifyGet f : Machine α) (modifyGet f) := by
  refine ⟨fun w => ?_⟩
  rw [modifyGet_apply, modifyGet_apply, h]
  rfl

instance (o : ObserverId) (f : ObserverState → ObserverState) :
    Mirrors calls calls' scope (modifyObserver o f) (modifyObserver o f) := .write fun _ => rfl

instance (n : NotifierId) (f : Notifier → Notifier) :
    Mirrors calls calls' scope (modifyNotifier n f) (modifyNotifier n f) := .write fun _ => rfl

instance (o : ObjectId) (f : ObjectState → ObjectState) :
    Mirrors calls calls' scope (modifyObject o f) (modifyObject o f) := .write fun _ => rfl

instance (c : ContextId) (f : ContextState → ContextState) :
    Mirrors calls calls' scope (modifyContext c f) (modifyContext c f) := .write fun _ => rfl

instance (a : ArrayId) (f : ArrayState → ArrayState) :
    Mirrors calls calls' scope (modifyArray a f) (modifyArray a f) := .write fun _ => rfl

instance (entry : LogEntry) : Mirrors calls calls' scope (logEntry entry) (logEntry entry) :=
  .write fun _ => rfl

instance : Mirrors calls calls' scope newNotifier newNotifier := .writeGet fun _ => rfl

instance (typeName : Option String) (fields : Keyed Value) :
    Mirrors calls calls' scope (newObject typeName fields) (newObject typeName fields) :=
  .writeGet fun _ => rfl

instance (items : List Value) : Mirrors calls calls' scope (newArray items) (newArray items) :=
  .writeGet fun _ => rfl

instance (r : Except Error α) : Mirrors calls calls' scope (ofExcept r) (ofExcept r) := by
  cases r <;> exact ⟨fun _ => rfl⟩

instance (m m' : Machine α) [hm : Mirrors calls calls' scope m m'] :
    Mirrors calls calls' scope (attempt m) (attempt m') := by
  refine ⟨fun w => ?_⟩
  unfold attempt
  rw [hm.eq]
  cases m' calls' w <;> rfl

instance (things : List Held) (m m' : Machine α) [hm : Mirrors calls calls' scope m m'] :
    Mirrors calls calls' scope (holding things m) (holding things m') := by
  refine ⟨fun w => ?_⟩
  have h := hm.eq { w with held := things ++ w.held }
  unfold holding within
  dsimp only at h ⊢
  rw [h]
  cases m' calls' { w with held := things ++ w.held } <;> rfl

/-- A nested scope. Whoever is watching in it is forgotten when it is left. -/
theorem nested {inside : Calls} {inner : Option ObserverId} {m m' : Machine α}
    (h : Mirrors calls inside inner m m') :
    Mirrors calls calls' scope (watching inner m) (withCalls inside m') := by
  refine ⟨fun w => ?_⟩
  have h := h.eq w
  unfold watching within withCalls
  dsimp only
  rw [h]
  cases m' inside w <;> rfl

/-- What is run as it is, with the scope for a watcher, leaves the scope watching. -/
theorem outside {m : Machine α}
    (h : ∀ w r w', m calls w = some (r, w') → w'.watcher = w.watcher) :
    Mirrors calls calls' scope m (withCalls calls (watching scope m)) := by
  refine ⟨fun w => ?_⟩
  unfold withCalls watching within
  dsimp only
  cases hm : m calls { w with watcher := scope } with
  | none => rfl
  | some x =>
    obtain ⟨r, w'⟩ := x
    -- It has been entered with the scope watching, so there is nothing to put back.
    have hw : w'.watcher = scope := h _ _ _ hm
    show some (r, w') = some (r, { w' with watcher := scope })
    rw [← hw]

/-- A computation that first looks at the world, but not at who is watching. -/
theorem look {f f' : World → Machine α} (hf : ∀ w, f { w with watcher := scope } = f w)
    (hm : ∀ w, Mirrors calls calls' scope (f w) (f' w)) :
    Mirrors calls calls' scope (MonadState.get >>= f) (MonadState.get >>= f') := by
  refine ⟨fun w => ?_⟩
  show f { w with watcher := scope } calls { w with watcher := scope } = watchedBy scope (f' w calls' w)
  rw [hf]
  exact (hm w).eq w

/-! ### What does not depend on who is watching -/

instance (o : ObjectId) (name : String) : Blind fun w => w.peek o name := ⟨fun _ _ => rfl⟩

instance (o : ObjectId) : Blind fun w => w.typeOf o := ⟨fun _ _ => rfl⟩

instance (a : ArrayId) : Blind fun w => w.itemsOf a := ⟨fun _ _ => rfl⟩

instance (name : String) : Blind fun w => w.valueOfHandle name := ⟨fun _ _ => rfl⟩

instance (f : ObjectState → α) (o : ObjectId) : Blind fun w => f (w.objects.get o) :=
  ⟨fun _ _ => rfl⟩

instance (f : ContextState → α) (c : ContextId) : Blind fun w => f (w.contexts.get c) :=
  ⟨fun _ _ => rfl⟩

instance (o : ObserverId) : Blind fun w => w.observers.get o := ⟨fun _ _ => rfl⟩

instance (f : ObserverState → α) (o : ObserverId) : Blind fun w => f (w.observers.get o) :=
  ⟨fun _ _ => rfl⟩

/-- The text of a value depends on the items of arrays only. -/
theorem displayTo_of_arrays {w w' : World} (h : w'.arrays = w.arrays) (depth : Nat) (v : Value) :
    w'.displayTo depth v = w.displayTo depth v := by
  induction depth generalizing v with
  | zero => cases v <;> rfl
  | succ depth ih =>
    cases v with
    | array a =>
      rw [World.displayTo, World.displayTo, World.itemsOf, h]
      exact congrArg _ (List.map_congr_left fun v _ => ih v)
    | null | bool | number | text | object | template => rfl

theorem display_of_arrays {w w' : World} (h : w'.arrays = w.arrays) : w'.display = w.display :=
  funext fun v => by rw [World.display, World.display, h, displayTo_of_arrays h]

theorem display_watcher (w : World) (watcher : Option ObserverId) :
    ({ w with watcher } : World).display = w.display :=
  display_of_arrays rfl

instance (v : Value) : Blind fun w => w.display v :=
  ⟨fun w watcher => congrFun (display_watcher w watcher) v⟩

theorem showTo_watcher (w : World) (watcher : Option ObserverId) (depth : Nat) (v : Value) :
    ({ w with watcher } : World).showTo depth v = w.showTo depth v := by
  induction depth generalizing v with
  | zero =>
    cases v with
    | array a =>
      unfold World.showTo
      rfl
    | null | bool | number | text | object | template => rfl
  | succ depth ih =>
    cases v with
    | array a =>
      have hitems : (w.itemsOf a).map (({ w with watcher } : World).showTo depth) =
          (w.itemsOf a).map (w.showTo depth) := List.map_congr_left fun v _ => ih v
      have hhandle : ({ w with watcher } : World).handleOf? (.array a) = w.handleOf? (.array a) := rfl
      unfold World.showTo
      rw [hhandle]
      cases w.handleOf? (.array a) with
      | some name => rfl
      | none => exact congrArg Shown.array hitems
    | null | bool | number | text | object | template => rfl

theorem shown_watcher (w : World) (watcher : Option ObserverId) (v : Value) :
    ({ w with watcher } : World).shown v = w.shown v :=
  showTo_watcher w watcher _ v

theorem enclosing_watcher (w : World) (watcher : Option ObserverId) (hops : Nat) (c : ContextId) :
    enclosing? { w with watcher } hops c = enclosing? w hops c := by
  induction hops generalizing c with
  | zero => rfl
  | succ hops ih => exact congrArg (Option.bind _) (funext fun c => ih c)

theorem continuesChain_watcher (w : World) (watcher : Option ObserverId) (records : List Record)
    (source : Observable) :
    continuesChain { w with watcher } records source = continuesChain w records source := by
  unfold continuesChain
  cases records.getLast? with
  | none => rfl
  | some last =>
    obtain ⟨read, name, n⟩ := last
    cases read <;> rfl

/-! ### Observing -/

instance (o : ObjectId) : Mirrors calls calls' scope (objectNotifier o) (objectNotifier o) := by
  unfold objectNotifier
  refine .bind fun found => ?_
  cases found <;> infer_instance

instance (c : ContextId) : Mirrors calls calls' scope (contextNotifier c) (contextNotifier c) := by
  unfold contextNotifier
  refine .bind fun found => ?_
  cases found <;> infer_instance

instance (a : ArrayId) : Mirrors calls calls' scope (arrayNotifier a) (arrayNotifier a) := by
  unfold arrayNotifier
  refine .look (fun _ => rfl) fun w => ?_
  cases (w.arrays.get a).observer <;> infer_instance

instance (source : Observable) :
    Mirrors calls calls' scope (observableNotifier source) (observableNotifier source) := by
  unfold observableNotifier
  cases source <;> infer_instance

instance (o : ObserverId) (source : Observable) (name : String) :
    Mirrors calls calls' scope (watch o source name) (watch o source name) := by
  unfold watch
  refine .bind fun found => ?_
  cases found with
  | error e => infer_instance
  | ok n =>
    unfold subscribe
    exact .bind fun _ => .look (fun w => by simp only [continuesChain_watcher]) fun w => inferInstance

instance (source : Observable) (name : String) :
    Mirrors calls calls' scope (track source name) (note scope source name) := by
  cases scope with
  | none => exact ⟨fun _ => rfl⟩
  | some o =>
    have h : Mirrors calls calls' (some o) (watch o source name) (watch o source name) := inferInstance
    exact ⟨fun w => h.eq w⟩

instance (type : String) : Mirrors calls calls' scope (accessorsOf type) (accessorsOf type) := by
  have hm : ∀ registry, Mirrors calls calls' scope
      (modify fun w => { w with registry } : Machine PUnit) _ := fun _ => .write fun _ => rfl
  unfold accessorsOf
  refine .look (fun _ => rfl) fun w => ?_
  infer_instance

instance (type name : String) :
    Mirrors calls calls' scope (accessorOf? type name) (accessorOf? type name) := by
  unfold accessorOf?
  infer_instance

instance (o : ObjectId) (name : String) :
    Mirrors calls calls' scope (getProperty o name) (getIn scope o name) := by
  cases scope with
  | none => exact ⟨fun _ => rfl⟩
  | some watcher =>
    have h : Mirrors calls calls' (some watcher)
        (do
          if (← accessorOf? (← read (·.typeOf o)) name).isSome then watch watcher (.object o) name
          read (·.peek o name))
        (getIn (some watcher) o name) := by
      unfold getIn note
      infer_instance
    exact ⟨fun w => h.eq w⟩

instance (c : ContextId) : Mirrors calls calls' scope (contextIndex c) (indexIn scope c) := by
  unfold contextIndex indexIn
  infer_instance

instance (c : ContextId) : Mirrors calls calls' scope (contextLength c) (lengthIn scope c) := by
  unfold contextLength lengthIn
  infer_instance

instance (c : ContextId) (query : PositionQuery) :
    Mirrors calls calls' scope (queryPosition c query)
      (answerFrom (indexIn scope c) (lengthIn scope c) query) := by
  rw [queryPosition_eq]
  cases query <;> unfold answerFrom <;> infer_instance

instance (f : Record → Machine Unit) [∀ r, Mirrors calls calls' scope (f r) (f r)]
    (records : List Record) : Mirrors calls calls' scope (each f records) (each f records) := by
  induction records with
  | nil =>
    unfold each
    infer_instance
  | cons r records ih =>
    unfold each
    infer_instance

instance (o : ObserverId) : Mirrors calls calls' scope (disconnect o) (disconnect o) := by
  unfold disconnect unsubscribe
  infer_instance

/-- What an observer does around an evaluation, whatever is evaluated. -/
theorem observing {o : ObserverId} {f f' : Option ObserverId → Expr → Machine Value}
    (h : ∀ inner e, Mirrors calls calls' scope (f inner e) (f' inner e)) :
    Mirrors calls calls' scope (Machine.observing o f) (Machine.observing o f') := by
  unfold Machine.observing
  refine .bind fun s => ?_
  extract_lets evaluated evaluated'
  have he : ∀ u, Mirrors calls calls' scope (evaluated u) (evaluated' u) := by
    intro u
    refine .bind fun _ => .bind fun result => .bind fun deferred => ?_
    cases deferred <;> infer_instance
  split
  · exact .bind he
  · exact he ()

/-- An observer evaluates its expression in a scope of its own. -/
theorem observe {inside : Option ObserverId → Calls}
    (hi : ∀ inner e env, Mirrors calls (inside inner) inner (eval e env) (eval e env))
    (o : ObserverId) (source : Value) (context : ContextId) :
    Mirrors calls calls' scope (Machine.observe o source context)
      (Machine.observing o fun inner e =>
        withCalls (inside inner) (eval e ⟨source, context, .null⟩)) := by
  rw [observe_eq]
  exact observing fun inner e => nested (hi inner e _)

/-! ### Evaluating -/

mutual

theorem resolve (l : Literal) :
    Mirrors calls calls' scope (Machine.resolve l) (Machine.resolve l) := by
  cases l with
  | null | bool | number | text | handle =>
    unfold Machine.resolve
    infer_instance
  | object typeName fields =>
    have hf := resolveFields fields
    unfold Machine.resolve
    infer_instance
  | array items =>
    have hi := resolveAll items
    unfold Machine.resolve
    infer_instance

theorem resolveFields (fields : List (String × Literal)) :
    Mirrors calls calls' scope (Machine.resolveFields fields) (Machine.resolveFields fields) := by
  cases fields with
  | nil =>
    unfold Machine.resolveFields
    infer_instance
  | cons field fields =>
    obtain ⟨name, l⟩ := field
    have hl := resolve l
    have hr := resolveFields fields
    unfold Machine.resolveFields
    infer_instance

theorem resolveAll (items : List Literal) :
    Mirrors calls calls' scope (Machine.resolveAll items) (Machine.resolveAll items) := by
  cases items with
  | nil =>
    unfold Machine.resolveAll
    infer_instance
  | cons l items =>
    have hl := resolve l
    have hr := resolveAll items
    unfold Machine.resolveAll
    infer_instance

end

section Evaluating

variable [he : ∀ e env, Mirrors calls calls' scope (eval e env) (eval e env)]

instance (env : Env) (parts : List Expr) :
    Mirrors calls calls' scope (evalTexts env parts) (evalTexts env parts) := by
  induction parts with
  | nil =>
    unfold evalTexts
    infer_instance
  | cons e parts ih =>
    unfold evalTexts
    infer_instance

instance (env : Env) (last : Value) (parts : List Expr) :
    Mirrors calls calls' scope (evalLast env last parts) (evalLast env last parts) := by
  induction parts generalizing last with
  | nil =>
    unfold evalLast
    infer_instance
  | cons e parts ih =>
    unfold evalLast
    infer_instance

instance (query : EventQuery) : Mirrors calls calls' scope (queryEvent query) (queryEvent query) := by
  unfold queryEvent
  refine .look (fun _ => rfl) fun w => ?_
  cases w.currentEvent with
  | none => infer_instance
  | some e => cases query <;> infer_instance

instance (f : EventState → EventState) : Mirrors calls calls' scope (onEvent f) (onEvent f) := by
  have h : Mirrors calls calls' scope (modify fun w : World => match w.currentEvent with
      | some e => { w with events := w.events.modify e f }
      | none => w : Machine PUnit) _ := .write fun w => by
    dsimp only
    split <;> rfl
  unfold onEvent
  infer_instance

end Evaluating

/-- **Evaluating with the scope for a watcher mirrors evaluating in the scope**, if so do the
evaluations on the way, each in its scope. -/
theorem evalExpr {depth : Nat} {inside : Option ObserverId → Calls}
    (hi : ∀ inner e env, Mirrors (run depth) (inside inner) inner (eval e env) (eval e env))
    (e : Expr) (env : Env) :
    Mirrors (run depth) (inside scope) scope (Machine.evalExpr e env)
      (evalIn inside (run depth) scope e env) := by
  have hscope := hi scope
  cases e with
  | literal l => exact resolve l
  -- These read nothing, and their parts are evaluated in the same scope.
  | constant | source | extra | fail | cat | seq | cond | not | eq | add | less | event | prevent | stop =>
    unfold evalIn Machine.evalExpr
    infer_instance
  | get object name =>
    unfold evalIn Machine.evalExpr
    refine .bind fun v => ?_
    cases v <;> infer_instance
  | peek object name =>
    unfold evalIn Machine.evalExpr
    refine .bind fun v => ?_
    cases v <;> infer_instance
  | length e | rawLength e =>
    unfold evalIn Machine.evalExpr
    refine .bind fun v => ?_
    cases v <;> infer_instance
  | item array index =>
    unfold evalIn Machine.evalExpr
    refine .bind fun v => .bind fun i => ?_
    cases v <;> infer_instance
  | join array =>
    unfold evalIn Machine.evalExpr
    refine .bind fun v => ?_
    cases v with
    | array a =>
      exact .look (fun w => by rw [display_watcher]; rfl) fun w => inferInstance
    | null | bool | number | text | object | template => infer_instance
  | position hops query =>
    unfold evalIn Machine.evalExpr
    refine .look (fun w => by rw [enclosing_watcher]) fun w => ?_
    cases enclosing? w hops env.context <;> infer_instance
  | parent hops =>
    unfold evalIn Machine.evalExpr
    refine .look (fun w => by rw [enclosing_watcher]) fun w => ?_
    cases enclosing? w hops env.context <;> infer_instance
  | log tag e =>
    unfold evalIn Machine.evalExpr
    exact .bind fun v => .look (fun w => by rw [shown_watcher]) fun w => inferInstance
  | «volatile» =>
    unfold evalIn Machine.evalExpr trackVolatile
    cases scope with
    | none => exact ⟨fun _ => rfl⟩
    | some o => exact ⟨fun _ => rfl⟩
  | tracking => exact ⟨fun _ => rfl⟩
  | track on name =>
    unfold evalIn Machine.evalExpr
    refine .bind fun v => ?_
    cases v <;> infer_instance
  -- The two that open a scope. What is called inside mirrors there, not here.
  | untracked e => exact nested (hi none e env)
  | observe observer on =>
    unfold evalIn Machine.evalExpr
    refine .bind fun v => .look (fun _ => rfl) fun w => ?_
    rcases w.handles.find? observer with - | handle
    · infer_instance
    · cases handle with
      | observer o => exact observe hi o v env.context
      | _ => infer_instance
  -- The rest acts on others, whose callbacks may do anything but leave somebody else watching.
  | set object name value =>
    unfold evalIn Machine.evalExpr
    refine .bind fun target => .bind fun v => ?_
    cases target with
    | object o =>
      have ho : Mirrors (run depth) (inside scope) scope (setProperty o name v)
          (withCalls (run depth) (watching scope (setProperty o name v))) :=
        outside fun _ _ _ h => watcher_of_run (fun S => inferInstance) h
      infer_instance
    | null | bool | number | text | array | template => infer_instance
  | push array value =>
    unfold evalIn Machine.evalExpr
    refine .bind fun target => .bind fun v => ?_
    cases target with
    | array a =>
      have ha : Mirrors (run depth) (inside scope) scope (pushItem a v)
          (withCalls (run depth) (watching scope (pushItem a v))) :=
        outside fun _ _ _ h => watcher_of_run (fun S => inferInstance) h
      infer_instance
    | null | bool | number | text | object | template => infer_instance
  | perform command =>
    exact outside fun _ _ _ h => watcher_of_run (fun S => inferInstance) h

end Mirrors

/-- **The two ways of evaluating come to the same**, to any depth. -/
theorem run_eq_runIn (depth : Nat) (scope : Option ObserverId) (e : Expr) (env : Env) (w : World) :
    run depth (.eval e env) { w with watcher := scope } =
      watchedBy scope (runIn depth scope (.eval e env) w) := by
  induction depth generalizing scope e env w with
  | zero => rfl
  | succ depth ih =>
    exact (Mirrors.evalExpr (fun inner e env => ⟨ih inner e env⟩) e env).eq w

/-- From outside, an observer evaluates its expression in a scope as well. -/
theorem observe_eq_observing (depth : Nat) (o : ObserverId) (source : Value) (context : ContextId)
    (w : World) :
    observe o source context (run depth) w =
      watchedBy w.watcher (observing o (fun scope e =>
        withCalls (runIn depth scope) (eval e ⟨source, context, .null⟩)) (run depth) w) :=
  (Mirrors.observe (fun scope e env => ⟨run_eq_runIn depth scope e env⟩) o source context).eq w

end Machine

end ReactiveViews
