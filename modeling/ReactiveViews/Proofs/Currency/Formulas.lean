import ReactiveViews.Proofs.Attribution
import ReactiveViews.Proofs.Planted
import ReactiveViews.Proofs.Registrations
/-!
# Formulas

An expression that does nothing but compute a value from properties is a *formula*. What it comes to can
be said without running anything: `World.compute?` gives its value and the properties that it reads on
the way, in order, and nothing if it is no formula.

Formulas have two uses. A value depends on nothing but the properties that were read
(`World.compute?_agree`). And running a formula comes to that value and leaves the world as it was, but
for the watcher, who has recorded exactly these reads and is subscribed to all of them
(`Machine.runUnder_runsFormulas`).
-/

namespace ReactiveViews

/-- A read of a property of an object. -/
abbrev PropertyRead := ObjectId × String

/-- **Reading.** A value with the properties read for it; or nothing. -/
abbrev Reading (α : Type) := Option (α × List PropertyRead)

namespace Reading

variable {α β : Type}

/-- A value for which nothing is read. -/
def of (a : α) : Reading α := some (a, [])

/-- One reading, and then another. -/
def andThen (x : Reading α) (f : α → Reading β) : Reading β :=
  match x with
  | none => none
  | some (a, reads) => (f a).map fun (b, more) => (b, reads ++ more)

theorem andThen_eq_some {x : Reading α} {f : α → Reading β} {b : β} {reads : List PropertyRead}
    (h : x.andThen f = some (b, reads)) :
    ∃ a first rest, x = some (a, first) ∧ f a = some (b, rest) ∧ reads = first ++ rest := by
  unfold andThen at h
  split at h
  · exact absurd h (by simp)
  · next a first =>
    obtain ⟨⟨b', rest⟩, hf, he⟩ := Option.map_eq_some_iff.mp h
    obtain ⟨rfl, rfl⟩ := Prod.mk.inj he
    exact ⟨a, first, rest, rfl, hf, rfl⟩

theorem andThen_of_eq_some {x : Reading α} {f : α → Reading β} {a : α} {b : β}
    {first rest : List PropertyRead} (hx : x = some (a, first)) (hf : f a = some (b, rest)) :
    x.andThen f = some (b, first ++ rest) := by
  rw [hx, andThen, hf]
  rfl

end Reading

namespace World

/-- What a literal stands for, if that is there already. -/
def literal? (w : World) : Literal → Option Value
  | .null => some .null
  | .bool b => some (.bool b)
  | .number n => some (.number n)
  | .text s => some (.text s)
  | .handle name => some (w.valueOfHandle name)
  | .object _ _ => none
  | .array _ => none

/-- A property of a value; what is no object has none. -/
def propertyOf (w : World) (v : Value) (name : String) : Reading Value :=
  match v with
  | .object o => some (w.peek o name, [(o, name)])
  | _ => .of .null

mutual

/-- **Formulas.** What a formula comes to and the properties that it reads on the way. -/
def compute? (w : World) (env : Env) : Expr → Reading Value
  | .literal l => (w.literal? l).bind Reading.of
  | .constant v => .of v
  | .source => .of env.source
  | .extra => .of env.extra
  | .get e name => (w.compute? env e).andThen fun v => w.propertyOf v name
  | .cat parts => (w.computeTexts? env parts).andThen fun text => .of (.text text)
  | .seq parts => w.computeLast? env .null parts
  | .cond test onTrue onFalse => (w.compute? env test).andThen fun v =>
    if v.truthy then w.compute? env onTrue else w.compute? env onFalse
  | .not e => (w.compute? env e).andThen fun v => .of (.bool !v.truthy)
  | .eq a b => (w.compute? env a).andThen fun x => (w.compute? env b).andThen fun y =>
    .of (.bool (x.same y))
  | .add a b => (w.compute? env a).andThen fun x => (w.compute? env b).andThen fun y =>
    .of (.number (x.asNumber + y.asNumber))
  | .less a b => (w.compute? env a).andThen fun x => (w.compute? env b).andThen fun y =>
    .of (.bool (x.asNumber < y.asNumber))
  | _ => none

/-- The texts of formulas, joined. -/
def computeTexts? (w : World) (env : Env) : List Expr → Reading String
  | [] => .of ""
  | e :: rest => (w.compute? env e).andThen fun v =>
    (w.computeTexts? env rest).andThen fun text => .of (w.display v ++ text)

/-- The value of the last of some formulas. -/
def computeLast? (w : World) (env : Env) : Value → List Expr → Reading Value
  | last, [] => .of last
  | _, e :: rest => (w.compute? env e).andThen fun v => w.computeLast? env v rest

end

/-! ## What a value depends on -/

/-- Two worlds agree on some properties, and on what handles and values stand for. -/
structure AgreesOn (w w' : World) (reads : List PropertyRead) : Prop where
  peek : ∀ r ∈ reads, w'.peek r.1 r.2 = w.peek r.1 r.2
  handle : ∀ name, w'.valueOfHandle name = w.valueOfHandle name
  display : ∀ v, w'.display v = w.display v

section Agree

variable {w w' : World} {env : Env} {reads first rest : List PropertyRead}

theorem AgreesOn.left (h : w.AgreesOn w' (first ++ rest)) : w.AgreesOn w' first :=
  ⟨fun r hr => h.peek r (List.mem_append_left _ hr), h.handle, h.display⟩

theorem AgreesOn.right (h : w.AgreesOn w' (first ++ rest)) : w.AgreesOn w' rest :=
  ⟨fun r hr => h.peek r (List.mem_append_right _ hr), h.handle, h.display⟩

theorem literal?_agree (h : w.AgreesOn w' reads) (l : Literal) : w'.literal? l = w.literal? l := by
  cases l with
  | handle name => rw [literal?, literal?, h.handle]
  | _ => rfl

theorem propertyOf_agree {v a : Value} {name : String} (hv : w.propertyOf v name = some (a, reads))
    (h : w.AgreesOn w' reads) : w'.propertyOf v name = some (a, reads) := by
  cases v with
  | object o =>
    obtain ⟨rfl, rfl⟩ := Prod.mk.inj (Option.some.inj hv)
    rw [propertyOf, h.peek (o, name) (List.mem_singleton.mpr rfl)]
  | _ => exact hv

/-- A reading that goes on comes to the same in another world if both parts do. -/
theorem andThen_agree {α β : Type} {x x' : Reading α} {f f' : α → Reading β} {b : β}
    (hx : ∀ {a reads}, x = some (a, reads) → w.AgreesOn w' reads → x' = some (a, reads))
    (hf : ∀ {a b reads}, f a = some (b, reads) → w.AgreesOn w' reads → f' a = some (b, reads))
    (h : x.andThen f = some (b, reads)) (ha : w.AgreesOn w' reads) :
    x'.andThen f' = some (b, reads) := by
  obtain ⟨a, first, rest, hfirst, hrest, rfl⟩ := Reading.andThen_eq_some h
  exact Reading.andThen_of_eq_some (hx hfirst ha.left) (hf hrest ha.right)

mutual

/-- **A value depends on what was read.** -/
theorem compute?_agree {e : Expr} {v : Value} {reads : List PropertyRead}
    (h : w.compute? env e = some (v, reads)) (ha : w.AgreesOn w' reads) :
    w'.compute? env e = some (v, reads) := by
  cases e with
  | literal l =>
    rw [compute?, literal?_agree ha]
    rwa [compute?] at h
  | constant | source | extra => rwa [compute?] at h ⊢
  | get e name =>
    rw [compute?] at h ⊢
    exact andThen_agree compute?_agree propertyOf_agree h ha
  | cat parts =>
    rw [compute?] at h ⊢
    exact andThen_agree computeTexts?_agree (fun h _ => h) h ha
  | seq parts =>
    rw [compute?] at h ⊢
    exact computeLast?_agree h ha
  | cond test onTrue onFalse =>
    rw [compute?] at h ⊢
    refine andThen_agree compute?_agree (fun {a b reads} h ha => ?_) h ha
    split <;> rename_i hc
    · rw [if_pos hc] at h
      exact compute?_agree h ha
    · rw [if_neg hc] at h
      exact compute?_agree h ha
  | not e =>
    rw [compute?] at h ⊢
    exact andThen_agree compute?_agree (fun h _ => h) h ha
  | eq a b | add a b | less a b =>
    rw [compute?] at h ⊢
    exact andThen_agree compute?_agree
      (fun h ha => andThen_agree compute?_agree (fun h _ => h) h ha) h ha
  | _ => exact absurd h (by simp [compute?])

theorem computeTexts?_agree {parts : List Expr} {text : String} {reads : List PropertyRead}
    (h : w.computeTexts? env parts = some (text, reads)) (ha : w.AgreesOn w' reads) :
    w'.computeTexts? env parts = some (text, reads) := by
  cases parts with
  | nil => rwa [computeTexts?] at h ⊢
  | cons e rest =>
    rw [computeTexts?] at h ⊢
    refine andThen_agree compute?_agree (fun h ha => ?_) h ha
    refine andThen_agree computeTexts?_agree (fun h ha => ?_) h ha
    rw [ha.display]
    exact h

theorem computeLast?_agree {parts : List Expr} {last v : Value} {reads : List PropertyRead}
    (h : w.computeLast? env last parts = some (v, reads)) (ha : w.AgreesOn w' reads) :
    w'.computeLast? env last parts = some (v, reads) := by
  cases parts with
  | nil => rwa [computeLast?] at h ⊢
  | cons e rest =>
    rw [computeLast?] at h ⊢
    exact andThen_agree compute?_agree computeLast?_agree h ha

end

end Agree

/-! ## What reading does -/

/-- **Live.** A record is of an observable property of an object that has been made, and the observer is
subscribed to that. -/
def Live (w : World) (o : ObserverId) (r : Record) : Prop :=
  ∃ x, r.source = .object x ∧ x.index < w.objects.size ∧ w.isObservable x r.name = true ∧
    (w.objects.get x).notifier = some r.notifier ∧ w.Registered o r.notifier (some r.name)

/-- An observer has a record of a read. -/
def HasRecord (w : World) (o : ObserverId) (read : PropertyRead) : Prop :=
  ∃ r ∈ (w.observers.get o).records, r.source = .object read.1 ∧ r.name = read.2

/-- The property that was read can be tracked. -/
def Tracks (w : World) (read : PropertyRead) : Prop :=
  read.1.index < w.objects.size ∧ w.isObservable read.1 read.2 = true

/-- **Standing.** What there is stands: what has been made is there, what was observed still is, and handles
and values stand for the same. -/
structure Stands (w w' : World) : Prop where
  made : w.objects.size ≤ w'.objects.size
  observable : ∀ o name, w'.isObservable o name = w.isObservable o name
  notifier : ∀ {o n}, (w.objects.get o).notifier = some n → (w'.objects.get o).notifier = some n
  handle : ∀ name, w'.valueOfHandle name = w.valueOfHandle name
  display : ∀ v, w'.display v = w.display v

/-- **The same values.** What there is stands, and properties have the values that they had. -/
structure SameValues (w w' : World) : Prop extends w.Stands w' where
  peek : ∀ o name, w'.peek o name = w.peek o name

/-- **Noting reads.** The watcher, if there is one, has recorded some reads and is subscribed to them, and
nothing else has happened. -/
structure Noting (w w' : World) (reads : List PropertyRead) : Prop extends w.SameValues w' where
  watcher : w'.watcher = w.watcher
  behaviors : w'.behaviors = w.behaviors
  document : w'.document = w.document
  registered : ∀ {o n topic}, w.Registered o n topic → w'.Registered o n topic
  others : ∀ o, w.watcher ≠ some o → w'.observers.get o = w.observers.get o
  self : ∀ o, w.watcher = some o → ∃ records refreshed,
    w'.observers.get o = { w.observers.get o with
      records := (w.observers.get o).records ++ records, needsRefresh := refreshed } ∧
    ((w.observers.get o).needsRefresh = true → refreshed = true) ∧
    (∀ r ∈ records, w'.Live o r) ∧
    ∀ read ∈ reads, ∃ r ∈ records, r.source = .object read.1 ∧ r.name = read.2

section Noting

variable {w w' w'' : World} {reads first rest : List PropertyRead} {o : ObserverId} {r : Record}
  {read : PropertyRead}

/-- What stands with the same arrays and handles. -/
theorem Stands.of_eq (ha : w'.arrays = w.arrays) (hh : w'.handles = w.handles)
    (hs : w.objects.size ≤ w'.objects.size)
    (ho : ∀ o name, w'.isObservable o name = w.isObservable o name)
    (hn : ∀ {o n}, (w.objects.get o).notifier = some n → (w'.objects.get o).notifier = some n) :
    w.Stands w' where
  made := hs
  observable := ho
  notifier := hn
  handle name := by rw [valueOfHandle, valueOfHandle, hh]
  display v := by rw [Machine.Mirrors.display_of_arrays ha]

theorem Stands.trans (h : w.Stands w') (h' : w'.Stands w'') : w.Stands w'' where
  made := Nat.le_trans h.made h'.made
  observable o name := (h'.observable o name).trans (h.observable o name)
  notifier hn := h'.notifier (h.notifier hn)
  handle name := (h'.handle name).trans (h.handle name)
  display v := (h'.display v).trans (h.display v)

/-- What is done besides to what formulas are about. -/
theorem SameValues.of_eq (ho : w'.objects = w.objects)
    (hr : w'.registry = w.registry) (ha : w'.arrays = w.arrays) (hh : w'.handles = w.handles) :
    w.SameValues w' where
  toStands := .of_eq ha hh (Nat.le_of_eq (congrArg Store.size ho.symm))
    (fun o name => by rw [isObservable, isObservable, typeOf, typeOf, ho, hr])
    fun hn => by rwa [ho]
  peek o name := by rw [World.peek, ho, World.peek]

theorem SameValues.refl (w : World) : w.SameValues w := .of_eq rfl rfl rfl rfl

theorem SameValues.trans (h : w.SameValues w') (h' : w'.SameValues w'') : w.SameValues w'' where
  toStands := h.toStands.trans h'.toStands
  peek o name := (h'.peek o name).trans (h.peek o name)

theorem SameValues.agreesOn (h : w.SameValues w') (reads : List PropertyRead) : w.AgreesOn w' reads :=
  ⟨fun r _ => h.peek r.1 r.2, h.handle, h.display⟩

theorem Tracks.stands (ht : w.Tracks read) (h : w.Stands w') : w'.Tracks read :=
  ⟨Nat.lt_of_lt_of_le ht.1 h.made, (h.observable _ _).trans ht.2⟩

/-- A live record stays so while values are observed and its observer is registered. -/
theorem Live.stands (hr : w.Live o r) (h : w.Stands w')
    (hn : w.Registered o r.notifier (some r.name) → w'.Registered o r.notifier (some r.name)) :
    w'.Live o r := by
  obtain ⟨x, hs, hx, ho, hnotifier, hr⟩ := hr
  exact ⟨x, hs, Nat.lt_of_lt_of_le hx h.made, (h.observable _ _).trans ho, h.notifier hnotifier, hn hr⟩

theorem Noting.refl (w : World) : w.Noting w [] where
  toSameValues := .refl w
  watcher := rfl
  behaviors := rfl
  document := rfl
  registered := id
  others _ _ := rfl
  self o _ := ⟨[], (w.observers.get o).needsRefresh, by simp, id, by simp, by simp⟩

theorem Noting.trans (h : w.Noting w' first) (h' : w'.Noting w'' rest) :
    w.Noting w'' (first ++ rest) where
  toSameValues := h.toSameValues.trans h'.toSameValues
  watcher := h'.watcher.trans h.watcher
  behaviors := h'.behaviors.trans h.behaviors
  document := h'.document.trans h.document
  registered hr := h'.registered (h.registered hr)
  others o ho := (h'.others o (h.watcher ▸ ho)).trans (h.others o ho)
  self o ho := by
    obtain ⟨records, refreshed, hself, hkeeps, hlive, hreads⟩ := h.self o ho
    obtain ⟨records', refreshed', hself', hkeeps', hlive', hreads'⟩ := h'.self o (h.watcher ▸ ho)
    refine ⟨records ++ records', refreshed', ?_, fun hr => ?_, fun r hr => ?_, fun read hm => ?_⟩
    · rw [hself', hself]
      simp
    · exact hkeeps' (by rw [hself]; exact hkeeps hr)
    · obtain hr | hr := List.mem_append.mp hr
      · exact (hlive r hr).stands h'.toStands h'.registered
      · exact hlive' r hr
    · obtain hm | hm := List.mem_append.mp hm
      · obtain ⟨r, hr, he⟩ := hreads read hm
        exact ⟨r, List.mem_append_left _ hr, he⟩
      · obtain ⟨r, hr, he⟩ := hreads' read hm
        exact ⟨r, List.mem_append_right _ hr, he⟩

/-- What happens besides recording. -/
theorem Noting.idle (h : w.SameValues w') (hw : w'.watcher = w.watcher)
    (hb : w'.behaviors = w.behaviors) (hd : w'.document = w.document)
    (hr : ∀ {o n topic}, w.Registered o n topic → w'.Registered o n topic)
    (ho : ∀ o, w'.observers.get o = w.observers.get o) : w.Noting w' [] where
  toSameValues := h
  watcher := hw
  behaviors := hb
  document := hd
  registered := hr
  others o _ := ho o
  self o _ := ⟨[], (w.observers.get o).needsRefresh, by simp [ho], id, by simp, by simp⟩

/-- Where nobody watches nothing is recorded. -/
theorem Noting.unwatched (hw : w.watcher = none) (reads : List PropertyRead) : w.Noting w reads where
  toSameValues := .refl w
  watcher := rfl
  behaviors := rfl
  document := rfl
  registered := id
  others _ _ := rfl
  self o ho := absurd (hw.symm.trans ho) (by simp)

end Noting

end World

/-- Laying out the accessors of one type changes nothing for others. -/
theorem Registry.accessors_again (r : Registry) (type type' : String) :
    ((r.accessors type).2.1.accessors type').1 = (r.accessors type').1 := by
  unfold accessors
  cases ht : r.flattened.find? type with
  | some known => rfl
  | none =>
    dsimp only
    rw [Keyed.find?_put]
    by_cases he : type = type'
    · subst he
      rw [if_pos rfl, ht]
    · rw [if_neg he]
      cases r.flattened.find? type' <;> rfl

namespace World

variable {w : World}

/-- The world in which the accessors of a type have been looked up. -/
def lookedUp (w : World) (type : String) (log : List LogEntry) : World :=
  { w with registry := (w.registry.accessors type).2.1, log }

theorem sameValues_lookedUp (w : World) (type : String) (log : List LogEntry) :
    w.SameValues (w.lookedUp type log) where
  toStands := by
    refine .of_eq rfl rfl (Nat.le_refl _) (fun o name => ?_) id
    rw [isObservable, isObservable]
    show (((w.registry.accessors type).2.1.accessors (w.typeOf o)).1.find? name).isSome = _
    rw [Registry.accessors_again]
  peek _ _ := rfl

theorem noting_lookedUp (w : World) (type : String) (log : List LogEntry) :
    w.Noting (w.lookedUp type log) [] :=
  .idle (sameValues_lookedUp w type log) rfl rfl rfl id fun _ => rfl

/-- An object is given a notifier when it is first observed. -/
theorem noting_newNotifier {o : ObjectId} (hn : (w.objects.get o).notifier = none) :
    w.Noting { w with
      notifiers := (w.notifiers.add ⟨[]⟩).2
      objects := w.objects.modify o fun s =>
        { s with notifier := some (w.notifiers.add ⟨[]⟩).1 } } [] := by
  have hget : ∀ x, (w.objects.modify o fun s =>
      { s with notifier := some (w.notifiers.add ⟨[]⟩).1 }).get x =
        if o = x then { w.objects.get o with notifier := some (w.notifiers.add ⟨[]⟩).1 }
        else w.objects.get x := fun x => Store.get_modify _ _ _ _
  have hfields : ∀ x, ((w.objects.modify o fun s =>
      { s with notifier := some (w.notifiers.add ⟨[]⟩).1 }).get x).fields =
        (w.objects.get x).fields := by
    intro x
    rw [hget]
    split
    · next he => rw [← he]
    · rfl
  have htype : ∀ x, ((w.objects.modify o fun s =>
      { s with notifier := some (w.notifiers.add ⟨[]⟩).1 }).get x).typeName =
        (w.objects.get x).typeName := by
    intro x
    rw [hget]
    split
    · next he => rw [← he]
    · rfl
  refine .idle ⟨.of_eq rfl rfl (Store.size_le_modify _ _ _) (fun x name => ?_) fun {x n} hx => ?_,
    peek_of_fields hfields⟩ rfl rfl rfl (fun {o' n topic} hr => ?_) fun _ => rfl
  · rw [isObservable, isObservable, typeOf, htype]
    rfl
  · show ((w.objects.modify o _).get x).notifier = some n
    rw [hget, if_neg]
    · exact hx
    · rintro rfl
      exact absurd (hn.symm.trans hx) (by simp)
  · exact mem_newNotifier.mpr hr

/-- A watcher records a read of a property and subscribes to it. -/
theorem noting_recordRead {o : ObserverId} {x : ObjectId} {name : String} {n : NotifierId}
    (hw : w.watcher = some o) (ht : w.Tracks (x, name))
    (hn : (w.objects.get x).notifier = some n) :
    w.Noting (w.recordRead o (.object x) name n) [(x, name)] where
  toSameValues := .of_eq rfl rfl rfl rfl
  watcher := rfl
  behaviors := rfl
  document := rfl
  registered {o' n' topic} hr := by
    show _ ∈ ((w.notifiers.modify n _).get n').subscriptions
    rw [Store.get_modify]
    split
    · next he => exact Notifier.mem_subscribe_of_mem (he ▸ hr) _ _
    · exact hr
  others o' ho' := by
    show (w.observers.modify o _).get o' = _
    rw [Store.get_modify, if_neg]
    rintro rfl
    exact ho' hw
  self o' ho' := by
    obtain rfl : o = o' := Option.some.inj (hw.symm.trans ho')
    refine ⟨[⟨.object x, name, n⟩], (w.observers.get o).needsRefresh ||
      Machine.continuesChain w (w.observers.get o).records (.object x), ?_, fun hr => ?_, fun r hr => ?_, fun read hm => ?_⟩
    · exact (Store.get_modify _ _ _ _).trans (if_pos rfl)
    · rw [hr]
      rfl
    · obtain rfl := List.mem_singleton.mp hr
      refine ⟨x, rfl, ht.1, ht.2, hn, ?_⟩
      show _ ∈ ((w.notifiers.modify n _).get n).subscriptions
      rw [Store.get_modify, if_pos rfl]
      exact Notifier.mem_subscribe _ _ _
    · obtain rfl := List.mem_singleton.mp hm
      exact ⟨_, List.mem_singleton.mpr rfl, rfl, rfl⟩

end World

namespace Machine

variable {w w' : World} {calls : Calls}

/-- Looking up an accessor changes the layouts that are remembered, and may be worth a warning. -/
theorem accessorOf?_apply (type name : String) (calls : Calls) (w : World) :
    ∃ log, accessorOf? type name calls w =
      some (.ok ((w.registry.accessors type).1.find? name), w.lookedUp type log) := by
  unfold accessorOf? accessorsOf
  rw [bind_apply, bind_apply, get_apply]
  dsimp only
  rw [bind_apply, modify_apply]
  dsimp only
  cases (w.registry.accessors type).2.2 <;> exact ⟨_, rfl⟩

/-- An object has a notifier, or is given one. -/
theorem objectNotifier_notes (o : ObjectId) (calls : Calls) (w : World) :
    ∃ n w', objectNotifier o calls w = some (.ok n, w') ∧ w.Noting w' [] ∧
      (w'.objects.get o).notifier = some n := by
  unfold objectNotifier
  rw [bind_apply, read_apply]
  dsimp only
  cases hn : (w.objects.get o).notifier with
  | some n => exact ⟨n, w, rfl, .refl w, hn⟩
  | none =>
    refine ⟨_, _, rfl, World.noting_newNotifier hn, ?_⟩
    exact congrArg ObjectState.notifier ((Store.get_modify _ _ _ _).trans (if_pos rfl))

/-- **Reading a property** gives its value and notes the read. -/
theorem getProperty_notes {o : ObjectId} {name : String} (ht : w.Tracks (o, name)) (calls : Calls) :
    ∃ w', getProperty o name calls w = some (.ok (w.peek o name), w') ∧
      w.Noting w' [(o, name)] := by
  unfold getProperty
  rw [bind_apply, get_apply]
  dsimp only
  cases hw : w.watcher with
  | none => exact ⟨w, rfl, .unwatched hw _⟩
  | some watcher =>
    obtain ⟨log, hfound⟩ := accessorOf?_apply (w.typeOf o) name calls w
    have hlooked := World.noting_lookedUp w (w.typeOf o) log
    have ht₁ := ht.stands hlooked.toStands
    obtain ⟨n, w₂, hnotifier, hnoting, hn⟩ := objectNotifier_notes o calls _
    replace hnotifier : observableNotifier (.object o) calls (w.lookedUp (w.typeOf o) log) =
      some (.ok n, w₂) := hnotifier
    have hattempt : attempt (observableNotifier (.object o)) calls (w.lookedUp (w.typeOf o) log) =
        some (.ok (.ok n), w₂) := by
      unfold attempt
      rw [hnotifier]
    have hobservable : ((w.registry.accessors (w.typeOf o)).1.find? name).isSome = true := ht.2
    have hnoted := hlooked.trans (hnoting.trans (World.noting_recordRead
      ((hlooked.trans hnoting).watcher.trans hw) (ht₁.stands hnoting.toStands) hn))
    refine ⟨_, ?_, hnoted⟩
    dsimp only
    rw [bind_apply, read_apply]
    dsimp only
    rw [bind_apply, hfound]
    dsimp only
    rw [if_pos hobservable, watch, bind_apply, bind_apply, hattempt]
    exact congrArg (fun v : Value => some (Except.ok v, w₂.recordRead watcher (.object o) name n))
      (hnoted.peek o name)

/-! ## Running a formula -/

/-- **Giving a reading.** If the computation comes to an end, and what is read can be tracked, it gives
the value and has noted the reads. -/
structure Gives {α : Type} (calls : Calls) (m : Machine α) (w : World) (x : Reading α) : Prop where
  gives : ∀ {a reads r w'}, x = some (a, reads) → (∀ read ∈ reads, w.Tracks read) →
    m calls w = some (r, w') → r = .ok a ∧ w.Noting w' reads

namespace Gives

variable {α β : Type} {m : Machine α} {f : α → Machine β} {x x' : Reading α} {g : α → Reading β}

theorem pure (a : α) : Gives calls (pure a) w (.of a) := by
  refine ⟨fun hx _ h => ?_⟩
  obtain ⟨rfl, rfl⟩ := Prod.mk.inj (Option.some.inj hx)
  obtain ⟨rfl, rfl⟩ := Prod.mk.inj (Option.some.inj h)
  exact ⟨rfl, .refl w⟩

theorem bind (hm : Gives calls m w x) (hf : ∀ a w', w.SameValues w' → Gives calls (f a) w' (g a)) :
    Gives calls (m >>= f) w (x.andThen g) := by
  refine ⟨fun hx ht h => ?_⟩
  obtain ⟨a, first, rest, hfirst, hrest, rfl⟩ := Reading.andThen_eq_some hx
  have ht₁ : ∀ read ∈ first, w.Tracks read := fun read hr => ht read (List.mem_append_left _ hr)
  obtain ⟨e, hme, -⟩ | ⟨a', w₁, hma, h⟩ := bind_eq_some h
  · exact absurd (hm.gives hfirst ht₁ hme).1 (by simp)
  · obtain ⟨ha, hnoting⟩ := hm.gives hfirst ht₁ hma
    obtain rfl := Except.ok.inj ha
    obtain ⟨hr, hnoting'⟩ := (hf a' w₁ hnoting.toSameValues).gives hrest
      (fun read hr => (ht read (List.mem_append_right _ hr)).stands hnoting.toStands) h
    exact ⟨hr, hnoting.trans hnoting'⟩

/-- What is looked up. -/
theorem read (f : World → α) : Gives calls (Machine.read f) w (.of (f w)) := by
  refine ⟨fun hx _ h => ?_⟩
  obtain ⟨rfl, rfl⟩ := Prod.mk.inj (Option.some.inj hx)
  obtain ⟨rfl, rfl⟩ := Prod.mk.inj (Option.some.inj h)
  exact ⟨rfl, .refl w⟩

/-- A reading that is known where another one is. -/
theorem of_le (h : Gives calls m w x') (hx : ∀ {a reads}, x = some (a, reads) → x' = some (a, reads)) :
    Gives calls m w x := ⟨fun ha ht hm => h.gives (hx ha) ht hm⟩

/-- A text is taken of a value where it is needed. -/
theorem read_display {w₀ : World} (h : w₀.SameValues w) {v : Value} {f : String → Machine α}
    {x : Reading α} (hf : Gives calls (f (w₀.display v)) w x) :
    Gives calls (Machine.read (·.display v) >>= f) w x := by
  refine ⟨fun hx ht hm => hf.gives hx ht ?_⟩
  rwa [bind_apply, read_apply, h.display] at hm

/-- Nothing is said of what is no formula. -/
theorem of_none (h : x = none) : Gives calls m w x :=
  ⟨fun hx => absurd (h.symm.trans hx) (by simp)⟩

end Gives

/-- Calls run formulas. -/
def RunsFormulas (calls : Calls) : Prop :=
  ∀ e env w, Gives calls (eval e env) w (w.compute? env e)

namespace RunsFormulas

variable {w₀ : World}

/-- A formula comes to the same wherever values are the same. -/
theorem eval (hc : RunsFormulas calls) (h : w₀.SameValues w) (e : Expr) (env : Env) :
    Gives calls (eval e env) w (w₀.compute? env e) :=
  (hc e env w).of_le fun hx => World.compute?_agree hx (h.agreesOn _)

theorem property (h : w₀.SameValues w) (v : Value) (name : String) :
    Gives calls (match v with
      | .object o => getProperty o name
      | _ => pure .null) w (w₀.propertyOf v name) := by
  cases v with
  | object o =>
    refine ⟨fun hx ht hm => ?_⟩
    obtain ⟨rfl, rfl⟩ := Prod.mk.inj (Option.some.inj hx)
    obtain ⟨w₁, hget, hnoting⟩ := getProperty_notes (ht _ (List.mem_singleton.mpr rfl)) calls
    obtain ⟨rfl, rfl⟩ := Prod.mk.inj (Option.some.inj (hm.symm.trans hget))
    exact ⟨congrArg Except.ok (h.peek o name), hnoting⟩
  | _ => exact .pure _

theorem evalTexts (hc : RunsFormulas calls) (h : w₀.SameValues w) (parts : List Expr) (env : Env) :
    Gives calls (evalTexts env parts) w (w₀.computeTexts? env parts) := by
  induction parts generalizing w with
  | nil =>
    rw [Machine.evalTexts, World.computeTexts?]
    exact .pure _
  | cons e rest ih =>
    rw [Machine.evalTexts, World.computeTexts?]
    refine (hc.eval h e env).bind fun v w₁ h₁ => ?_
    refine .read_display (h.trans h₁) ?_
    exact (ih (h.trans h₁)).bind fun text w₂ _ => .pure _

theorem evalLast (hc : RunsFormulas calls) (h : w₀.SameValues w) (parts : List Expr) (env : Env)
    (last : Value) : Gives calls (evalLast env last parts) w (w₀.computeLast? env last parts) := by
  induction parts generalizing w last with
  | nil =>
    rw [Machine.evalLast, World.computeLast?]
    exact .pure _
  | cons e rest ih =>
    rw [Machine.evalLast, World.computeLast?]
    exact (hc.eval h e env).bind fun v w₁ h₁ => ih (h.trans h₁) v

/-- Two operands, and what is made of their values. -/
theorem operands (hc : RunsFormulas calls) (a b : Expr) (env : Env) (f : Value → Value → Value)
    (w : World) :
    Gives calls (do
      let x ← Machine.eval a env
      let y ← Machine.eval b env
      return f x y) w
      ((w.compute? env a).andThen fun x => (w.compute? env b).andThen fun y => .of (f x y)) :=
  (hc a env w).bind fun _ _ h => (hc.eval h b env).bind fun _ _ _ => .pure _

/-- **An expression that is a formula** comes to what it computes, if calls do. -/
theorem evalExpr (hc : RunsFormulas calls) (e : Expr) (env : Env) (w : World) :
    Gives calls (evalExpr e env) w (w.compute? env e) := by
  cases e with
  | literal l =>
    rw [World.compute?]
    cases l with
    | null | bool | number | text => exact .pure _
    | handle name => exact .read (·.valueOfHandle name)
    | object | array => exact .of_none rfl
  | constant | source | extra =>
    rw [World.compute?]
    exact .pure _
  | get e name =>
    rw [World.compute?]
    exact (hc e env w).bind fun v w₁ h => property h v name
  | cat parts =>
    rw [World.compute?]
    exact (hc.evalTexts (.refl w) parts env).bind fun _ _ _ => .pure _
  | seq parts =>
    rw [World.compute?]
    exact hc.evalLast (.refl w) parts env .null
  | cond test onTrue onFalse =>
    rw [World.compute?]
    refine (hc test env w).bind fun v w₁ h => ?_
    split
    · exact hc.eval h onTrue env
    · exact hc.eval h onFalse env
  | not e =>
    rw [World.compute?]
    exact (hc e env w).bind fun _ _ _ => .pure _
  | eq a b =>
    rw [World.compute?]
    exact hc.operands a b env (fun x y => .bool (x.same y)) w
  | add a b =>
    rw [World.compute?]
    exact hc.operands a b env (fun x y => .number (x.asNumber + y.asNumber)) w
  | less a b =>
    rw [World.compute?]
    exact hc.operands a b env (fun x y => .bool (x.asNumber < y.asNumber)) w
  | _ => exact .of_none (by simp [World.compute?])

end RunsFormulas

/-- **Running a formula** comes to what it computes, and notes what it reads. -/
theorem runUnder_runsFormulas (allowed : Call → World → Bool) (depth : Nat) :
    RunsFormulas (runUnder allowed depth) := by
  induction depth with
  | zero => exact fun e env w => ⟨fun _ _ h => absurd h (by simp [eval, call, runUnder])⟩
  | succ depth ih =>
    exact fun e env w => ⟨fun hx ht h =>
      (RunsFormulas.evalExpr ih e env w).gives hx ht (runUnder_succ h).2⟩

end Machine

end ReactiveViews
