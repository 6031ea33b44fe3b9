import ReactiveViews.Proofs.Change
import ReactiveViews.Proofs.History
/-!
# What an array says and somebody hears

An array that is observed takes up the splices it undergoes and publishes them later, in
the middle of which subscribers may change it again. For somebody who listens to
everything the array says, there is a *ledger* at every moment: the splices heard, those
on the way, and those that wait to be published, one after another. Whatever happens to
the array is entered in the ledger at its end (`Splice.Grows`), and publishing only moves
entries forward in it. So what has been heard since a moment at which nothing waited,
together with what waits now, carries the items of that moment to the items of now.

What is on the way cannot be seen in the world. It is a parameter of what is said about
the ledger: a computation may assume that something is on the way if the array is being
published around it. If the array were published once more inside its own publication,
the splices taken up last would be told first.
-/

namespace ReactiveViews

namespace World

/-- The splices that a scripted subscriber has been told, in order. -/
def heard (w : World) (s : SubscriberId) : List Splice :=
  (w.subscribers.get s).told.reverse.flatMap Change.history

/-- The splices of an array that wait to be published. -/
def pending (w : World) (a : ArrayId) : List Splice :=
  match (w.arrays.get a).observer with
  | some o => o.pending
  | none => []

/-- A scripted subscriber listens to everything that something says. -/
def Listens (w : World) (s : SubscriberId) : Prop :=
  ∃ n, ⟨none, .scripted s⟩ ∈ (w.notifiers.get n).subscriptions

/-- **Devoted.** The array is observed, buffered, and the subscriber listens to everything
nowhere else. -/
def Devoted (w : World) (a : ArrayId) (s : SubscriberId) : Prop :=
  ∃ o, (w.arrays.get a).observer = some o ∧ o.isImmediate = false ∧
    ∀ n, ⟨none, .scripted s⟩ ∈ (w.notifiers.get n).subscriptions → n = o.notifier

/-- Nobody has subscribed to a notifier that has not been made. -/
theorem mem_refs_of_mem {w : World} {n : NotifierId} {x : Subscription}
    (h : x ∈ (w.notifiers.get n).subscriptions) : n ∈ w.notifiers.refs := by
  refine Store.mem_refs.mpr (w.notifiers.index_lt_of_get_ne fun hd => ?_)
  rw [hd] at h
  exact absurd h List.not_mem_nil

instance (w : World) (s : SubscriberId) : Decidable (w.Listens s) :=
  decidable_of_iff
    (∃ n ∈ w.notifiers.refs, ⟨none, .scripted s⟩ ∈ (w.notifiers.get n).subscriptions)
    ⟨fun ⟨n, _, h⟩ => ⟨n, h⟩, fun ⟨n, h⟩ => ⟨n, mem_refs_of_mem h, h⟩⟩

instance (w : World) (a : ArrayId) (s : SubscriberId) : Decidable (w.Devoted a s) :=
  match ho : (w.arrays.get a).observer with
  | none => .isFalse fun ⟨_, h, _⟩ => absurd (ho.symm.trans h) nofun
  | some o =>
    decidable_of_iff (o.isImmediate = false ∧ ∀ n ∈ w.notifiers.refs,
        ⟨none, .scripted s⟩ ∈ (w.notifiers.get n).subscriptions → n = o.notifier)
      ⟨fun ⟨hb, h⟩ => ⟨o, ho, hb, fun n hn => h n (mem_refs_of_mem hn) hn⟩, fun ⟨p, hp, hb, h⟩ => by
        obtain rfl : o = p := Option.some.inj (ho.symm.trans hp)
        exact ⟨hb, fun n _ => h n⟩⟩

/-- What is held while an array is being published. -/
def publication (a : ArrayId) : Held := .changing (.array a) "length"

/-- The array is to be published: in the queue, or in the batch of a flush. -/
def Scheduled (w : World) (a : ArrayId) : Prop :=
  .splices a ∈ w.queue.tasks ∨ .task (.splices a) ∈ w.held

/-- **Published.** Whatever waits to be published will be: an observer that has something pending
has shut its gate, and one that has shut its gate is scheduled, unless there is an excuse. Every
observer has a notifier of its own, and nobody is subscribed twice. -/
structure Published (excused : ArrayId → Prop) (w : World) : Prop where
  waits : ∀ a o, (w.arrays.get a).observer = some o → o.needsQueue = false →
    w.Scheduled a ∨ o.isImmediate = true ∨ excused a
  shut : ∀ a o, (w.arrays.get a).observer = some o → o.pending ≠ [] → o.needsQueue = false
  made : ∀ a o, (w.arrays.get a).observer = some o → o.notifier.index < w.notifiers.size
  distinct : ∀ a b o p, (w.arrays.get a).observer = some o → (w.arrays.get b).observer = some p →
    o.notifier = p.notifier → a = b
  nodup : ∀ n, (w.notifiers.get n).subscriptions.Nodup

namespace Published

variable {excused excused' : ArrayId → Prop} {w w' : World}

theorem mono (h : w.Published excused) (he : ∀ a, excused a → excused' a) :
    w.Published excused' :=
  ⟨fun a o ho hq => (h.waits a o ho hq).imp_right (·.imp_right (he a)), h.shut, h.made, h.distinct,
    h.nodup⟩

/-- A step that leaves the observers of arrays alone. -/
theorem of_observers (h : w.Published excused)
    (ha : ∀ a, (w'.arrays.get a).observer = (w.arrays.get a).observer)
    (hn : w.notifiers.size ≤ w'.notifiers.size)
    (hd : ∀ n, (w.notifiers.get n).subscriptions.Nodup → (w'.notifiers.get n).subscriptions.Nodup)
    (hq : ∀ a, w.Scheduled a → w'.Scheduled a) : w'.Published excused where
  waits a o ho hg := (h.waits a o (ha a ▸ ho) hg).imp_left (hq a)
  shut a o ho := h.shut a o (ha a ▸ ho)
  made a o ho := Nat.lt_of_lt_of_le (h.made a o (ha a ▸ ho)) hn
  distinct a b o p ho hp := h.distinct a b o p (ha a ▸ ho) (ha b ▸ hp)
  nodup n := hd n (h.nodup n)

end Published

/-- Nobody is told twice of what an array says. -/
theorem Published.nodup_recipients {w : World} {excused : ArrayId → Prop} (h : w.Published excused)
    (n : NotifierId) (history : List Splice) :
    ((w.notifiers.get n).recipients (.splices history)).Nodup := by
  show ((w.notifiers.get n).subscribers none).Nodup
  refine List.pairwise_map.mpr ((h.nodup n).filter _ |>.imp_of_mem fun {x y} hx hy hne h => hne ?_)
  obtain ⟨topic, x⟩ := x
  obtain ⟨topic', y⟩ := y
  obtain rfl : topic = none := by simpa using (List.mem_filter.mp hx).2
  obtain rfl : topic' = none := by simpa using (List.mem_filter.mp hy).2
  exact congrArg _ h

/-- **Tidying.** A change of the notifiers after which nobody listens who did not before, and nobody
is subscribed twice. -/
structure Tidied (ns ns' : Store .notifier Notifier) : Prop where
  size : ns.size ≤ ns'.size
  nodup : ∀ n, (ns.get n).subscriptions.Nodup → (ns'.get n).subscriptions.Nodup
  listens : ∀ n s, ⟨none, .scripted s⟩ ∈ (ns'.get n).subscriptions →
    ⟨none, .scripted s⟩ ∈ (ns.get n).subscriptions

namespace Tidied

variable {ns ns' ns'' : Store .notifier Notifier}

theorem refl (ns : Store .notifier Notifier) : Tidied ns ns :=
  ⟨Nat.le_refl _, fun _ h => h, fun _ _ h => h⟩

theorem trans (h : Tidied ns ns') (h' : Tidied ns' ns'') : Tidied ns ns'' :=
  ⟨Nat.le_trans h.size h'.size, fun n hn => h'.nodup n (h.nodup n hn),
    fun n s hs => h.listens n s (h'.listens n s hs)⟩

theorem modify (n : NotifierId) {f : Notifier → Notifier}
    (hd : ∀ m, m.subscriptions.Nodup → (f m).subscriptions.Nodup)
    (hl : ∀ m s, ⟨none, .scripted s⟩ ∈ (f m).subscriptions → ⟨none, .scripted s⟩ ∈ m.subscriptions) :
    Tidied ns (ns.modify n f) where
  size := Store.size_le_modify _ _ _
  nodup n' h := by
    rw [Store.get_modify]
    split
    · next he => exact hd _ (he ▸ h)
    · exact h
  listens n' s h := by
    rw [Store.get_modify] at h
    split at h
    · next he => exact he ▸ hl _ s h
    · exact h

theorem unsubscribe (n : NotifierId) (s : Subscriber) (topic : Option String) :
    Tidied ns (ns.modify n (·.unsubscribe s topic)) :=
  .modify n (fun _ h => h.filter _) fun _ _ h => (Notifier.mem_unsubscribe.mp h).1

/-- Whoever subscribes is no scripted subscriber that listens to everything. -/
theorem subscribe (n : NotifierId) {s : Subscriber} {topic : Option String}
    (h : ∀ s', s = .scripted s' → topic ≠ none) :
    Tidied ns (ns.modify n (·.subscribe s topic)) :=
  .modify n (fun m hm => Notifier.nodup_subscribe hm s topic) fun m s' hs =>
    (Notifier.mem_of_mem_subscribe hs).resolve_right fun he => by
      obtain ⟨rfl, rfl⟩ : none = topic ∧ Subscriber.scripted s' = s := by simpa using he
      exact h s' rfl rfl

theorem add (ns : Store .notifier Notifier) : Tidied ns (ns.add ⟨[]⟩).2 where
  size := by
    rw [Store.size_add]
    exact Nat.le_succ _
  nodup n h := by rwa [get_newNotifier]
  listens n s h := by rwa [get_newNotifier] at h

theorem cancelled (o : ObserverId) (records : List Record) :
    Tidied ns (cancelled ns o records) := by
  induction records generalizing ns with
  | nil => exact refl ns
  | cons r records ih => exact (unsubscribe r.notifier _ _).trans ih

theorem sweep (w : World) : Tidied w.notifiers w.sweep.notifiers where
  size := by
    show w.notifiers.cells.size ≤ (w.notifiers.cells.map _).size
    exact Nat.le_of_eq Array.size_map.symm
  nodup n h := by
    rw [notifiers_sweep]
    exact h.filter _
  listens n s h := by
    rw [notifiers_sweep] at h
    exact (Notifier.mem_retain.mp h).1

end Tidied

/-! ## Steps -/

/-- What a step does that has nothing to do with ledgers: it leaves alone what has been told and the
arrays that have something to publish. -/
structure LedgerStep (w w' : World) : Prop where
  held : w'.held = w.held
  told : ∀ s, (w'.subscribers.get s).told = (w.subscribers.get s).told
  arrays : ∀ a o, (w.arrays.get a).observer = some o → o.isImmediate = false →
    w'.arrays.get a = w.arrays.get a
  listens : ∀ n s, ⟨none, .scripted s⟩ ∈ (w'.notifiers.get n).subscriptions →
    ⟨none, .scripted s⟩ ∈ (w.notifiers.get n).subscriptions
  published : ∀ excused, w.Published excused → w'.Published excused

namespace LedgerStep

variable {w w' w'' : World}

/-- A step that leaves arrays and subscribers alone. -/
theorem of_notifiers (ha : w'.arrays = w.arrays) (hs : w'.subscribers = w.subscribers)
    (hn : Tidied w.notifiers w'.notifiers) (hq : ∀ t ∈ w.queue.tasks, t ∈ w'.queue.tasks)
    (hh : w'.held = w.held) : LedgerStep w w' where
  held := hh
  told s := by rw [hs]
  arrays a o _ _ := by rw [ha]
  listens := hn.listens
  published excused h := by
    refine h.of_observers (fun a => by rw [ha]) hn.size hn.nodup fun a => ?_
    exact Or.imp (hq _) (hh ▸ ·)

theorem of_eq (ha : w'.arrays = w.arrays) (hs : w'.subscribers = w.subscribers)
    (hn : w'.notifiers = w.notifiers) (hq : w'.queue = w.queue) (hh : w'.held = w.held) :
    LedgerStep w w' :=
  of_notifiers ha hs (hn ▸ .refl _) (fun _ ht => hq ▸ ht) hh

/-- Asking a scheduler for a flush has nothing to do with ledgers. -/
theorem follow (h : LedgerStep w w') (next : FollowUp) : LedgerStep w (w'.follow next) := by
  have hf : ∀ x : World, x = w' ∨ (∃ log, x = { w' with log }) ∨ (∃ pool, x = { w' with pool }) →
      LedgerStep w x := by
    rintro x (rfl | ⟨log, rfl⟩ | ⟨pool, rfl⟩)
    · exact h
    · exact ⟨h.held, h.told, h.arrays, h.listens, fun e hp => (h.published e hp).of_observers
        (fun _ => rfl) (Nat.le_refl _) (fun _ h => h) fun _ h => h⟩
    · exact ⟨h.held, h.told, h.arrays, h.listens, fun e hp => (h.published e hp).of_observers
        (fun _ => rfl) (Nat.le_refl _) (fun _ h => h) fun _ h => h⟩
  exact hf _ (w'.follow_cases next)

/-- A new array is not observed. -/
theorem newArray (w : World) (items : List Value) :
    LedgerStep w { w with arrays := (w.arrays.add ⟨items, none⟩).2 } := by
  have hne : ∀ a, a ≠ (w.arrays.add ⟨items, none⟩).1 →
      (w.arrays.add ⟨items, none⟩).2.get a = w.arrays.get a :=
    fun a => Store.get_add_of_ne _ _ _
  have hnone : (w.arrays.get (w.arrays.add ⟨items, none⟩).1).observer = none := by
    rw [Store.get_next]
    rfl
  refine ⟨rfl, fun _ => rfl, fun a o ho _ => hne a ?_, fun _ _ h => h, fun e h => ?_⟩
  · rintro rfl
    exact absurd (hnone.symm.trans ho) nofun
  · refine h.of_observers (fun a => ?_) (Nat.le_refl _) (fun _ h => h) fun _ h => h
    by_cases he : a = (w.arrays.add ⟨items, none⟩).1
    · rw [he, hnone]
      show ((w.arrays.add ⟨items, none⟩).2.get _).observer = none
      rw [Store.get_add_self]
    · exact congrArg ArrayState.observer (hne a he)

/-- An array that is given an observer has nothing to publish yet. -/
theorem observeArray (w : World) (a : ArrayId) (h : (w.arrays.get a).observer = none) :
    LedgerStep w (w.observeArray a) := by
  let fresh : ArrayObserver :=
    ⟨(w.notifiers.add ⟨[]⟩).1, w.arrayObservation = .immediate, [], true⟩
  have hget : ∀ b, (w.observeArray a).arrays.get b =
      if a = b then { w.arrays.get a with observer := some fresh } else w.arrays.get b :=
    fun b => Store.get_modify _ _ _ _
  have hold : ∀ b o, ((w.observeArray a).arrays.get b).observer = some o →
      (w.arrays.get b).observer = some o ∨ b = a ∧ o = fresh := by
    intro b o ho
    rw [hget] at ho
    split at ho
    · next he => exact .inr ⟨he.symm, (Option.some.inj ho).symm⟩
    · exact .inl ho
  have ht := Tidied.add w.notifiers
  refine ⟨rfl, fun _ => rfl, fun b o ho _ => ?_, ht.listens, fun e hp => ?_⟩
  · rw [hget, if_neg]
    rintro rfl
    exact absurd (h.symm.trans ho) nofun
  · refine ⟨fun b o ho hq => ?_, fun b o ho hn => ?_, fun b o ho => ?_, fun b c o p ho hp' he => ?_,
      fun n => ht.nodup n (hp.nodup n)⟩
    · obtain ho | ⟨-, rfl⟩ := hold b o ho
      · exact hp.waits b o ho hq
      · exact absurd hq nofun
    · obtain ho | ⟨-, rfl⟩ := hold b o ho
      · exact hp.shut b o ho hn
      · exact absurd rfl hn
    · have hs : (w.observeArray a).notifiers.size = w.notifiers.size + 1 := Store.size_add _ _
      rw [hs]
      obtain ho | ⟨-, rfl⟩ := hold b o ho
      · exact Nat.lt_succ_of_lt (hp.made b o ho)
      · exact Nat.lt_succ_self _
    · -- the new notifier is nobody else's
      have hnew : ∀ b o, (w.arrays.get b).observer = some o →
          o.notifier ≠ (w.notifiers.add ⟨[]⟩).1 := by
        intro b o ho he
        have := hp.made b o ho
        rw [he] at this
        exact absurd this (Nat.lt_irrefl _)
      obtain ho | ⟨rfl, rfl⟩ := hold b o ho
      · obtain hp' | ⟨-, rfl⟩ := hold c p hp'
        · exact hp.distinct b c o p ho hp' he
        · exact absurd he (hnew b o ho)
      · obtain hp' | ⟨rfl, -⟩ := hold c p hp'
        · exact absurd he.symm (hnew c p hp')
        · rfl

/-- Queueing has nothing to do with ledgers, whatever is to be done next. -/
theorem of_queued {Mild : Subject → Prop} {next : FollowUp} (h : Queued Mild w next w') :
    LedgerStep w w' := by
  cases h with
  | accept | tell =>
    exact of_notifiers rfl rfl (.refl _) (fun t ht => Queue.mem_accept.mpr (.inl ht)) rfl

/-- **No listed change has anything to do with ledgers.** -/
theorem of_change {Mild : Subject → Prop} (h : Change Mild w w') : LedgerStep w w' := by
  cases h with
  | log | lookUp | signals | tickets | event | move | shows | newObject | newContext
      | objectNotifier | contextNotifier | behavior | giveObserver | view | newObserver | refresh
      | deferError | observerMode | openGate | drop =>
    exact of_eq rfl rfl rfl rfl rfl
  | created h =>
    refine of_eq ?_ ?_ ?_ ?_ ?_
    all_goals rw [h.rest]
  | queued hq _ => exact (of_queued hq).follow _
  | ask scheduler => exact (of_eq rfl rfl rfl rfl rfl : LedgerStep w w).follow (.schedule scheduler)
  | request =>
    exact (of_notifiers rfl rfl (.refl _) (fun t ht => by simpa using ht) rfl :
      LedgerStep w { w with queue := w.queue.requestIfNeeded.1 }).follow _
  | sweep => exact of_notifiers rfl rfl (.sweep w) (fun _ ht => ht) rfl
  | newArray items => exact newArray w items
  | newNotifier => exact of_notifiers rfl rfl (.add _) (fun _ ht => ht) rfl
  | observeArray a h => exact observeArray w a h
  | subscribe n topic _ _ _ =>
    exact of_notifiers rfl rfl (.subscribe n nofun) (fun _ ht => ht) rfl
  | unsubscribe n topic _ _ =>
    exact of_notifiers rfl rfl (.unsubscribe n _ topic) (fun _ ht => ht) rfl
  | recordRead name _ _ => exact of_notifiers rfl rfl (.subscribe _ nofun) (fun _ ht => ht) rfl
  | disconnect _ => exact of_notifiers rfl rfl (.cancelled _ _) (fun _ ht => ht) rfl

theorem of_setup (h : Setup w w') : LedgerStep w w' := by
  cases h with
  | newSubscriber s =>
    refine ⟨rfl, fun s' => ?_, fun _ _ _ _ => rfl, fun _ _ h => h, fun e h => h.of_observers
      (fun _ => rfl) (Nat.le_refl _) (fun _ h => h) fun _ h => h⟩
    -- nobody has told anything to a subscriber that has not been made
    by_cases he : s' = (w.subscribers.add ⟨s, []⟩).1
    · rw [he, Store.get_next]
      show ((w.subscribers.add ⟨s, []⟩).2.get _).told = _
      rw [Store.get_add_self]
      rfl
    · exact congrArg _ (Store.get_add_of_ne w.subscribers _ s' he)
  | registry | give | hostMode | arrayObservation | edit | newEvent | newTemplate | newTask
      | dropPool =>
    exact of_eq rfl rfl rfl rfl rfl

theorem of_adjustment (h : Adjustment w w') : LedgerStep w w' := by
  cases h with
  | @await ticket queue next hq =>
    have hs : LedgerStep w { w with queue } :=
      of_notifiers rfl rfl (.refl _) (fun t ht => Queue.tasks_await hq ▸ ht) rfl
    exact hs.follow next
  | install => exact of_notifiers rfl rfl (.refl _) (fun t ht => by simpa using ht) rfl
  | mode => exact of_notifiers rfl rfl (.refl _) (fun t ht => ht) rfl
  | pool => exact of_eq rfl rfl rfl rfl rfl

end LedgerStep

/-! ## Ledgers -/

/-- **Recording.** What a computation, in the course of which `given` is told to a subscriber of an
array, does to their ledger. What has been heard has been heard for good, and what is given is heard
besides. If the subscriber listens at the end, it did at the beginning, and the ledger of what was
not yet heard at the beginning has grown with the array; something else may be on the way only if
the array is being published. -/
structure Recorded (a : ArrayId) (s : SubscriberId) (given : List Splice) (w w' : World) :
    Prop where
  heard : w.heard s <+: w'.heard s
  told : (w.heard s).length + given.length ≤ (w'.heard s).length
  listens : w'.Listens s → w.Listens s
  grows : w'.Listens s → ∀ flight news, given ++ flight = [] ∨ publication a ∈ w.held →
    w'.heard s = w.heard s ++ news →
      Splice.Grows (given ++ flight ++ w.pending a) (w.itemsOf a)
        (news ++ flight ++ w'.pending a) (w'.itemsOf a)

namespace Recorded

variable {a : ArrayId} {s : SubscriberId} {given given' : List Splice} {w w' w'' : World}

theorem trans (h : Recorded a s given w w') (h' : Recorded a s given' w' w'')
    (hh : w'.held = w.held) : Recorded a s (given ++ given') w w'' where
  heard := h.heard.trans h'.heard
  told := by
    have h1 := h.told
    have h2 := h'.told
    rw [List.length_append]
    omega
  listens hl := h.listens (h'.listens hl)
  grows hl flight news hf hn := by
    obtain ⟨first, hfirst⟩ := h.heard
    obtain ⟨second, hsecond⟩ := h'.heard
    have hnews : news = first ++ second := by
      rw [← hsecond, ← hfirst, List.append_assoc] at hn
      exact (List.append_cancel_left hn).symm
    rw [List.append_assoc] at hf
    have h1 := h.grows (h'.listens hl) (given' ++ flight) first hf hfirst.symm
    have h2 := h'.grows hl flight second
      (hf.imp (fun hf => (List.append_eq_nil_iff.mp hf).2) (hh ▸ ·)) hsecond.symm
    rw [hnews, List.append_assoc given given' flight]
    simp only [List.append_assoc] at h1 h2 ⊢
    exact h1.trans (h2.prepend first)

end Recorded

/-- What is told to whom when a change is told to some subscribers. -/
def share (change : ReactiveViews.Change) (l : List Subscriber) (s : SubscriberId) : List Splice :=
  if .scripted s ∈ l then change.history else []

theorem share_of_history {change : ReactiveViews.Change} (h : change.history = [])
    (l : List Subscriber) (s : SubscriberId) : share change l s = [] := by
  unfold share
  split
  · exact h
  · rfl

/-- **The ledgers after a computation.** What is held on to is the same as before, what has been made
stays, and what has been told and taken up is recorded. -/
structure Ledgers (focus : ArrayId → SubscriberId → Prop) (given : SubscriberId → List Splice)
    (w w' : World) : Prop where
  held : w'.held = w.held
  grown : w.behaviors.size ≤ w'.behaviors.size
  recorded : ∀ a s, focus a s → Recorded a s (given s) w w'

namespace Ledgers

variable {focus : ArrayId → SubscriberId → Prop} {given given' : SubscriberId → List Splice}
  {w w' w'' : World}

theorem trans (h : Ledgers focus given w w') (h' : Ledgers focus given' w' w'') :
    Ledgers focus (fun s => given s ++ given' s) w w'' :=
  ⟨h'.held.trans h.held, Nat.le_trans h.grown h'.grown,
    fun a s hf => (h.recorded a s hf).trans (h'.recorded a s hf) h.held⟩

theorem congr (h : Ledgers focus given w w')
    (hg : ∀ a s, focus a s → given' s = given s) : Ledgers focus given' w w' :=
  ⟨h.held, h.grown, fun a s hf => hg a s hf ▸ h.recorded a s hf⟩

/-- What is held on to for a while may be let go of. -/
theorem release {things : List Held} (h : Ledgers focus given { w with held := things ++ w.held } w') :
    Ledgers focus given w { w' with held := w.held } where
  held := rfl
  grown := h.grown
  recorded a s hf :=
    have hr := h.recorded a s hf
    ⟨hr.heard, hr.told, hr.listens, fun hl flight news hf' =>
      hr.grows hl flight news (hf'.imp_right (List.mem_append_right things))⟩

end Ledgers

/-- The ledger is read off the arrays and the subscribers. -/
theorem ledger_congr {w w' : World} {a : ArrayId} {s : SubscriberId}
    (ha : w'.arrays.get a = w.arrays.get a)
    (ht : (w'.subscribers.get s).told = (w.subscribers.get s).told) :
    w'.heard s = w.heard s ∧ w'.pending a = w.pending a ∧ w'.itemsOf a = w.itemsOf a := by
  unfold heard pending itemsOf
  rw [ha, ht]
  exact ⟨rfl, rfl, rfl⟩

/-- Where nothing happens to the ledger nothing is recorded. -/
theorem Recorded.of_eq {w w' : World} {a : ArrayId} {s : SubscriberId}
    (h : w'.heard s = w.heard s ∧ w'.pending a = w.pending a ∧ w'.itemsOf a = w.itemsOf a)
    (hl : w'.Listens s → w.Listens s) : Recorded a s [] w w' where
  heard := h.1 ▸ List.prefix_refl _
  told := Nat.le_of_eq (congrArg List.length h.1).symm
  listens := hl
  grows _ flight news _ hn := by
    obtain rfl : news = [] := by
      rw [h.1] at hn
      simpa using hn
    rw [h.2.1, h.2.2]
    exact .refl

namespace LedgerStep

variable {w w' : World} {a : ArrayId} {s : SubscriberId}

theorem devoted (h : LedgerStep w w') (hd : w.Devoted a s) : w'.Devoted a s := by
  obtain ⟨o, ho, hb, hn⟩ := hd
  exact ⟨o, (congrArg _ (h.arrays a o ho hb)).trans ho, hb, fun n hs => hn n (h.listens n s hs)⟩

theorem recorded (h : LedgerStep w w') (hd : w.Devoted a s) : Recorded a s [] w w' := by
  obtain ⟨o, ho, hb, -⟩ := hd
  exact .of_eq (ledger_congr (h.arrays a o ho hb) (h.told s)) fun ⟨n, hn⟩ => ⟨n, h.listens n s hn⟩

end LedgerStep

/-! ### Taking splices up -/

/-- The world in which an array has other items. -/
def withItems (w : World) (a : ArrayId) (items : List Value) : World :=
  { w with arrays := w.arrays.modify a fun s => { s with items } }

theorem get_withItems (w : World) (a b : ArrayId) (items : List Value) :
    (w.withItems a items).arrays.get b =
      if a = b then { w.arrays.get a with items } else w.arrays.get b :=
  Store.get_modify _ _ _ _

theorem observer_withItems (w : World) (a b : ArrayId) (items : List Value) :
    ((w.withItems a items).arrays.get b).observer = (w.arrays.get b).observer := by
  rw [get_withItems]
  split
  · next he => rw [he]
  · rfl

/-- The items of an array that publishes nothing later are of no interest, and neither is replacing
items by themselves. -/
theorem LedgerStep.withItems {w : World} {a : ArrayId} {items : List Value}
    (h : ∀ o, (w.arrays.get a).observer = some o → o.isImmediate = false → items = w.itemsOf a) :
    LedgerStep w (w.withItems a items) where
  held := rfl
  told _ := rfl
  arrays b o ho hb := by
    rw [get_withItems]
    split
    · next he =>
      subst he
      rw [h o ho hb]
      rfl
    · rfl
  listens _ _ h := h
  published _ hp := hp.of_observers (fun b => observer_withItems w a b items) (Nat.le_refl _)
    (fun _ h => h) fun _ h => h

/-- The observer of an array has come to another state, and so may have the items. -/
structure Observed (a : ArrayId) (o o' : ArrayObserver) (items : List Value) (w w' : World) :
    Prop where
  rest : w' = { w with arrays := w'.arrays }
  observer : (w.arrays.get a).observer = some o
  get : ∀ b, w'.arrays.get b = if a = b then ⟨items, some o'⟩ else w.arrays.get b
  notifier : o'.notifier = o.notifier
  isImmediate : o'.isImmediate = o.isImmediate

namespace Observed

variable {a b : ArrayId} {o o' p : ArrayObserver} {items : List Value} {w w' : World}

theorem get_self (h : Observed a o o' items w w') : w'.arrays.get a = ⟨items, some o'⟩ :=
  (h.get a).trans (if_pos rfl)

theorem get_of_ne (h : Observed a o o' items w w') (hb : b ≠ a) :
    w'.arrays.get b = w.arrays.get b :=
  (h.get b).trans (if_neg hb.symm)

theorem cases (h : Observed a o o' items w w') (hp : (w'.arrays.get b).observer = some p) :
    b = a ∧ p = o' ∨ b ≠ a ∧ (w.arrays.get b).observer = some p := by
  rw [h.get] at hp
  split at hp
  · next he => exact .inl ⟨he.symm, (Option.some.inj hp).symm⟩
  · next he => exact .inr ⟨Ne.symm he, hp⟩

/-- Whoever observes did so before, with the same notifier. -/
theorem before (h : Observed a o o' items w w') (hp : (w'.arrays.get b).observer = some p) :
    ∃ q, (w.arrays.get b).observer = some q ∧ q.notifier = p.notifier := by
  obtain ⟨rfl, rfl⟩ | ⟨-, hp⟩ := h.cases hp
  · exact ⟨o, h.observer, h.notifier.symm⟩
  · exact ⟨p, hp, rfl⟩

/-- An observer that has shut its gate needs an excuse. -/
theorem published (h : Observed a o o' items w w') {excused excused' : ArrayId → Prop}
    (hw : w.Published excused) (hq : o'.needsQueue = false → excused' a)
    (hs : o'.pending ≠ [] → o'.needsQueue = false)
    (he : ∀ b, b ≠ a → excused b → excused' b) : w'.Published excused' where
  waits b p hp hn := by
    have hsch : w.Scheduled b → w'.Scheduled b := fun hb => by
      rw [h.rest]
      exact hb
    obtain ⟨rfl, rfl⟩ | ⟨hb, hp⟩ := h.cases hp
    · exact .inr (.inr (hq hn))
    · exact (hw.waits b p hp hn).imp hsch (·.imp_right (he b hb))
  shut b p hp hn := by
    obtain ⟨-, rfl⟩ | ⟨-, hp⟩ := h.cases hp
    · exact hs hn
    · exact hw.shut b p hp hn
  made b p hp := by
    obtain ⟨q, hq, hn⟩ := h.before hp
    rw [h.rest]
    exact hn ▸ hw.made b q hq
  distinct b c p q hp hq hn := by
    obtain ⟨p', hp', hep⟩ := h.before hp
    obtain ⟨q', hq', heq⟩ := h.before hq
    exact hw.distinct b c p' q' hp' hq' (hep.trans (hn.trans heq.symm))
  nodup n := by
    rw [h.rest]
    exact hw.nodup n

theorem devoted (h : Observed a o o' items w w') {s : SubscriberId} (hd : w.Devoted b s) :
    w'.Devoted b s := by
  obtain ⟨p, hp, hb, hn⟩ := hd
  by_cases he : b = a
  · subst he
    obtain rfl : o = p := Option.some.inj (h.observer.symm.trans hp)
    refine ⟨o', congrArg _ h.get_self, h.isImmediate.trans hb, fun n hm => ?_⟩
    rw [h.rest] at hm
    exact (hn n hm).trans h.notifier.symm
  · refine ⟨p, (congrArg _ (h.get_of_ne he)).trans hp, hb, fun n hm => ?_⟩
    rw [h.rest] at hm
    exact hn n hm

theorem listens (h : Observed a o o' items w w') {s : SubscriberId} (hl : w'.Listens s) :
    w.Listens s := by
  rw [h.rest] at hl
  exact hl

theorem heard (h : Observed a o o' items w w') (s : SubscriberId) : w'.heard s = w.heard s := by
  rw [h.rest]
  rfl

theorem pending (h : Observed a o o' items w w') : w.pending a = o.pending ∧
    w'.pending a = o'.pending := by
  unfold World.pending
  rw [h.observer, h.get_self]
  exact ⟨rfl, rfl⟩

theorem itemsOf (h : Observed a o o' items w w') : w'.itemsOf a = items :=
  congrArg ArrayState.items h.get_self

/-- Nothing is recorded of another array. -/
theorem recorded_of_ne (h : Observed a o o' items w w') (hb : b ≠ a) (s : SubscriberId) :
    Recorded b s [] w w' := by
  refine .of_eq (ledger_congr (h.get_of_ne hb) ?_) h.listens
  rw [h.rest]

end Observed

/-- The world in which an array has undergone a splice and its observer has taken it up. -/
def spliced (w : World) (a : ArrayId) (o : ArrayObserver) (s : Splice) : World :=
  (w.withItems a (s.apply (w.itemsOf a))).takeUp a o s

theorem observed_spliced {w : World} {a : ArrayId} {o : ArrayObserver}
    (ho : (w.arrays.get a).observer = some o) (s : Splice) :
    Observed a o { o with pending := Splice.append o.pending s, needsQueue := false }
      (s.apply (w.itemsOf a)) w (w.spliced a o s) where
  rest := rfl
  observer := ho
  get b := by
    show ((w.withItems a _).arrays.modify a _).get b = _
    rw [Store.get_modify, get_withItems, get_withItems, if_pos rfl]
    split
    · rfl
    · rfl
  notifier := rfl
  isImmediate := rfl

theorem observed_handOver {w : World} {a : ArrayId} {o : ArrayObserver}
    (ho : (w.arrays.get a).observer = some o) :
    Observed a o { o with pending := [], needsQueue := true } (w.itemsOf a) w (w.handOver a o) where
  rest := rfl
  observer := ho
  get _ := Store.get_modify _ _ _ _
  notifier := rfl
  isImmediate := rfl

/-- Where it is scheduled, or has not shut its gate, there is nothing to excuse. -/
theorem Published.of_excused {w : World} {a : ArrayId} (h : w.Published (· = a))
    (ha : ∀ o, (w.arrays.get a).observer = some o → o.needsQueue = false →
      w.Scheduled a ∨ o.isImmediate = true) : w.Published fun _ => False where
  waits b o ho hq := by
    obtain h | h | rfl := h.waits b o ho hq
    · exact .inl h
    · exact .inr (.inl h)
    · exact (ha o ho hq).imp_right .inl
  shut := h.shut
  made := h.made
  distinct := h.distinct
  nodup := h.nodup

/-- **What an array undergoes is entered in its ledgers.** -/
theorem Recorded.spliced {w : World} {a b : ArrayId} {s' : SubscriberId} {o : ArrayObserver}
    (ho : (w.arrays.get a).observer = some o) {s : Splice} (hf : s.Fits (w.itemsOf a)) :
    Recorded b s' [] w (w.spliced a o s) := by
  have h := observed_spliced ho s
  by_cases he : b = a
  · subst he
    refine ⟨List.prefix_refl _, Nat.le_refl _, id, fun _ flight news _ hn => ?_⟩
    obtain rfl : news = [] := by
      rw [h.heard] at hn
      simpa using hn
    rw [h.pending.1, h.pending.2, h.itemsOf]
    exact Splice.Grows.refl.enter hf ((Splice.entered_append _ s).prepend _)
  · exact h.recorded_of_ne he s'

end World

end ReactiveViews
