import ReactiveViews.Splice
/-!
# Subscriptions

An observable thing keeps a list of who wants to hear of its changes. A
subscription is to one named change or to every change, and the same subscriber
is listed at most once per topic. Named subscribers hear of a change before
those that listen to everything, each group in the order of subscription.
-/

namespace ReactiveViews

/-- **Change.** What a notification says. -/
inductive Change
  /-- A named property has a new value. -/
  | property (name : String)
  /-- An array was changed, by these splices in this order. -/
  | splices (history : List Splice)
  /-- A named signal was sent. -/
  | signal (name : String)
deriving Inhabited

/-- The name under which a change is subscribed to; splices have none. -/
def Change.key? : Change → Option String
  | property name => some name
  | splices _ => none
  | signal name => some name

/-- The splices that a change says; most changes say none. -/
def Change.history : Change → List Splice
  | splices history => history
  | property _ | signal _ => []

/-- **Subscriber.** Who is told of a change. -/
inductive Subscriber
  | observer (o : ObserverId)
  | behavior (b : BehaviorId)
  | scripted (s : SubscriberId)
deriving DecidableEq, Hashable, Inhabited, Repr

/-- **Subscription.** A subscriber and what it subscribed to: one name, or everything. -/
structure Subscription where
  topic : Option String
  subscriber : Subscriber
deriving DecidableEq, Inhabited, Repr

/-- **Notifier.** The subscriptions to one observable thing, in the order they were made. -/
structure Notifier where
  subscriptions : List Subscription
deriving Inhabited

namespace Notifier

/-- Adds a subscription unless it is there already. -/
def subscribe (n : Notifier) (s : Subscriber) (topic : Option String) : Notifier :=
  if ⟨topic, s⟩ ∈ n.subscriptions then n
  else ⟨n.subscriptions ++ [⟨topic, s⟩]⟩

/-- Takes the subscription out. -/
def unsubscribe (n : Notifier) (s : Subscriber) (topic : Option String) : Notifier :=
  ⟨n.subscriptions.filter (· ≠ ⟨topic, s⟩)⟩

/-- The subscribers to a topic in order. -/
def subscribers (n : Notifier) (topic : Option String) : List Subscriber :=
  (n.subscriptions.filter (·.topic = topic)).map (·.subscriber)

/-- **Recipients.** Who is told of a change: those subscribed to its name, then those
subscribed to everything. -/
def recipients (n : Notifier) (change : Change) : List Subscriber :=
  (match change.key? with
    | some name => n.subscribers (some name)
    | none => []) ++ n.subscribers none

/-- Keeps the subscriptions of some subscribers only. -/
def retain (n : Notifier) (keep : Subscriber → Bool) : Notifier :=
  ⟨n.subscriptions.filter fun s => keep s.subscriber⟩

theorem mem_subscribe (n : Notifier) (s : Subscriber) (topic : Option String) :
    ⟨topic, s⟩ ∈ (n.subscribe s topic).subscriptions := by
  unfold subscribe
  split <;> simp_all

/-- What was subscribed before is subscribed still. -/
theorem mem_subscribe_of_mem {n : Notifier} {x : Subscription} (h : x ∈ n.subscriptions)
    (s : Subscriber) (topic : Option String) : x ∈ (n.subscribe s topic).subscriptions := by
  unfold subscribe
  split <;> simp_all

/-- Whatever is subscribed was so before, or has just been subscribed. -/
theorem mem_of_mem_subscribe {n : Notifier} {x : Subscription} {s : Subscriber}
    {topic : Option String} (h : x ∈ (n.subscribe s topic).subscriptions) :
    x ∈ n.subscriptions ∨ x = ⟨topic, s⟩ := by
  unfold subscribe at h
  split at h
  · exact .inl h
  · simpa using h

theorem mem_subscribe_iff {n : Notifier} {x : Subscription} {s : Subscriber}
    {topic : Option String} :
    x ∈ (n.subscribe s topic).subscriptions ↔ x ∈ n.subscriptions ∨ x = ⟨topic, s⟩ :=
  ⟨mem_of_mem_subscribe,
    fun h => h.elim (mem_subscribe_of_mem · s topic) fun hx => hx ▸ n.mem_subscribe s topic⟩

/-- Cancelling a subscription takes it out and leaves every other. -/
theorem mem_unsubscribe {n : Notifier} {x : Subscription} {s : Subscriber}
    {topic : Option String} :
    x ∈ (n.unsubscribe s topic).subscriptions ↔ x ∈ n.subscriptions ∧ x ≠ ⟨topic, s⟩ := by
  simp [unsubscribe]

theorem mem_retain {n : Notifier} {x : Subscription} {keep : Subscriber → Bool} :
    x ∈ (n.retain keep).subscriptions ↔ x ∈ n.subscriptions ∧ keep x.subscriber = true := by
  simp [retain]

/-- No subscription is ever listed twice. -/
theorem nodup_subscribe {n : Notifier} (h : n.subscriptions.Nodup) (s : Subscriber)
    (topic : Option String) : (n.subscribe s topic).subscriptions.Nodup := by
  unfold subscribe
  split
  · exact h
  · next hn =>
    rw [List.nodup_append]
    refine ⟨h, by simp, ?_⟩
    intro a ha b hb hab
    rw [List.mem_singleton.1 hb] at hab
    exact hn (hab ▸ ha)

theorem mem_recipients {n : Notifier} {change : Change} {s : Subscriber} :
    s ∈ n.recipients change ↔
      (∃ name, change.key? = some name ∧ ⟨some name, s⟩ ∈ n.subscriptions) ∨
        ⟨none, s⟩ ∈ n.subscriptions := by
  have hs : ∀ topic, s ∈ n.subscribers topic ↔ ⟨topic, s⟩ ∈ n.subscriptions := by
    intro topic
    simp only [subscribers, List.mem_map, List.mem_filter, decide_eq_true_eq]
    constructor
    · rintro ⟨⟨t, x⟩, ⟨hm, ht⟩, hx⟩
      simp_all
    · intro h
      exact ⟨_, ⟨h, rfl⟩, rfl⟩
  simp only [recipients, List.mem_append, hs]
  cases change.key? <;> simp [hs]

end Notifier

end ReactiveViews
