import ReactiveViews.Proofs.Flush
import ReactiveViews.Proofs.Ledgers
import ReactiveViews.Proofs.Runs
/-!
# Ledgers are kept

Whoever is devoted to an array hears what the array undergoes, splice by splice and in
order. The regime `publishing` says so of every computation, in terms of ledgers: what is
told in the course of it, what is heard, and what waits.

Splices are taken up, told and heard in three places. When an array is changed its splice
is entered in the ledger together with the change; when it is published what waits is
handed over, and told to everybody who listens; when a subscriber is told it hears. All
else has nothing to do with ledgers.
-/

namespace ReactiveViews

/-! ## The regime -/

/-- What is told to a subscriber by a call. -/
def Call.told : Call → SubscriberId → List Splice
  | .deliver x change => World.share change [x]
  | _ => fun _ => []

/-- **Orderly.** The array is not published once more in the course of its own publication, and the
subscriber makes no new subscription to everything that something says. -/
def orderly (a : ArrayId) (s : SubscriberId) : Call → World → Bool
  | .deliver _ change, w => change.history.isEmpty || w.held.count (World.publication a) ≤ 1
  | .perform (.notifier (.subscribe subscriber _ none)), w =>
    decide (w.handles.find? subscriber ≠ some (.subscriber s))
  | _, _ => true

/-- Whatever is allowed is orderly for whoever is devoted to an array. -/
def Upholds (allowed : Call → World → Bool) (focus : ArrayId → SubscriberId → Prop) : Prop :=
  ∀ a s, focus a s → ∀ c w, allowed c w = true → orderly a s c w = true

/-- Whatever waits to be published will be, and subscribers are devoted to their arrays. -/
structure World.Clear (focus : ArrayId → SubscriberId → Prop) (excused : ArrayId → Prop)
    (w : World) : Prop extends w.Published excused where
  devoted : ∀ a s, focus a s → w.Devoted a s

namespace World

variable {focus : ArrayId → SubscriberId → Prop} {excused : ArrayId → Prop} {w w' : World}

theorem LedgerStep.clear (h : LedgerStep w w') (hc : w.Clear focus excused) :
    w'.Clear focus excused :=
  ⟨h.published _ hc.toPublished, fun a s hf => h.devoted (hc.devoted a s hf)⟩

theorem LedgerStep.ledgers (h : LedgerStep w w') (hb : w.behaviors.size ≤ w'.behaviors.size)
    (hc : w.Clear focus excused) : Ledgers focus (fun _ => []) w w' :=
  ⟨h.held, hb, fun a s hf => h.recorded (hc.devoted a s hf)⟩

section Scopes

variable {Mild : Subject → Prop} {enter : World → World} {leave : World → World → World}

theorem held_enter (hs : Scope Mild w enter leave) {h : Held} (hm : h ∈ w.held) :
    h ∈ (enter w).held := by
  cases hs with
  | hold things | change things => exact List.mem_append_right things hm
  | watch | handle => exact hm

theorem clear_enter (hs : Scope Mild w enter leave) (hc : w.Clear focus excused) :
    (enter w).Clear focus excused := by
  have hp : (enter w).Published excused := by
    refine hc.toPublished.of_observers ?_ ?_ ?_ fun a ha => ?_
    · cases hs <;> exact fun _ => rfl
    · cases hs <;> exact Nat.le_refl _
    · cases hs <;> exact fun _ h => h
    · refine Or.imp (fun h => ?_) (held_enter hs) ha
      cases hs <;> exact h
  refine ⟨hp, fun a s hf => ?_⟩
  cases hs <;> exact hc.devoted a s hf

theorem clear_leave (hs : Scope Mild w enter leave) (hh : w'.held = (enter w).held)
    (hc : w'.Clear focus excused) : (leave w w').Clear focus excused := by
  have hp : (leave w w').Published excused := by
    refine hc.toPublished.of_observers ?_ ?_ ?_ fun a ha => ?_
    · cases hs <;> exact fun _ => rfl
    · cases hs <;> exact Nat.le_refl _
    · cases hs <;> exact fun _ h => h
    · cases hs with
      | hold things ht =>
        refine ha.imp_right fun hm => ?_
        rw [hh] at hm
        exact (List.mem_append.mp hm).resolve_left (ht _).1
      | change things hc _ =>
        refine ha.imp_right fun hm => ?_
        rw [hh] at hm
        exact (List.mem_append.mp hm).resolve_left fun ht => by simpa using hc _ ht
      | watch | handle => exact ha
  refine ⟨hp, fun a s hf => ?_⟩
  cases hs <;> exact hc.devoted a s hf

theorem ledgers_leave {given : SubscriberId → List Splice} (hs : Scope Mild w enter leave)
    (h : Ledgers focus given (enter w) w') : Ledgers focus given w (leave w w') := by
  cases hs with
  | hold things | change things => exact h.release
  | watch | handle =>
    exact ⟨h.held, h.grown, fun a s hf =>
      have hr := h.recorded a s hf
      ⟨hr.heard, hr.told, hr.listens, hr.grows⟩⟩

end Scopes

end World

open World in
/-- **The regime of publishing.** Whatever waits to be published will be, but for the array whose
turn it is, and ledgers are kept. When that turn is over, what waited has been told. -/
def publishing (allowed : Call → World → Bool) (focus : ArrayId → SubscriberId → Prop) : Regime where
  allowed := allowed
  Mild _ := True
  Inv w := w.Clear focus fun _ => False
  Rel := Ledgers focus fun _ => []
  Entry c w := w.Clear focus fun a => c = .update (.splices a)
  Exit c w _ w' := Ledgers focus c.told w w' ∧ (w'.Clear focus fun _ => False) ∧
    ∀ a s, focus a s → c = .update (.splices a) → w'.Listens s →
      (w.heard s).length + (w.pending a).length ≤ (w'.heard s).length
  refl w := ⟨rfl, Nat.le_refl _, fun _ _ _ => .of_eq ⟨rfl, rfl, rfl⟩ id⟩
  trans h h' := h.trans h'
  entry _ _ h := ⟨h.toPublished.mono fun _ => False.elim, h.devoted⟩
  exit {c _ _ _} hc _ _ h := by
    cases c with
    | eval | bindView | unbindView | bubble | perform => exact ⟨h.1, h.2.1⟩
    | deliver | update | settle | drainPool => exact hc.elim
  change hi hc :=
    have hs := LedgerStep.of_change hc
    ⟨hs.ledgers hc.size_behaviors hi, hs.clear hi⟩
  enter hs hi := clear_enter hs hi
  leave hs _ hr hi' := ⟨ledgers_leave hs hr, clear_leave hs hr.held hi'⟩
  grown h := h.grown
  light _ _ := .inr fun _ => trivial
  takes _ _ := .inr trivial
  calledBack _ _ := .inr trivial
  watcher _ _ := .inr fun _ => trivial
  behaviors _ _ _ := trivial
  observers _ _ _ := .inr fun _ => trivial
  aspects _ _ _ := trivial

section Free

variable {allowed : Call → World → Bool} {focus : ArrayId → SubscriberId → Prop} {w w' : World}

/-- A step that has nothing to do with ledgers respects the regime. -/
theorem publishing_respects (hs : World.LedgerStep w w') (hb : w'.behaviors = w.behaviors)
    (hi : (publishing allowed focus).Inv w) :
    (publishing allowed focus).Rel w w' ∧ (publishing allowed focus).Inv w' :=
  ⟨hs.ledgers (Nat.le_of_eq (congrArg Store.size hb.symm)) hi, hs.clear hi⟩

instance (name : String) : (publishing allowed focus).Slight (.listener name) := ⟨trivial⟩

instance : (publishing allowed focus).Loose where
  tether _ := trivial
  lists _ := trivial
  view _ _ := trivial

instance : (publishing allowed focus).Accessible where
  entry _ h := ⟨h.toPublished.mono fun _ => False.elim, h.devoted⟩
  exit {c _ _ _} hv _ h := by
    cases c with
    | bindView | unbindView => exact ⟨h.1, h.2.1⟩
    | _ => exact absurd rfl hv
  access hi hc := publishing_respects (by cases hc <;> exact .of_eq rfl rfl rfl rfl rfl)
    (by cases hc <;> rfl) hi

instance : (publishing allowed focus).Slight .cues := ⟨trivial⟩

instance : (publishing allowed focus).Free where
  tickets := trivial
  behavior _ := trivial
  aspect _ _ := trivial
  setup hi hc := publishing_respects (.of_setup hc) (by cases hc <;> rfl) hi
  flush {c _} hc hi := by
    cases c with
    | settle | drainPool => exact ⟨hi.toPublished.mono fun _ => False.elim, hi.devoted⟩
    | eval | bindView | unbindView | bubble | perform | deliver | update => exact hc.elim
  flushed {c _ _ _} hc _ h := by
    cases c with
    | settle | drainPool => exact ⟨h.1, h.2.1⟩
    | eval | bindView | unbindView | bubble | perform | deliver | update => exact hc.elim
  pressed hi hc := publishing_respects (.of_queued hc) hc.behaviors hi
  adjust hi hc := publishing_respects (.of_adjustment hc) hc.behaviors hi

end Free

namespace Setting.Publishing

open Machine World

variable {allowed : Call → World → Bool} {focus : ArrayId → SubscriberId → Prop}
  {S : Setting (publishing allowed focus)} {w w' : World}

/-! ## Telling -/

/-- Subscribers are held on to while they are told. -/
theorem scope_telling (G : Regime) [G.Open] (w : World) (l : List Subscriber) :
    Scope G.Mild w
      (fun w => { w with held := l.map Held.subscriber ++ w.held })
      (fun before after => { after with held := before.held }) :=
  .hold (l.map Held.subscriber) (by simp) (by simp) fun o _ => Regime.Open.light G w o

theorem entry_telling (hi : (publishing allowed focus).Inv w) (x : Subscriber) (change : Change)
    (l : List Subscriber) : (publishing allowed focus).Entry (.deliver x change)
      { w with held := l.map .subscriber ++ w.held } :=
  have hc := clear_enter (scope_telling (publishing allowed focus) w l) hi
  ⟨hc.toPublished.mono fun _ => False.elim, hc.devoted⟩

/-- **Telling subscribers of a change** tells each of them that listens its share. -/
theorem deliverAll_leads (change : Change) (l : List Subscriber)
    (hl : change.history = [] ∨ l.Nodup) (hi : (publishing allowed focus).Inv w) :
    S.Leads (deliverAll change l) w fun _ w' =>
      Ledgers focus (share change l) w w' ∧ (publishing allowed focus).Inv w' := by
  induction l generalizing w with
  | nil =>
    have hs : (share change [] : SubscriberId → List Splice) = fun _ => [] :=
      funext fun s => if_neg List.not_mem_nil
    rw [hs]
    exact Agrees.agreesAt (G := publishing allowed focus) (S := S) (m := pure ()) hi
  | cons x l ih =>
    have hscope := scope_telling (publishing allowed focus) w (x :: l)
    have hentry := entry_telling hi x change (x :: l)
    have hfirst : S.Leads (holding ((x :: l).map .subscriber) (Machine.call (.deliver x change))) w
        fun r w₁ => (∃ u, r = .ok u) ∧ Ledgers focus (share change [x]) w w₁ ∧
          (publishing allowed focus).Inv w₁ := by
      intro r w₁ hc
      have hok : Firm S.calls (holding ((x :: l).map .subscriber) (Machine.call (.deliver x change))) :=
        inferInstance
      obtain ⟨h1, w₂, rfl, he⟩ := Leads.within (Leads.call (S := S) hentry) r w₁ hc
      exact ⟨h1, hok.ok hc, ledgers_leave hscope he.1, clear_leave hscope he.1.held he.2.1⟩
    rw [deliverAll]
    refine hfirst.bind (by simp) fun _ w₁ h => ?_
    refine (ih (hl.imp_right fun h => (List.nodup_cons.mp h).2) h.2.2).mono ?_
    rintro r w' ⟨hw, hi'⟩
    refine ⟨(h.2.1.trans hw).congr fun a s _ => ?_, hi'⟩
    -- nobody has a second share
    unfold share
    by_cases hx : .scripted s = x
    · subst hx
      obtain hh | hn := hl
      · simp [hh]
      · simp [(List.nodup_cons.mp hn).1]
    · simp [hx]

/-- A notification that says no splices records nothing. -/
theorem notify_quiet (n : NotifierId) {change : Change} (h : change.history = []) :
    S.Agrees (notify n change) := by
  refine ⟨fun {w} hi => .read ((deliverAll_leads change _ (.inl h) hi).mono ?_)⟩
  rintro r w' ⟨hw, hi'⟩
  exact ⟨hw.congr fun _ s _ => (share_of_history h _ s).symm, hi'⟩

/-- Somebody who is devoted to another array hears nothing of what this one says. -/
theorem share_of_devoted (hi : (publishing allowed focus).Inv w) {a b : ArrayId} {s : SubscriberId}
    (hf : focus b s) {o : ArrayObserver} (ho : (w.arrays.get a).observer = some o)
    (hne : o.isImmediate = true ∨ a ≠ b) (history : List Splice) :
    share (.splices history) ((w.notifiers.get o.notifier).recipients (.splices history)) s = [] := by
  refine if_neg fun hm => ?_
  obtain ⟨name, hk, -⟩ | hm := Notifier.mem_recipients.mp hm
  · exact absurd hk nofun
  · obtain ⟨p, hp, hb, hn⟩ := hi.devoted b s hf
    obtain rfl := hi.distinct a b o p ho hp (hn _ hm)
    obtain rfl : o = p := Option.some.inj (ho.symm.trans hp)
    exact hne.elim (fun h => absurd (h.symm.trans hb) nofun) fun h => h rfl

/-! ## Recording -/

/-- **A splice of an array is told at once, or taken up and scheduled.** -/
theorem recordSplice_leads (hi : (publishing allowed focus).Inv w) {a : ArrayId} {s : Splice}
    (hf : s.Fits (w.itemsOf a)) :
    S.Leads (recordSplice a s) (w.withItems a (s.apply (w.itemsOf a))) fun _ w' =>
      (publishing allowed focus).Rel w w' ∧ (publishing allowed focus).Inv w' := by
  let x := w.withItems a (s.apply (w.itemsOf a))
  have hob : (x.arrays.get a).observer = (w.arrays.get a).observer := observer_withItems w a a _
  have hx : (∀ o, (w.arrays.get a).observer = some o → o.isImmediate = false → False) →
      (publishing allowed focus).Rel w x ∧ (publishing allowed focus).Inv x := fun hn =>
    publishing_respects (.withItems fun o ho hb => (hn o ho hb).elim) rfl hi
  unfold recordSplice
  refine .read (g := id) ?_
  dsimp only [id]
  rw [show ((w.withItems a (s.apply (w.itemsOf a))).arrays.get a).observer = _ from hob]
  split
  · next ho => exact .of_eq (fun _ => rfl) (hx fun p hp _ => by cases ho.symm.trans hp)
  · next o ho =>
    split
    · next him =>
      obtain ⟨hr, hix⟩ := hx fun p hp hb => by
        obtain rfl : o = p := Option.some.inj (ho.symm.trans hp)
        cases him.symm.trans hb
      refine .read ((deliverAll_leads _ _ (.inr (hix.toPublished.nodup_recipients _ _)) hix).mono ?_)
      rintro r w' ⟨hw, hi'⟩
      have hnone : Ledgers focus (fun _ => []) x w' := hw.congr fun b s' hf' =>
        (share_of_devoted hix hf' (hob.trans ho) (.inl him) _).symm
      exact ⟨(publishing allowed focus).trans hr hnone, hi'⟩
    · let y := w.spliced a o s
      have hy := observed_spliced ho s
      have hry : (publishing allowed focus).Rel w y :=
        ⟨rfl, Nat.le_refl _, fun _ _ _ => .spliced ho hf⟩
      have hpy : y.Published (· = a) :=
        hy.published hi.toPublished (fun _ => rfl) (fun _ => rfl) fun _ _ => False.elim
      have hdy : ∀ b s', focus b s' → y.Devoted b s' := fun b s' h => hy.devoted (hi.devoted b s' h)
      cases hq : o.needsQueue with
      | true =>
        let z : World := { y with queue := (y.queue.accept (.splices a)).1 }
        have hz : LedgerStep y z :=
          .of_notifiers rfl rfl (.refl _) (fun t ht => Queue.mem_accept.mpr (.inl ht)) rfl
        have hwait : z.Scheduled a := .inl (Queue.mem_accept.mpr (.inr rfl))
        have hiz : (publishing allowed focus).Inv z :=
          ⟨(hz.published _ hpy).of_excused fun _ _ _ => .inl hwait,
            fun b s' h => hz.devoted (hdy b s' h)⟩
        have hrz : (publishing allowed focus).Rel w z := (publishing allowed focus).trans hry
          ⟨rfl, Nat.le_refl _, fun b s' h => hz.recorded (hdy b s' h)⟩
        have hnext : S.AgreesAt (followUp (y.queue.accept (.splices a)).2) z := Agrees.agreesAt hiz
        exact (hnext.since hrz).congr fun _ => rfl
      | false =>
        -- the observer has shut its gate before
        have hs : y.Scheduled a := by
          obtain h | h | h := hi.waits a o ho hq
          · exact h
          · exact absurd h ‹_›
          · exact h.elim
        exact .of_eq (fun _ => rfl) ⟨hry, hpy.of_excused fun _ _ _ => .inl hs, hdy⟩

/-- Replacing items by themselves is nothing. -/
theorem withItems (hi : (publishing allowed focus).Inv w) {a : ArrayId} {items : List Value}
    (h : items = w.itemsOf a) :
    (publishing allowed focus).Rel w (w.withItems a items) ∧
      (publishing allowed focus).Inv (w.withItems a items) :=
  publishing_respects (.withItems fun _ _ _ => h) rfl hi

theorem spliceArray (a : ArrayId) (index deleteCount : Nat) (added : List Value) :
    S.Agrees (spliceArray a index deleteCount added) := by
  refine ⟨fun {w} hi => ?_⟩
  let s := Splice.cut (w.itemsOf a) index deleteCount added
  have hf : s.Fits (w.itemsOf a) := Splice.cut_fits _ _ _ _
  have hm : ∀ calls, Machine.spliceArray a index deleteCount added calls w =
      (if !s.isEmpty then recordSplice a s >>= fun _ => pure s.removed else pure s.removed :
        Machine (List Value)) calls (w.withItems a (s.apply (w.itemsOf a))) := fun _ => rfl
  refine Leads.congr hm ?_
  split
  · exact (recordSplice_leads hi hf).bind (fun _ _ h => h) fun _ _ h => .of_eq (fun _ => rfl) h
  · next he =>
    exact .of_eq (fun _ => rfl) (withItems hi (Splice.apply_of_isEmpty (by simpa using he)))

theorem replaceItems (a : ArrayId) (added : List Value) : S.Agrees (replaceItems a added) := by
  refine ⟨fun {w} hi => ?_⟩
  have hl := recordSplice_leads (S := S) hi (Splice.reset_fits (w.itemsOf a) added)
  rw [Splice.apply_reset] at hl
  exact hl

/-- Reordering leaves an array that is empty as it is. -/
theorem reorderItems (a : ArrayId) {f : List Value → List Value} (hf : f [] = []) :
    S.Agrees (reorderItems a f) := by
  refine ⟨fun {w} hi => ?_⟩
  have hl := recordSplice_leads (S := S) hi (Splice.reset_fits (w.itemsOf a) (f (w.itemsOf a)))
  rw [Splice.apply_reset] at hl
  have hm : ∀ calls, Machine.reorderItems a f calls w =
      (if !(w.itemsOf a).isEmpty then recordSplice a (.reset (w.itemsOf a) (f (w.itemsOf a)))
        else pure ⟨⟩ : Machine Unit) calls (w.withItems a (f (w.itemsOf a))) := fun _ => rfl
  refine Leads.congr hm ?_
  split
  · exact hl
  · next he =>
    have hn : w.itemsOf a = [] := by simpa using he
    exact .of_eq (fun _ => rfl) (withItems hi (by rw [hn, hf]))

/-! ## Publishing -/

/-- Whoever is told first is told in a call that may be made. -/
theorem deliverAll_allowed (hi : (publishing allowed focus).Inv w) {change : Change} {x : Subscriber}
    {l : List Subscriber} {r : Except Error Unit}
    (h : deliverAll change (x :: l) S.calls w = some (r, w')) :
    allowed (.deliver x change) { w with held := (x :: l).map .subscriber ++ w.held } = true := by
  have hentry := entry_telling hi x change (x :: l)
  have hfirst : ∀ {r₁ w₁}, holding ((x :: l).map .subscriber) (Machine.call (.deliver x change))
      S.calls w = some (r₁, w₁) →
      allowed (.deliver x change) { w with held := (x :: l).map .subscriber ++ w.held } = true := by
    intro r₁ w₁ hc
    unfold holding within at hc
    split at hc
    · next hm => exact (S.call hentry hm).1
    · cases hc
  obtain ⟨e, h1, -⟩ | ⟨u, w₁, h1, -⟩ := bind_eq_some h
  · exact hfirst h1
  · exact hfirst h1

/-- **Publishing tells whoever listens**, unless the array is being published already. -/
theorem publication_leads
    (hk : Upholds allowed focus)
    (hi : (publishing allowed focus).Inv w) {a : ArrayId} {o : ArrayObserver}
    (ho : (w.arrays.get a).observer = some o) {history : List Splice} (hh : history ≠ []) :
    S.Leads (holding [.changing (.array a) "length"] (notify o.notifier (.splices history))) w
      fun _ w' => Ledgers focus (share (.splices history)
          ((w.notifiers.get o.notifier).recipients (.splices history))) w w' ∧
        (publishing allowed focus).Inv w' ∧ ∀ s, focus a s → w'.Listens s →
          publication a ∉ w.held ∧ (w.heard s).length + history.length ≤ (w'.heard s).length ∧
            ∀ news, w'.heard s = w.heard s ++ news →
              Splice.Grows (history ++ w.pending a) (w.itemsOf a)
                (news ++ w'.pending a) (w'.itemsOf a) := by
  intro r w' hc
  let l := (w.notifiers.get o.notifier).recipients (.splices history)
  have hscope : Scope (publishing allowed focus).Mild w _ _ :=
    .change [publication a] (by simp [publication])
      (Regime.Open.behavior (G := publishing allowed focus))
  have hix : (publishing allowed focus).Inv { w with held := [publication a] ++ w.held } :=
    clear_enter hscope hi
  have hall : S.Leads (notify o.notifier (.splices history))
      { w with held := [publication a] ++ w.held } fun _ x =>
        Ledgers focus (share (.splices history) l) { w with held := [publication a] ++ w.held } x ∧
          (publishing allowed focus).Inv x :=
    .read (deliverAll_leads _ _ (.inr (hix.toPublished.nodup_recipients _ _)) hix)
  obtain ⟨h1, x, rfl, hw, hi'⟩ := Leads.within hall r w' hc
  refine ⟨h1, ledgers_leave hscope hw, clear_leave hscope hw.held hi', fun s hf hl => ?_⟩
  have hr := hw.recorded a s hf
  -- the subscriber listens to the array, and so is among those who are told
  have hm : .scripted s ∈ l := by
    obtain ⟨n, hn⟩ := hr.listens hl
    obtain ⟨p, hp, -, hd⟩ := hi.devoted a s hf
    obtain rfl : o = p := Option.some.inj (ho.symm.trans hp)
    obtain rfl := hd n hn
    exact Notifier.mem_recipients.mpr (.inr hn)
  have hs : share (.splices history) l s = history := if_pos hm
  refine ⟨fun hp => ?_, ?_, ?_⟩
  · -- whoever is told first would be told in the middle of two publications
    obtain ⟨y, rest, hy⟩ := List.exists_cons_of_ne_nil (List.ne_nil_of_mem hm)
    unfold holding within at hc
    split at hc
    · next r₁ w₁ hn =>
      have hd : deliverAll (.splices history) l S.calls
          { w with held := [publication a] ++ w.held } = some (r₁, w₁) := hn
      rw [hy] at hd
      have ho := hk a s hf _ _ (deliverAll_allowed hix hd)
      have hcount : 0 < w.held.count (publication a) := List.count_pos_iff.mpr hp
      simp only [orderly, Change.history, Bool.or_eq_true, List.isEmpty_iff, hh, decide_eq_true_eq,
        List.count_append, List.count_singleton_self, false_or] at ho
      omega
    · cases hc
  · have := hr.told
    rw [hs] at this
    exact this
  · intro news hn
    have := hr.grows hl [] news (.inr (List.mem_append_left _ (List.mem_singleton_self _))) hn
    rw [hs, List.append_nil, List.append_nil] at this
    exact this

/-- Seen from before what was pending was handed over, publishing it moves it forward in the
ledgers. -/
theorem publication_rel {x x' : World} {a : ArrayId} {o : ArrayObserver}
    (hx : Observed a o { o with pending := [], needsQueue := true } (w.itemsOf a) w x)
    (hi : (publishing allowed focus).Inv x)
    (h : Ledgers focus (share (.splices o.pending)
        ((x.notifiers.get o.notifier).recipients (.splices o.pending))) x x' ∧
      (publishing allowed focus).Inv x' ∧ ∀ s, focus a s → x'.Listens s →
        publication a ∉ x.held ∧ (x.heard s).length + o.pending.length ≤ (x'.heard s).length ∧
          ∀ news, x'.heard s = x.heard s ++ news →
            Splice.Grows (o.pending ++ x.pending a) (x.itemsOf a)
              (news ++ x'.pending a) (x'.itemsOf a)) :
    (publishing allowed focus).Rel w x' ∧ (publishing allowed focus).Inv x' ∧
      ∀ s, focus a s → x'.Listens s →
        (w.heard s).length + (w.pending a).length ≤ (x'.heard s).length := by
  obtain ⟨hw, hi', hs⟩ := h
  have hheld : w.held = x.held := by rw [hx.rest]
  refine ⟨⟨hw.held.trans hheld.symm, ?_, fun b s hf => ?_⟩, hi', fun s hf hl => ?_⟩
  · have hb := hw.grown
    rw [hx.rest] at hb
    exact hb
  · have hr := hw.recorded b s hf
    by_cases hb : b = a
    · subst hb
      refine ⟨hx.heard s ▸ hr.heard, hx.heard s ▸ Nat.le_trans (Nat.le_add_right _ _) hr.told,
        fun hl => hx.listens (hr.listens hl), fun hl flight news hf' hnews => ?_⟩
      obtain ⟨hn, -, hg⟩ := hs s hf hl
      obtain rfl : flight = [] := hf'.resolve_right (hheld ▸ hn)
      rw [hx.heard, hx.pending.2, hx.itemsOf, List.append_nil] at hg
      rw [hx.pending.1, List.append_nil, List.append_nil]
      exact hg news hnews
    · have hox : (x.arrays.get a).observer = some { o with pending := [], needsQueue := true } :=
        congrArg _ hx.get_self
      rw [share_of_devoted hi hf hox (.inr (Ne.symm hb))] at hr
      exact (hx.recorded_of_ne hb s).trans hr hheld.symm
  · have := (hs s hf hl).2.1
    rw [hx.heard] at this
    rw [hx.pending.1]
    exact this

/-- **When it is published, what an array has taken up is told** to whoever is devoted to it and
listens still. -/
theorem flushSplices_leads
    (hk : Upholds allowed focus) {a : ArrayId}
    (hp : w.Published (· = a)) (hd : ∀ a s, focus a s → w.Devoted a s) :
    S.Leads (flushSplices a) w fun _ w' =>
      (publishing allowed focus).Rel w w' ∧ (publishing allowed focus).Inv w' ∧
        ∀ s, focus a s → w'.Listens s →
          (w.heard s).length + (w.pending a).length ≤ (w'.heard s).length := by
  -- to an array that publishes nothing nobody is devoted
  have hnobody : (∀ o, (w.arrays.get a).observer = some o → o.isImmediate = true) →
      ∀ s, ¬ focus a s := by
    intro hi s hf
    obtain ⟨o, ho, hb, -⟩ := hd a s hf
    cases (hi o ho).symm.trans hb
  unfold flushSplices
  refine .read (g := id) ?_
  dsimp only [id]
  split
  · next ho =>
    have hi : (publishing allowed focus).Inv w :=
      ⟨hp.of_excused fun o ho' => (by cases ho.symm.trans ho'), hd⟩
    exact .of_eq (fun _ => rfl) ⟨(publishing allowed focus).refl w, hi, fun s hf =>
      absurd hf (hnobody (fun o ho' => (by cases ho.symm.trans ho')) s)⟩
  · next o ho =>
    split
    · next him =>
      have ho' : ∀ p, (w.arrays.get a).observer = some p → p.isImmediate = true := fun p hp => by
        obtain rfl : o = p := Option.some.inj (ho.symm.trans hp)
        exact him
      have hi : (publishing allowed focus).Inv w := ⟨hp.of_excused fun p hp _ => .inr (ho' p hp), hd⟩
      have hlog : S.AgreesAt (logEntry .flushed) w := Agrees.agreesAt hi
      exact hlog.mono fun _ _ h => ⟨h.1, h.2, fun s hf => absurd hf (hnobody ho' s)⟩
    · have hx := observed_handOver ho
      let x := w.handOver a o
      have hix : (publishing allowed focus).Inv x :=
        ⟨hx.published hp (fun h => by cases h) (fun h => absurd rfl h) fun b hb he => hb he,
          fun b s hf => hx.devoted (hd b s hf)⟩
      have hm : ∀ calls, (do
            setArrayObserver a { o with pending := [], needsQueue := true }
            if !o.pending.isEmpty then
              holding [.changing (.array a) "length"] <|
                notify o.notifier (.splices o.pending)
              notify o.notifier (.property "length") : Machine Unit) calls w =
          (if !o.pending.isEmpty then
            holding [.changing (.array a) "length"] (notify o.notifier (.splices o.pending)) >>=
              fun _ => notify o.notifier (.property "length")
            else pure () : Machine Unit) calls x := fun _ => rfl
      refine Leads.congr hm ?_
      split
      · next hn =>
        have hn : o.pending ≠ [] := by simpa using hn
        have hox : (x.arrays.get a).observer = some { o with pending := [], needsQueue := true } :=
          congrArg _ hx.get_self
        have hquiet : S.Agrees (notify o.notifier (.property "length")) := notify_quiet _ rfl
        have hpub := (publication_leads (S := S) hk hix hox hn).mono fun _ x' h =>
          publication_rel hx hix h
        refine hpub.bind (fun _ _ h => h) fun _ x' h => ?_
        refine (hquiet.agreesAt h.2.1).mono fun _ w' h' => ?_
        refine ⟨(publishing allowed focus).trans h.1 h'.1, h'.2, fun s hf hl => ?_⟩
        have hr := h'.1.recorded a s hf
        exact Nat.le_trans (h.2.2 s hf (hr.listens hl)) (Nat.le_trans (Nat.le_add_right _ _) hr.told)
      · next hn =>
        have hn : o.pending = [] := by simpa using hn
        refine .of_eq (fun _ => rfl) ⟨⟨rfl, Nat.le_refl _, fun b s _ => ?_⟩, hix, fun s _ _ => ?_⟩
        · by_cases hb : b = a
          · subst hb
            exact .of_eq ⟨rfl, by rw [hx.pending.1, hx.pending.2, hn], hx.itemsOf⟩ hx.listens
          · exact hx.recorded_of_ne hb s
        · rw [hx.pending.1, hn]
          exact Nat.le_refl _

/-! ## Hearing -/

theorem heard_told (w : World) (s s' : SubscriberId) (change : Change) :
    (w.told s change).heard s' = w.heard s' ++ share change [.scripted s] s' := by
  unfold heard World.told share
  rw [Store.get_set]
  by_cases he : s = s'
  · subst he
    simp
  · simp [he, Ne.symm he]

/-- What a scripted subscriber is told is on the way no more. -/
theorem ledgers_told (w : World) (s : SubscriberId) (change : Change) :
    Ledgers focus (share change [.scripted s]) w (w.told s change) := by
  refine ⟨rfl, Nat.le_refl _, fun a s' _ => ⟨?_, ?_, id, fun _ flight news _ hn => ?_⟩⟩
  · rw [heard_told]
    exact List.prefix_append _ _
  · exact Nat.le_of_eq (by rw [heard_told, List.length_append])
  · rw [heard_told] at hn
    exact List.append_cancel_left hn ▸ .refl

/-- **Whoever is told hears its share.** -/
theorem deliver_leads [S.Steady] (hi : (publishing allowed focus).Inv w) (x : Subscriber)
    (change : Change) :
    S.Leads (deliver x change) w fun _ w' =>
      Ledgers focus (share change [x]) w w' ∧ (publishing allowed focus).Inv w' := by
  by_cases hx : ∃ s, x = .scripted s
  · obtain ⟨s, rfl⟩ := hx
    have ht : (publishing allowed focus).Inv (w.told s change) :=
      ⟨hi.toPublished.of_observers (fun _ => rfl) (Nat.le_refl _) (fun _ h => h) fun _ h => h,
        hi.devoted⟩
    refine (subscriberTold_leads ht).mono fun _ w' h => ⟨?_, h.2⟩
    exact ((ledgers_told w s change).trans h.1).congr fun _ _ _ => (List.append_nil _).symm
  · have hd : S.Agrees (deliver x change) := agrees_deliver fun s hs => absurd ⟨s, hs⟩ hx
    refine (hd.agreesAt hi).mono fun _ w' h => ⟨h.1.congr fun _ s _ => if_neg fun hm => ?_, h.2⟩
    exact hx ⟨s, (List.mem_singleton.mp hm).symm⟩

/-! ## What makes others act -/

/-- Objects and contexts have no ledgers. -/
theorem storeField (o : ObjectId) (name : String) (value : Value) :
    S.Agrees (storeField o name value) :=
  ⟨fun {w} hi => Leads.of_eq (fun _ => rfl) (publishing_respects (w := w)
    (.of_eq rfl rfl rfl rfl rfl) rfl hi)⟩

theorem steady (hk : Upholds allowed focus) :
    S.Steady where
  notify n _ h := notify_quiet n h
  setProperty o name value := setProperty_agrees (storeField o name value) fun _ => notify_quiet _ rfl
  spliceArray := spliceArray
  reorderItems a _ hf := reorderItems a hf
  flushSplices _ := ⟨fun hi =>
    (flushSplices_leads hk (hi.toPublished.mono fun _ => False.elim) hi.devoted).mono
      fun _ _ h => ⟨h.1, h.2.1⟩⟩

/-! ## Flushes -/

/-- What is scheduled while the first of some tasks runs is one of the others, or is so anyway. -/
theorem scheduled_inTurn {t : Task} {rest : List Task} {a : ArrayId} :
    (w.inTurn t rest).Scheduled a ↔ .splices a ∈ rest ∨ w.Scheduled a := by
  simp only [Scheduled, inTurn, List.mem_append, List.mem_cons, List.mem_map, Held.task.injEq,
    exists_eq_right, reduceCtorEq, false_or]
  exact or_left_comm

/-- The same when the task has run, in a world that holds on to the same things. -/
theorem scheduled_of_inTurn {t : Task} {rest : List Task} {a : ArrayId}
    (hh : w'.held = (w.inTurn t rest).held) (h : w'.Scheduled a) :
    ({ w' with held := w.held } : World).Scheduled a ∨ .splices a ∈ rest := by
  rcases h with h | h
  · exact .inl (.inl h)
  · rw [hh] at h
    simp only [inTurn, List.mem_append, List.mem_cons, List.mem_map, Held.task.injEq,
      exists_eq_right, reduceCtorEq, false_or] at h
    exact h.symm.imp_left .inr

/-- **A flush and the ledgers.** While the tasks of a flush run, an array that has shut its gate and
is scheduled no more still has its turn in it; when that is over, what waited at the beginning of the
flush has been told. -/
def flushing : Flushing (publishing allowed focus) where
  Owed start ts w := Ledgers focus (fun _ => []) start w ∧
    (w.Clear focus fun a => .splices a ∈ ts) ∧
    ∀ a s, focus a s → .splices a ∈ start.queue.tasks → w.Listens s →
      .splices a ∈ ts ∨ (start.heard s).length + (start.pending a).length ≤ (w.heard s).length
  log {start w ts entries} _ h :=
    have hs : LedgerStep w { w with log := entries } := .of_eq rfl rfl rfl rfl rfl
    ⟨h.1.trans (hs.ledgers (Nat.le_refl _) h.2.1), hs.clear h.2.1, h.2.2⟩
  turn {start w t rest} h := by
    obtain ⟨-, hc, -⟩ := h
    refine ⟨⟨fun a o ho hq => ?_, hc.shut, hc.made, hc.distinct, hc.nodup⟩, hc.devoted⟩
    obtain h | h | h := hc.waits a o ho hq
    · exact .inl (scheduled_inTurn.mpr (.inr h))
    · exact .inr (.inl h)
    · obtain rfl | h := List.mem_cons.mp h
      · exact .inr (.inr rfl)
      · exact .inl (scheduled_inTurn.mpr (.inl h))
  ran {start w w' t rest _} h _ he := by
    obtain ⟨hw, hc, ht⟩ := h
    obtain ⟨hw', hc', ht'⟩ := he
    have hrel : Ledgers focus (fun _ => []) w { w' with held := w.held } := hw'.release
    refine ⟨hw.trans hrel, ⟨⟨fun a o ho hq => ?_, hc'.shut, hc'.made, hc'.distinct, hc'.nodup⟩,
      hc'.devoted⟩, fun a s hf hm hl => ?_⟩
    · obtain h | h | h := hc'.waits a o ho hq
      · exact (scheduled_of_inTurn hw'.held h).imp_right .inr
      · exact .inr (.inl h)
      · exact h.elim
    · have hlw := (hrel.recorded a s hf).listens hl
      obtain h | h := ht a s hf hm hlw
      · obtain rfl | h := List.mem_cons.mp h
        · -- what waited at the beginning has only grown until now
          obtain ⟨news, hnews⟩ := (hw.recorded a s hf).heard
          have hg := ((hw.recorded a s hf).grows hlw [] news (.inl rfl) hnews.symm).length
          have hh := ht' a s hf rfl hl
          have hlen := congrArg List.length hnews
          simp only [List.append_nil, List.nil_append, List.length_append] at hg hlen
          refine .inr (Nat.le_trans ?_ hh)
          show _ ≤ (w.heard s).length + (w.pending a).length
          omega
        · exact .inl h
      · exact .inr (Nat.le_trans h (Nat.le_trans (Nat.le_add_right _ _) (hrel.recorded a s hf).told))

/-- **One flush tells what waited** when it began. -/
theorem process_leads (hi : (publishing allowed focus).Inv w) :
    S.Leads process w fun _ w' =>
      (publishing allowed focus).Rel w w' ∧ (publishing allowed focus).Inv w' ∧
        ∀ a s, focus a s → .splices a ∈ w.queue.tasks → w'.Listens s →
          (w.heard s).length + (w.pending a).length ≤ (w'.heard s).length := by
  let F : Flushing (publishing allowed focus) := flushing
  have ho : F.Owed w w.queue.tasks w.flushing := by
    refine ⟨⟨rfl, Nat.le_refl _, fun a s _ => .of_eq ⟨rfl, rfl, rfl⟩ id⟩,
      ⟨⟨fun a o ho hq => ?_, hi.shut, hi.made, hi.distinct, hi.nodup⟩, hi.devoted⟩,
      fun a s _ hm _ => .inl hm⟩
    obtain (h | h) | h | h := hi.waits a o ho hq
    · exact .inr (.inr h)
    · exact .inl (.inr h)
    · exact .inr (.inl h)
    · exact h.elim
  have hran : ∀ x, F.Ran w x → (publishing allowed focus).Rel w x ∧ (publishing allowed focus).Inv x ∧
      ∀ a s, focus a s → .splices a ∈ w.queue.tasks → x.Listens s →
        (w.heard s).length + (w.pending a).length ≤ (x.heard s).length := by
    rintro x (ht | ⟨ht, hw, hc, hh⟩)
    · have hs : LedgerStep w { w with queue := w.queue.drain.2 } :=
        .of_notifiers rfl rfl (.refl _) (fun t hm => absurd (ht ▸ hm) List.not_mem_nil) rfl
      refine ⟨hs.ledgers (Nat.le_refl _) hi, hs.clear hi, fun a s _ hm => ?_⟩
      exact absurd (ht ▸ hm) List.not_mem_nil
    · next w₁ =>
      have hs : LedgerStep w₁
          { w₁ with queue := { w₁.queue with processing := w.queue.processing } } :=
        .of_notifiers rfl rfl (.refl _) (fun _ hm => hm) rfl
      have hc : (publishing allowed focus).Inv w₁ :=
        ⟨hc.toPublished.mono fun _ => List.not_mem_nil, hc.devoted⟩
      refine ⟨hw.trans (hs.ledgers (Nat.le_refl _) hc), hs.clear hc, fun a s hf hm hl => ?_⟩
      exact (hh a s hf hm hl).resolve_left List.not_mem_nil
  refine (F.process_leads S fun _ => ho).mono ?_
  rintro r w' ⟨-, x, hx, rfl⟩
  obtain ⟨hrel, hix, hh⟩ := hran x hx
  obtain ⟨hrel', hi'⟩ := (publishing allowed focus).change hix (.tickets x _ trivial)
  obtain ⟨hrel'', hi''⟩ := (publishing allowed focus).change hi' (.request _)
  have hrest := (publishing allowed focus).trans hrel' hrel''
  refine ⟨(publishing allowed focus).trans hrel hrest, hi'', fun a s hf hm hl => ?_⟩
  have hr := hrest.recorded a s hf
  exact Nat.le_trans (hh a s hf hm (hr.listens hl)) (Nat.le_trans (Nat.le_add_right _ _) hr.told)

theorem process : S.Agrees process :=
  ⟨fun hi => (process_leads hi).mono fun _ _ h => ⟨h.1, h.2.1⟩⟩

/-! ## Subscribing -/

/-- **Subscribing** respects the regime unless somebody who is devoted to an array subscribes to
everything that something says. -/
theorem subscribe_agrees (n : NotifierId) {s : SubscriberId} {topic : Option String}
    (h : topic = none → ∀ a, ¬ focus a s) : S.Agrees (subscribe n (.scripted s) topic) := by
  refine ⟨fun {w} hi => ?_⟩
  let x : World := { w with notifiers := w.notifiers.modify n (·.subscribe (.scripted s) topic) }
  have hold : ∀ {a s'}, focus a s' → ∀ m, ⟨none, .scripted s'⟩ ∈ (x.notifiers.get m).subscriptions →
      ⟨none, .scripted s'⟩ ∈ (w.notifiers.get m).subscriptions := by
    intro a s' hf m hm
    rw [Store.get_modify] at hm
    split at hm
    · next he =>
      refine he ▸ (Notifier.mem_of_mem_subscribe hm).resolve_right fun he => ?_
      obtain ⟨rfl, rfl⟩ : none = topic ∧ s' = s := by simpa using he
      exact h rfl a hf
    · exact hm
  have hnodup : ∀ m, (w.notifiers.get m).subscriptions.Nodup →
      (x.notifiers.get m).subscriptions.Nodup := by
    intro m hm
    rw [Store.get_modify]
    split
    · next he => exact Notifier.nodup_subscribe (he ▸ hm) _ _
    · exact hm
  have hx : ∀ calls, Machine.subscribe n (.scripted s) topic calls w = some (.ok (), x) :=
    fun _ => rfl
  refine Leads.of_eq hx ⟨⟨rfl, Nat.le_refl _, fun a s' hf => ?_⟩, ⟨?_, ?_⟩⟩
  · exact .of_eq ⟨rfl, rfl, rfl⟩ (Exists.imp fun m hm => hold hf m hm)
  · exact hi.toPublished.of_observers (fun _ => rfl) (Store.size_le_modify _ _ _) hnodup fun _ h => h
  · intro a s' hf
    obtain ⟨o, ho, hb, hd⟩ := hi.devoted a s' hf
    exact ⟨o, ho, hb, fun m hm => hd m (hold hf m hm)⟩

theorem performSubscribe [S.Steady]
    (hk : Upholds allowed focus)
    (hi : (publishing allowed focus).Inv w) {subscriber : String} {target : Target}
    {name : Option String}
    (ha : allowed (.perform (.notifier (.subscribe subscriber target name))) w = true) :
    S.AgreesAt (performNotifier (.subscribe subscriber target name)) w := by
  have hnamed : S.Leads (subscriberNamed subscriber) w fun r w' => w' = w ∧
      ∀ s, r = .ok s → w.handles.find? subscriber = some (.subscriber s) := by
    refine (lookUp_leads subscriber "subscriber" _ w).mono fun r w' h => ⟨h.1, fun s hs => ?_⟩
    obtain ⟨handle, hh, hr⟩ := h.2 s hs
    cases handle with
    | subscriber => exact hh.trans (congrArg _ (congrArg _ (Option.some.inj hr)))
    | object | array | template | notifier | observer | context | task | node | event | view
        | listener | ticket => cases hr
  unfold performNotifier
  refine hnamed.bind ?_ ?_
  · rintro e w' ⟨rfl, -⟩
    exact ⟨(publishing allowed focus).refl _, hi⟩
  · rintro s w' ⟨rfl, hs⟩
    have hsub : ∀ n, S.Agrees (subscribe n (.scripted s) name) := fun n =>
      subscribe_agrees n fun hn a hf => by
        subst hn
        have ho := hk a s hf _ _ ha
        simp [orderly, hs s rfl] at ho
    exact Agrees.agreesAt hi

theorem commanded (hk : Upholds allowed focus)
    [S.Steady] : S.Commanded where
  replace hi _ := (agrees_replace replaceItems _ _).agreesAt hi
  subscribe hi ha := performSubscribe hk hi ha
  queue _ hi _ := by
    have := process (S := S)
    exact Agrees.agreesAt hi

end Setting.Publishing

/-- **Ledgers are kept** in every session that is orderly for whoever is devoted to an array. -/
theorem publishing_kept {allowed : Call → World → Bool} {focus : ArrayId → SubscriberId → Prop}
    (hk : Upholds allowed focus) :
    (publishing allowed focus).Kept := by
  refine Regime.Loose.kept (fun S => Setting.Publishing.steady hk) (fun S => ?_) (fun {c w} hc he => ?_)
    (fun {c _ _ _} hc hr hi => ?_) fun S {c w} hc he _ => ?_
  · have := Setting.Publishing.steady (S := S) hk
    exact Setting.Publishing.commanded hk
  · refine ⟨he.toPublished.mono fun a ha => ?_, he.devoted⟩
    subst ha
    exact hc
  · cases c with
    | eval | bindView | unbindView | bubble | perform => exact ⟨hr, hi, nofun⟩
    | deliver | update | settle | drainPool => exact hc.elim
  · have hsteady := Setting.Publishing.steady (S := S) hk
    have hprocess := Setting.Publishing.process (S := S)
    have hi : (∀ t, c ≠ .update t) → (publishing allowed focus).Inv w := fun hc =>
      ⟨he.toPublished.mono fun a ha => hc _ ha, he.devoted⟩
    cases c with
    | eval | bindView | unbindView | bubble | perform => exact absurd trivial hc
    | settle =>
      have ha : S.AgreesAt Machine.settle w := Setting.Agrees.agreesAt (hi nofun)
      exact ha.mono fun _ _ h => ⟨h.1, h.2, nofun⟩
    | drainPool =>
      have ha : S.AgreesAt Machine.drainPool w := Setting.Agrees.agreesAt (hi nofun)
      exact ha.mono fun _ _ h => ⟨h.1, h.2, nofun⟩
    | deliver x change =>
      exact (Setting.Publishing.deliver_leads (hi nofun) x change).mono fun _ _ h => ⟨h.1, h.2, nofun⟩
    | update t =>
      by_cases ht : ∃ a, t = .splices a
      · obtain ⟨a, rfl⟩ := ht
        have hp : w.Published (· = a) := he.toPublished.mono fun b hb => by simpa [eq_comm] using hb
        refine (Setting.Publishing.flushSplices_leads hk hp he.devoted).mono fun _ w' h => ?_
        refine ⟨h.1, h.2.1, fun b s hf hb hl => ?_⟩
        obtain rfl : a = b := by simpa using hb
        exact h.2.2 s hf hl
      · have hi : (publishing allowed focus).Inv w :=
          ⟨he.toPublished.mono fun a ha => ht ⟨a, by simpa using ha⟩, he.devoted⟩
        have ha : S.AgreesAt (Machine.update t) w := Setting.Agrees.agreesAt hi
        exact ha.mono fun _ _ h => ⟨h.1, h.2, fun a s _ ha => absurd ⟨a, by simpa using ha⟩ ht⟩

end ReactiveViews
