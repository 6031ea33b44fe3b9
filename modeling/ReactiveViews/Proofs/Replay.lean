import ReactiveViews.Proofs.Publishing
/-!
# Splices replay

Whoever subscribes to an array at a moment at which nothing waits to be published, and
replays what it is told from then on on the items of that moment, arrives at the items of
the array whenever nothing waits again. Each splice fits what the splices before it have
made of the items. In asynchronous mode each change of the array is entered as one splice,
and what has been entered is told by the end of the next flush.

The array must not be published once more in the middle of its own publication, as when
somebody who is told publishes it.
-/

namespace ReactiveViews

/-- **Mutator.** The ways to change an array. -/
inductive Mutator
  | splice (index deleteCount : Nat) (added : List Value)
  | replace (added : List Value)
  | reorder (f : List Value → List Value) (hf : f [] = [])

namespace Mutator

open Machine World

/-- What a mutator does. -/
def run (a : ArrayId) : Mutator → Machine Unit
  | splice index deleteCount added => do
    let _ ← spliceArray a index deleteCount added
  | replace added => replaceItems a added
  | reorder f _ => reorderItems a f

/-- The splice by which a mutator changes some items, unless it leaves them as they are. -/
def splice? (items : List Value) : Mutator → Option Splice
  | splice index deleteCount added =>
    if (Splice.cut items index deleteCount added).isEmpty then none
    else some (Splice.cut items index deleteCount added)
  | replace added => some (.reset items added)
  | reorder f _ => if items.isEmpty then none else some (.reset items (f items))

/-- **Entering.** An array has undergone a splice, if there is one, which waits now to be published.
Nobody has been told anything. -/
structure Enters (a : ArrayId) (s : Option Splice) (w w' : World) : Prop where
  items : w'.itemsOf a = s.elim (w.itemsOf a) (·.apply (w.itemsOf a))
  pending : w'.pending a = s.elim (w.pending a) (Splice.append (w.pending a))
  told : w'.subscribers = w.subscribers

variable {w : World} {a : ArrayId} {o : ArrayObserver}

/-- In asynchronous mode nobody acts when a splice is taken up. -/
theorem recordSplice_apply (ho : (w.arrays.get a).observer = some o) (hb : o.isImmediate = false)
    (hm : w.queue.mode = .async) (s : Splice) (calls : Calls) :
    ∃ w', recordSplice a s calls (w.withItems a (s.apply (w.itemsOf a))) = some (.ok (), w') ∧
      Enters a (some s) w w' := by
  have hx := observed_spliced ho s
  let y := w.spliced a o s
  have hy : recordSplice a s calls (w.withItems a (s.apply (w.itemsOf a))) =
      (if o.needsQueue then enqueue (.splices a) else pure ⟨⟩ : Machine Unit) calls y := by
    unfold recordSplice
    rw [bind_apply, get_apply]
    dsimp only
    rw [(observer_withItems w a a _).trans ho]
    dsimp only
    rw [if_neg (by simp [hb])]
    rfl
  have henters : ∀ w', w'.arrays = y.arrays → w'.subscribers = y.subscribers →
      Enters a (some s) w w' := by
    intro w' ha hs
    refine ⟨?_, ?_, hs⟩
    · show (w'.arrays.get a).items = _
      rw [ha]
      exact hx.itemsOf
    · unfold World.pending
      rw [ha, hx.get_self, ho]
      rfl
  rw [hy]
  cases o.needsQueue with
  | false => exact ⟨y, rfl, henters y rfl rfl⟩
  | true =>
    have hn : (y.queue.accept (.splices a)).2 ≠ .runNow := fun h =>
      by cases (Queue.accept_eq_runNow.mp h).2.1.symm.trans hm
    exact ⟨_, followUp_apply calls { y with queue := (y.queue.accept (.splices a)).1 } hn,
      henters _ (arrays_follow _ _) (subscribers_follow _ _)⟩

/-- Where nothing is to be taken up nothing happens. -/
theorem enters_withItems {items : List Value} (h : items = w.itemsOf a) :
    Enters a none w (w.withItems a items) := by
  refine ⟨?_, ?_, rfl⟩
  · show ((w.withItems a items).arrays.get a).items = _
    rw [get_withItems, if_pos rfl]
    exact h
  · unfold World.pending
    rw [observer_withItems]
    rfl

/-- **In asynchronous mode a mutator enters its splice, and nothing else happens.** -/
theorem run_apply (m : Mutator) (ho : (w.arrays.get a).observer = some o)
    (hb : o.isImmediate = false) (hm : w.queue.mode = .async) (calls : Calls) :
    ∃ w', m.run a calls w = some (.ok (), w') ∧ Enters a (m.splice? (w.itemsOf a)) w w' := by
  have hrecord := recordSplice_apply ho hb hm
  cases m with
  | splice index deleteCount added =>
    let s := Splice.cut (w.itemsOf a) index deleteCount added
    have hr : run a (.splice index deleteCount added) calls w =
        ((if !s.isEmpty then recordSplice a s >>= fun _ => pure s.removed else pure s.removed) >>=
          fun _ => pure () : Machine Unit) calls (w.withItems a (s.apply (w.itemsOf a))) := rfl
    rw [hr, splice?]
    by_cases he : s.isEmpty = true
    · rw [if_neg (by simp [he]), if_pos he]
      exact ⟨_, rfl, enters_withItems (Splice.apply_of_isEmpty he)⟩
    · rw [if_pos (by simp [he]), if_neg he]
      obtain ⟨w', hc, hw⟩ := hrecord s calls
      refine ⟨w', ?_, hw⟩
      rw [bind_apply, bind_apply, hc]
      rfl
  | replace added =>
    have hc := hrecord (.reset (w.itemsOf a) added) calls
    rw [Splice.apply_reset] at hc
    exact hc
  | reorder f hf =>
    have hr : run a (.reorder f hf) calls w =
        (if !(w.itemsOf a).isEmpty then recordSplice a (.reset (w.itemsOf a) (f (w.itemsOf a)))
          else pure ⟨⟩ : Machine Unit) calls (w.withItems a (f (w.itemsOf a))) := rfl
    rw [hr, splice?]
    by_cases he : (w.itemsOf a).isEmpty = true
    · rw [if_neg (by simp [he]), if_pos he]
      refine ⟨_, rfl, enters_withItems ?_⟩
      rw [List.isEmpty_iff.mp he, hf]
    · rw [if_pos (by simp [he]), if_neg he]
      have hc := hrecord (.reset (w.itemsOf a) (f (w.itemsOf a))) calls
      rw [Splice.apply_reset] at hc
      exact hc

end Mutator

/-- In the empty world nothing waits to be published. -/
theorem published_empty : World.empty.Published fun _ => False :=
  ⟨fun _ _ => nofun, fun _ _ => nofun, fun _ _ => nofun, fun _ _ _ _ => nofun, fun _ => List.nodup_nil⟩

/-- Between commands nothing is held on to, and whatever waits to be published will be. -/
theorem published_of_reached {w : World} (h : Session.Reached (fun _ _ => true) w) :
    w.held = [] ∧ w.Published fun _ => False := by
  have hk : (publishing (fun _ _ => true) fun _ _ => False).Kept :=
    publishing_kept fun _ _ => False.elim
  obtain ⟨hr, hi⟩ := Session.keeps_of_reached hk ⟨published_empty, fun _ _ => False.elim⟩ h
  exact ⟨hr.held, hi.toPublished⟩

/-- **Splices replay.** Let a subscriber listen to everything that an array says, and to everything
nowhere else, from a moment on at which nothing waits to be published. Whatever a session does then,
as long as the array is not published in the middle of its own publication: the splices that the
subscriber has heard since, together with those that wait, carry the items of that moment to the
items of now. So as soon as nothing waits, replaying what it has heard gives the items; and each
splice that it has heard takes out what stands there in its turn. What waits is queued. In
asynchronous mode every mutator enters its splice, once, and a flush neither loses nor doubles what
has been entered: it has all been heard when the flush is over. -/
theorem told_splices_replay {a : ArrayId} {s : SubscriberId} {w₀ w : World} {cs : List Command}
    (h₀ : Session.Reached (fun _ _ => true) w₀) (hd : w₀.Devoted a s) (hp : w₀.pending a = [])
    (h : Session.play (orderly a s) cs w₀ = some w) (hl : w.Listens s) :
    ∃ news, w.heard s = w₀.heard s ++ news ∧
      Splice.Carries (w₀.itemsOf a) (news ++ w.pending a) (w.itemsOf a) ∧
      (w.pending a = [] → Splice.replay news (w₀.itemsOf a) = w.itemsOf a) ∧
      (∀ before x after, news = before ++ x :: after →
        x.Fits (Splice.replay before (w₀.itemsOf a))) ∧
      (w.pending a ≠ [] → .splices a ∈ w.queue.tasks) ∧
      (w.queue.mode = .async → ∀ (m : Mutator) calls, ∃ w',
        m.run a calls w = some (.ok (), w') ∧ Mutator.Enters a (m.splice? (w.itemsOf a)) w w') ∧
      ∀ depth r w', Machine.process (Machine.runUnder (orderly a s) depth) w = some (r, w') →
        w'.Listens s → ∃ more, w'.heard s = w.heard s ++ more ∧
          (w.pending a).length ≤ more.length ∧
          Splice.Grows (w.pending a) (w.itemsOf a) (more ++ w'.pending a) (w'.itemsOf a) := by
  let focus : ArrayId → SubscriberId → Prop := fun b t => b = a ∧ t = s
  have hkept : (publishing (orderly a s) focus).Kept := publishing_kept fun b t hf => by
    obtain ⟨rfl, rfl⟩ := hf
    exact fun _ _ h => h
  obtain ⟨hheld, hpub⟩ := published_of_reached h₀
  have hi₀ : (publishing (orderly a s) focus).Inv w₀ := ⟨hpub, fun b t hf => hf.1 ▸ hf.2 ▸ hd⟩
  obtain ⟨hrel, hi⟩ := Session.keeps_of_play hkept hi₀ h
  have hr := hrel.recorded a s ⟨rfl, rfl⟩
  obtain ⟨news, hnews⟩ := hr.heard
  have hgrows := hr.grows hl [] news (.inl rfl) hnews.symm
  simp only [hp, List.append_nil] at hgrows
  have hcarries : Splice.Carries (w₀.itemsOf a) (news ++ w.pending a) (w.itemsOf a) :=
    hgrows.carries rfl
  obtain ⟨o, ho, hb, -⟩ := hi.devoted a s ⟨rfl, rfl⟩
  have hpending : w.pending a = o.pending := by
    unfold World.pending
    rw [ho]
  -- between commands nothing is held on to
  have hqueued : w.pending a ≠ [] → .splices a ∈ w.queue.tasks := fun hsome => by
    obtain (hq | hq) | hq | hq := hi.waits a o ho (hi.shut a o ho (hpending ▸ hsome))
    · exact hq
    · rw [hrel.held, hheld] at hq
      exact absurd hq List.not_mem_nil
    · exact absurd (hq.symm.trans hb) nofun
    · exact hq.elim
  refine ⟨news, hnews.symm, hcarries, fun hnone => ?_, fun before x after hsplit => ?_, hqueued,
    fun hm m calls => m.run_apply ho hb hm calls, fun depth r w' hrun hl' => ?_⟩
  · rw [hnone, List.append_nil] at hcarries
    exact hcarries.replay
  · rw [hsplit, List.append_assoc, List.cons_append] at hcarries
    exact hcarries.fits
  · let S := (publishing (orderly a s) focus).setting hkept depth
    obtain ⟨-, hrel', -, hall⟩ := Setting.Publishing.process_leads (S := S) hi r w' hrun
    have hr' := hrel'.recorded a s ⟨rfl, rfl⟩
    obtain ⟨more, hmore⟩ := hr'.heard
    have hgrows' := hr'.grows hl' [] more (.inl rfl) hmore.symm
    simp only [List.append_nil, List.nil_append] at hgrows'
    refine ⟨more, hmore.symm, ?_, hgrows'⟩
    by_cases hnone : w.pending a = []
    · rw [hnone]
      exact Nat.zero_le _
    · have hlen := hall a s ⟨rfl, rfl⟩ (hqueued hnone) hl'
      rw [← hmore, List.length_append] at hlen
      omega

/-- An array and a subscriber that takes an item out whenever it is told anything. -/
def poppingSession : List Command :=
  [.array (.observation .buffered),
    .array (.create "a" [.text "x", .text "y", .text "z"]),
    .notifier (.createSubscriber "s" (.perform (.array (.pop "a")))),
    .notifier (.subscribe "s" (.handle "a") none)]

/-- What is then done to the array. -/
def poppedSession : List Command :=
  [.array (.push "a" (.text "u")), .array (.push "a" (.text "v")), .array (.reverse "a"),
    .queue .process, .array (.insert "a" 1 (.text "w")), .queue .settle]

theorem popped_splices_replay : ∃ w₀ w news, Session.Reached (fun _ _ => true) w₀ ∧
    w₀.Devoted ⟨0⟩ ⟨0⟩ ∧ w₀.pending ⟨0⟩ = [] ∧
    Session.play (orderly ⟨0⟩ ⟨0⟩) poppedSession w₀ = some w ∧ w.Listens ⟨0⟩ ∧
    w.heard ⟨0⟩ = w₀.heard ⟨0⟩ ++ news ∧ 4 < news.length ∧
    Splice.replay news (w₀.itemsOf ⟨0⟩) = w.itemsOf ⟨0⟩ := by
  have hplay : (Session.play (fun _ _ => true) poppingSession World.empty).any (fun w₀ =>
      decide (w₀.Devoted ⟨0⟩ ⟨0⟩) && (w₀.pending ⟨0⟩).isEmpty && (w₀.heard ⟨0⟩).isEmpty &&
        (Session.play (orderly ⟨0⟩ ⟨0⟩) poppedSession w₀).any fun w =>
          decide (w.Listens ⟨0⟩) && (w.pending ⟨0⟩).isEmpty &&
            decide (4 < (w.heard ⟨0⟩).length)) = true := by
    decide +kernel
  obtain ⟨w₀, hw₀, hrest⟩ := Option.any_eq_true _ _ |>.mp hplay
  simp only [Bool.and_eq_true, decide_eq_true_eq, List.isEmpty_iff] at hrest
  obtain ⟨⟨⟨hd, hp⟩, hnone⟩, hrest⟩ := hrest
  obtain ⟨w, hw, hrest⟩ := Option.any_eq_true _ _ |>.mp hrest
  simp only [Bool.and_eq_true, decide_eq_true_eq, List.isEmpty_iff] at hrest
  obtain ⟨⟨hl, hidle⟩, hlen⟩ := hrest
  have h₀ := Session.reached_of_play .start hw₀
  obtain ⟨news, hnews, -, hreplay, -⟩ := told_splices_replay h₀ hd hp hw hl
  rw [hnews, hnone, List.nil_append] at hlen
  exact ⟨w₀, w, news, h₀, hd, hp, hw, hl, hnews, hlen, hreplay hidle⟩

end ReactiveViews
