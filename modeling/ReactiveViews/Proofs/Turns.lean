import ReactiveViews.Proofs.CalledOnce
import ReactiveViews.Proofs.Numbers
/-!
# Turns of an event

An event that is dispatched goes from node to node, and each node has its turn (`Machine.Journey`). In a turn
(`Machine.Turn`) everybody who is registered at the node for the type of the event when the turn begins is called,
each registration once, whatever the handlers do to the listeners and whatever they dispatch. Those that are to
be called once are off the roster before the first handler is called, and never stand on it again. Then the event goes on
to the node that is around this one *by then*. So an event may come to a node twice: the handlers at the second node
may put this one into the first one. Then whoever listens at the first one for good is called once more by the same
dispatch.
-/

namespace ReactiveViews

namespace World

/-- The node that an event goes on to from a node: the one around it, unless the event does not bubble or was
stopped. -/
def nextNode? (w : World) (n : NodeId) (e : EventId) : Option NodeId :=
  if (w.events.get e).bubbles && !(w.events.get e).propagationStopped then w.document.parent? n else none

end World

namespace Machine

/-- **Called one after another**: each of some handlers once, in order, and none of them fails. -/
inductive CalledUp (calls : Calls) (e : EventId) : List Handler → World → World → Prop
  | nil (w : World) : CalledUp calls e [] w w
  | cons {h : Handler} {hs : List Handler} {w w₁ w' : World}
    (hc : callHandler e h calls w = some (.ok (), w₁)) (hr : CalledUp calls e hs w₁ w') :
    CalledUp calls e (h :: hs) w w'

theorem calledUp_of_each {calls : Calls} [Firmly calls] {e : EventId} {hs : List Handler} {w w' : World}
    {r : Except Error Unit} (h : each (callHandler e) hs calls w = some (r, w')) :
    r = .ok () ∧ CalledUp calls e hs w w' := by
  induction hs generalizing w with
  | nil =>
    cases h
    exact ⟨rfl, .nil _⟩
  | cons handler hs ih =>
    rw [each] at h
    have hfirm : Firm calls (callHandler e handler) := inferInstance
    obtain ⟨err, hcall, -⟩ | ⟨⟨⟩, w₁, hcall, hrest⟩ := bind_eq_some h
    · obtain ⟨_, hok⟩ := hfirm.ok hcall
      exact absurd hok (by simp)
    · obtain ⟨hr, hrest⟩ := ih hrest
      exact ⟨hr, .cons hcall hrest⟩

/-- **Turn.** A node has its turn with an event. What is registered there for its type when the turn begins is
called, each registration once and in the order of the numbers; those that are to be called once have been taken off
the roster before, for good. Then comes whatever the handlers do. -/
structure Turn (calls : Calls) (e : EventId) (n : NodeId) (r : Roster) (w : World) (r' : Roster) (w' : World) :
    Prop where
  roster : r.Of w.document
  serials : ((r.found n (w.events.get e).type).map (·.2.serial)).Nodup
  called : ∃ x, CalledUp calls e ((r.found n (w.events.get e).type).map (·.2.listener.handler)) (w.atNode n e) x ∧
    w' = { x with held := w.held }
  off : ∀ {slot reg}, (slot, reg) ∈ r.found n (w.events.get e).type → reg.listener.once = true →
    (r.step (.turn n (w.events.get e).type)).Of (w.atNode n e).document ∧
      ∀ hs, ¬ ((r.step (.turn n (w.events.get e).type)).after hs).Stands reg.serial
  after : ∃ hs, r' = (r.step (.turn n (w.events.get e).type)).after hs
  roster' : r'.Of w'.document

/-- **Journey.** An event goes from node to node. Each has its turn, and then, if the event bubbles and was not
stopped, the node that is around it by then. -/
inductive Journey (e : EventId) : Nat → NodeId → Roster → World → List NodeId → Roster → World → Prop
  | arrive {depth : Nat} {n : NodeId} {r r' : Roster} {w w' : World}
    (ht : Turn (run depth) e n r w r' w') (hn : w'.nextNode? n e = none) :
    Journey e (depth + 1) n r w [n] r' w'
  | goOn {depth : Nat} {n p : NodeId} {ns : List NodeId} {r r₁ r' : Roster} {w w₁ w' : World}
    (ht : Turn (run depth) e n r w r₁ w₁) (hn : w₁.nextNode? n e = some p)
    (hj : Journey e depth p r₁ w₁ ns r' w') : Journey e (depth + 1) n r w (n :: ns) r' w'

theorem ascend_apply (n : NodeId) (e : EventId) (calls : Calls) (w : World) :
    ascend n e calls w = match w.nextNode? n e with
      | some p => calls (.bubble p e) w
      | none => some (.ok (), w) := by
  unfold ascend World.nextNode?
  rw [bind_apply, get_apply]
  dsimp only
  split
  · cases w.document.parent? n <;> rfl
  · rfl

/-- The handlers of a node are called up. -/
theorem rostered_takeHandlers {w : World} (hw : w.Rostered) (n : NodeId) (type : String) :
    ({ w with document := (w.document.takeHandlers n type).2 } : World).Rostered :=
  (hearing.change hw (.moved w (.takeHandlers _ n type) fun _ =>
    w.document.noneJoin_takeHandlers n type)).2

/-- **A node has its turn** with an event when it is handled there. -/
theorem turn_of_handlers {depth : Nat} {n : NodeId} {e : EventId} {r : Roster} {w w' : World}
    {res : Except Error Unit} (hw : w.Rostered) (hsound : r.Sound) (hr : r.Of w.document)
    (h : holding [.event e, .node n]
      (each (callHandler e) (w.document.takeHandlers n (w.events.get e).type).1) (run depth)
      { w with document := (w.document.takeHandlers n (w.events.get e).type).2 } = some (res, w')) :
    res = .ok () ∧ ∃ r', Turn (run depth) e n r w r' w' := by
  have hfirmly : Firmly (run depth) := runUnder_true depth ▸ inferInstance
  have hstep := hr.turn n (w.events.get e).type
  have hrostered : (w.atNode n e).Rostered := rostered_takeHandlers hw n (w.events.get e).type
  have hheard := h
  unfold holding within at hheard
  split at hheard
  · next res' x hx =>
    obtain ⟨rfl, rfl⟩ := Prod.mk.inj (Option.some.inj hheard)
    obtain ⟨hok, hcalled⟩ := calledUp_of_each hx
    obtain ⟨⟨-, hs, hfollows⟩, -⟩ := hears_of_run (fun S => inferInstance) hrostered hx
    have hhandlers : (w.document.takeHandlers n (w.events.get e).type).1 =
        (r.found n (w.events.get e).type).map (·.2.listener.handler) := by
      rw [Document.takeHandlers, hr.listenersFor, List.map_map]
      rfl
    exact ⟨hok, _, hr, hsound.nodup_found n _, ⟨x, hhandlers ▸ hcalled, rfl⟩,
      fun hm ho => ⟨hstep, hsound.found_once hm ho⟩, ⟨hs, rfl⟩, hfollows _ hstep⟩
  · exact absurd hheard nofun

theorem Turn.sound {calls : Calls} {e : EventId} {n : NodeId} {r r' : Roster} {w w' : World}
    (h : Turn calls e n r w r' w') (hr : r.Sound) : r'.Sound := by
  obtain ⟨hs, rfl⟩ := h.after
  exact (hr.step _).after hs

/-- **An event** goes on a journey. -/
theorem journey_of_bubble {depth : Nat} {n : NodeId} {e : EventId} {r : Roster} {w w' : World}
    {res : Except Error Unit} (hw : w.Rostered) (hsound : r.Sound) (hr : r.Of w.document)
    (h : run depth (.bubble n e) w = some (res, w')) :
    res = .ok () ∧ ∃ ns hs, Journey e depth n r w ns (r.after hs) w' := by
  induction depth generalizing n r w with
  | zero => exact absurd h nofun
  | succ depth ih =>
    replace h : bubble n e (run depth) w = some (res, w') := h
    rw [bubble_apply] at h
    have hrostered := rostered_takeHandlers hw n (w.events.get e).type
    obtain ⟨err, hturn, -⟩ | ⟨⟨⟩, w₁, hturn, hgo⟩ := bind_eq_some h
    · exact absurd (turn_of_handlers hw hsound hr hturn).1 nofun
    · obtain ⟨-, r₁, ht⟩ := turn_of_handlers hw hsound hr hturn
      have hw₁ := (hears_of_run (fun S => inferInstance) hrostered hturn).2
      obtain ⟨first, hr₁⟩ := ht.after
      replace hr₁ : r₁ = r.after (.turn n (w.events.get e).type :: first) := hr₁
      rw [ascend_apply] at hgo
      cases hn : w₁.nextNode? n e with
      | none =>
        rw [hn] at hgo
        cases hgo
        have hj : Journey e (depth + 1) n r w [n] r₁ w' := .arrive ht hn
        exact ⟨rfl, [n], _, hr₁ ▸ hj⟩
      | some p =>
        rw [hn] at hgo
        obtain ⟨hok, ns, later, hj⟩ := ih hw₁ (ht.sound hsound) ht.roster' hgo
        have hj : Journey e (depth + 1) n r w (n :: ns) (r₁.after later) w' := .goOn ht hn hj
        rw [hr₁, ← Roster.after_append] at hj
        exact ⟨hok, n :: ns, _, hj⟩

end Machine

/-- **A dispatch delivers.** A listener that is to be called once is called at most once in a whole session, wherever
it is registered and whatever is dispatched. An event that is dispatched wherever a session has got to does not fail,
and goes on a journey: in the turn of each node everybody is called once who is registered when the turn begins. -/
theorem dispatch_delivers :
    (∀ {name : String} {cs : List Command} {told : List LogEntry} {w : World},
      Session.record (namedOnce name) cs World.empty = some (told, w) → callsOf name told ≤ 1) ∧
    ∀ {c : Call} {n : NodeId} {e : EventId} {w w' : World} {depth : Nat} {res : Except Error Unit},
      Session.Visited (fun _ _ => true) c w → Machine.run depth (.bubble n e) w = some (res, w') →
        res = .ok () ∧ ∃ before later ns,
          Machine.Journey e depth n (Roster.none.after before) w ns (Roster.none.after (before ++ later)) w' := by
  refine ⟨Session.calls_le_one, fun {c n e w w' depth res} hv hrun => ?_⟩
  obtain ⟨before, hroster⟩ := Session.entry_of_visited hearing_kept World.rostered_empty hv
  obtain ⟨hok, ns, later, hj⟩ :=
    Machine.journey_of_bubble ⟨before, hroster⟩ (Roster.sound_none.after before) hroster hrun
  exact ⟨hok, before, later, ns, Roster.after_append before later ▸ hj⟩

/-- Two dispatches, of which one finds the listener. An event is dispatched where nobody listens. -/
theorem delivered_once : (∃ told w, callsOf "l" told = 1 ∧ callsOf "l" told ≤ 1 ∧
      Session.record (namedOnce "l") [.node (.create "n" (.element "div") ""), .event (.listen "l" "n" "x" true []),
        .event (.dispatch "n" (.fresh "x" none)), .event (.dispatch "n" (.fresh "x" none))] World.empty =
          some (told, w)) ∧
    ∃ w w' ns r r', Session.Visited (fun _ _ => true) (.perform (.node (.info "n"))) w ∧
      Machine.Journey ⟨0⟩ Session.depth ⟨0⟩ r w ns r' w' := by
  constructor
  · have hrecord : (Session.record (namedOnce "l") [.node (.create "n" (.element "div") ""),
        .event (.listen "l" "n" "x" true []), .event (.dispatch "n" (.fresh "x" none)),
        .event (.dispatch "n" (.fresh "x" none))] World.empty).any
          (fun x => callsOf "l" x.1 == 1) = true := by
      decide +kernel
    obtain ⟨⟨told, w⟩, hrecord, htold⟩ := (Option.any_eq_true _ _).mp hrecord
    exact ⟨told, w, beq_iff_eq.mp htold, dispatch_delivers.1 hrecord, hrecord⟩
  · have hplay : (Session.play (fun _ _ => true) [.node (.create "n" (.element "div") ""),
        .event (.create "e" (.fresh "x" none))] World.empty).any (fun w =>
          (Machine.runUnder (fun _ _ => true) Session.depth (.perform (.node (.info "n")))
            { w with log := [] }).isSome &&
          (Machine.run Session.depth (.bubble ⟨0⟩ ⟨0⟩) { w with log := [] }).isSome) = true := by
      decide +kernel
    obtain ⟨w, hw, hplay⟩ := (Option.any_eq_true _ _).mp hplay
    obtain ⟨hinfo, hbubble⟩ := (Bool.and_eq_true _ _).mp hplay
    obtain ⟨⟨res, w'⟩, hbubble⟩ := Option.isSome_iff_exists.mp hbubble
    have hv := Session.visited_of_reached (Session.reached_of_play .start hw) hinfo
    obtain ⟨-, before, later, ns, hj⟩ := dispatch_delivers.2 hv hbubble
    exact ⟨_, w', ns, _, _, hv, hj⟩

/-- **The same dispatch may call a listener twice.** The handler at the second node puts this node into the first
one, so the event comes to the first one again. -/
theorem called_twice_by_one_dispatch : ∃ w l o w',
    Session.play (fun _ _ => true) [.node (.create "a" (.element "div") ""), .node (.create "b" (.element "p") ""),
      .node (.append "b" "a"), .event (.listen "la" "a" "x" false []),
      .event (.listen "lb" "b" "x" false [.perform (.node (.detach "a")), .perform (.node (.append "a" "b"))])]
      World.empty = some w ∧
    w.document.listener? ⟨0⟩ 0 = some l ∧ l.type = "x" ∧ l.handler.isOf "la" = true ∧ l.once = false ∧
    Session.perform w (.event (.dispatch "a" (.fresh "x" (some (.bool true))))) = some (o, w') ∧
    callsOf "la" o.log = 2 := by
  have hplay : (Session.play (fun _ _ => true) [.node (.create "a" (.element "div") ""),
      .node (.create "b" (.element "p") ""), .node (.append "b" "a"), .event (.listen "la" "a" "x" false []),
      .event (.listen "lb" "b" "x" false [.perform (.node (.detach "a")), .perform (.node (.append "a" "b"))])]
      World.empty).any (fun w =>
        (w.document.listener? ⟨0⟩ 0).any (fun l => l.type == "x" && (l.handler.isOf "la" && !l.once)) &&
        (Session.perform w (.event (.dispatch "a" (.fresh "x" (some (.bool true)))))).any
          fun x => callsOf "la" x.1.log == 2) = true := by
    decide +kernel
  obtain ⟨w, hw, hplay⟩ := (Option.any_eq_true _ _).mp hplay
  obtain ⟨hlistens, hcalled⟩ := (Bool.and_eq_true _ _).mp hplay
  obtain ⟨l, hl, htests⟩ := (Option.any_eq_true _ _).mp hlistens
  obtain ⟨htype, htests⟩ := (Bool.and_eq_true _ _).mp htests
  obtain ⟨hname, honce⟩ := (Bool.and_eq_true _ _).mp htests
  obtain ⟨⟨o, w'⟩, ho, htold⟩ := (Option.any_eq_true _ _).mp hcalled
  exact ⟨w, l, o, w', hw, hl, beq_iff_eq.mp htype, hname, (Bool.not_eq_true' _).mp honce, ho,
    beq_iff_eq.mp htold⟩

end ReactiveViews
