import ReactiveViews.Session.Values
import ReactiveViews.Proofs.Outcome
import Mathlib.Data.List.Induction
import Mathlib.Data.List.Nodup
import Mathlib.Data.List.Perm.Subperm
/-!
# What types inherit

The registry answers from what it remembers, and walks from type to parent only if it remembers nothing.
Here the definitions alone say what the answer has to be. `IsLineage` is the walk, stopped in front of the
first type that is unknown or has been met; of each name the nearest definition counts, in its latest form;
and names stand in the order of their farthest definitions.

`Registry.Reflects` says that a registry is what some definitions make of it, and that whatever it
remembers is what walking would find. Definitions keep the first by what `Keyed.put` does, and the second by
forgetting; looking up keeps it because it remembers what has just been found. The walk ends because it meets
no type twice: the steps allowed to it are more than there are types (`Registry.walk_climbs`).
-/

namespace ReactiveViews

theorem eraseDups_concat (names : List String) (name : String) :
    (names ++ [name]).eraseDups =
      if name ∈ names then names.eraseDups else names.eraseDups ++ [name] := by
  rw [List.eraseDups_append]
  by_cases h : name ∈ names <;> simp [h, List.removeAll, List.eraseDups_cons]

theorem nodup_eraseDups (names : List String) : names.eraseDups.Nodup := by
  induction names using List.reverseRecOn with
  | nil => exact .nil
  | append_singleton names name ih =>
    rw [eraseDups_concat]
    split
    · exact ih
    · next h =>
      have hfresh : name ∉ names.eraseDups := List.mem_eraseDups.not.mpr h
      exact List.nodup_append.mpr ⟨ih, List.nodup_singleton name, fun other ho found hf he =>
        hfresh (List.mem_singleton.mp hf ▸ he ▸ ho)⟩

/-- **Definition.** What is said of a type: that it has a parent or none, or that one of its properties is
observable. -/
inductive Definition
  | declares (type : String) (parent : Option String)
  | observes (type : String) (accessor : Accessor)

/-- The type that a definition is about. -/
def Definition.about : Definition → String
  | declares type _ | observes type _ => type

/-- The parent that a definition gives to a type, or that it has none. -/
def Definition.parent? (type : String) : Definition → Option (Option String)
  | .declares name parent => if name = type then some parent else none
  | .observes _ _ => none

/-- The accessor that a definition gives to a type. -/
def Definition.accessor? (type : String) : Definition → Option Accessor
  | .declares _ _ => none
  | .observes name accessor => if name = type then some accessor else none

/-- **Definitions** in the order in which they were made. -/
abbrev Definitions := List Definition

namespace Definitions

variable (ds : Definitions) (type name : String)

/-- A type is known from the first definition about it on. -/
def Knows : Prop := ∃ d ∈ ds, d.about = type

/-- The parent of a type, as last defined. -/
def parent? : Option String := (ds.reverse.findSome? (·.parent? type)).join

/-- The accessors defined for a type itself, in order. -/
def own : List Accessor := ds.filterMap (·.accessor? type)

/-- The definition of a name in a type itself: the latest. -/
def definition? : Option Accessor := (ds.own type).reverse.find? (·.name = name)

/-- The names defined in a type itself, in the order of their first definitions. -/
def names : List String := ((ds.own type).map (·.name)).eraseDups

/-- **The walk** from a type to its parent, to the parent of that, and on. -/
def ancestor? : Nat → Option String
  | 0 => some type
  | k + 1 => (ancestor? k).bind ds.parent?

/-- **Lineage.** The walk as far as it comes without meeting a type that is unknown or has been met. -/
structure IsLineage (lineage : List String) : Prop where
  walk : ∀ k t, lineage[k]? = some t → ds.ancestor? type k = some t
  known : ∀ t ∈ lineage, ds.Knows t
  nodup : lineage.Nodup
  stop : ∀ t, ds.ancestor? type lineage.length = some t → ds.Knows t → t ∈ lineage

end Definitions

/-- The definitions that a command makes. -/
def TypeCommand.definitions : TypeCommand → Definitions
  | .defineType name parent => [.declares name parent]
  | .defineProperties type names body => names.map fun name => .observes type ⟨name, body⟩
  | .accessors _ | .accessor _ _ => []

/-- The definitions that commands make one after another. -/
def Definitions.madeBy (cs : List TypeCommand) : Definitions := cs.flatMap TypeCommand.definitions

namespace Keyed

variable {α : Type} {entries base : Keyed α}

/-- Entries that are entered one after another stand behind what was there. -/
theorem names_foldl_put {before : List String} (h : names base = before.eraseDups) :
    names (entries.foldl (fun acc entry => acc.put entry.1 entry.2) base) =
      (before ++ names entries).eraseDups := by
  induction entries generalizing base before with
  | nil => simpa [names] using h
  | cons entry entries ih =>
    have hput : names (base.put entry.1 entry.2) = (before ++ [entry.1]).eraseDups := by
      rw [names_put, h, eraseDups_concat]
      simp only [List.mem_eraseDups]
    rw [List.foldl_cons, ih hput, List.append_assoc]
    rfl

theorem find?_eq_none_of_not_mem {name : String} (h : name ∉ names entries) :
    find? entries name = none := by
  induction entries with
  | nil => rfl
  | cons entry entries ih =>
    obtain ⟨hne, hrest⟩ := not_or.mp (List.mem_cons.not.mp h)
    rw [find?, if_neg (Ne.symm hne), ih hrest]

/-- They cover what was there. -/
theorem find?_foldl_put (hn : (names entries).Nodup) (name : String) :
    find? (entries.foldl (fun acc entry => acc.put entry.1 entry.2) base) name =
      (find? entries name).or (find? base name) := by
  induction entries generalizing base with
  | nil => rfl
  | cons entry entries ih =>
    obtain ⟨hfresh, hn⟩ := List.nodup_cons.mp hn
    rw [List.foldl_cons, ih hn, find?_put, find?]
    by_cases he : entry.1 = name
    · rw [if_pos he, if_pos he, find?_eq_none_of_not_mem (he ▸ hfresh)]
      rfl
    · rw [if_neg he, if_neg he]

theorem find?_of_mem (hn : (names entries).Nodup) {name : String} {value : α}
    (h : (name, value) ∈ entries) : find? entries name = some value := by
  induction entries with
  | nil => exact absurd h List.not_mem_nil
  | cons entry entries ih =>
    obtain ⟨hfresh, hn⟩ := List.nodup_cons.mp hn
    rw [find?]
    obtain rfl | h := List.mem_cons.mp h
    · rw [if_pos rfl]
    · have hmem : name ∈ names entries := List.mem_map_of_mem h
      rw [if_neg fun he : entry.1 = name => hfresh (he ▸ hmem), ih hn h]

end Keyed

namespace Definitions

variable {ds : Definitions} {type name : String}

theorem knows_append (d : Definition) :
    Knows (ds ++ [d]) type ↔ d.about = type ∨ ds.Knows type := by
  simp [Knows, or_and_right, exists_or, or_comm]

theorem parent?_append (d : Definition) :
    parent? (ds ++ [d]) type = ((d.parent? type).or (ds.reverse.findSome? (·.parent? type))).join := by
  rw [parent?, List.reverse_append, List.reverse_singleton, List.singleton_append, List.findSome?_cons]
  cases d.parent? type <;> rfl

theorem own_append (d : Definition) :
    own (ds ++ [d]) type = ds.own type ++ (d.accessor? type).toList := by
  rw [own, List.filterMap_append, ← own, List.filterMap_cons]
  cases d.accessor? type <;> rfl

theorem names_append_observes (a : Accessor) :
    names (ds ++ [.observes type a]) type =
      if a.name ∈ ds.names type then ds.names type else ds.names type ++ [a.name] := by
  rw [names, own_append, Definition.accessor?, if_pos rfl, Option.toList_some, List.map_append,
    List.map_singleton, eraseDups_concat, ← names]
  simp only [names, List.mem_eraseDups]

theorem definition?_append_observes (a : Accessor) :
    definition? (ds ++ [.observes type a]) type name =
      if a.name = name then some a else ds.definition? type name := by
  rw [definition?, own_append, Definition.accessor?, if_pos rfl, Option.toList_some,
    List.reverse_append, List.reverse_singleton, List.singleton_append, List.find?_cons]
  by_cases h : a.name = name
  · rw [if_pos h, decide_eq_true h]
  · rw [if_neg h, decide_eq_false h, definition?]

/-- What is defined under a name has that name. -/
theorem name_of_definition? {a : Accessor} (h : ds.definition? type name = some a) :
    a.name = name := by
  simpa using List.find?_some (show List.find? _ _ = some a from h)

theorem ancestor?_succ (k : Nat) :
    ds.ancestor? type (k + 1) = (ds.parent? type).bind (ds.ancestor? · k) := by
  induction k with
  | zero => simp [ancestor?]
  | succ k ih =>
    rw [ancestor?, ih, Option.bind_assoc]
    rfl

/-- A type has one lineage. -/
theorem IsLineage.unique {lineage other : List String} (h : ds.IsLineage type lineage)
    (h' : ds.IsLineage type other) : lineage = other := by
  -- the shorter of two would have to go on
  have key : ∀ {l m : List String}, ds.IsLineage type l → ds.IsLineage type m →
      m.length ≤ l.length := by
    intro l m hl hm
    by_contra hlt
    have hlt : l.length < m.length := Nat.lt_of_not_le hlt
    have hnext := hm.walk _ _ (List.getElem?_eq_getElem hlt)
    have hmem := hl.stop _ hnext (hm.known _ (List.getElem_mem hlt))
    obtain ⟨k, hk, he⟩ := List.mem_iff_getElem.mp hmem
    have hk' : k < m.length := Nat.lt_trans hk hlt
    have hsame : m[k] = m[l.length] := by
      have h₁ := hl.walk k _ (List.getElem?_eq_getElem hk)
      have h₂ := hm.walk k _ (List.getElem?_eq_getElem hk')
      rw [h₁] at h₂
      exact (Option.some.inj h₂).symm.trans he
    exact absurd ((List.Nodup.getElem_inj_iff hm.nodup).mp hsame) (Nat.ne_of_lt hk)
  refine List.ext_getElem (Nat.le_antisymm (key h' h) (key h h')) fun k hk hk' => ?_
  have h₁ := h.walk k _ (List.getElem?_eq_getElem hk)
  have h₂ := h'.walk k _ (List.getElem?_eq_getElem hk')
  exact Option.some.inj (h₁.symm.trans h₂)

end Definitions

namespace Registry

/-- **Climbing.** What the walk meets from a type on, apart from what it has met before. -/
inductive Climbs (types : Keyed TypeEntry) : List String → Option String → List String → Prop
  | top (seen : List String) : Climbs types seen none []
  | unknown {type : String} (h : types.find? type = none) (seen : List String) :
    Climbs types seen (some type) []
  | again {seen : List String} {type : String} (h : type ∈ seen) : Climbs types seen (some type) []
  | step {seen : List String} {type : String} {entry : TypeEntry} {rest : List String}
    (h : types.find? type = some entry) (hn : type ∉ seen)
    (hr : Climbs types (type :: seen) entry.parent rest) :
    Climbs types seen (some type) (type :: rest)

/-- **The walk ends.** With more steps than there are types still to be met it is as long as it can be. -/
theorem walk_climbs {types : Keyed TypeEntry} {steps : Nat} {seen : List String} (hn : seen.Nodup)
    (hs : seen ⊆ types.names) (hsteps : types.length < steps + seen.length)
    (start : Option String) :
    ∃ met, Climbs types seen start met ∧ (walk types steps seen start).1 = met.filterMap types.find? := by
  induction steps generalizing seen start with
  | zero =>
    have hle := (List.subperm_of_subset hn hs).length_le
    rw [Keyed.names, List.length_map] at hle
    omega
  | succ steps ih =>
    cases start with
    | none => exact ⟨[], .top seen, rfl⟩
    | some type =>
      rw [walk]
      cases he : types.find? type with
      | none => exact ⟨[], .unknown he seen, rfl⟩
      | some entry =>
        dsimp only
        by_cases hmet : type ∈ seen
        · rw [if_pos hmet]
          exact ⟨[], .again hmet, rfl⟩
        · have hmem : type ∈ types.names := by
            by_contra h
            rw [Keyed.find?_eq_none_of_not_mem h] at he
            exact absurd he (Option.some_ne_none entry).symm
          obtain ⟨rest, hrest, hwalk⟩ := ih (List.nodup_cons.mpr ⟨hmet, hn⟩)
            (List.cons_subset.mpr ⟨hmem, hs⟩) (by rw [List.length_cons]; omega) entry.parent
          refine ⟨type :: rest, .step he hmet hrest, ?_⟩
          rw [if_neg hmet, List.filterMap_cons, he]
          exact congrArg (entry :: ·) hwalk

theorem lineage_climbs (r : Registry) (type : String) :
    ∃ met, Climbs r.types [] (some type) met ∧
      (r.lineage type).1 = met.filterMap r.types.find? :=
  walk_climbs .nil (List.nil_subset _) (Nat.lt_succ_self _) (some type)

/-- What is known of a type; nothing, if it is not defined. -/
def entry (r : Registry) (type : String) : TypeEntry := (r.types.find? type).getD default

/-- **Reflection.** The registry is what the definitions make of it. -/
structure Reflects (ds : Definitions) (r : Registry) : Prop where
  known : ∀ t, (r.types.find? t).isSome ↔ ds.Knows t
  parent : ∀ t, (r.entry t).parent = ds.parent? t
  names : ∀ t, (r.entry t).own.names = ds.names t
  find? : ∀ t name, (r.entry t).own.find? name = ds.definition? t name
  /-- What is remembered is what walking would find. -/
  remembered : ∀ t all, r.flattened.find? t = some all → all = r.flatten t

namespace Reflects

variable {ds : Definitions} {r : Registry}

theorem empty : Reflects [] ⟨[], []⟩ where
  known _ := by simp [Keyed.find?, Definitions.Knows]
  parent _ := rfl
  names _ := rfl
  find? _ _ := rfl
  remembered _ _ h := nomatch h

/-- The registry with another entry of one type, and nothing remembered. -/
theorem entry_put (type t : String) (e : TypeEntry) :
    entry ⟨r.types.put type e, []⟩ t = if type = t then e else r.entry t := by
  rw [entry, Keyed.find?_put]
  split <;> rfl

theorem known_put (h : Reflects ds r) (d : Definition) (e : TypeEntry) (t : String) :
    ((r.types.put d.about e).find? t).isSome ↔ Definitions.Knows (ds ++ [d]) t := by
  rw [Definitions.knows_append, Keyed.find?_put, ← h.known]
  split <;> simp_all

theorem defineType (h : Reflects ds r) (type : String) (parent : Option String) :
    Reflects (ds ++ [.declares type parent]) (r.defineType type parent) where
  known := h.known_put (.declares type parent) _
  parent t := by
    rw [Registry.defineType, entry_put, Definitions.parent?_append, Definition.parent?]
    split
    · rfl
    · exact h.parent t
  names t := by
    rw [Registry.defineType, entry_put, Definitions.names, Definitions.own_append]
    refine Eq.trans ?_ ((h.names t).trans (by simp [Definition.accessor?, Definitions.names]))
    split
    · next he => exact he ▸ rfl
    · rfl
  find? t name := by
    rw [Registry.defineType, entry_put, Definitions.definition?, Definitions.own_append]
    refine Eq.trans ?_ ((h.find? t name).trans
      (by simp [Definition.accessor?, Definitions.definition?]))
    split
    · next he => exact he ▸ rfl
    · rfl
  remembered _ _ h := nomatch h

theorem defineProperty (h : Reflects ds r) (type : String) (a : Accessor) :
    Reflects (ds ++ [.observes type a]) (r.defineProperty type a) where
  known := h.known_put (.observes type a) _
  parent t := by
    rw [Registry.defineProperty, entry_put, Definitions.parent?_append, Definition.parent?,
      Option.none_or]
    refine Eq.trans ?_ (h.parent t)
    split
    · next he => exact he ▸ rfl
    · rfl
  names t := by
    rw [Registry.defineProperty, entry_put]
    by_cases he : type = t
    · subst he
      rw [if_pos rfl, Definitions.names_append_observes, ← h.names]
      exact Keyed.names_put _ _ _
    · rw [if_neg he, h.names, Definitions.names, Definitions.names, Definitions.own_append,
        Definition.accessor?, if_neg he, Option.toList_none, List.append_nil]
  find? t name := by
    rw [Registry.defineProperty, entry_put]
    by_cases he : type = t
    · subst he
      rw [if_pos rfl, Definitions.definition?_append_observes, ← h.find?]
      exact Keyed.find?_put _ _ _ _
    · rw [if_neg he, h.find?, Definitions.definition?, Definitions.definition?,
        Definitions.own_append, Definition.accessor?, if_neg he, Option.toList_none, List.append_nil]
  remembered _ _ h := nomatch h

theorem defineProperties (h : Reflects ds r) (type : String) (names : List String)
    (body : Option Expr) :
    Reflects (ds ++ names.map fun name => .observes type ⟨name, body⟩)
      (names.foldl (fun r name => r.defineProperty type ⟨name, body⟩) r) := by
  induction names generalizing ds r with
  | nil => exact (List.append_nil ds).symm ▸ h
  | cons name names ih =>
    rw [List.map_cons, List.append_cons]
    exact ih (h.defineProperty type ⟨name, body⟩)

/-- Looking up remembers what was found, and finds the same whether it was remembered or not. -/
theorem accessors (h : Reflects ds r) (type : String) :
    (r.accessors type).1 = r.flatten type ∧ Reflects ds (r.accessors type).2.1 := by
  rw [Registry.accessors]
  cases hf : r.flattened.find? type with
  | some all => exact ⟨h.remembered type all hf, h⟩
  | none =>
    refine ⟨rfl, { h with remembered := fun t all hall => ?_ }⟩
    rw [Keyed.find?_put] at hall
    split at hall
    · next he =>
      cases hall
      exact he ▸ rfl
    · exact h.remembered t all hall

/-- What the walk meets is a piece of the walk over the definitions, up to where that ends. -/
theorem climbs (h : Reflects ds r) {seen met : List String} {start : Option String}
    (hc : Climbs r.types seen start met) :
    (∀ k t, met[k]? = some t → start.bind (ds.ancestor? · k) = some t) ∧
      (∀ t ∈ met, t ∉ seen ∧ ds.Knows t) ∧ met.Nodup ∧
      ∀ t, start.bind (ds.ancestor? · met.length) = some t → ds.Knows t → t ∈ seen ∨ t ∈ met := by
  induction hc with
  | top => exact ⟨nofun, nofun, .nil, nofun⟩
  | @unknown type hu =>
    refine ⟨nofun, nofun, .nil, fun t ht hk => ?_⟩
    cases ht
    exact absurd ((h.known type).mpr hk) (by rw [hu]; nofun)
  | @again _ type hm =>
    refine ⟨nofun, nofun, .nil, fun t ht _ => ?_⟩
    cases ht
    exact .inl hm
  | @step seen type entry rest he hn _ ih =>
    obtain ⟨hwalk, hmet, hnodup, hstop⟩ := ih
    have hparent : entry.parent = ds.parent? type := by
      rw [← h.parent type, Registry.entry, he]
      rfl
    rw [hparent] at hwalk hstop
    refine ⟨fun k t hk => ?_, fun t ht => ?_, ?_, fun t ht hk => ?_⟩
    · cases k with
      | zero => exact hk
      | succ k => exact (Definitions.ancestor?_succ k).trans (hwalk k t hk)
    · obtain rfl | ht := List.mem_cons.mp ht
      · exact ⟨hn, (h.known t).mp (by rw [he]; rfl)⟩
      · exact (hmet t ht).imp_left (List.not_mem_of_not_mem_cons ·)
    · exact List.nodup_cons.mpr ⟨fun hm => (hmet type hm).1 List.mem_cons_self, hnodup⟩
    · rcases hstop t ((Definitions.ancestor?_succ _).symm.trans ht) hk with hm | hm
      · exact (List.mem_cons.mp hm).elim (fun he => .inr (he ▸ List.mem_cons_self)) .inl
      · exact .inr (List.mem_cons_of_mem _ hm)

/-- **The walk of the registry is the walk over the definitions**, and it ends. -/
theorem lineage (h : Reflects ds r) (type : String) :
    ∃ lineage, ds.IsLineage type lineage ∧ (r.lineage type).1 = lineage.map r.entry := by
  obtain ⟨met, hclimbs, hmet⟩ := r.lineage_climbs type
  obtain ⟨hwalk, hknown, hnodup, hstop⟩ := h.climbs hclimbs
  refine ⟨met, ⟨hwalk, fun t ht => (hknown t ht).2, hnodup, fun t ht hk =>
    (hstop t ht hk).resolve_left List.not_mem_nil⟩, hmet.trans ?_⟩
  rw [← List.filterMap_eq_map]
  refine List.filterMap_congr fun t ht => ?_
  obtain ⟨entry, he⟩ := Option.isSome_iff_exists.mp ((h.known t).mpr (hknown t ht).2)
  rw [Function.comp_apply, Registry.entry, he]
  rfl

theorem nodup_own (h : Reflects ds r) (t : String) : (r.entry t).own.names.Nodup :=
  h.names t ▸ nodup_eraseDups _

/-- **Laying over one another.** The nearest definition of a name is found, and its place is that of the
farthest. -/
theorem overlays (h : Reflects ds r) (lineage : List String) :
    let all := (lineage.map r.entry).reverse.foldl overlay []
    all.names = (lineage.reverse.flatMap ds.names).eraseDups ∧
      ∀ name, all.find? name = lineage.findSome? (ds.definition? · name) := by
  induction lineage with
  | nil => exact ⟨rfl, fun _ => rfl⟩
  | cons t lineage ih =>
    rw [List.map_cons, List.reverse_cons, List.foldl_append]
    obtain ⟨hnames, hfind⟩ := ih
    refine ⟨?_, fun name => ?_⟩
    · refine (Keyed.names_foldl_put hnames).trans ?_
      rw [h.names, List.reverse_cons, List.flatMap_append, List.flatMap_singleton]
    · refine (Keyed.find?_foldl_put (h.nodup_own t) name).trans ?_
      rw [h.find?, hfind, List.findSome?_cons]
      cases ds.definition? t name <;> rfl

theorem flatten (h : Reflects ds r) (type : String) :
    ∃ lineage, ds.IsLineage type lineage ∧
      (r.flatten type).names = (lineage.reverse.flatMap ds.names).eraseDups ∧
      ∀ name, (r.flatten type).find? name = lineage.findSome? (ds.definition? · name) := by
  obtain ⟨lineage, hlineage, hentries⟩ := h.lineage type
  rw [Registry.flatten, hentries]
  exact ⟨lineage, hlineage, h.overlays lineage⟩

end Reflects

end Registry

namespace Machine

variable {ds : Definitions} {w : World}

theorem accessorsOf_reflects (h : w.registry.Reflects ds) (type : String) (calls : Calls) :
    ∃ w', accessorsOf type calls w = some (.ok (w.registry.flatten type), w') ∧
      w'.registry.Reflects ds := by
  obtain ⟨hfound, hkept⟩ := h.accessors type
  rw [← hfound]
  unfold accessorsOf
  rw [bind_apply, get_apply]
  dsimp only
  rw [bind_apply, modify_apply]
  dsimp only
  cases (w.registry.accessors type).2.2 <;> exact ⟨_, rfl, hkept⟩

theorem accessorOf?_reflects (h : w.registry.Reflects ds) (type name : String) (calls : Calls) :
    ∃ w', accessorOf? type name calls w = some (.ok ((w.registry.flatten type).find? name), w') ∧
      w'.registry.Reflects ds := by
  obtain ⟨w', hall, hkept⟩ := accessorsOf_reflects h type calls
  refine ⟨w', ?_, hkept⟩
  unfold accessorOf?
  rw [bind_apply, hall]
  rfl

/-- **A command** on types succeeds, and does to the registry what it defines; a look-up defines nothing. -/
theorem performType_reflects (h : w.registry.Reflects ds) (c : TypeCommand) (calls : Calls) :
    ∃ answer w', performType c calls w = some (.ok answer, w') ∧
      w'.registry.Reflects (ds ++ c.definitions) := by
  cases c with
  | defineType name parent => exact ⟨_, _, rfl, h.defineType name parent⟩
  | defineProperties type names body => exact ⟨_, _, rfl, h.defineProperties type names body⟩
  | accessors type =>
    obtain ⟨w', hall, hkept⟩ := accessorsOf_reflects h type calls
    refine ⟨.accessors ((w.registry.flatten type).map fun entry => accessorInfo entry.2), w', ?_,
      (List.append_nil ds).symm ▸ hkept⟩
    rw [performType, bind_apply, hall]
    rfl
  | accessor type name =>
    obtain ⟨w', hfound, hkept⟩ := accessorOf?_reflects h type name calls
    refine ⟨.accessor (((w.registry.flatten type).find? name).map accessorInfo), w', ?_,
      (List.append_nil ds).symm ▸ hkept⟩
    rw [performType, bind_apply, hfound]
    rfl

theorem performTypes_reflect (h : w.registry.Reflects ds) (cs : List TypeCommand) (calls : Calls) :
    ∃ answers w', collect performType cs calls w = some (.ok answers, w') ∧
      w'.registry.Reflects (ds ++ .madeBy cs) := by
  induction cs generalizing ds w with
  | nil => exact ⟨[], w, rfl, (List.append_nil ds).symm ▸ h⟩
  | cons c cs ih =>
    obtain ⟨answer, w₁, hc, h₁⟩ := performType_reflects h c calls
    obtain ⟨answers, w₂, hcs, h₂⟩ := ih h₁
    refine ⟨answer :: answers, w₂, ?_, by rwa [Definitions.madeBy, List.flatMap_cons, ← List.append_assoc]⟩
    rw [collect, bind_apply, hc]
    dsimp only
    rw [bind_apply, hcs]
    rfl

/-- **The registry answers what the definitions say.** After any commands on types, in any order, whatever
has been looked up in between: the accessor of a name is the latest definition of it in the first type of the
lineage that defines it; and the accessors of a type are these, each once, in the order of the farthest
definitions of their names. -/
theorem registry_answers_by_definitions (cs : List TypeCommand) (type : String) (calls : Calls)
    (w : World) :
    ∃ answers w', collect performType cs calls { w with registry := ⟨[], []⟩ } = some (.ok answers, w') ∧
      let ds := Definitions.madeBy cs
      ∃ lineage, ds.IsLineage type lineage ∧
        (∀ name, ∃ w'', accessorOf? type name calls w' =
          some (.ok (lineage.findSome? (ds.definition? · name)), w'')) ∧
        ∃ all w'', accessorsOf type calls w' = some (.ok all, w'') ∧
          all.map (·.2.name) = (lineage.reverse.flatMap ds.names).eraseDups ∧
          (all.map (·.2.name)).Nodup ∧
          ∀ entry ∈ all, lineage.findSome? (ds.definition? · entry.2.name) = some entry.2 := by
  obtain ⟨answers, w', hcs, h⟩ :=
    performTypes_reflect (w := { w with registry := ⟨[], []⟩ }) Registry.Reflects.empty cs calls
  rw [List.nil_append] at h
  generalize Definitions.madeBy cs = ds at h ⊢
  obtain ⟨lineage, hlineage, hnames, hfind⟩ := h.flatten type
  have hentry : ∀ entry ∈ w'.registry.flatten type,
      lineage.findSome? (ds.definition? · entry.1) = some entry.2 := fun entry hm => by
    rw [← hfind]
    exact Keyed.find?_of_mem (hnames ▸ nodup_eraseDups _) hm
  have hname : ∀ entry ∈ w'.registry.flatten type, entry.2.name = entry.1 := fun entry hm => by
    obtain ⟨t, -, ht⟩ := List.exists_of_findSome?_eq_some (hentry entry hm)
    exact Definitions.name_of_definition? ht
  have hall : (w'.registry.flatten type).map (·.2.name) =
      (lineage.reverse.flatMap ds.names).eraseDups :=
    (List.map_congr_left hname).trans hnames
  obtain ⟨w'', haccessors, -⟩ := accessorsOf_reflects h type calls
  refine ⟨answers, w', hcs, lineage, hlineage, fun name => ?_, _, w'', haccessors, hall,
    hall ▸ nodup_eraseDups _, fun entry hm => by rw [hname entry hm, hentry entry hm]⟩
  obtain ⟨w'', hfound, -⟩ := accessorOf?_reflects h type name calls
  exact ⟨w'', hfound.trans (by rw [hfind])⟩

end Machine

end ReactiveViews
