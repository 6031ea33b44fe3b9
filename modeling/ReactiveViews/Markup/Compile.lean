import ReactiveViews.Markup.Attribute
/-!
# Compiling markup

A template is written as literal strings around interpolations. The strings are
joined, with a marker for each interpolation that is not markup itself, and the
joined source is read once from front to back.

Reading keeps the elements that are open, innermost first, each with the children
it has so far. One step reads a comment, a closing tag, an opening tag with its
attributes, or a run of text, and always moves on (`step_past`); so reading ends.
The result is a list of trees and the directives with the paths of their nodes.
-/

namespace ReactiveViews.Markup

/-- What stands between two literal strings. -/
inductive Insertion
  | markup (text : String)
  | dynamic (d : Dynamic)

/-- **Level.** An element that is open, or at the bottom the fragment: what it is, where, and
its children so far, latest first. -/
structure Level where
  content : Content
  path : Path
  done : List Tree

namespace Level

/-- Where the next child will stand. -/
def nextPath (l : Level) : Path := l.path ++ [l.done.length]

/-- Adds a child at the end. -/
def add (l : Level) (t : Tree) : Level := { l with done := t :: l.done }

/-- The element with its children. -/
def close (l : Level) : Tree := .node l.content l.done.reverse

end Level

/-- **Reading state.** -/
structure State where
  cursor : Cursor
  supply : Supply
  top : Level
  /-- The levels around the innermost one. -/
  outer : List Level

/-- What compiling markup gives: trees, and directives with the paths of their nodes. -/
structure Compiled where
  trees : List Tree
  targets : List (Path × Directive)

/-- Whether a tag, a closing tag or a declaration begins here. -/
def startsTag : List Char → Bool
  | '<' :: c :: _ => c.isAlpha || c == '/' || c == '!'
  | _ => false

/-- The characters before the next place where a tag begins. -/
def textRun : List Char → List Char
  | [] => []
  | c :: rest => if startsTag (c :: rest) then [] else c :: textRun rest

/-- What the run of text leaves. -/
def afterTextRun : List Char → List Char
  | [] => []
  | c :: rest => if startsTag (c :: rest) then c :: rest else afterTextRun rest

theorem textRun_append_afterTextRun (cs : List Char) : textRun cs ++ afterTextRun cs = cs := by
  induction cs with
  | nil => rfl
  | cons c rest ih =>
    by_cases h : startsTag (c :: rest) <;> simp [textRun, afterTextRun, h, ih]

/-- Characters that a tag name may hold. -/
def isTagChar (c : Char) : Bool := c.isAlphanum || c == '-'

/-- The placeholder that a directive has in content. -/
def placeholder : Directive → Tree
  | .bind _ _ => .node (.text "") []
  | _ => .node (.comment "") []

/-- **Text.** Adds the nodes of a run of text to a level: text nodes, and placeholders at the
markers. -/
def addText (pos : Nat) : List Segment → Level → Supply → Except Error (Level × Supply)
  | [], level, s => .ok (level, s)
  | .text cs :: rest, level, s =>
    addText pos rest (level.add (.node (.text (String.ofList (Text.decode cs))) [])) s
  | .marker index :: rest, level, s =>
    match s.take pos index with
    | .error e => .error e
    | .ok (d, s) =>
      let directive := match d with
        | .binding b => .bind b .content
        | .directive d => d
      addText pos rest (level.add (placeholder directive)) (s.place level.nextPath directive)

/-- **Inside a tag.** Reads attributes up to the end of the tag, and tells whether the tag
closes itself. -/
def readAttributes (tag : String) (path : Path) (c : Cursor) (attributes : Keyed String)
    (s : Supply) : Except Error ((Keyed String × Supply × Bool) × Cursor) :=
  match _h : c.skipBlanks.rest with
  | [] => .error (.markup c.skipBlanks.pos ("unterminated <" ++ tag ++ ">"))
  | '/' :: '>' :: _ => .ok ((attributes, s, true), c.skipBlanks.next.next)
  | '>' :: _ => .ok ((attributes, s, false), c.skipBlanks.next)
  | _ :: _ =>
    match _h' : readAttribute c.skipBlanks with
    | .error e => .error e
    | .ok (none, c') => readAttributes tag path c' attributes s
    | .ok (some raw, c') =>
      match s.attach path c'.pos raw attributes with
      | .error e => .error e
      | .ok (attributes, s) => readAttributes tag path c' attributes s
termination_by c.rest.length
decreasing_by
  all_goals
    have hne : c.skipBlanks.rest ≠ [] := by simp [_h]
    exact ((readAttribute_past hne _h').trans_within c.skipBlanks_within).length_lt

/-- What one step of reading comes to. -/
inductive Step
  | done (result : Compiled)
  | more (s : State)

/-- At the end of the source every element has to be closed. -/
def finish (s : State) : Except Error Step :=
  match s.outer, s.top.content.kind with
  | _ :: _, .element tag => .error (.markup s.cursor.pos ("unclosed <" ++ tag ++ ">"))
  | _, _ => .ok (.done ⟨s.top.done.reverse, s.supply.targets⟩)

/-- Reads a comment behind its opening. -/
def readComment (s : State) (body : List Char) : Except Error Step :=
  match Cursor.splitAtText? "-->".toList body with
  | none => .error (.markup s.cursor.pos "unterminated comment")
  | some (data, rest) =>
    .ok (.more { s with
      cursor := s.cursor.past ("<!--".toList ++ data ++ "-->".toList) rest
      top := s.top.add (.node (.comment (String.ofList data)) []) })

/-- Reads a closing tag behind its opening; it has to name the innermost open element. -/
def readClosing (s : State) (body : List Char) : Except Error Step :=
  match Text.splitAt? '>' body with
  | none => .error (.markup s.cursor.pos "unterminated closing tag")
  | some (name, rest) =>
    let tag := String.ofList ((Text.trim name).map Char.toLower)
    match s.outer with
    | parent :: outer =>
      if s.top.content.kind = .element tag then
        .ok (.more { s with
          cursor := s.cursor.past ("</".toList ++ name ++ ['>']) rest
          top := parent.add s.top.close
          outer })
      else .error (.markup s.cursor.pos ("unexpected </" ++ tag ++ ">"))
    | [] => .error (.markup s.cursor.pos ("unexpected </" ++ tag ++ ">"))

/-- Reads an opening tag. A tag that closes itself and a void tag are complete; any other opens
an element. -/
def readOpening (s : State) : Except Error Step :=
  let (name, c) := s.cursor.next.readWhile isTagChar
  let tag := String.ofList (name.map Char.toLower)
  match readAttributes tag s.top.nextPath c [] s.supply with
  | .error e => .error e
  | .ok ((attributes, supply, closesItself), cursor) =>
    let content : Content := { Content.element tag with attributes }
    if closesItself || isVoidTag tag then
      .ok (.more { s with cursor, supply, top := s.top.add (.node content []) })
    else
      .ok (.more
        { cursor, supply, top := ⟨content, s.top.nextPath, []⟩, outer := s.top :: s.outer })

/-- Reads a run of text: the first character, and all up to the next place where a tag
begins. -/
def readText (s : State) (first : Char) (rest : List Char) : Except Error Step :=
  let text := first :: textRun rest
  match segments text with
  | .error e => .error e
  | .ok found =>
    (addText s.cursor.pos found s.top s.supply).map fun (top, supply) =>
      .more { s with cursor := s.cursor.past text (afterTextRun rest), supply, top }

/-- **One step.** -/
def step (s : State) : Except Error Step :=
  match s.cursor.rest with
  | [] => finish s
  | first :: rest =>
    match Cursor.afterText? "<!--".toList (first :: rest) with
    | some body => readComment s body
    | none =>
      match Cursor.afterText? "</".toList (first :: rest) with
      | some body => readClosing s body
      | none =>
        if startsTag (first :: rest) then readOpening s else readText s first rest

/-- Reading a tag moves on, or stays where it is at an error. -/
theorem readAttributes_within {tag : String} {path : Path} {c c' : Cursor}
    {attributes : Keyed String} {s : Supply} {r : Keyed String × Supply × Bool}
    (h : readAttributes tag path c attributes s = .ok (r, c')) : c'.Within c := by
  fun_induction readAttributes tag path c attributes s with
  | case1 => simp at h
  | case2 c attributes s rest hr =>
    simp only [Except.ok.injEq, Prod.mk.injEq] at h
    rw [← h.2]
    exact (Cursor.next_within _).trans ((Cursor.next_within _).trans c.skipBlanks_within)
  | case3 c attributes s rest hr =>
    simp only [Except.ok.injEq, Prod.mk.injEq] at h
    rw [← h.2]
    exact (Cursor.next_within _).trans c.skipBlanks_within
  | case4 => simp at h
  | case5 c attributes s d rest _ _ hr c₂ ha ih =>
    have hne : c.skipBlanks.rest ≠ [] := by simp [hr]
    exact (ih h).trans ((readAttribute_past hne ha).within.trans c.skipBlanks_within)
  | case6 => simp at h
  | case7 c attributes s d rest _ _ hr raw c₂ ha attributes' s' hs ih =>
    have hne : c.skipBlanks.rest ≠ [] := by simp [hr]
    exact (ih h).trans ((readAttribute_past hne ha).within.trans c.skipBlanks_within)

/-- **Progress.** A step that goes on has moved the cursor. -/
theorem step_past {s s' : State} (h : step s = .ok (.more s')) :
    s'.cursor.Past s.cursor := by
  unfold step at h
  split at h
  · unfold finish at h
    split at h <;> simp at h
  · next first rest hr =>
    split at h
    · next body hb =>
      unfold readComment at h
      split at h
      · simp at h
      · next data after hs =>
        simp only [Except.ok.injEq, Step.more.injEq] at h
        rw [← h]
        refine Cursor.past_past ?_ (by simp)
        rw [hr, Cursor.afterText?_eq_some hb, Cursor.splitAtText?_eq_some hs]
        simp
    · split at h
      · next body hb =>
        unfold readClosing at h
        split at h
        · simp at h
        · next name after hs =>
          simp only at h
          split at h
          · split at h
            · simp only [Except.ok.injEq, Step.more.injEq] at h
              rw [← h]
              refine Cursor.past_past ?_ (by simp)
              rw [hr, Cursor.afterText?_eq_some hb, Text.splitAt?_eq_some hs]
              simp
            · simp at h
          · simp at h
      · split at h
        · unfold readOpening at h
          have hn : s.cursor.rest ≠ [] := by simp [hr]
          have hm := (s.cursor.next.readWhile_within isTagChar).trans_past
            (Cursor.next_past hn)
          simp only at h
          split at h
          · simp at h
          · next attributes supply closesItself cursor ha =>
            have hw := (readAttributes_within ha).trans_past hm
            split at h <;>
            · simp only [Except.ok.injEq, Step.more.injEq] at h
              rw [← h]
              exact hw
        · unfold readText at h
          simp only at h
          split at h
          · simp at h
          · next found hf =>
            cases ht : addText s.cursor.pos found s.top s.supply with
            | error e => simp [ht, Except.map] at h
            | ok r =>
              simp only [ht, Except.map, Except.ok.injEq, Step.more.injEq] at h
              rw [← h]
              refine Cursor.past_past ?_ (by simp)
              rw [hr]
              simp [textRun_append_afterTextRun]

/-- **Reading.** Steps until the source is read. -/
def run (s : State) : Except Error Compiled :=
  match _h : step s with
  | .error e => .error e
  | .ok (.done result) => .ok result
  | .ok (.more s') => run s'
termination_by s.cursor.rest.length
decreasing_by exact (step_past _h).length_lt

/-- The joined source of literal strings and what stands between them, numbering dynamic
interpolations from `count` on, and those interpolations in order. -/
def join : Nat → List String → List Insertion → List Char × List Dynamic
  | _, [], _ => ([], [])
  | count, literal :: strings, [] =>
    let (source, dynamics) := join count strings []
    (literal.toList ++ source, dynamics)
  | count, literal :: strings, .markup text :: insertions =>
    let (source, dynamics) := join count strings insertions
    (literal.toList ++ text.toList ++ source, dynamics)
  | count, literal :: strings, .dynamic d :: insertions =>
    let (source, dynamics) := join (count + 1) strings insertions
    (literal.toList ++ marker count ++ source, d :: dynamics)

/-- The state in which reading a source begins. -/
def initial (source : List Char) (dynamics : List Dynamic) : State :=
  ⟨.start source, ⟨dynamics.map some, []⟩, ⟨.fragment, [], []⟩, []⟩

/-- **Compiling.** There has to be one more literal string than interpolations. -/
def compile (strings : List String) (insertions : List Insertion) : Except Error Compiled :=
  if strings.length ≠ insertions.length + 1 then
    .error (.markup 0 (Nat.repr strings.length ++ " literal strings cannot surround " ++
      Nat.repr insertions.length ++ " interpolations"))
  else
    let (source, dynamics) := join 0 strings insertions
    run (initial source dynamics)

end ReactiveViews.Markup
