import ReactiveViews.Session.Debug
import ReactiveViews.Session.Handles
/-!
# Commands on values, types, objects and arrays
-/

namespace ReactiveViews

namespace World

/-- A value in every way it can be read. -/
def describe (w : World) (v : Value) : ValueInfo where
  kind := v.kindName
  isNull := v.isNull
  truthy := v.truthy
  display := w.display v
  text := match v with | .text s => some s | _ => none
  number := match v with | .number n => some (debugNumber n) | _ => none
  bool := match v with | .bool b => some b | _ => none
  isObject := match v with | .object _ => true | _ => false
  isArray := match v with | .array _ => true | _ => false
  isTemplate := match v with | .template _ => true | _ => false

end World

namespace Machine

/-- A value as an answer. -/
def answerValue (v : Value) : Machine Answer := do
  return .value ((← get).shown v)

/-- A value that may be missing as an answer. -/
def answerOptional (v : Option Value) : Machine Answer := do
  let w ← get
  return .optionalValue (v.map w.shown)

/-- Commands on values. -/
def performValue : ValueCommand → Machine Answer
  | .describe l => do
    let v ← resolve l
    return .valueInfo ((← get).describe v)
  | .same a b => do
    let x ← resolve a
    let y ← resolve b
    return .bool (x.same y)
  | .eval e source context => do
    let source ← resolve source
    let context ← contextOrRoot context
    answerValue (← eval e ⟨source, context, .null⟩)
  | .aspect name => do
    let a := Aspect.ofAttributeName name
    return .aspectInfo ⟨a.kindName, a.name?, a.display⟩
  | .isVoid tag => return .bool (isVoidTag tag)
  | .debugHandle name => do
    let w ← get
    match w.handles.find? name with
    | some h => return .text (w.debugHandle h)
    | none => throw (.binding ("nothing is named " ++ name))
  | .debugBinding b => return .text b.debug
  | .debugValue l => do
    let v ← resolve l
    return .text ((← get).debugValue v)

/-- Changes the registry of types. -/
def modifyRegistry (f : Registry → Registry) : Machine Unit :=
  modify fun w => { w with registry := f w.registry }

/-- An accessor as an answer. -/
def accessorInfo (a : Accessor) : String × Bool := (a.name, a.callback.isSome)

/-- Commands on types. -/
def performType : TypeCommand → Machine Answer
  | .defineType name parent => do
    modifyRegistry (·.defineType name parent)
    return .unit
  | .defineProperties type names body => do
    modifyRegistry fun r => names.foldl (fun r name => r.defineProperty type ⟨name, body⟩) r
    return .unit
  | .accessors type => do
    return .accessors ((← accessorsOf type).map fun entry => accessorInfo entry.2)
  | .accessor type name => do
    return .accessor ((← accessorOf? type name).map accessorInfo)

/-- Commands on objects. -/
def performObject : ObjectCommand → Machine Answer
  | .create handle typeName fields => do
    let o ← newObject typeName (← resolveFields fields)
    giveHandle handle (.object o)
    return .unit
  | .get handle name => do
    let o ← objectNamed handle
    answerValue (← getProperty o name)
  | .peek handle name => do
    let o ← objectNamed handle
    answerValue (← read (·.peek o name))
  | .set handle name value => do
    let o ← objectNamed handle
    setProperty o name (← resolve value)
    return .unit
  | .isObservable handle name => do
    let o ← objectNamed handle
    return .bool (← accessorOf? (← read (·.typeOf o)) name).isSome
  | .typeName handle => do
    let o ← objectNamed handle
    return .text (← read (·.typeOf o))

/-- Inserts a pair into pairs in descending order, in front of those that are not strictly after
it. -/
def insertByKey {κ : Type} (before : κ → κ → Bool) (pair : κ × Value) :
    List (κ × Value) → List (κ × Value)
  | [] => [pair]
  | last :: rest =>
    if before pair.1 last.1 then last :: insertByKey before pair rest else pair :: last :: rest

/-- Sorts pairs of a key and a value by key, equal keys in the order they had. Pairs are inserted
one after another, each from the end, so keys that cannot be compared stay where they are. -/
def sortByKey {κ : Type} (before : κ → κ → Bool) (descending : Bool) (pairs : List (κ × Value)) :
    List Value :=
  let strictlyBefore (a b : κ) : Bool := if descending then before b a else before a b
  ((pairs.foldl (fun sorted pair => insertByKey strictlyBefore pair sorted) []).reverse).map
    Prod.snd

/-- The sort key of an element; one that cannot be computed is null. -/
def sortKey (key : Expr) (v : Value) : Machine Value := do
  match ← attempt (evalAlone key v .null) with
  | .ok k => return k
  | .error _ => return .null

/-- Sorts an array by the values of an expression for its elements. An array that is empty by the
time the values are known stays empty. -/
def sortItems (a : ArrayId) (key : Expr) (order : SortOrder) (descending : Bool) :
    Machine Unit := do
  let items ← read (·.itemsOf a)
  let keys ← collect (sortKey key) items
  let w ← get
  let sorted := match order with
    | .byNumber =>
      sortByKey (fun x y => decide (x < y)) descending ((keys.map Value.asNumber).zip items)
    | .byText =>
      sortByKey (fun x y => decide (x < y)) descending ((keys.map w.display).zip items)
  reorderItems a fun now => if now.isEmpty then [] else sorted

/-- Commands on arrays. -/
def performArray : ArrayCommand → Machine Answer
  | .observation mode => do
    modify fun w => { w with arrayObservation := mode }
    return .bool (mode ≠ .off)
  | .create handle items => do
    let a ← newArray (← resolveAll items)
    giveHandle handle (.array a)
    return .unit
  | .items handle => do
    let a ← arrayNamed handle
    let w ← get
    let items := w.itemsOf a
    return .items ⟨items.map w.shown, items.length, items.isEmpty⟩
  | .get handle index => do
    let a ← arrayNamed handle
    answerOptional (← read (·.itemsOf a))[index]?
  | .push handle value => do
    let a ← arrayNamed handle
    pushItem a (← resolve value)
    return .unit
  | .pop handle => do
    let a ← arrayNamed handle
    answerOptional (← popItem a)
  | .shift handle => do
    let a ← arrayNamed handle
    answerOptional (← removeItem a 0)
  | .remove handle index => do
    let a ← arrayNamed handle
    answerOptional (← removeItem a index)
  | .put handle index value => do
    let a ← arrayNamed handle
    answerOptional (← putItem a index (← resolve value))
  | .unshift handle value => do
    let a ← arrayNamed handle
    let _ ← spliceArray a 0 0 [← resolve value]
    return .unit
  | .insert handle index value => do
    let a ← arrayNamed handle
    let _ ← spliceArray a index 0 [← resolve value]
    return .unit
  | .splice handle index deleteCount items => do
    let a ← arrayNamed handle
    let removed ← spliceArray a index deleteCount (← resolveAll items)
    let w ← get
    return .values (removed.map w.shown)
  | .clear handle => do
    let a ← arrayNamed handle
    let items ← read (·.itemsOf a)
    let _ ← spliceArray a 0 items.length []
    return .unit
  | .replace handle items => do
    let a ← arrayNamed handle
    replaceItems a (← resolveAll items)
    return .unit
  | .reverse handle => do
    let a ← arrayNamed handle
    reorderItems a List.reverse
    return .unit
  | .sort handle key order descending => do
    let a ← arrayNamed handle
    sortItems a key order descending
    return .unit
  | .flush handle => do
    let a ← arrayNamed handle
    flushSplices a
    return .unit

end Machine

end ReactiveViews
