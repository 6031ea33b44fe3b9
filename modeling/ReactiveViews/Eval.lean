import ReactiveViews.Updates
/-!
# Evaluating expressions

Operands are evaluated from left to right, and the first that fails ends the
evaluation. Reads through `get`, `length` and the questions about positions are
tracked; all other reads are not.
-/

namespace ReactiveViews

namespace Value

/-- The number in arithmetic; what is no number counts as zero. -/
def asNumber : Value → Float
  | number n => n
  | _ => 0

/-- The index that a value stands for: a number without its fraction, and zero for what is
negative or no number. -/
def asIndex (v : Value) : Nat := v.asNumber.toUInt64.toNat

end Value

namespace World

/-- The object, array or template of a handle; null if the handle names none. -/
def valueOfHandle (w : World) (name : String) : Value :=
  match w.handles.find? name with
  | some (.object o) => .object o
  | some (.array a) => .array a
  | some (.template t) => .template t
  | _ => .null

end World

namespace Machine

/-- A new object with initial fields. Objects without a type of their own are plain. -/
def newObject (typeName : Option String) (fields : Keyed Value) : Machine ObjectId :=
  modifyGet fun w =>
    let (o, objects) := w.objects.add ⟨typeName.getD "Object", fields, none⟩
    (o, { w with objects })

/-- A new array. -/
def newArray (items : List Value) : Machine ArrayId :=
  modifyGet fun w =>
    let (a, arrays) := w.arrays.add ⟨items, none⟩
    (a, { w with arrays })

mutual

/-- **Literals.** The value of a literal; objects and arrays are made anew. -/
def resolve : Literal → Machine Value
  | .null => return .null
  | .bool b => return .bool b
  | .number n => return .number n
  | .text s => return .text s
  | .handle name => read (·.valueOfHandle name)
  | .object typeName fields => do
    let fields ← resolveFields fields
    return .object (← newObject typeName fields)
  | .array items => do
    let items ← resolveAll items
    return .array (← newArray items)

/-- The values of fields by name. -/
def resolveFields : List (String × Literal) → Machine (Keyed Value)
  | [] => return []
  | (name, l) :: rest => do
    let v ← resolve l
    return (name, v) :: (← resolveFields rest)

/-- The values of literals in order. -/
def resolveAll : List Literal → Machine (List Value)
  | [] => return []
  | l :: rest => do
    let v ← resolve l
    return v :: (← resolveAll rest)

end

/-- The texts of parts, each taken right after the part is evaluated. -/
def evalTexts (env : Env) : List Expr → Machine String
  | [] => return ""
  | e :: rest => do
    let v ← eval e env
    let text ← read (·.display v)
    return text ++ (← evalTexts env rest)

/-- The value of the last of some expressions. -/
def evalLast (env : Env) : Value → List Expr → Machine Value
  | last, [] => return last
  | _, e :: rest => do
    let v ← eval e env
    evalLast env v rest

/-- Answers a question about the event being handled; null if there is none. -/
def queryEvent (query : EventQuery) : Machine Value := do
  let w ← get
  match w.currentEvent with
  | none => return .null
  | some e =>
    let s := w.events.get e
    match query with
    | .type => return .text s.type
    | .detail => return s.detail
    | .bubbles => return .bool s.bubbles
    | .prevented => return .bool s.defaultPrevented
    | .target => return match s.target with
      | some n => .text (w.document.html n)
      | none => .null

/-- Does something to the event being handled, if there is one. -/
def onEvent (f : EventState → EventState) : Machine Value := do
  modify fun w => match w.currentEvent with
    | some e => { w with events := w.events.modify e f }
    | none => w
  return .null

/-- **Evaluation.** -/
def evalExpr (e : Expr) (env : Env) : Machine Value := do
  match e with
  | .literal l => resolve l
  | .constant v => return v
  | .source => return env.source
  | .extra => return env.extra
  | .get object name =>
    match ← eval object env with
    | .object o => getProperty o name
    | _ => return .null
  | .peek object name =>
    match ← eval object env with
    | .object o => read (·.peek o name)
    | _ => return .null
  | .cat parts => return .text (← evalTexts env parts)
  | .seq parts => evalLast env .null parts
  | .cond test onTrue onFalse =>
    if (← eval test env).truthy then eval onTrue env else eval onFalse env
  | .not e => return .bool (!(← eval e env).truthy)
  | .eq a b =>
    let x ← eval a env
    let y ← eval b env
    return .bool (x.same y)
  | .add a b =>
    let x ← eval a env
    let y ← eval b env
    return .number (x.asNumber + y.asNumber)
  | .less a b =>
    let x ← eval a env
    let y ← eval b env
    return .bool (x.asNumber < y.asNumber)
  | .fail reason => throw (.binding reason)
  | .length e =>
    match ← eval e env with
    | .array a =>
      track (.array a) "length"
      return .ofNat (← read (·.itemsOf a)).length
    | _ => return .null
  | .rawLength e =>
    match ← eval e env with
    | .array a => return .ofNat (← read (·.itemsOf a)).length
    | _ => return .null
  | .item array index =>
    let v ← eval array env
    let i ← eval index env
    match v with
    | .array a => return (← read (·.itemsOf a))[i.asIndex]?.getD .null
    | _ => return .null
  | .join array =>
    match ← eval array env with
    | .array a =>
      let w ← get
      return .text ("|".intercalate ((w.itemsOf a).map w.display))
    | _ => return .null
  | .position hops query =>
    match enclosing? (← get) hops env.context with
    | some c => queryPosition c query
    | none => return .null
  | .parent hops =>
    let w ← get
    match enclosing? w hops env.context with
    | some c => return (w.contexts.get c).parent
    | none => return .null
  | .event query => queryEvent query
  | .prevent => onEvent fun s => { s with defaultPrevented := true }
  | .stop => onEvent fun s => { s with propagationStopped := true }
  | .set object name value =>
    let target ← eval object env
    let v ← eval value env
    match target with
    | .object o => setProperty o name v
    | _ => pure ()
    return .null
  | .push array value =>
    let target ← eval array env
    let v ← eval value env
    match target with
    | .array a => pushItem a v
    | _ => pure ()
    return .null
  | .log tag e =>
    let v ← eval e env
    logEntry (.logged tag ((← get).shown v))
    return v
  | .volatile =>
    trackVolatile
    return .null
  | .untracked e => untracked (eval e env)
  | .tracking => return .bool (← get).watcher.isSome
  | .track on name =>
    match ← eval on env with
    | .object o => track (.object o) name
    | .array a => track (.array a) name
    | _ => track (.context env.context) name
    return .null
  | .observe observer on =>
    let v ← eval on env
    match (← get).handles.find? observer with
    | some (.observer o) => observe o v env.context
    | _ => return .null
  | .perform command =>
    let answer ← call (.perform command)
    logEntry (.did answer)
    return .null

end Machine

end ReactiveViews
