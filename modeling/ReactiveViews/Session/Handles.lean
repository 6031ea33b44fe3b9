import ReactiveViews.Eval
import ReactiveViews.View.Behavior
/-!
# Handles

Commands name things by handles. A handle that is given again keeps its place in
the order of handles. Using a handle that names nothing of the kind needed is a
failure of the command.
-/

namespace ReactiveViews.Machine

/-- Gives a handle to a thing. -/
def giveHandle (name : String) (h : Handle) : Machine Unit :=
  modify fun w => { w with handles := w.handles.put name h }

/-- What a handle names, read as one kind of thing. -/
def lookUp {α : Type} (name kind : String) (read : Handle → Option α) : Machine α := do
  match ((← get).handles.find? name).bind read with
  | some a => return a
  | none => throw (.binding ("no " ++ kind ++ " is named " ++ name))

def objectNamed (name : String) : Machine ObjectId :=
  lookUp name "object" fun | .object o => some o | _ => none

def arrayNamed (name : String) : Machine ArrayId :=
  lookUp name "array" fun | .array a => some a | _ => none

def templateNamed (name : String) : Machine TemplateId :=
  lookUp name "template" fun | .template t => some t | _ => none

def subscriberNamed (name : String) : Machine SubscriberId :=
  lookUp name "subscriber" fun | .subscriber s => some s | _ => none

def observerNamed (name : String) : Machine ObserverId :=
  lookUp name "observer" fun | .observer o => some o | _ => none

def contextNamed (name : String) : Machine ContextId :=
  lookUp name "context" fun | .context c => some c | _ => none

def taskNamed (name : String) : Machine TaskId :=
  lookUp name "task" fun | .task t => some t | _ => none

def nodeNamed (name : String) : Machine NodeId :=
  lookUp name "node" fun | .node n => some n | _ => none

def eventNamed (name : String) : Machine EventId :=
  lookUp name "event" fun | .event e => some e | _ => none

def viewNamed (name : String) : Machine ViewId :=
  lookUp name "view" fun | .view v => some v | _ => none

def listenerNamed (name : String) : Machine Nat :=
  lookUp name "listener" fun | .listener slot => some slot | _ => none

def ticketNamed (name : String) : Machine TicketId :=
  lookUp name "ticket" fun | .ticket t => some t | _ => none

/-- The node of an optional handle. -/
def optionalNode : Option String → Machine (Option NodeId)
  | some name => return some (← nodeNamed name)
  | none => return none

/-- The context of a handle, or a new root context. -/
def contextOrRoot : Option String → Machine ContextId
  | some name => contextNamed name
  | none => rootContext

/-- The notifier that a subscription goes to. -/
def targetNotifier : Target → Machine NotifierId
  | .signal name => signalNotifier name
  | .handle name => do
    match (← get).handles.find? name with
    | some (.object o) => objectNotifier o
    | some (.array a) => arrayNotifier a
    | some (.context c) => contextNotifier c
    | some (.notifier n) => return n
    | _ => throw (.binding ("nothing to subscribe to is named " ++ name))

end ReactiveViews.Machine
