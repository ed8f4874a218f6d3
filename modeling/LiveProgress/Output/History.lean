import LiveProgress.Output.StreamSink

/-!
# Histories of a sink

The calls of a sink and the events of its stream come in any order. Which calls still wait is
told by the tickets they were given and by what has been settled since; whether the stream is
going to wake them, by what it has done since it last refused a write. What the sink still waits
for is told by the writes that the stream was given and by its reports, and whether the sink has
failed by the first error that it was told.
-/

namespace LiveProgress.StreamSink

/-- The sink after a history. -/
def after (history : List Event) : StreamSink := history.foldl (fun s e => (s.step e).sink) {}

namespace Effect

/-- The ticket that an event gives out if it is the call in question. -/
def given (effect : Effect) (call e : Event) : List Nat :=
  match effect.answer with
  | .ticket n => if e = call then [n] else []
  | _ => []

def settles (effect : Effect) (n : Nat) : Bool := effect.settled.any (·.ticket == n)

end Effect

/-- The tickets of a call that nothing has settled in a history. -/
def waiting (call : Event) (history : List Event) : List Nat :=
  (history.foldl (fun (w : StreamSink × List Nat) e =>
    let effect := w.1.step e
    (effect.sink, (w.2 ++ effect.given call e).filter (! effect.settles ·))) ({}, [])).2

/-- The stream has refused a write, and every event since has a property, which may depend on
what came before the event. A sink that has failed does not write. -/
def SinceRefusal (P : List Event → Event → Prop) (history : List Event) : Prop :=
  ∃ a b, history = a ++ .write false :: b ∧ (after a).failure = none ∧
    ∀ c e d, b = c ++ e :: d → P (a ++ .write false :: c) e

/-- Events that tell that a refused write is over. -/
def Event.relieves : Event → Bool
  | .drain | .error _ | .close => true
  | _ => false

/-- The stream still has to tell that its last refusal is over. -/
def Owed : List Event → Prop := SinceRefusal fun _ e => e.relieves = false

/-- The stream has refused a write, and whenever it drained since then no one waited. -/
def Unheard : List Event → Prop :=
  SinceRefusal fun history e => e = .drain → waiting .ready history = []

/-! ### Effects -/

/-- What events bring about, one after the other. -/
def effects (s : StreamSink) : List Event → List Effect
  | [] => []
  | e :: rest => s.step e :: effects (s.step e).sink rest

/-- How an event settles a ticket: no error stands for success. -/
def Effect.outcomes (effect : Effect) (n : Nat) : List (Option String) :=
  (effect.settled.filter (·.ticket == n)).map (·.error)

/-- How a ticket is settled in a history, once for each time that it is. -/
def outcomes (n : Nat) (history : List Event) : List (Option String) :=
  (effects {} history).flatMap (·.outcomes n)

/-- Calls that are given a ticket. -/
@[simp]
def Event.isWait : Event → Bool
  | .ready | .flush => true
  | _ => false

/-! ### Writes in flight -/

@[simp]
def Event.isReport : Event → Bool
  | .reported _ => true
  | _ => false

@[simp]
def Answer.isWritten : Answer → Bool
  | .written _ => true
  | _ => false

/-- The number of writes that the stream was given. -/
def issued (history : List Event) : Nat := (effects {} history).countP (·.answer.isWritten)

/-- The number of writes that the stream was given and has not reported on. -/
def outstanding (history : List Event) : Nat := issued history - history.countP Event.isReport

/-- No write is reported on before it is made, and none more than once. -/
def ReportsWrites (history : List Event) : Prop :=
  ∀ past, past <+: history → past.countP Event.isReport ≤ issued past

/-- A write is in flight, and the stream has not closed. -/
def Busy (history : List Event) : Prop := 0 < outstanding history ∧ .close ∉ history

/-! ### Errors -/

/-- The error that an event tells the sink. Once released, it only hears of its writes. -/
@[simp]
def Event.told (released : Bool) : Event → Option String
  | .reported outcome => outcome
  | .error text => if released then none else some text
  | _ => none

/-- The first error that events tell the sink. -/
def firstError (released : Bool) : List Event → Option String
  | [] => none
  | e :: rest => (e.told released).or (firstError (released || e == .release) rest)

end LiveProgress.StreamSink
