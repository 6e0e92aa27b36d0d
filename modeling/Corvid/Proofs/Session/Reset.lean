import Corvid.Proofs.Eval.Lockstep
import Corvid.Proofs.Session.Submit
import Corvid.Proofs.Store.Frames

/-!
A session that is reset is as good as new. Whatever has been handed in before, the scope of the session is a root that
writes to the session's sink and has the policy that was named last. After a reset the session goes on in a new root,
from which nothing of before is reached; so it takes every further step together with a session that has just begun.
-/
namespace Corvid

/-- Two runs of a text, in scopes that were made in step, end alike. -/
theorem Store.Lockstep.run {base base' : Base} {count : Nat} {store store' : Store}
    (lockstep : Store.Lockstep base base' count store store') {place : Nat} (inside : place < count) (limit : Nat)
    (source : String) :
    ∃ later, count ≤ later ∧ Store.Lockstep base base' later (store.run limit (base.scopes + place) source).2
        (store'.run limit (base'.scopes + place) source).2 ∧
      Agree (Value.Alike (base.pairing base')) (store.run limit (base.scopes + place) source).1
        (store'.run limit (base'.scopes + place) source).1 := by
  unfold Store.run
  split
  · exact ⟨count, Nat.le_refl _, lockstep, .error _⟩
  · next tree _ =>
    have admitted : (base.simulation base').admits count tree (base.scopes + place) (base'.scopes + place) :=
      ⟨place, inside, rfl, rfl⟩
    obtain ⟨later, more, stored, agree⟩ := Simulation.evalWithin_agree id limit admitted lockstep
    refine ⟨later, more, ?_⟩
    unfold Store.eval
    generalize evalWithin limit tree _ store = outcome, evalWithin limit tree _ store' = outcome'
      at stored agree
    obtain ⟨result, after⟩ := outcome
    obtain ⟨result', after'⟩ := outcome'
    cases agree with
    | ok alike => exact ⟨stored, .ok alike⟩
    | error halt => exact ⟨stored, .error _⟩

/-- The variables of two scopes are the same, but for what their containers and NaNs are called. -/
def Store.SameVariables (store : Store) (scope : Nat) (store' : Store) (scope' : Nat) : Prop :=
  ∃ pairing : Pairing,
    (∀ {handle handle' other other'}, pairing.handles handle handle' → pairing.handles other other' →
      (handle = other ↔ handle' = other')) ∧
    (∀ handle handle', pairing.handles handle handle' →
      Option.Rel (Container.Alike pairing) store.containers[handle]? store'.containers[handle']?) ∧
    (store.bindingsOf scope).Alike pairing (store'.bindingsOf scope')

namespace Session

/-! Steps -/

/-- What a session is given: complete inputs, and lines that are tried as commands only. -/
inductive Step where
  | submit (text : String)
  | command (text : String)
  deriving DecidableEq, Repr

/-- What a step comes to. -/
inductive Action where
  | nothing
  | command (line : Command.Line)
  | run (source : String)
  deriving DecidableEq, Repr

def Step.action : Step → Action
  | .submit text =>
    if (Text.stripped (cleaned text).toList).isEmpty then .nothing
    else (Command.line? (cleaned text)).elim (.run (cleaned text)) .command
  | .command text => (Command.line? text).elim .nothing .command

/-- The policy that a step names and that the session goes over to. -/
def Step.policy? (step : Step) : Option Scoping :=
  match step.action with
  | .command line =>
    if Command.ofName? line.name = some .scoping ∧ line.argument.isEmpty = false then
      (Scoping.ofText line.argument).toOption
    else none
  | _ => none

/-- The step is a command to reset. -/
def Step.Resets (step : Step) : Prop := ∃ line, step.action = .command line ∧ Command.ofName? line.name = some .reset

/-- Takes a step. A line that is no command changes nothing. -/
def take (session : Session) : Step → Option Escape × Session
  | .submit text => session.submit text
  | .command text => (none, (Command.line? text).elim session session.command)

/-- Takes steps one after the other, also after something has escaped. -/
def takeAll (session : Session) : List Step → List (Option Escape) × Session
  | [] => ([], session)
  | step :: rest =>
    let (escape, after) := session.take step
    let (escapes, last) := after.takeAll rest
    (escape :: escapes, last)

def perform (session : Session) : Action → Option Escape × Session
  | .nothing => (none, session)
  | .command line => (none, session.command line)
  | .run source => session.runSource source

theorem take_eq (session : Session) (step : Step) : session.take step = session.perform step.action := by
  cases step with
  | command text =>
    rw [take, Step.action]
    cases Command.line? text <;> rfl
  | submit text =>
    rw [take, submit, Step.action]
    split
    · rfl
    · cases Command.line? (cleaned text) <;> rfl

/-! What stays -/

/-- The scope of the session is a root that writes to a sink and has a policy. -/
structure Standing (sink : Nat) (host : Host) (logging : Bool) (policy : Scoping) (session : Session) : Prop where
  writes : session.sink = sink
  hosted : session.host = host
  logs : session.logging = logging
  frame : ∃ bindings, session.store.scopes[session.scope]? = some ⟨bindings, none, sink, policy⟩

namespace Standing

variable {sink : Nat} {host : Host} {logging : Bool} {policy : Scoping} {session : Session}

theorem scoping (standing : Standing sink host logging policy session) : session.scoping = policy := by
  obtain ⟨bindings, frame⟩ := standing.frame
  rw [Session.scoping, Store.scopingOf, frame]

theorem runSource (standing : Standing sink host logging policy session) (source : String) :
    Standing sink host logging policy (session.runSource source).2 := by
  obtain ⟨scope, writes, hosted, logs, kept⟩ := session.runSource_frame source
  obtain ⟨bindings, frame⟩ := standing.frame
  obtain ⟨⟨bindings', parent, sink', policy'⟩, there, ⟨outward, out, way, _⟩, _⟩ := kept session.scope _ frame
  dsimp only at outward out way
  subst outward out way
  exact ⟨writes.trans standing.writes, hosted.trans standing.hosted, logs.trans standing.logs, bindings',
    scope.symm ▸ there⟩

theorem switchTrace (standing : Standing sink host logging policy session) (word : String) :
    Standing sink host logging policy (session.switchTrace word) := by
  unfold Session.switchTrace
  dsimp only
  split <;> exact ⟨standing.writes, standing.hosted, standing.logs, standing.frame⟩

theorem reset (standing : Standing sink host logging policy session) : Standing sink host logging policy session.reset := by
  refine ⟨standing.writes, standing.hosted, standing.logs, [], ?_⟩
  rw [Session.reset, standing.scoping, standing.writes]
  simp [Session.say, Store.append, Store.addRoot, Store.addScope]

/-- The policy changes if another one is named. -/
theorem switchScoping (standing : Standing sink host logging policy session) (word : String) :
    Standing sink host logging (if word.isEmpty = false then ((Scoping.ofText word).toOption).getD policy else policy)
      (session.switchScoping word) := by
  unfold Session.switchScoping
  dsimp only
  by_cases empty : word.isEmpty = true
  · rw [if_pos empty, if_neg (by simp [empty])]
    exact ⟨standing.writes, standing.hosted, standing.logs, standing.frame⟩
  · rw [if_neg empty, if_pos (by simpa using empty)]
    cases Scoping.ofText word with
    | error unknown => exact ⟨standing.writes, standing.hosted, standing.logs, standing.frame⟩
    | ok named =>
      obtain ⟨bindings, frame⟩ := standing.frame
      refine ⟨standing.writes, standing.hosted, standing.logs, bindings, ?_⟩
      change (session.store.setScoping session.scope named).scopes[session.scope]? = _
      rw [Store.getElem?_setScoping, frame, Option.map_some, if_pos rfl]
      rfl

/-- A step leaves the scope a root; its policy is the one that the step names, if it names one. -/
theorem take (standing : Standing sink host logging policy session) (step : Step) :
    Standing sink host logging (step.policy?.getD policy) (session.take step).2 := by
  rw [take_eq, Step.policy?]
  cases step.action with
  | nothing => exact standing
  | run source => exact standing.runSource source
  | command line =>
    rw [perform, Session.command]
    dsimp only
    cases named : Command.ofName? line.name with
    | none => exact ⟨standing.writes, standing.hosted, standing.logs, standing.frame⟩
    | some known =>
      cases known with
      | clear => exact standing
      | traceback => exact standing.switchTrace line.argument
      | reset => exact standing.reset
      | scoping =>
        have switched := standing.switchScoping line.argument
        simpa [apply_ite (Option.getD · policy)] using switched

end Standing

/-- The policy that was named last, or the first one. -/
def lastPolicy (first : Scoping) (steps : List Step) : Scoping := (steps.filterMap Step.policy?).getLast?.getD first

theorem lastPolicy_cons (first : Scoping) (step : Step) (rest : List Step) :
    lastPolicy first (step :: rest) = lastPolicy (step.policy?.getD first) rest := by
  unfold lastPolicy
  cases named : step.policy? with
  | none => rw [List.filterMap_cons_none named, Option.getD_none]
  | some policy => rw [List.filterMap_cons_some named, List.getLast?_cons, Option.getD_some, Option.getD_some]

theorem Standing.takeAll {sink : Nat} {host : Host} {logging : Bool} {policy : Scoping} {session : Session}
    (standing : Standing sink host logging policy session) (steps : List Step) :
    Standing sink host logging (lastPolicy policy steps) (session.takeAll steps).2 := by
  induction steps generalizing session policy with
  | nil => exact standing
  | cons step rest ih =>
    rw [lastPolicy_cons]
    exact ih (standing.take step)

/-! Two sessions in step -/

/-- What a session makes from now on, and where it writes. -/
def base (session : Session) : Base :=
  ⟨session.store.containers.size, session.scope, session.store.nans, session.sink, session.store.written session.sink⟩

/-- Two sessions that have taken the same steps since they were as they are at the start. -/
structure Twins (start start' session session' : Session) : Prop where
  stores : ∃ count place, place < count ∧ Store.Lockstep start.base start'.base count session.store session'.store ∧
    session.scope = start.scope + place ∧ session'.scope = start'.scope + place
  sink : session.sink = start.sink
  sink' : session'.sink = start'.sink
  host : session'.host = session.host
  trace : session'.settings.traceOn = session.settings.traceOn
  logging : session'.logging = session.logging
  errors : ∃ more, session.errors = start.errors ++ more ∧ session'.errors = start'.errors ++ more

/-- A session that has just begun or been reset: its scope is the newest one, and nothing is bound in it. -/
structure Fresh (policy : Scoping) (session : Session) : Prop where
  newest : session.store.scopes.size = session.scope + 1
  frame : session.store.scopes[session.scope]? = some ⟨[], none, session.sink, policy⟩
  writable : session.sink < session.store.sinks.size

theorem getElem?_addRoot (store : Store) (sink : Nat) (policy : Scoping) :
    (store.addRoot [] sink policy).2.scopes[(store.addRoot [] sink policy).1]? = some ⟨[], none, sink, policy⟩ := by
  simp [Store.addRoot, Store.addScope]

theorem fresh_start {store : Store} {sink : Nat} {host : Host} {settings : Settings} {logging : Bool}
    {given : Option Scoping} {session : Session} (started : start store sink host settings logging given = .ok session)
    (inside : sink < store.sinks.size) :
    ∃ policy, Scoping.choose given settings.scoping = .ok policy ∧ Fresh policy session ∧
      Standing sink host logging policy session ∧ session.settings = settings := by
  cases chosen : Scoping.choose given settings.scoping with
  | error unknown =>
    rw [start, chosen] at started
    cases started
  | ok policy =>
    rw [start, chosen] at started
    cases started
    have frame := getElem?_addRoot store sink policy
    exact ⟨policy, rfl, ⟨Array.size_push _, frame, inside⟩, ⟨rfl, rfl, rfl, [], frame⟩, rfl⟩

theorem fresh_reset {session : Session} (inside : session.sink < session.store.sinks.size) :
    Fresh session.scoping session.reset where
  newest := Array.size_push _
  frame := getElem?_addRoot session.store session.sink session.scoping
  writable := by
    change session.sink < (session.store.sinks.modify session.sink (· ++ "Environment reset.\n")).size
    rwa [Array.size_modify]

/-- Two sessions that have just begun. -/
theorem Fresh.twins {policy : Scoping} {session session' : Session} (fresh : Fresh policy session)
    (fresh' : Fresh policy session') (host : session'.host = session.host)
    (trace : session'.settings.traceOn = session.settings.traceOn) (logging : session'.logging = session.logging) :
    Twins session session' session session' where
  stores := by
    have written {session : Session} (inside : session.sink < session.store.sinks.size) :
        session.store.sinks[session.sink]? = some (session.store.written session.sink ++ "") := by
      rw [Store.written, Array.getElem?_eq_getElem inside, Option.getD_some, String.append_empty]
    refine ⟨1, 0, Nat.one_pos, ⟨⟨0, rfl, rfl, fun k => ?_⟩, ⟨fresh.newest, fresh'.newest, fun k => ?_⟩,
      ⟨0, rfl, rfl⟩, ⟨"", written fresh.writable, written fresh'.writable⟩⟩, rfl, rfl⟩
    · have beyond (session : Session) : session.store.containers[session.base.containers + k]? = none :=
        Array.getElem?_eq_none (Nat.le_add_right _ _)
      rw [beyond, beyond]
      exact .none
    · cases k with
      | zero =>
        change Option.Rel _ session.store.scopes[session.scope]? session'.store.scopes[session'.scope]?
        rw [fresh.frame, fresh'.frame]
        exact .some ⟨.nil, .none, rfl, rfl, rfl⟩
      | succ k =>
        have beyond {session : Session} (newest : session.store.scopes.size = session.scope + 1) :
            session.store.scopes[session.base.scopes + (k + 1)]? = none := by
          apply Array.getElem?_eq_none
          rw [newest]
          change session.scope + 1 ≤ session.scope + (k + 1)
          omega
        rw [beyond fresh.newest, beyond fresh'.newest]
        exact .none
  sink := rfl
  sink' := rfl
  host := host
  trace := trace
  logging := logging
  errors := ⟨"", String.append_empty.symm, String.append_empty.symm⟩

namespace Twins

variable {first first' session session' : Session} (twins : Twins first first' session session')

include twins

theorem scoping_eq : session'.scoping = session.scoping := by
  obtain ⟨count, place, inside, lockstep, scope, scope'⟩ := twins.stores
  obtain ⟨found, found', known, known', alike⟩ := lockstep.exists_scope inside
  change session.store.scopes[first.scope + place]? = some found at known
  change session'.store.scopes[first'.scope + place]? = some found' at known'
  rw [Session.scoping, Session.scoping, scope, scope', Store.scopingOf, Store.scopingOf, known, known']
  exact alike.scoping

theorem say (text : String) : Twins first first' (session.say text) (session'.say text) := by
  obtain ⟨count, place, inside, lockstep, scope, scope'⟩ := twins.stores
  refine { twins with stores := ⟨count, place, inside, ?_, scope, scope'⟩ }
  unfold Session.say
  rw [twins.sink, twins.sink']
  exact lockstep.append text

theorem complain (text : String) : Twins first first' (session.complain text) (session'.complain text) := by
  obtain ⟨more, errors, errors'⟩ := twins.errors
  refine { twins with errors := ⟨more ++ text, ?_, ?_⟩ }
  · rw [Session.complain, errors, String.append_assoc]
  · rw [Session.complain, errors', String.append_assoc]

theorem setTrace (enabled : Bool) :
    Twins first first' { session with settings := session.settings.setTrace enabled }
      { session' with settings := session'.settings.setTrace enabled } := by
  refine { twins with trace := ?_ }
  rfl

theorem switchTrace (word : String) : Twins first first' (session.switchTrace word) (session'.switchTrace word) := by
  unfold Session.switchTrace
  rw [twins.trace]
  dsimp only
  split
  · exact twins.complain _
  · exact (twins.setTrace _).say _

theorem reset : Twins first first' session.reset session'.reset := by
  obtain ⟨count, place, inside, lockstep, _⟩ := twins.stores
  have longer : Twins first first'
      { session with
        store := (session.store.addRoot [] session.sink session.scoping).2
        scope := (session.store.addRoot [] session.sink session.scoping).1 }
      { session' with
        store := (session'.store.addRoot [] session'.sink session'.scoping).2
        scope := (session'.store.addRoot [] session'.sink session'.scoping).1 } := by
    refine { twins with stores := ⟨count + 1, count, Nat.lt_succ_self count, ?_, ?_, ?_⟩ }
    · exact lockstep.addScope ⟨.nil, .none, twins.sink, twins.sink', twins.scoping_eq⟩
    · exact lockstep.scopes.size
    · exact lockstep.scopes.size'
  exact longer.say _

theorem switchScoping (word : String) :
    Twins first first' (session.switchScoping word) (session'.switchScoping word) := by
  have tell {session session' : Session} (twins : Twins first first' session session') :
      Twins first first' (session.say ("Scoping: " ++ session.scoping.name ++ "\n"))
        (session'.say ("Scoping: " ++ session'.scoping.name ++ "\n")) := by
    rw [twins.scoping_eq]
    exact twins.say _
  unfold Session.switchScoping
  dsimp only
  split
  · exact tell twins
  · split
    · next policy _ =>
      obtain ⟨count, place, inside, lockstep, scope, scope'⟩ := twins.stores
      apply tell
      refine { twins with stores := ⟨count, place, inside, ?_, scope, scope'⟩ }
      rw [scope, scope']
      exact lockstep.setScoping place policy
    · exact twins.complain _

theorem command (line : Command.Line) : Twins first first' (session.command line) (session'.command line) := by
  unfold Session.command
  split
  · exact twins.complain _
  · exact twins
  · exact twins.switchTrace _
  · exact twins.reset
  · exact twins.switchScoping _

theorem report (source : String) (failure : Failure) (message : String) :
    Twins first first' (session.report source failure message) (session'.report source failure message) := by
  rw [report_eq, report_eq, twins.host, twins.trace]
  exact twins.complain _

/-- The same is echoed of values that correspond, and the same ones are endless. -/
theorem echo {value value' : Value} (alike : value.Alike (first.base.pairing first'.base) value') :
    (session'.echo value').1 = (session.echo value).1 ∧
      Twins first first' (session.echo value).2 (session'.echo value').2 := by
  obtain ⟨count, _, _, lockstep, _⟩ := twins.stores
  have stored : (first.base.simulation first'.base).stores count session.store session'.store := lockstep
  have shown := Simulation.text?_eq stored session.host.echoLimit alike
  have silent : value'.isNone = value.isNone := by cases alike <;> rfl
  unfold Session.echo
  rw [silent, twins.host, shown]
  split
  · exact ⟨rfl, twins⟩
  · split
    · exact ⟨rfl, twins.say _⟩
    · exact ⟨rfl, twins⟩

theorem runSource (source : String) :
    (session'.runSource source).1 = (session.runSource source).1 ∧
      Twins first first' (session.runSource source).2 (session'.runSource source).2 := by
  obtain ⟨count, place, inside, lockstep, scope, scope'⟩ := twins.stores
  obtain ⟨later, more, stored, agree⟩ := lockstep.run inside session.host.evalLimit source
  have outcome : session.store.run session.host.evalLimit (first.base.scopes + place) source =
      session.outcome source := by
    rw [Session.outcome, scope]
    rfl
  have outcome' : session'.store.run session.host.evalLimit (first'.base.scopes + place) source =
      session'.outcome source := by
    rw [Session.outcome, scope', twins.host]
    rfl
  rw [outcome, outcome'] at stored agree
  -- the log tells the kind of a value and no more of it
  have log : Log.ofRun session'.host source (session'.outcome source).1 =
      Log.ofRun session.host source (session.outcome source).1 := by
    rw [twins.host]
    generalize (session.outcome source).1 = ended, (session'.outcome source).1 = ended' at agree
    cases agree with
    | ok alike => simp only [Log.ofRun, alike.kind_eq]
    | error failure => rfl
  have ran : Twins first first' (session.ran source) (session'.ran source) := by
    have logged := twins.complain
      (if session.logging then Log.ofRun session.host source (session.outcome source).1 else "")
    refine { logged with stores := ⟨later, place, Nat.lt_of_lt_of_le inside more, stored, scope, scope'⟩, errors := ?_ }
    obtain ⟨text, errors, errors'⟩ := logged.errors
    refine ⟨text, errors, ?_⟩
    rw [← errors', Session.ran, Session.complain, twins.logging]
    simp only [log]
  generalize result : (session.outcome source).1 = ended, result' : (session'.outcome source).1 = ended' at agree
  cases agree with
  | ok alike =>
    rw [session.runSource_of_ok result, session'.runSource_of_ok result']
    exact ran.echo alike
  | error failure =>
    rw [session.runSource_of_error result, session'.runSource_of_error result']
    cases failure.message? with
    | none => exact ⟨rfl, ran⟩
    | some message => exact ⟨rfl, ran.report source failure message⟩

/-- One step. -/
theorem take (step : Step) :
    (session'.take step).1 = (session.take step).1 ∧
      Twins first first' (session.take step).2 (session'.take step).2 := by
  rw [take_eq, take_eq]
  cases step.action with
  | nothing => exact ⟨rfl, twins⟩
  | command line => exact ⟨rfl, twins.command line⟩
  | run source => exact twins.runSource source

/-- Any number of steps. -/
theorem takeAll (steps : List Step) :
    (session'.takeAll steps).1 = (session.takeAll steps).1 ∧
      Twins first first' (session.takeAll steps).2 (session'.takeAll steps).2 := by
  induction steps generalizing session session' with
  | nil => exact ⟨rfl, twins⟩
  | cons step rest ih =>
    obtain ⟨same, after⟩ := twins.take step
    obtain ⟨others, last⟩ := ih after
    exact ⟨congrArg₂ List.cons same others, last⟩

/-- Both sessions have written the same since the start. -/
theorem exists_written : ∃ more, session.store.sinks[first.sink]? = some (first.store.written first.sink ++ more) ∧
    session'.store.sinks[first'.sink]? = some (first'.store.written first'.sink ++ more) := by
  obtain ⟨_, _, _, lockstep, _⟩ := twins.stores
  exact lockstep.written

theorem sameVariables : session.store.SameVariables session.scope session'.store session'.scope := by
  obtain ⟨count, place, inside, lockstep, scope, scope'⟩ := twins.stores
  obtain ⟨found, found', known, known', alike⟩ := lockstep.exists_scope inside
  change session.store.scopes[first.scope + place]? = some found at known
  change session'.store.scopes[first'.scope + place]? = some found' at known'
  refine ⟨first.base.pairing first'.base, ?_, ?_, ?_⟩
  · rintro _ _ _ _ ⟨k, rfl, rfl⟩ ⟨l, rfl, rfl⟩
    omega
  · rintro _ _ ⟨k, rfl, rfl⟩
    exact lockstep.container_alike k
  · rw [Store.bindingsOf, Store.bindingsOf, scope, scope', known, known']
    exact alike.bindings

end Twins

theorem take_of_resets (session : Session) {step : Step} (resets : step.Resets) :
    session.take step = (none, session.reset) := by
  obtain ⟨line, action, known⟩ := resets
  rw [take_eq, action, perform, Session.command, known]

/-- Whatever steps a session has taken, its scope is a root that writes to its sink and has the policy that was named
last. If it is reset then, it takes any further steps like a session with this policy, and with the same setting for
traces, that has just begun on a store of its own: the same steps end normally, the same text is written and the same
errors are reported, and the variables are the same but for what their containers are called. -/
theorem reset_as_new {store : Store} {sink : Nat} {host : Host} {settings : Settings} {logging : Bool}
    {given : Option Scoping} {session : Session} (started : start store sink host settings logging given = .ok session)
    (inside : sink < store.sinks.size) (history : List Step) :
    let now := (session.takeAll history).2
    let policy := lastPolicy session.scoping history
    now.sink = sink ∧ (∃ bindings, now.store.scopes[now.scope]? = some ⟨bindings, none, sink, policy⟩) ∧
      ∀ (step : Step) (other : Store) (sink' : Nat) (settings' : Settings) (fresh : Session), step.Resets →
        sink' < other.sinks.size → settings'.traceOn = now.settings.traceOn →
        start other sink' host settings' logging (some policy) = .ok fresh → ∀ more : List Step,
          let reset := (now.take step).2
          let last := reset.takeAll more
          let last' := fresh.takeAll more
          last'.1 = last.1 ∧
            (∃ text, last.2.store.written sink = reset.store.written sink ++ text ∧
              last'.2.store.written sink' = fresh.store.written sink' ++ text) ∧
            (∃ text, last.2.errors = reset.errors ++ text ∧ last'.2.errors = fresh.errors ++ text) ∧
            last.2.store.SameVariables last.2.scope last'.2.store last'.2.scope := by
  intro now policy
  obtain ⟨first, _, begun, standing, _⟩ := fresh_start started inside
  have stands : Standing sink host logging policy now := by
    have after := standing.takeAll history
    rwa [← standing.scoping] at after
  refine ⟨stands.writes, stands.frame, ?_⟩
  intro step other sink' settings' fresh resets inside' trace started' more reset last last'
  -- the sink is still there, since the session is a twin of itself
  have writable : now.sink < now.store.sinks.size := by
    obtain ⟨_, written, _⟩ := ((begun.twins begun rfl rfl rfl).takeAll history).2.exists_written
    obtain ⟨bound, _⟩ := Array.getElem?_eq_some_iff.mp written
    rwa [stands.writes, ← standing.writes]
  obtain ⟨_, chosen, begun', standing', settled⟩ := fresh_start started' inside'
  cases chosen
  have renewed : reset = now.reset := by
    unfold reset
    rw [now.take_of_resets resets]
  have anew : Fresh policy reset := by
    rw [renewed, ← stands.scoping]
    exact fresh_reset writable
  have twins : Twins reset fresh reset fresh := by
    apply anew.twins begun'
    · rw [standing'.hosted, renewed]
      exact stands.hosted.symm
    · rw [settled, trace, renewed]
      rfl
    · rw [standing'.logs, renewed]
      exact stands.logs.symm
  obtain ⟨same, ended⟩ := twins.takeAll more
  refine ⟨same, ?_, ended.errors, ended.sameVariables⟩
  obtain ⟨text, written, written'⟩ := ended.exists_written
  have sink_eq : reset.sink = sink := by
    rw [renewed]
    exact stands.writes
  rw [sink_eq] at written
  rw [standing'.writes] at written'
  refine ⟨text, ?_, ?_⟩
  · rw [Store.written, written, Option.getD_some]
  · rw [Store.written, written', Option.getD_some]

/-- An input that fails half way, a change of policy and one that is refused; then a reset, after which the same name
is unbound, and bound anew. -/
theorem reset_as_new_global :
    let host : Host := ⟨5, 1, fun _ => "entry\n", fun _ _ => "", fun _ _ => ""⟩
    let settings : Settings := ⟨none, none, none⟩
    let session : Session := ⟨(Store.empty.addRoot [] 0 .dynamic).2, 0, 0, host, settings, true, ""⟩
    let history : List Step := [.submit "a = [1]; a[7]", .command "/scoping Global", .submit "/scoping lexical"]
    let fresh : Session := ⟨(Store.empty.addSink.2.addRoot [] 1 .global).2, 0, 1, host, settings, true, ""⟩
    let more : List Step := [.submit "a", .submit "a = [2]; a"]
    let reported := "entry\nError: a is not assigned. (line 1, col 1)\nentry\nentry\n"
    lastPolicy session.scoping history = .global ∧
      ∃ reset : Session, reset = ((session.takeAll history).2.take (.submit " /reset")).2 ∧
        (fresh.takeAll more).1 = [none, none] ∧ (reset.takeAll more).1 = [none, none] ∧
        (fresh.takeAll more).2.store.written 1 = "[ 2 ]\n" ∧
        (reset.takeAll more).2.store.written 0 = reset.store.written 0 ++ "[ 2 ]\n" ∧
        (fresh.takeAll more).2.errors = reported ∧ (reset.takeAll more).2.errors = reset.errors ++ reported ∧
        (reset.takeAll more).2.store.SameVariables (reset.takeAll more).2.scope (fresh.takeAll more).2.store
          (fresh.takeAll more).2.scope := by
  intro host settings session history fresh more reported
  have started : start Store.empty 0 host settings true none = .ok session := rfl
  have policy : lastPolicy session.scoping history = .global := by decide +kernel
  have resets : (Step.submit " /reset").Resets := ⟨⟨"/reset", ""⟩, by decide, by decide⟩
  have quiet : settings.traceOn = (session.takeAll history).2.settings.traceOn := by decide +kernel
  have begun : start Store.empty.addSink.2 1 host settings true (some .global) = .ok fresh := rfl
  have ends : (fresh.takeAll more).1 = [none, none] := by decide +kernel
  have written : (fresh.takeAll more).2.store.written 1 = "[ 2 ]\n" := by decide +kernel
  have errors : (fresh.takeAll more).2.errors = reported := by decide +kernel
  obtain ⟨_, _, renewed⟩ := reset_as_new started (by decide) history
  rw [policy] at renewed
  obtain ⟨same, ⟨text, reset_written, fresh_written⟩, ⟨text', reset_errors, fresh_errors⟩, bound⟩ :=
    renewed (.submit " /reset") Store.empty.addSink.2 1 settings fresh resets (by decide) quiet begun more
  have text_eq : text = "[ 2 ]\n" := by
    have whole := fresh_written.symm.trans written
    rwa [show fresh.store.written 1 = "" from rfl, String.empty_append] at whole
  have text_eq' : text' = reported := by
    have whole := fresh_errors.symm.trans errors
    rwa [show fresh.errors = "" from rfl, String.empty_append] at whole
  rw [text_eq] at reset_written
  rw [text_eq'] at reset_errors
  exact ⟨policy, _, rfl, ends, same.symm.trans ends, written, reset_written, errors, reset_errors, bound⟩

end Session

end Corvid
