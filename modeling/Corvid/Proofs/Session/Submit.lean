import Corvid.Proofs.Eval.Scopes
import Corvid.Proofs.Store.Nesting
import Corvid.Session

/-!
What becomes of a source text that is handed in. It is run in the session's scope; its value is echoed, or its error
reported. The echo is no part of the run: a value whose containers are nested too deep for it to have a text, such as
one that contains itself, leaves the session by way of the echo, with everything that the run did.
-/
namespace Corvid

/-- A run leaves the frame of every scope as it was. -/
theorem Store.run_writesIn (store : Store) (limit scope : Nat) (source : String) :
    Store.WritesIn scope store (store.run limit scope source).2 := by
  unfold Store.run
  split
  · exact .of_same scope rfl
  · next tree _ =>
    have admitted : scopeContract.Admits ⟨tree, scope, store⟩ := ⟨trivial, trivial, trivial⟩
    have writes := (scopeContract.evalWithin_meets limit tree scope store admitted).1
    split
    · next evaluated => exact (congrArg Prod.snd evaluated) ▸ writes
    · next evaluated => exact (congrArg Prod.snd evaluated) ▸ writes

namespace Session

/-- A text without invisible characters is clean. -/
theorem cleaned_of_visible {text : String} (visible : ∀ c ∈ text.toList, isInvisible c = false) :
    cleaned text = text := by
  have kept : text.toList.filter (!isInvisible ·) = text.toList := by
    apply List.filter_eq_self.mpr
    intro c member
    simp [visible c member]
  rw [cleaned, kept, String.ofList_toList]

/-- The run of a source text in the session's scope. -/
def outcome (session : Session) (source : String) : Except Failure Value × Store :=
  session.store.run session.host.evalLimit session.scope source

/-- The session after a source text has been run and logged. -/
def ran (session : Session) (source : String) : Session :=
  let outcome := session.outcome source
  { session with
    store := outcome.2
    errors := session.errors ++ if session.logging then Log.ofRun session.host source outcome.1 else "" }

theorem runSource_eq (session : Session) (source : String) :
    session.runSource source =
      match (session.outcome source).1 with
      | .ok value => (session.ran source).echo value
      | .error failure => failure.message?.elim (some .tooLong, session.ran source)
          fun message => (none, (session.ran source).report source failure message) := by
  have logged (store : Store) (log : String) :
      (if session.logging then { session with store }.complain log else { session with store }) =
        { session with store, errors := session.errors ++ if session.logging then log else "" } := by
    split <;> simp [complain]
  unfold runSource ran outcome
  dsimp only
  rw [← logged]
  cases (session.store.run session.host.evalLimit session.scope source).1 with
  | ok value => rfl
  | error failure => cases told : failure.message? <;> simp [told]

section Outcome

variable {source : String}

theorem runSource_of_ok (session : Session) {value : Value}
    (valued : (session.outcome source).1 = .ok value) :
    session.runSource source = (session.ran source).echo value := by
  rw [runSource_eq, valued]

theorem runSource_of_error (session : Session) {failure : Failure}
    (failed : (session.outcome source).1 = .error failure) :
    session.runSource source = failure.message?.elim (some .tooLong, session.ran source)
      fun message => (none, (session.ran source).report source failure message) := by
  rw [runSource_eq, failed]

end Outcome

/-- Text that is neither blank nor a command is run. -/
theorem submit_source (session : Session) {text : String} (filled : Text.stripped (cleaned text).toList ≠ [])
    (plain : Command.line? (cleaned text) = none) : session.submit text = session.runSource (cleaned text) := by
  rw [submit, if_neg (by simpa using filled), plain]

/-- A value is echoed if it has a text. -/
theorem echo_of_nestsWithin (session : Session) {value : Value} (shows : value.isNone = false)
    (nests : session.store.NestsWithin session.host.echoLimit value) :
    ∃ shown, session.store.text? session.host.echoLimit value = some shown ∧
      session.echo value = (none, session.say (shown ++ "\n")) := by
  obtain ⟨shown, known⟩ := Option.isSome_iff_exists.mp ((Store.isSome_text?_iff _ value).mpr nests)
  refine ⟨shown, known, ?_⟩
  rw [echo, if_neg (by simp [shows]), known]

theorem echo_of_not_nestsWithin (session : Session) {value : Value}
    (endless : ¬session.store.NestsWithin session.host.echoLimit value) :
    session.echo value = (some .endless, session) := by
  have shows : ¬value.isNone = true := by
    intro nothing
    cases value with
    | none =>
      apply endless
      rw [← Store.isSome_text?_iff]
      cases session.host.echoLimit <;> rfl
    | _ => cases nothing
  have wordless : session.store.text? session.host.echoLimit value = none := by
    rw [← Option.not_isSome_iff_eq_none, Store.isSome_text?_iff]
    exact endless
  rw [echo, if_neg shows, wordless]

theorem report_eq (session : Session) (source : String) (failure : Failure) (message : String) :
    session.report source failure message = session.complain (Log.errorLine message ++
      if session.settings.traceOn then "Python traceback:\n" ++ session.host.trace source failure else "") := by
  unfold report complain
  dsimp only
  split <;> simp [String.append_assoc]

/-- A run and what is said after it leave the session on its host and in its scope, whose frame is as it was. -/
theorem runSource_frame (session : Session) (source : String) :
    let after := (session.runSource source).2
    after.scope = session.scope ∧ after.sink = session.sink ∧ after.host = session.host ∧
      after.logging = session.logging ∧ Store.WritesIn session.scope session.store after.store := by
  intro after
  have kept : after.scope = session.scope ∧ after.sink = session.sink ∧ after.host = session.host ∧
      after.logging = session.logging ∧ after.store.scopes = (session.outcome source).2.scopes := by
    unfold after
    rw [runSource_eq]
    split
    · unfold echo
      split
      · exact ⟨rfl, rfl, rfl, rfl, rfl⟩
      · split <;> exact ⟨rfl, rfl, rfl, rfl, rfl⟩
    · next failure _ =>
      cases failure.message? with
      | none => exact ⟨rfl, rfl, rfl, rfl, rfl⟩
      | some message =>
        rw [Option.elim_some, report_eq]
        exact ⟨rfl, rfl, rfl, rfl, rfl⟩
  obtain ⟨scope, sink, host, logging, scopes⟩ := kept
  have writes := session.store.run_writesIn session.host.evalLimit session.scope source
  exact ⟨scope, sink, host, logging, writes.trans (.of_same session.scope scopes)⟩

/-- A source text is run, and what is done with the outcome is said afterwards. Whatever the limits of the host are, a
value whose containers are nested no deeper than can be echoed is echoed, unless it is none; any other value, in
particular one that contains itself, leaves the session with all that the run did. An error is reported. However it
ends, the session's scope is the same and the frame of that scope is as it was. -/
theorem submit_outcome (session : Session) {text : String} (filled : Text.stripped text.toList ≠ [])
    (plain : Command.line? text = none) (visible : ∀ c ∈ text.toList, isInvisible c = false) :
    let result := (session.store.run session.host.evalLimit session.scope text).1
    let after := session.ran text
    let limit := session.host.echoLimit
    (∀ value, result = .ok value →
      (value.isNone = true → session.submit text = (none, after)) ∧
      (value.isNone = false → after.store.NestsWithin limit value →
        ∃ shown, after.store.text? limit value = some shown ∧
          session.submit text = (none, after.say (shown ++ "\n"))) ∧
      (¬after.store.NestsWithin limit value → session.submit text = (some .endless, after)) ∧
      (after.store.ContainsItself value → ¬after.store.NestsWithin limit value)) ∧
    (∀ failure message, result = .error failure → failure.message? = some message →
      session.submit text = (none, after.complain (Log.errorLine message ++
        if session.settings.traceOn then "Python traceback:\n" ++ session.host.trace text failure else ""))) ∧
    (session.submit text).2.scope = session.scope ∧
    ∀ frame, session.store.scopes[session.scope]? = some frame →
      ∃ later, (session.submit text).2.store.scopes[session.scope]? = some later ∧
        later.parent = frame.parent ∧ later.sink = frame.sink ∧ later.scoping = frame.scoping := by
  intro result after limit
  have clean := cleaned_of_visible visible
  have runs : session.submit text = session.runSource text := by
    have filled' : Text.stripped (cleaned text).toList ≠ [] := by rwa [clean]
    have submitted := session.submit_source filled' (by rwa [clean])
    rwa [clean] at submitted
  rw [runs]
  refine ⟨?_, ?_, (session.runSource_frame text).1, ?_⟩
  · intro value valued
    rw [session.runSource_of_ok valued]
    refine ⟨?_, after.echo_of_nestsWithin, after.echo_of_not_nestsWithin, ?_⟩
    · intro nothing
      rw [echo, if_pos nothing]
    · intro cyclic
      exact cyclic.not_nestsWithin limit
  · intro failure message failed told
    rw [session.runSource_of_error failed, told, Option.elim_some, report_eq]
    rfl
  · intro frame known
    obtain ⟨later, there, extended, _⟩ := (session.runSource_frame text).2.2.2.2 session.scope frame known
    exact ⟨later, there, extended.parent, extended.sink, extended.scoping⟩

/-- A list that has been made its own item, a list in a list and an empty one, on a host that echoes no list in a
list. -/
theorem submit_outcome_cyclic :
    let names := [("a", Value.list 0), ("b", .list 1), ("c", .list 2)]
    let store : Store := ⟨#[.list [.list 0], .list [.list 2], .list []],
      #[⟨names, none, Store.standardSink, .dynamic⟩], #[""], 0⟩
    let host : Host := ⟨2, 1, id, fun _ _ => "", fun _ _ => ""⟩
    let session : Session := ⟨store, 0, Store.standardSink, host, ⟨none, none, none⟩, false, ""⟩
    store.run host.evalLimit session.scope "a" = (.ok (.list 0), store) ∧ store.ContainsItself (.list 0) ∧
      session.submit "a" = (some .endless, session) ∧
      store.run host.evalLimit session.scope "b" = (.ok (.list 1), store) ∧ ¬store.NestsWithin 1 (.list 1) ∧
      session.submit "b" = (some .endless, session) ∧
      store.run host.evalLimit session.scope "c" = (.ok (.list 2), store) ∧ store.NestsWithin 1 (.list 2) ∧
      session.submit "c" = (none, session.say "[ ]\n") := by
  intro names store host session
  have cyclic : store.ContainsItself (.list 0) := .single (.item List.mem_cons_self)
  have deep : ¬store.NestsWithin 1 (.list 1) := by
    rw [← Store.isSome_text?_iff]
    decide
  have flat : store.NestsWithin 1 (.list 2) := by
    rw [← Store.isSome_text?_iff]
    decide
  have endless := (@submit_outcome session "a" (by decide) rfl (List.forall_mem_singleton.mpr rfl)).1 (.list 0) rfl
  have nested := (@submit_outcome session "b" (by decide) rfl (List.forall_mem_singleton.mpr rfl)).1 (.list 1) rfl
  have echoed := (@submit_outcome session "c" (by decide) rfl (List.forall_mem_singleton.mpr rfl)).1 (.list 2) rfl
  refine ⟨rfl, cyclic, endless.2.2.1 (endless.2.2.2 cyclic), rfl, deep, nested.2.2.1 deep, rfl, flat, ?_⟩
  obtain ⟨shown, known, submitted⟩ := echoed.2.1 rfl flat
  cases known
  exact submitted

end Session

end Corvid
