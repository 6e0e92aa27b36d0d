import Corvid.CommandLine

/-!
The debug log of the command line. Turning it on, by an argument or by the environment, puts text in front of what is
written on the error channel and changes nothing else: neither how the command ends nor what the program prints.
-/
namespace Corvid

theorem Log.ofRun_front {source : String} {tree : Expr} (parsed : Parser.parse source = .ok tree) (host : Host)
    (result : Except Failure Value) :
    ∃ more, Log.ofRun host source result = host.entry ("parsed tree:\n" ++ tree.outline "  ") ++ more := by
  cases result with
  | ok value =>
    refine ⟨host.entry ("evaluation finished with " ++ Log.kindName value.kind), ?_⟩
    simp only [Log.ofRun, parsed]
  | error failure =>
    refine ⟨"", ?_⟩
    simp only [Log.ofRun, parsed, String.append_empty]

namespace CommandLine

/-! Reading arguments -/

def flags : List String := ["--debug", "--scoping", "-e", "--eval"]

/-- A flag with its value or another argument by itself, and the options it makes of those before it. -/
inductive Item (options : Options) : List String → Options → Prop where
  | debug : Item options ["--debug"] { options with debug := true }
  | scoping {value : String} {policy : Scoping} (known : Scoping.ofText value = .ok policy) :
      Item options ["--scoping", value] { options with scoping := some policy }
  | scopingIs {argument value : String} {policy : Scoping} (given : scopingValue? argument = some value)
      (known : Scoping.ofText value = .ok policy) : Item options [argument] { options with scoping := some policy }
  | inline {flag : String} (source : String) (asked : flag = "-e" ∨ flag = "--eval") :
      Item options [flag, source] { options with inline := some source }
  | path {argument : String} (plain : argument ∉ flags) (other : scopingValue? argument = none)
      (first : options.path = none) : Item options [argument] { options with path := some argument }

/-- Arguments that are accepted, item by item. -/
inductive Reads : Options → List String → Options → Prop where
  | nil (options : Options) : Reads options [] options
  | item {options next read : Options} {words rest : List String} (first : Item options words next)
      (more : Reads next rest read) : Reads options (words ++ rest) read

theorem withScoping_eq_ok_iff {options next : Options} {value : String} :
    withScoping options value = .ok next ↔
      ∃ policy, Scoping.ofText value = .ok policy ∧ next = { options with scoping := some policy } := by
  rw [withScoping]
  constructor
  · intro found
    split at found
    · next policy known =>
      cases found
      exact ⟨policy, known, rfl⟩
    · cases found
  · rintro ⟨policy, known, rfl⟩
    rw [known]

theorem readOptions_plain {argument : String} (plain : argument ∉ flags) (options : Options) (rest : List String) :
    readOptions options (argument :: rest) =
      match scopingValue? argument, options.path with
      | some value, _ => do readOptions (← withScoping options value) rest
      | none, none => readOptions { options with path := some argument } rest
      | none, some _ => .error ("Unexpected argument: " ++ argument) := by
  simp only [flags, List.mem_cons, List.not_mem_nil, or_false, not_or] at plain
  obtain ⟨debug, scoping, short, long⟩ := plain
  rewrite [readOptions]
  · rfl
  · exact debug
  · exact fun same _ => scoping same
  · exact fun _ _ same _ => scoping same
  · exact fun same _ => short same
  · exact fun same _ => long same
  · exact fun _ _ same _ => short same
  · exact fun _ _ same _ => long same

theorem Item.readOptions_eq {options next : Options} {words : List String} (item : Item options words next)
    (rest : List String) : readOptions options (words ++ rest) = readOptions next rest := by
  cases item with
  | debug => rfl
  | scoping known =>
    change withScoping options _ >>= _ = _
    rw [withScoping_eq_ok_iff.mpr ⟨_, known, rfl⟩]
    rfl
  | @scopingIs argument value policy given known =>
    have plain : argument ∉ flags := by
      intro flag
      have unvalued : ∀ flag ∈ flags, scopingValue? flag = none := by decide
      rw [unvalued argument flag] at given
      cases given
    rw [List.singleton_append, readOptions_plain plain, given]
    change withScoping options value >>= _ = _
    rw [withScoping_eq_ok_iff.mpr ⟨_, known, rfl⟩]
    rfl
  | inline source asked => obtain rfl | rfl := asked <;> rfl
  | path plain other first => rw [List.singleton_append, readOptions_plain plain, other, first]

theorem Reads.readOptions_append {options read : Options} {front : List String} (reads : Reads options front read)
    (rest : List String) : readOptions options (front ++ rest) = readOptions read rest := by
  induction reads with
  | nil => rfl
  | item first _ ih => rw [List.append_assoc, first.readOptions_eq, ih]

theorem readOptions_scoped {options read : Options} {value : String} {rest : List String}
    (accepted : (do readOptions (← withScoping options value) rest) = .ok read) :
    ∃ policy, Scoping.ofText value = .ok policy ∧
      readOptions { options with scoping := some policy } rest = .ok read := by
  cases chosen : withScoping options value with
  | error message =>
    rw [chosen] at accepted
    cases accepted
  | ok next =>
    rw [chosen] at accepted
    obtain ⟨policy, known, rfl⟩ := withScoping_eq_ok_iff.mp chosen
    exact ⟨policy, known, accepted⟩

theorem reads_of_readOptions {options read : Options} {arguments : List String}
    (accepted : readOptions options arguments = .ok read) : Reads options arguments read := by
  fun_induction readOptions options arguments with
  | case1 => cases accepted; exact .nil _
  | case2 options rest ih => exact .item .debug (ih accepted)
  | case3 | case5 | case6 | case11 => cases accepted
  | case4 options value rest ih =>
    obtain ⟨policy, known, accepted⟩ := readOptions_scoped accepted
    exact .item (.scoping known) (ih _ accepted)
  | case7 options source rest ih => exact .item (.inline source (.inl rfl)) (ih accepted)
  | case8 options source rest ih => exact .item (.inline source (.inr rfl)) (ih accepted)
  | case9 options argument rest _ _ _ _ _ _ _ value given ih =>
    obtain ⟨policy, known, accepted⟩ := readOptions_scoped accepted
    exact .item (.scopingIs given known) (ih _ accepted)
  | case10 options argument rest debug lone scoping lone' lone'' short long first other ih =>
    have plain : argument ∉ flags := by
      cases rest <;> simp_all [flags]
    exact .item (.path plain other first) (ih accepted)

/-- An option that turns the log on may stand before any item. -/
theorem Item.debugged {options next : Options} {words : List String} (item : Item options words next) :
    Item { options with debug := true } words { next with debug := true } := by
  cases item with
  | debug => exact .debug
  | scoping known => exact .scoping known
  | scopingIs given known => exact .scopingIs given known
  | inline source asked => exact .inline source asked
  | path plain other first => exact .path plain other first

theorem Reads.debugged {options read : Options} {arguments : List String} (reads : Reads options arguments read) :
    Reads { options with debug := true } arguments { read with debug := true } := by
  induction reads with
  | nil => exact .nil _
  | item first _ ih => exact .item first.debugged ih

theorem Reads.readOptions_eq {options read : Options} {arguments : List String}
    (reads : Reads options arguments read) : readOptions options arguments = .ok read := by
  have whole := reads.readOptions_append []
  rwa [List.append_nil, readOptions] at whole

/-! Places between arguments -/

/-- The flags that take the next argument as their value. -/
def valueFlags : List String := ["--scoping", "-e", "--eval"]

theorem Item.cut {options next : Options} {front rest : List String} (item : Item options (front ++ rest) next) :
    front = [] ∨ rest = [] ∨ ∃ flag ∈ valueFlags, front = [flag] := by
  generalize whole : front ++ rest = words at item
  have single {word : String} (alone : front ++ rest = [word]) : front = [] ∨ rest = [] :=
    (List.append_eq_singleton_iff.mp alone).imp And.left And.right
  have pair {flag value : String} (both : front ++ rest = [flag, value]) (known : flag ∈ valueFlags) :
      front = [] ∨ rest = [] ∨ ∃ flag ∈ valueFlags, front = [flag] := by
    obtain ⟨nil, _⟩ | ⟨more, rfl, later⟩ := List.append_eq_cons_iff.mp both
    · exact .inl nil
    · obtain ⟨rfl, _⟩ | ⟨_, nil⟩ := List.append_eq_singleton_iff.mp later.symm
      · exact .inr (.inr ⟨flag, known, rfl⟩)
      · exact .inr (.inl nil)
  cases item with
  | debug | scopingIs | path => exact (single whole).imp_right .inl
  | scoping => exact pair whole (by decide)
  | inline source asked =>
    obtain rfl | rfl := asked
    · exact pair whole (by decide)
    · exact pair whole (by decide)

/-- Arguments that end in a flag without its value. -/
def AwaitsValue (arguments : List String) : Prop :=
  ∃ before flag middle, arguments = before ++ [flag] ∧ flag ∈ valueFlags ∧ readOptions .initial before = .ok middle

/-- Accepted arguments can be cut anywhere but between a flag and its value. -/
theorem Reads.cut {options read : Options} {front rest : List String} (reads : Reads options (front ++ rest) read) :
    (∃ middle, Reads options front middle) ∨
      ∃ before flag middle, front = before ++ [flag] ∧ flag ∈ valueFlags ∧ Reads options before middle := by
  generalize whole : front ++ rest = arguments at reads
  induction reads generalizing front with
  | nil options =>
    rw [(List.append_eq_nil_iff.mp whole).1]
    exact .inl ⟨options, .nil options⟩
  | @item options next read words later first _ ih =>
    obtain ⟨more, rfl, follows⟩ | ⟨more, rfl, _⟩ := List.append_eq_append_iff.mp whole.symm
    · obtain ⟨middle, before⟩ | ⟨before, flag, middle, rfl, known, reads⟩ := ih follows.symm
      · exact .inl ⟨middle, .item first before⟩
      · exact .inr ⟨words ++ before, flag, middle, (List.append_assoc _ _ _).symm, known, .item first reads⟩
    · obtain rfl | rfl | ⟨flag, known, rfl⟩ := first.cut
      · exact .inl ⟨options, .nil options⟩
      · rw [List.append_nil] at first
        have alone := Reads.item first (.nil next)
        rw [List.append_nil] at alone
        exact .inl ⟨next, alone⟩
      · exact .inr ⟨[], flag, options, rfl, known, .nil options⟩

/-- At every other place there may stand an argument that turns the log on. -/
theorem readOptions_insert_debug {read : Options} {front rest : List String}
    (accepted : readOptions .initial (front ++ rest) = .ok read) (free : ¬AwaitsValue front) :
    readOptions .initial (front ++ "--debug" :: rest) = .ok { read with debug := true } := by
  obtain ⟨middle, before⟩ | ⟨before, flag, middle, same, known, reads⟩ := (reads_of_readOptions accepted).cut
  · rw [before.readOptions_append] at accepted ⊢
    exact (reads_of_readOptions accepted).debugged.readOptions_eq
  · exact absurd ⟨before, flag, middle, same, known, reads.readOptions_eq⟩ free

/-! Running -/

/-- An outcome with more text at the front of the error channel. -/
def Outcome.preceded (log : String) (outcome : Outcome) : Outcome := { outcome with errors := log ++ outcome.errors }

@[simp] theorem Outcome.preceded_empty (outcome : Outcome) : outcome.preceded "" = outcome := by
  simp only [Outcome.preceded, String.empty_append]

/-- Runs the source text that some options name, with or without a log. -/
def runSource (around : Surroundings) (options : Options) (logging : Bool) : Outcome :=
  match loadSource options around with
  | .error exit => ⟨exit, "", ""⟩
  | .ok source => runProgram around.host around.settings logging options.scoping source

theorem run_eq_runSource {around : Surroundings} {arguments : List String} {options : Options}
    (accepted : readOptions .initial arguments = .ok options) (program : sessionEvents? options around = none) :
    run around arguments = runSource around options (options.debug || around.settings.debugOn) := by
  rw [run, accepted]
  simp only [program]
  rfl

theorem runProgram_logged (host : Host) (settings : Settings) (scoping : Option Scoping) (source : String) :
    ∃ log, runProgram host settings true scoping source = (runProgram host settings false scoping source).preceded log ∧
      ∀ policy tree, Scoping.choose scoping settings.scoping = .ok policy → Parser.parse source = .ok tree →
        ∃ more, log = host.entry ("parsed tree:\n" ++ tree.outline "  ") ++ more := by
  cases chosen : Scoping.choose scoping settings.scoping with
  | error unknown =>
    refine ⟨"", ?_, fun policy tree other => by cases other⟩
    simp only [runProgram, chosen, Outcome.preceded_empty]
  | ok policy =>
    cases rooted : Store.empty.addRoot [] Store.standardSink policy with
    | mk scope store =>
      cases ran : store.run host.evalLimit scope source with
      | mk result after =>
        obtain ⟨tail, same⟩ : ∃ tail, runProgram host settings true scoping source =
            (runProgram host settings false scoping source).preceded (Log.ofRun host source result ++ tail) := by
          simp only [runProgram, chosen, rooted, ran]
          cases result with
          | ok value => exact ⟨"", by simp [Outcome.preceded]⟩
          | error failure =>
            cases said : failure.message? with
            | none => exact ⟨"", by simp [Outcome.preceded, said]⟩
            | some message => exact ⟨Log.aborted host source failure, by simp [Outcome.preceded, said, String.append_assoc]⟩
        refine ⟨_, same, fun policy tree _ parsed => ?_⟩
        obtain ⟨more, front⟩ := Log.ofRun_front parsed host result
        exact ⟨more ++ tail, by rw [front, String.append_assoc]⟩

/-- A log that begins with the tree of the program, if the program is found and has one. -/
def ShowsTree (around : Surroundings) (options : Options) (log : String) : Prop :=
  ∀ source policy tree, loadSource options around = .ok source →
    Scoping.choose options.scoping around.settings.scoping = .ok policy → Parser.parse source = .ok tree →
    ∃ more, log = around.host.entry ("parsed tree:\n" ++ tree.outline "  ") ++ more

theorem runSource_logged (around : Surroundings) (options : Options) :
    ∃ log, runSource around options true = (runSource around options false).preceded log ∧
      ShowsTree around options log := by
  cases loaded : loadSource options around with
  | error exit =>
    refine ⟨"", ?_, fun source policy tree other => by cases loaded.symm.trans other⟩
    simp only [runSource, loaded, Outcome.preceded_empty]
  | ok source =>
    obtain ⟨log, same, front⟩ := runProgram_logged around.host around.settings options.scoping source
    refine ⟨log, ?_, fun source policy tree other => ?_⟩
    · simp only [runSource, loaded, same]
    · cases loaded.symm.trans other
      exact front policy tree

/-- Surroundings in which the variable that turns the log on has a value. -/
def Surroundings.withDebug (around : Surroundings) (word : String) : Surroundings :=
  { around with settings := { around.settings with debug := some word } }

/-- Where the arguments ask for a program to be run, turning the log on has one effect: some text comes in front of what
is on the error channel. It is the same text at whatever place the argument is put in, other than where a flag would
take it as its value, and whichever word the variable is set to. Unless the log is on already, it begins with the tree
of the program. -/
theorem run_debug_observes {around : Surroundings} {arguments : List String} {options : Options}
    (accepted : readOptions .initial arguments = .ok options) (program : sessionEvents? options around = none) :
    ∃ log,
      (∀ front rest, arguments = front ++ rest → ¬AwaitsValue front →
        run around (front ++ "--debug" :: rest) = (run around arguments).preceded log) ∧
      (∀ word, Settings.isOn (some word) = true →
        run (around.withDebug word) arguments = (run around arguments).preceded log) ∧
      (options.debug = false → around.settings.debugOn = false → ShowsTree around options log) := by
  have plain := run_eq_runSource accepted program
  obtain ⟨log, logged, shown⟩ : ∃ log, runSource around options true = (run around arguments).preceded log ∧
      (options.debug = false → around.settings.debugOn = false → ShowsTree around options log) := by
    rw [plain]
    -- Where the log is on already, nothing is added.
    cases already : options.debug || around.settings.debugOn with
    | false =>
      obtain ⟨log, logged, shown⟩ := runSource_logged around options
      exact ⟨log, logged, fun _ _ => shown⟩
    | true =>
      refine ⟨"", (Outcome.preceded_empty _).symm, fun off off' => ?_⟩
      rw [off, off'] at already
      cases already
  refine ⟨log, ?argument, ?setting, shown⟩
  case argument =>
    rintro front rest rfl free
    rw [run_eq_runSource (readOptions_insert_debug accepted free) program, ← logged]
    rfl
  case setting =>
    intro word enabling
    have program' : sessionEvents? options (around.withDebug word) = none := program
    have on : (around.withDebug word).settings.debugOn = true := enabling
    rw [run_eq_runSource accepted program', on, Bool.or_true, ← logged]
    rfl

/-- A program on standard input that prints and then fails; a flag with its value, the argument before or behind them,
and the variable set to a word in capitals. -/
theorem run_debug_observes_division :
    let host : Host := ⟨3, 0, (· ++ "\n"), fun _ _ => "", fun _ _ => ""⟩
    let around : Surroundings := ⟨host, ⟨none, none, none⟩, "print(2)\n1 / 0", none, fun _ => .missing⟩
    let tree := Expr.block (.spot ⟨1, 1⟩) [.print (.spot ⟨1, 1⟩) (.literal (.spot ⟨1, 7⟩) .int "2") false,
      .join (.spot ⟨2, 1⟩) (.arithmetic .div) (.literal (.spot ⟨2, 1⟩) .int "1") (.literal (.spot ⟨2, 5⟩) .int "0")]
    let reported := "Error: Cannot divide by zero. (line 2, col 1)\n"
    run around ["--scoping", "global"] = ⟨.code 1, "2", reported⟩ ∧
      ∃ log more, log = host.entry ("parsed tree:\n" ++ tree.outline "  ") ++ more ∧
        run around ["--debug", "--scoping", "global"] = ⟨.code 1, "2", log ++ reported⟩ ∧
        run around ["--scoping", "global", "--debug"] = ⟨.code 1, "2", log ++ reported⟩ ∧
        run (around.withDebug "YES") ["--scoping", "global"] = ⟨.code 1, "2", log ++ reported⟩ := by
  intro host around tree reported
  have plain : run around ["--scoping", "global"] = ⟨.code 1, "2", reported⟩ := by decide +kernel
  have accepted : readOptions .initial ["--scoping", "global"] = .ok ⟨false, some .global, none, none⟩ := rfl
  have program : sessionEvents? ⟨false, some .global, none, none⟩ around = none := rfl
  have parsed : Parser.parse "print(2)\n1 / 0" = .ok tree := rfl
  obtain ⟨log, argument, setting, shown⟩ := run_debug_observes accepted program
  simp only [plain, Outcome.preceded] at argument setting
  have unified : String.ofList (Text.unixLines "print(2)\n1 / 0".toList) = "print(2)\n1 / 0" := by decide +kernel
  have loaded : loadSource ⟨false, some .global, none, none⟩ around = .ok "print(2)\n1 / 0" :=
    congrArg Except.ok unified
  obtain ⟨more, front⟩ := shown rfl rfl _ .global tree loaded rfl parsed
  have behind : ¬AwaitsValue ["--scoping", "global"] := by
    rintro ⟨before, flag, middle, whole, known, _⟩
    have last := congrArg List.getLast? whole
    rw [List.getLast?_concat] at last
    cases last
    exact absurd known (by decide)
  have before : ¬AwaitsValue [] := by
    rintro ⟨before, flag, middle, whole, _⟩
    exact List.append_ne_nil_of_right_ne_nil before (List.cons_ne_nil flag []) whole.symm
  have first := argument [] ["--scoping", "global"] rfl before
  have last := argument ["--scoping", "global"] [] rfl behind
  rw [List.nil_append] at first
  rw [List.cons_append, List.cons_append, List.nil_append] at last
  exact ⟨plain, log, more, front, first, last, setting "YES" (by decide)⟩

end CommandLine

end Corvid
