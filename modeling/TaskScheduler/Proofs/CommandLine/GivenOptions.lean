import TaskScheduler.CommandLine.Invocation
import TaskScheduler.Proofs.CommandLine.Reading

/-!
# Options that are given

Three options override a variable of the environment: the address of the store, the prefix of its
keys and the capacity of the wait buffer.  Variables are looked at only after the whole command
line has been read, and not where the option was given.  So a command line that gives such an
option is read alike whatever the variable is, and the invocation holds the value of the option.
-/

namespace TaskScheduler.CommandLine

/-! ### The options -/

/-- An option that overrides a variable. -/
inductive Override where
  /-- The address of the store. -/
  | redisUrl
  /-- The prefix of the keys. -/
  | keyPrefix
  /-- The capacity of the wait buffer. -/
  | waitBuffer
  deriving DecidableEq, Repr

namespace Override

/-- The name of the option. -/
def optionName : Override → String
  | .redisUrl => "redis-url"
  | .keyPrefix => "key-prefix"
  | .waitBuffer => "wait-buffer"

/-- The name of the variable. -/
def variableName : Override → String
  | .redisUrl => "TASKFLOW_REDIS_URL"
  | .keyPrefix => "TASKFLOW_KEY_PREFIX"
  | .waitBuffer => "TASKFLOW_WAIT_BUFFER"

/-- Two environments differ at most in the variable. -/
def AgreeOff (o : Override) (env env' : Environment) : Prop :=
  ∀ name, name ≠ o.variableName → env'.get? name = env.get? name

end Override

/-- The options and operands of a subcommand, before any variable is looked at. -/
def readGiven (name : String) (args : List String) : Except UsageError Reading := do
  let (r, _) ← readLevel (levelOf name) { operands := (levelOf name).operands } args
  r.settle

/-- Whether a command line gives an option: unless it is refused before any variable is looked at,
the option has a value after it. -/
def Override.isGivenBy (o : Override) (args : List String) : Bool :=
  match readLevel topLevel { operands := [] } args with
  | .ok (_, some (name, rest)) =>
    match readGiven name rest with
    | .ok given => given.found.contains o.optionName
    | .error _ => true
  | _ => true

/-- An option of which a command line says `isGivenBy` is found in what is read. -/
theorem Override.contains_of_isGivenBy {o : Override} {args : List String}
    (hgives : o.isGivenBy args) {r : Reading} {name : String} {rest : List String}
    (hread : readLevel topLevel { operands := [] } args = .ok (r, some (name, rest)))
    {given : Reading} (hgiven : readGiven name rest = .ok given) :
    given.found.contains o.optionName := by
  unfold Override.isGivenBy at hgives
  rw [hread] at hgives
  dsimp only at hgives
  rwa [hgiven] at hgives

/-- After two dashes there are operands only. -/
example : Override.redisUrl.isGivenBy ["cancel", "--", "--redis-url"] = false := by
  decide +kernel

/-! ### Reading the command line -/

/-- The values of the options and operands, once the variables have been looked at. -/
def fromVariables (env : Environment) (r : Reading) :
    Except UsageError (FiniteMap String String) := do
  let r ← fromVariable env "redis-url" "TASKFLOW_REDIS_URL" r
  let r ← fromVariable env "key-prefix" "TASKFLOW_KEY_PREFIX" r
  if r.operands.isEmpty then return r.found else throw UsageError.missingRequiredArgument

/-- `readSubcommand` reads the arguments first, and then looks at the variables. -/
theorem readSubcommand_eq (env : Environment) (name : String) (args : List String) :
    readSubcommand env name args = readGiven name args >>= fromVariables env := by
  unfold readSubcommand readGiven fromVariables
  simp only [bind_assoc]

/-- `fromVariable` does not look at a variable whose option was given. -/
theorem fromVariable_congr {env env' : Environment} {name key : String} {r : Reading}
    (h : r.found.contains name ∨ env'.get? key = env.get? key) :
    fromVariable env' name key r = fromVariable env name key r := by
  unfold fromVariable
  rcases h with hcontains | hget
  · rw [if_pos hcontains, if_pos hcontains]
  · rw [hget]

/-- `fromVariable` leaves the value of what was given. -/
theorem get?_fromVariable {env : Environment} {name key n : String} {r r' : Reading}
    (h : fromVariable env name key r = .ok r') (hn : r.found.contains n) :
    r'.found.get? n = r.found.get? n := by
  unfold fromVariable at h
  split at h
  next => obtain rfl := Except.ok.inj h; rfl
  next habsent =>
    split at h
    next => obtain rfl := Except.ok.inj h; rfl
    next =>
      split at h
      next =>
        obtain rfl := Except.ok.inj h
        have hne : n ≠ name := fun heq => habsent (heq ▸ hn)
        exact FiniteMap.get?_insert_of_ne _ _ hne
      next => cases h

/-- `fromVariables` leaves the value of what was given. -/
theorem get?_fromVariables {env : Environment} {n : String} {r : Reading}
    {found : FiniteMap String String} (h : fromVariables env r = .ok found)
    (hn : r.found.contains n) : found.get? n = r.found.get? n := by
  obtain ⟨r₁, h₁, h⟩ := bind_eq_ok h
  obtain ⟨r₂, h₂, h⟩ := bind_eq_ok h
  have hfirst := get?_fromVariable h₁ hn
  have hsecond := get?_fromVariable h₂ ((congrArg Option.isSome hfirst).trans hn)
  split at h
  next =>
    obtain rfl := Except.ok.inj h
    exact hsecond.trans hfirst
  next => cases h

/-- Two environments that `AgreeOff` a variable make no difference to `fromVariables` where its
option was given. -/
theorem fromVariables_congr {o : Override} {env env' : Environment} (hagree : o.AgreeOff env env')
    {r : Reading} (hgiven : r.found.contains o.optionName) :
    fromVariables env' r = fromVariables env r := by
  have hurl : fromVariable env' "redis-url" "TASKFLOW_REDIS_URL" r =
      fromVariable env "redis-url" "TASKFLOW_REDIS_URL" r := by
    refine fromVariable_congr ?_
    cases o with
    | redisUrl => exact .inl hgiven
    | keyPrefix => exact .inr (hagree _ (by decide))
    | waitBuffer => exact .inr (hagree _ (by decide))
  unfold fromVariables
  rw [hurl]
  cases h : fromVariable env "redis-url" "TASKFLOW_REDIS_URL" r with
  | error e => rfl
  | ok r₁ =>
    have hkey : fromVariable env' "key-prefix" "TASKFLOW_KEY_PREFIX" r₁ =
        fromVariable env "key-prefix" "TASKFLOW_KEY_PREFIX" r₁ := by
      refine fromVariable_congr ?_
      cases o with
      | redisUrl => exact .inr (hagree _ (by decide))
      | keyPrefix =>
        exact .inl ((congrArg Option.isSome (get?_fromVariable h hgiven)).trans hgiven)
      | waitBuffer => exact .inr (hagree _ (by decide))
    change (fromVariable env' "key-prefix" "TASKFLOW_KEY_PREFIX" r₁ >>= _) =
      (fromVariable env "key-prefix" "TASKFLOW_KEY_PREFIX" r₁ >>= _)
    rw [hkey]

/-- `Invocation.parse` of a command line with a subcommand, by what is read of its arguments. -/
theorem parse_of_read {env : Environment} {args rest : List String} {r : Reading} {name : String}
    (hread : readLevel topLevel { operands := [] } args = .ok (r, some (name, rest)))
    (hname : name ≠ "help") :
    Invocation.parse env args = do
      let found ← readGiven name rest >>= fromVariables env
      let r ← r.settle
      let logLevel := ((found.get? "log-level").or (r.found.get? "log-level")).getD defaultLogLevel
      return ⟨commandOf name found, logLevel, found.get? "redis-url", found.get? "key-prefix"⟩ := by
  rw [← readSubcommand_eq]
  unfold Invocation.parse
  rw [hread]
  dsimp only [bind, Except.bind]
  split
  next heq =>
    obtain ⟨heq, -⟩ := Prod.mk.inj (Option.some.inj heq)
    exact absurd heq hname
  next heq =>
    obtain ⟨rfl, rfl⟩ := Prod.mk.inj (Option.some.inj heq)
    rfl
  next heq => cases heq

/-- A command line is refused in every environment, or it asks for a subcommand. -/
theorem parse_cases (args : List String) :
    (∃ e, ∀ env, Invocation.parse env args = .error e) ∨
      ∃ r name rest, readLevel topLevel { operands := [] } args = .ok (r, some (name, rest)) ∧
        name ≠ "help" := by
  unfold Invocation.parse
  cases readLevel topLevel { operands := [] } args with
  | error e => exact .inl ⟨e, fun _ => rfl⟩
  | ok read =>
    obtain ⟨r, _ | ⟨name, rest⟩⟩ := read
    · have hthrow : ∀ x : Except UsageError Reading, ∃ e, (x >>= fun r => throw
          (if r.found.isEmpty then .helpForNothing else .missingSubcommand) :
            Except UsageError Invocation) = .error e := by
        intro x
        cases x with
        | error e => exact ⟨e, rfl⟩
        | ok r => exact ⟨_, rfl⟩
      obtain ⟨e, he⟩ := hthrow r.settle
      exact .inl ⟨e, fun _ => he⟩
    · by_cases hname : name = "help"
      · subst hname
        exact .inl ⟨helpFor rest, fun _ => rfl⟩
      · exact .inr ⟨r, name, rest, rfl, hname⟩

/-- `Invocation.parse` reads a command line that gives the option alike in two environments that
`AgreeOff` its variable. -/
theorem parse_congr {o : Override} {env env' : Environment} (hagree : o.AgreeOff env env')
    {args : List String} (hgives : o.isGivenBy args) :
    Invocation.parse env' args = Invocation.parse env args := by
  obtain ⟨e, hrefused⟩ | ⟨r, name, rest, hread, hname⟩ := parse_cases args
  · rw [hrefused, hrefused]
  · have hsub : (readGiven name rest >>= fromVariables env') =
        (readGiven name rest >>= fromVariables env) := by
      cases hgiven : readGiven name rest with
      | error e => rfl
      | ok given => exact fromVariables_congr hagree (o.contains_of_isGivenBy hgives hread hgiven)
    rw [parse_of_read hread hname, parse_of_read hread hname, hsub]

/-- What an invocation holds when it was read of a command line that gives the option. -/
def Override.HeldBy (i : Invocation) : Override → Prop
  | .redisUrl => i.redisUrl.isSome
  | .keyPrefix => i.keyPrefix.isSome
  | .waitBuffer => ∃ n printMetrics, i.command = .worker (some n) printMetrics

/-- `Override.waitBuffer` is an option of a worker only, and its value is a word. -/
theorem names_waitBuffer {name : String} {kind : ValueKind}
    (h : (levelOf name).Names (Override.optionName .waitBuffer) kind) :
    name = "worker" ∧ kind = .word := by
  have hfree : ∀ level : Level, (∀ o ∈ level.options, o.name ≠ Override.optionName .waitBuffer) →
      Override.optionName .waitBuffer ∉ level.operands →
      ¬ level.Names (Override.optionName .waitBuffer) kind := by
    intro level hoptions hoperands hnames
    generalize Override.optionName .waitBuffer = n at hoptions hoperands hnames
    cases hnames with
    | value ho => exact hoptions _ ho rfl
    | flag ho => exact hoptions _ ho rfl
    | operand hn => exact hoperands hn
  unfold levelOf at h
  split at h
  next =>
    refine ⟨rfl, ?_⟩
    have hword : ∀ o ∈ (levelOf "worker").options, o.name = Override.optionName .waitBuffer →
        o.kind = .value .word false := by decide
    generalize hn : Override.optionName .waitBuffer = n at hword h
    cases h with
    | value ho hkind => exact (OptionKind.value.inj (hkind.symm.trans (hword _ ho rfl))).1
    | flag ho hkind => cases hkind.symm.trans (hword _ ho rfl)
    | operand hmem => cases hmem
  next => exact absurd h (hfree _ (by decide) (by decide))
  next => exact absurd h (hfree _ (by decide) (by decide))

/-- What `readGiven` reads `Fits` the level of the subcommand. -/
theorem fits_readGiven {name : String} {args : List String} {given : Reading}
    (h : readGiven name args = .ok given) : given.Fits (levelOf name) := by
  obtain ⟨⟨r, rest⟩, hread, hsettle⟩ := bind_eq_ok h
  exact ((Reading.fits_start (levelOf name)).readLevel hread).settle hsettle

/-- An option that is given is `HeldBy` the invocation that is parsed. -/
theorem heldBy_of_parse {o : Override} {env : Environment} {args : List String}
    (hgives : o.isGivenBy args) {i : Invocation} (hparse : Invocation.parse env args = .ok i) :
    o.HeldBy i := by
  obtain ⟨e, hrefused⟩ | ⟨r, name, rest, hread, hname⟩ := parse_cases args
  · cases hparse.symm.trans (hrefused env)
  · rw [parse_of_read hread hname] at hparse
    obtain ⟨found, hfound, hparse⟩ := bind_eq_ok hparse
    obtain ⟨given, hgiven, hfound⟩ := bind_eq_ok hfound
    obtain ⟨_, _, hparse⟩ := bind_eq_ok hparse
    obtain rfl := Except.ok.inj hparse
    have hcontains := o.contains_of_isGivenBy hgives hread hgiven
    have hget := get?_fromVariables hfound hcontains
    obtain ⟨v, hv⟩ := Option.isSome_iff_exists.1 hcontains
    cases o with
    | redisUrl => exact (congrArg Option.isSome hget).trans hcontains
    | keyPrefix => exact (congrArg Option.isSome hget).trans hcontains
    | waitBuffer =>
      obtain ⟨kind, hnames, haccepts⟩ := (fits_readGiven hgiven).found hv
      obtain ⟨rfl, rfl⟩ := names_waitBuffer hnames
      obtain ⟨n, hn⟩ := Option.isSome_iff_exists.1 haccepts
      refine ⟨n, found.contains "print-metrics", ?_⟩
      have hword : (found.get? "wait-buffer").bind wordLiteral? = some n := by
        rw [show found.get? "wait-buffer" = some v from hget.trans hv, Option.bind_some, hn]
      exact congrArg (Command.worker · _) hword

end TaskScheduler.CommandLine
