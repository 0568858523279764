import TaskScheduler.CommandLine.Run
import TaskScheduler.Proofs.CommandLine.GivenOptions

/-!
# Options over variables

When an option is given that overrides a variable, the value of the variable does not show in the
settings of the command.  But the environment is checked by itself before the options are applied,
so the variable still decides whether there are settings at all: they are there exactly as long as
its value would do without the option.
-/

namespace TaskScheduler.CommandLine

/-! ### Variables -/

namespace Override

/-- Whether a value of the variable would do without the option: an address and a prefix must not be
empty, and a capacity is a number other than zero. -/
def accepts : Override → String → Bool
  | .redisUrl, s => s ≠ ""
  | .keyPrefix, s => s ≠ ""
  | .waitBuffer, s => (wordLiteral? s).any fun n => n ≠ 0

/-- The variable would do without the option, or is not set to a text. -/
def Admits (o : Override) (env : Environment) : Prop :=
  ∀ s, env.text? o.variableName = some s → o.accepts s

/-- A variable of another name has the same text in environments that `AgreeOff`. -/
theorem AgreeOff.text? {o : Override} {env env' : Environment} (hagree : o.AgreeOff env env')
    {name : String} (hname : name ≠ o.variableName) : env'.text? name = env.text? name :=
  congrArg (Option.bind · Bytes.toString?) (hagree name hname)

/-- A variable of another name has the same number under `Environment.number?`. -/
theorem AgreeOff.number? {α : Type} {o : Override} {env env' : Environment}
    (hagree : o.AgreeOff env env') (read : String → Option α) {name : String}
    (hname : name ≠ o.variableName) : env'.number? read name = env.number? read name := by
  unfold Environment.number?
  rw [hagree.text? hname]

end Override

/-! ### The settings of a command -/

/-- The settings that a command ends up with. -/
structure Settings where
  /-- The settings of the queue. -/
  redis : RedisConfig
  /-- The settings of the scheduler, which only a worker reads from the environment. -/
  scheduler : Option SchedulerConfig
  deriving DecidableEq, Repr

/-- The settings of a command that only needs the queue. -/
def clientSettings (h : Host) (i : Invocation) : Except Failure Settings := do
  let redis ← (redisConfig h i).mapError .config
  return ⟨redis, none⟩

/-- The settings of an invocation, or why there are none. -/
def Invocation.settings (h : Host) (i : Invocation) : Except Failure Settings :=
  match i.command with
  | .worker waitBuffer _ => do
    let scheduler ← (workerConfig h waitBuffer).mapError .config
    let redis ← (redisConfig h i).mapError .config
    return ⟨redis, some scheduler⟩
  | .push _ data _ _ =>
    if (Json.parse? data).isNone then .error .invalidData else clientSettings h i
  | .cancel _ | .result _ => clientSettings h i

/-- The settings that a command line ends up with, or why there are none. -/
def settings (h : Host) (args : List String) : Except (UsageError ⊕ Failure) Settings := do
  let i ← (Invocation.parse h.env args).mapError .inl
  (i.settings h).mapError .inr

/-- What a command line comes to: what is printed, or why it failed, and the store afterwards. -/
def perform (h : Host) (args : List String) (store : Redis.Store) :
    Except UsageError (Except Failure (List String) × Redis.Store) :=
  (Invocation.parse h.env args).map fun i => i.run h store

/-! ### Settings of the queue -/

/-- `redisConfig` checks the settings of the queue twice, once as the environment has them. -/
theorem redisConfig_eq (h : Host) (i : Invocation) : redisConfig h i = do
    let secs ← h.env.number? wordLiteral? "TASKFLOW_RESULT_TTL_SECS"
    let url := (h.env.text? "TASKFLOW_REDIS_URL").getD RedisConfig.default.url
    let keyPrefix := (h.env.text? "TASKFLOW_KEY_PREFIX").getD RedisConfig.default.keyPrefix
    let resultTtl := (secs.map Duration.ofSecs).getD RedisConfig.default.resultTtl
    RedisConfig.validate ⟨url, keyPrefix, resultTtl⟩
    let c : RedisConfig := ⟨i.redisUrl.getD url, i.keyPrefix.getD keyPrefix, resultTtl⟩
    c.validate
    return c := by
  unfold redisConfig RedisConfig.ofEnvironment
  simp only [bind_assoc, pure_bind]

/-- Settings of the queue that `validate` accepts have an address and a prefix. -/
theorem nonempty_of_validate {c : RedisConfig} (h : c.validate = .ok ()) :
    c.url ≠ "" ∧ c.keyPrefix ≠ "" := by
  unfold RedisConfig.validate at h
  grind

/-- `RedisConfig.validate` asks of the address only that it is not empty. -/
theorem validate_url {url url' : String} (hurl : url ≠ "") (hurl' : url' ≠ "") (keyPrefix : String)
    (resultTtl : Duration) : RedisConfig.validate ⟨url', keyPrefix, resultTtl⟩ =
      RedisConfig.validate ⟨url, keyPrefix, resultTtl⟩ := by
  unfold RedisConfig.validate
  rw [if_neg hurl, if_neg hurl']

/-- `RedisConfig.validate` asks of the prefix only that it is not empty. -/
theorem validate_keyPrefix {keyPrefix keyPrefix' : String} (hkey : keyPrefix ≠ "")
    (hkey' : keyPrefix' ≠ "") (url : String) (resultTtl : Duration) :
    RedisConfig.validate ⟨url, keyPrefix', resultTtl⟩ =
      RedisConfig.validate ⟨url, keyPrefix, resultTtl⟩ := by
  unfold RedisConfig.validate
  rw [if_neg hkey, if_neg hkey']

/-- A variable that would do, or the default in its place, is not empty. -/
theorem getD_ne_empty {text : Option String} {default : String} (hdefault : default ≠ "")
    (h : ∀ s, text = some s → decide (s ≠ "") = true) : text.getD default ≠ "" := by
  cases text with
  | none => exact hdefault
  | some s => exact of_decide_eq_true (h s rfl)

/-- `redisConfig` succeeds only if the variables would do without the options (`Admits`). -/
theorem admits_of_redisConfig {h : Host} {i : Invocation} {c : RedisConfig}
    (hc : redisConfig h i = .ok c) :
    Override.redisUrl.Admits h.env ∧ Override.keyPrefix.Admits h.env := by
  rw [redisConfig_eq] at hc
  obtain ⟨secs, -, hc⟩ := bind_eq_ok hc
  obtain ⟨⟨⟩, hvalid, -⟩ := bind_eq_ok hc
  obtain ⟨hurl, hkey⟩ := nonempty_of_validate hvalid
  refine ⟨fun s hs => ?_, fun s hs => ?_⟩
  · have hget : h.env.text? "TASKFLOW_REDIS_URL" = some s := hs
    rw [hget] at hurl
    exact decide_eq_true hurl
  · have hget : h.env.text? "TASKFLOW_KEY_PREFIX" = some s := hs
    rw [hget] at hkey
    exact decide_eq_true hkey

variable {o : Override} {h : Host} {env' : Environment} {i : Invocation}

/-- The variable of an option that is `HeldBy` the invocation does not show in `redisConfig`, if it
would do in both environments. -/
theorem redisConfig_congr (hagree : o.AgreeOff h.env env') (hheld : o.HeldBy i)
    (hadmits : o.Admits h.env) (hadmits' : o.Admits env') :
    redisConfig { h with env := env' } i = redisConfig h i := by
  rw [redisConfig_eq, redisConfig_eq]
  cases o with
  | redisUrl =>
    obtain ⟨url, hurl⟩ := Option.isSome_iff_exists.1 hheld
    have hdefault : RedisConfig.default.url ≠ "" := by decide
    have hother : env'.text? "TASKFLOW_KEY_PREFIX" = h.env.text? "TASKFLOW_KEY_PREFIX" :=
      hagree.text? (by decide)
    rw [hagree.number? _ (by decide), hother, hurl]
    refine bind_congr fun secs => ?_
    dsimp only
    have hold : (h.env.text? "TASKFLOW_REDIS_URL").getD RedisConfig.default.url ≠ "" :=
      getD_ne_empty hdefault hadmits
    have hnew : (env'.text? "TASKFLOW_REDIS_URL").getD RedisConfig.default.url ≠ "" :=
      getD_ne_empty hdefault hadmits'
    rw [validate_url hold hnew]
    rfl
  | keyPrefix =>
    obtain ⟨keyPrefix, hkey⟩ := Option.isSome_iff_exists.1 hheld
    have hdefault : RedisConfig.default.keyPrefix ≠ "" := by decide
    have hother : env'.text? "TASKFLOW_REDIS_URL" = h.env.text? "TASKFLOW_REDIS_URL" :=
      hagree.text? (by decide)
    rw [hagree.number? _ (by decide), hother, hkey]
    refine bind_congr fun secs => ?_
    dsimp only
    have hold : (h.env.text? "TASKFLOW_KEY_PREFIX").getD RedisConfig.default.keyPrefix ≠ "" :=
      getD_ne_empty hdefault hadmits
    have hnew : (env'.text? "TASKFLOW_KEY_PREFIX").getD RedisConfig.default.keyPrefix ≠ "" :=
      getD_ne_empty hdefault hadmits'
    rw [validate_keyPrefix hold hnew]
    rfl
  | waitBuffer =>
    rw [hagree.number? _ (by decide), hagree.text? (by decide), hagree.text? (by decide)]

/-! ### Settings of the scheduler -/

/-- `Override.waitBuffer` `Admits` an environment where its variable is a number other than zero, or
not set. -/
theorem admits_waitBuffer_iff {env : Environment} : Override.waitBuffer.Admits env ↔
    ∃ n, env.number? wordLiteral? "TASKFLOW_WAIT_BUFFER" = .ok n ∧ n ≠ some 0 := by
  unfold Override.Admits Environment.number?
  change (∀ s, env.text? "TASKFLOW_WAIT_BUFFER" = some s →
    ((wordLiteral? s).any fun n => n ≠ 0) = true) ↔ _
  cases env.text? "TASKFLOW_WAIT_BUFFER" with
  | none => simp
  | some s => cases hs : wordLiteral? s <;> simp [hs]

/-- `SchedulerConfig.validate` asks of the capacity only that it is not zero. -/
theorem validate_waitBuffer {n n' : Nat} (hn : n ≠ 0) (hn' : n' ≠ 0) (poll drain log : Duration)
    (priority : Int64) : SchedulerConfig.validate ⟨n', poll, drain, log, priority⟩ =
      SchedulerConfig.validate ⟨n, poll, drain, log, priority⟩ := by
  unfold SchedulerConfig.validate
  rw [if_neg hn, if_neg hn']

/-- A number that would do, or the default in its place, is not zero. -/
theorem capacity_ne_zero {n : Option UInt64} (hn : n ≠ some 0) :
    (n.map UInt64.toNat).getD SchedulerConfig.default.waitBuffer ≠ 0 := by
  cases n with
  | none => decide
  | some n => exact fun hzero => hn (congrArg some (UInt64.toNat_inj.1 hzero))

/-- `SchedulerConfig.ofEnvironment` reads one variable after the other and checks the settings at
the end. -/
theorem schedulerConfig_eq (env : Environment) : SchedulerConfig.ofEnvironment env = do
    let n ← env.number? wordLiteral? "TASKFLOW_WAIT_BUFFER"
    let poll ← env.number? wordLiteral? "TASKFLOW_POLL_INTERVAL_MS"
    let drain ← env.number? wordLiteral? "TASKFLOW_DRAIN_POLL_MS"
    let log ← env.number? wordLiteral? "TASKFLOW_DRAIN_LOG_SECS"
    let priority ← env.number? intLiteral? "TASKFLOW_DEFAULT_PRIORITY"
    let c : SchedulerConfig :=
      { waitBuffer := (n.map UInt64.toNat).getD SchedulerConfig.default.waitBuffer
        pollInterval := (poll.map Duration.ofMillis).getD SchedulerConfig.default.pollInterval
        drainPollInterval :=
          (drain.map Duration.ofMillis).getD SchedulerConfig.default.drainPollInterval
        drainLogInterval := (log.map Duration.ofSecs).getD SchedulerConfig.default.drainLogInterval
        defaultPriority := priority.getD SchedulerConfig.default.defaultPriority }
    c.validate
    return c := by
  unfold SchedulerConfig.ofEnvironment
  refine bind_congr fun n => bind_congr fun poll => bind_congr fun drain => bind_congr fun log =>
    bind_congr fun priority => ?_
  cases n <;> cases poll <;> cases drain <;> cases log <;> cases priority <;> rfl

/-- `workerConfig` succeeds only if the variable of the capacity would do, also for a worker with a
capacity of its own. -/
theorem admits_of_workerConfig {waitBuffer : Option UInt64} {c : SchedulerConfig}
    (hc : workerConfig h waitBuffer = .ok c) : Override.waitBuffer.Admits h.env := by
  obtain ⟨c₀, henv, -⟩ := bind_eq_ok hc
  rw [schedulerConfig_eq] at henv
  obtain ⟨n, hn, henv⟩ := bind_eq_ok henv
  obtain ⟨_, -, henv⟩ := bind_eq_ok henv
  obtain ⟨_, -, henv⟩ := bind_eq_ok henv
  obtain ⟨_, -, henv⟩ := bind_eq_ok henv
  obtain ⟨_, -, henv⟩ := bind_eq_ok henv
  obtain ⟨⟨⟩, hvalid, -⟩ := bind_eq_ok henv
  refine admits_waitBuffer_iff.2 ⟨n, hn, fun hzero => ?_⟩
  subst hzero
  cases hvalid

/-- The variable does not show in `workerConfig`, where the worker has a capacity of its own if that
is the option that was given. -/
theorem workerConfig_congr (hagree : o.AgreeOff h.env env') (hadmits : o.Admits h.env)
    (hadmits' : o.Admits env') {waitBuffer : Option UInt64}
    (hgiven : o = .waitBuffer → waitBuffer.isSome) :
    workerConfig { h with env := env' } waitBuffer = workerConfig h waitBuffer := by
  have hothers : ∀ name ∈ ["TASKFLOW_POLL_INTERVAL_MS", "TASKFLOW_DRAIN_POLL_MS",
      "TASKFLOW_DRAIN_LOG_SECS", "TASKFLOW_DEFAULT_PRIORITY"], name ≠ o.variableName := by
    cases o <;> decide
  have hpoll := hagree.number? wordLiteral? (hothers "TASKFLOW_POLL_INTERVAL_MS" (by decide))
  have hdrain := hagree.number? wordLiteral? (hothers "TASKFLOW_DRAIN_POLL_MS" (by decide))
  have hlog := hagree.number? wordLiteral? (hothers "TASKFLOW_DRAIN_LOG_SECS" (by decide))
  have hpriority := hagree.number? intLiteral? (hothers "TASKFLOW_DEFAULT_PRIORITY" (by decide))
  unfold workerConfig
  dsimp only
  rw [schedulerConfig_eq, schedulerConfig_eq, hpoll, hdrain, hlog, hpriority]
  cases o with
  | redisUrl => rw [hagree.number? _ (by decide)]
  | keyPrefix => rw [hagree.number? _ (by decide)]
  | waitBuffer =>
    obtain ⟨capacity, rfl⟩ := Option.isSome_iff_exists.1 (hgiven rfl)
    obtain ⟨n, hn, hpos⟩ := admits_waitBuffer_iff.1 hadmits
    obtain ⟨n', hn', hpos'⟩ := admits_waitBuffer_iff.1 hadmits'
    have hvalue : h.env.number? wordLiteral? "TASKFLOW_WAIT_BUFFER" = pure n := hn
    have hvalue' : env'.number? wordLiteral? "TASKFLOW_WAIT_BUFFER" = pure n' := hn'
    rw [hvalue, hvalue']
    simp only [pure_bind, bind_assoc]
    -- the first check takes both capacities, and the second one sees neither
    refine bind_congr fun poll => bind_congr fun drain => bind_congr fun log =>
      bind_congr fun priority => ?_
    rw [validate_waitBuffer (capacity_ne_zero hpos) (capacity_ne_zero hpos')]
    rfl

/-! ### The commands -/

/-- A command has the same `settings` and does the same where `redisConfig` and `workerConfig` give
the same. -/
theorem settings_run_congr {h' : Host} (hreachable : h'.reachable = h.reachable)
    (hwall : h'.wall = h.wall) (hredis : redisConfig h' i = redisConfig h i)
    (hworker : ∀ waitBuffer printMetrics, i.command = .worker waitBuffer printMetrics →
      workerConfig h' waitBuffer = workerConfig h waitBuffer) :
    i.settings h' = i.settings h ∧ ∀ store, i.run h' store = i.run h store := by
  have hconnect : ∀ store, connect h' i store = connect h i store := by
    intro store
    unfold connect
    rw [hredis, hreachable]
  have hclient : clientSettings h' i = clientSettings h i := by
    unfold clientSettings
    rw [hredis]
  unfold Invocation.settings Invocation.run
  cases hcommand : i.command with
  | worker waitBuffer printMetrics =>
    dsimp only
    rw [hworker _ _ hcommand, hredis]
    refine ⟨rfl, fun store => ?_⟩
    unfold runWorker
    rw [hworker _ _ hcommand, hconnect, hwall]
  | push taskType data timeoutMs priority =>
    dsimp only
    rw [hclient]
    refine ⟨rfl, fun store => ?_⟩
    unfold runPush
    rw [hconnect]
  | cancel id =>
    refine ⟨hclient, fun store => ?_⟩
    dsimp only
    unfold runCancel
    rw [hconnect, hwall]
  | result id =>
    refine ⟨hclient, fun store => ?_⟩
    dsimp only
    unfold runResult
    rw [hconnect, hwall]

/-- A configuration that is there, whatever its errors are turned into. -/
theorem eq_ok_of_mapError {α β γ : Type} {x : Except α γ} {f : α → β} {c : γ}
    (h : x.mapError f = .ok c) : x = .ok c := by
  cases x with
  | error e => cases h
  | ok c' => exact congrArg Except.ok (Except.ok.inj h)

/-- A command with `settings` has a configuration of the queue, and a worker one of the
scheduler. -/
theorem configs_of_settings {s : Settings} (hs : i.settings h = .ok s) :
    (∃ c, redisConfig h i = .ok c) ∧ ∀ waitBuffer printMetrics,
      i.command = .worker waitBuffer printMetrics → ∃ c, workerConfig h waitBuffer = .ok c := by
  have hclient : clientSettings h i = .ok s → ∃ c, redisConfig h i = .ok c := fun hclient =>
    have ⟨c, hc, _⟩ := bind_eq_ok hclient
    ⟨c, eq_ok_of_mapError hc⟩
  unfold Invocation.settings at hs
  cases hcommand : i.command with
  | worker waitBuffer printMetrics =>
    rw [hcommand] at hs
    obtain ⟨scheduler, hscheduler, hs⟩ := bind_eq_ok hs
    obtain ⟨redis, hredis, -⟩ := bind_eq_ok hs
    refine ⟨⟨redis, eq_ok_of_mapError hredis⟩, fun _ _ heq => ?_⟩
    obtain ⟨rfl, -⟩ := Command.worker.inj heq
    exact ⟨scheduler, eq_ok_of_mapError hscheduler⟩
  | push taskType data timeoutMs priority =>
    rw [hcommand] at hs
    dsimp only at hs
    split at hs
    next => cases hs
    next => exact ⟨hclient hs, nofun⟩
  | cancel id =>
    rw [hcommand] at hs
    exact ⟨hclient hs, nofun⟩
  | result id =>
    rw [hcommand] at hs
    exact ⟨hclient hs, nofun⟩

/-- There are `settings` only if the variable of the option would do. -/
theorem admits_of_settings (hheld : o.HeldBy i) {s : Settings} (hs : i.settings h = .ok s) :
    o.Admits h.env := by
  obtain ⟨⟨c, hredis⟩, hworker⟩ := configs_of_settings hs
  cases o with
  | redisUrl => exact (admits_of_redisConfig hredis).1
  | keyPrefix => exact (admits_of_redisConfig hredis).2
  | waitBuffer =>
    obtain ⟨n, printMetrics, hcommand⟩ := hheld
    obtain ⟨c', hc'⟩ := hworker _ _ hcommand
    exact admits_of_workerConfig hc'

/-- In two environments in which the variable would do, an invocation by which the option is
`HeldBy` has the same settings and does the same. -/
theorem Override.HeldBy.congr (hheld : o.HeldBy i) (hagree : o.AgreeOff h.env env')
    (hadmits : o.Admits h.env) (hadmits' : o.Admits env') :
    i.settings { h with env := env' } = i.settings h ∧
      ∀ store, i.run { h with env := env' } store = i.run h store := by
  refine settings_run_congr rfl rfl (redisConfig_congr hagree hheld hadmits hadmits') ?_
  intro waitBuffer printMetrics hcommand
  refine workerConfig_congr hagree hadmits hadmits' fun ho => ?_
  subst ho
  obtain ⟨n, _, hheld⟩ := hheld
  obtain ⟨rfl, -⟩ := Command.worker.inj (hcommand.symm.trans hheld)
  rfl

/-- A command line that gives an option of the three, in two environments that differ at most in
the variable of the option.  The command line is read alike.  If the variable would do without the
option in both environments, the command ends up with the same settings, or with the same error,
and does the same to every store.  But where there are settings in the one environment, they are
there in the other one exactly if its variable, overridden as it is, would do as well. -/
theorem settings_overridden {args : List String} (hgives : o.isGivenBy args)
    (hagree : o.AgreeOff h.env env') :
    Invocation.parse env' args = Invocation.parse h.env args ∧
    (o.Admits h.env → o.Admits env' → settings { h with env := env' } args = settings h args ∧
      ∀ store, perform { h with env := env' } args store = perform h args store) ∧
    ∀ s, settings h args = .ok s →
      (settings { h with env := env' } args = .ok s ↔ o.Admits env') := by
  have hparse := parse_congr hagree hgives
  have hsame : o.Admits h.env → o.Admits env' →
      settings { h with env := env' } args = settings h args ∧
        ∀ store, perform { h with env := env' } args store = perform h args store := by
    intro hadmits hadmits'
    unfold settings perform
    dsimp only
    rw [hparse]
    cases hi : Invocation.parse h.env args with
    | error e => exact ⟨rfl, fun _ => rfl⟩
    | ok i =>
      obtain ⟨hsettings, hrun⟩ := (heldBy_of_parse hgives hi).congr hagree hadmits hadmits'
      refine ⟨?_, fun store => congrArg Except.ok (hrun store)⟩
      change (i.settings _).mapError Sum.inr = (i.settings h).mapError Sum.inr
      rw [hsettings]
  have hadmits : ∀ {h : Host} {s}, settings h args = .ok s → o.Admits h.env := by
    intro h s hs
    obtain ⟨i, hi, hs⟩ := bind_eq_ok hs
    exact admits_of_settings (heldBy_of_parse hgives (eq_ok_of_mapError hi)) (eq_ok_of_mapError hs)
  refine ⟨hparse, hsame, fun s hs => ⟨fun hs' => hadmits hs', fun hadmits' => ?_⟩⟩
  rw [(hsame (hadmits hs) hadmits').1, hs]

/-- A worker with a capacity of its own takes no notice of the number in `TASKFLOW_WAIT_BUFFER`. -/
theorem settings_overridden_capacity :
    Override.waitBuffer.isGivenBy ["worker", "--wait-buffer", "4"] ∧
    settings ⟨.insert .empty "TASKFLOW_WAIT_BUFFER" (.ofString "7"), fun _ => true, .epoch⟩
        ["worker", "--wait-buffer", "4"] =
      .ok ⟨.default, some { SchedulerConfig.default with waitBuffer := 4 }⟩ := by
  have hgives : Override.waitBuffer.isGivenBy ["worker", "--wait-buffer", "4"] := by
    decide +kernel
  have hagree : Override.waitBuffer.AgreeOff .empty
      (.insert .empty "TASKFLOW_WAIT_BUFFER" (.ofString "7")) := fun _ hname =>
    FiniteMap.get?_insert_of_ne _ _ hname
  have hadmits : Override.waitBuffer.Admits
      (.insert .empty "TASKFLOW_WAIT_BUFFER" (.ofString "7")) :=
    admits_waitBuffer_iff.2 ⟨some 7, rfl, by decide⟩
  have hoverridden := settings_overridden (h := ⟨.empty, fun _ => true, .epoch⟩) hgives hagree
  exact ⟨hgives, (hoverridden.2.2 _ rfl).2 hadmits⟩

/-- A worker with a capacity of its own is refused over the zero in `TASKFLOW_WAIT_BUFFER`. -/
theorem exists_not_overridden : ∃ (h : Host) (env' : Environment) (args : List String),
    Override.waitBuffer.isGivenBy args ∧ Override.waitBuffer.AgreeOff h.env env' ∧
      settings h args = .ok ⟨.default, some { SchedulerConfig.default with waitBuffer := 4 }⟩ ∧
      settings { h with env := env' } args =
        .error (.inr (.config (.validationFailed "wait_buffer must be greater than 0"))) := by
  refine ⟨⟨.empty, fun _ => true, .epoch⟩, .insert .empty "TASKFLOW_WAIT_BUFFER" (.ofString "0"),
    ["worker", "--wait-buffer", "4"], by decide +kernel, fun name hname => ?_, rfl, rfl⟩
  exact FiniteMap.get?_insert_of_ne _ _ hname

end TaskScheduler.CommandLine
