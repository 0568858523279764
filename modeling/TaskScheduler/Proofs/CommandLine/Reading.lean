import TaskScheduler.CommandLine.Options

/-!
# Values found in a command line

Whatever arguments are read at a level, a value is found only under the name of an option or an
operand of this level, and it is a value of the kind that the option takes.  The invariant also
covers what is not yet stored: the argument whose value has not been checked, and the operands that
are still missing.
-/

namespace TaskScheduler.CommandLine

/-- A bind that gives `ok` has a first step that gave `ok`, and the rest was given what it gave. -/
theorem bind_eq_ok {ε α β : Type} {x : Except ε α} {f : α → Except ε β} {b : β}
    (h : x >>= f = .ok b) : ∃ a, x = .ok a ∧ f a = .ok b := by
  cases x with
  | error e => cases h
  | ok a => exact ⟨a, rfl, h⟩

/-- The names of a level with the kinds of their values: a flag and an operand have texts. -/
inductive Level.Names (level : Level) : String → ValueKind → Prop
  | value {o : OptionSpec} {kind : ValueKind} {negative : Bool} (ho : o ∈ level.options)
    (hkind : o.kind = .value kind negative) : Names level o.name kind
  | flag {o : OptionSpec} (ho : o ∈ level.options) (hkind : o.kind = .flag) :
    Names level o.name .text
  | operand {name : String} (h : name ∈ level.operands) : Names level name .text

namespace Reading

/-- What was read is what may be given at a level. -/
structure Fits (level : Level) (r : Reading) : Prop where
  /-- A value has a name of the level, and is of the kind that belongs to the name. -/
  found : ∀ {name value : String}, r.found.get? name = some value →
    ∃ kind : ValueKind, level.Names name kind ∧ kind.accepts value
  /-- A value that has not been checked will be stored under a name of the level. -/
  pending : ∀ {p : Pending}, r.pending = some p → level.Names p.name p.kind
  /-- What is missing are operands of the level. -/
  operands : ∀ {name : String}, name ∈ r.operands → name ∈ level.operands

variable {level : Level} {r r' : Reading}

/-- What is read at the start `Fits` every level. -/
theorem fits_start (level : Level) : Fits level { operands := level.operands } where
  found h := by cases h
  pending h := by cases h
  operands h := h

/-- `Reading.store` keeps `Fits`: a value that is stored has been checked. -/
theorem Fits.store (h : r.Fits level) {name value : String} {kind : ValueKind}
    (hname : level.Names name kind) (hstore : r.store name kind value = .ok r') :
    r'.Fits level := by
  unfold Reading.store at hstore
  split at hstore
  next => cases hstore
  next =>
    split at hstore
    next haccepts =>
      obtain rfl := Except.ok.inj hstore
      refine ⟨fun {name' value'} hget => ?_, h.pending, h.operands⟩
      rw [FiniteMap.get?_insert] at hget
      split at hget
      next heq =>
        obtain rfl := Option.some.inj hget
        exact ⟨kind, heq ▸ hname, haccepts⟩
      next => exact h.found hget
    next => cases hstore

/-- `Reading.settle` keeps `Fits`: the value that was pending has been accepted. -/
theorem Fits.settle (h : r.Fits level) (hsettle : r.settle = .ok r') : r'.Fits level := by
  unfold Reading.settle at hsettle
  cases hp : r.pending with
  | none =>
    rw [hp] at hsettle
    obtain rfl := Except.ok.inj hsettle
    exact h
  | some p =>
    rw [hp] at hsettle
    dsimp only at hsettle
    split at hsettle
    next => cases hsettle
    next =>
      have hrest : Fits level { r with pending := none } := ⟨h.found, nofun, h.operands⟩
      exact hrest.store (h.pending hp) hsettle

/-- `Reading.takeOption` keeps `Fits` for an option of the level. -/
theorem Fits.takeOption (h : r.Fits level) {o : OptionSpec} (ho : o ∈ level.options)
    {attached : Option String} (htake : r.takeOption o attached = .ok r') : r'.Fits level := by
  unfold Reading.takeOption at htake
  split at htake
  next kind negative v hkind =>
    obtain ⟨r₁, hsettle, hstore⟩ := bind_eq_ok htake
    exact (h.settle hsettle).store (.value ho hkind) hstore
  next kind negative hkind =>
    obtain ⟨r₁, hsettle, hr'⟩ := bind_eq_ok htake
    obtain rfl := Except.ok.inj hr'
    have h₁ := h.settle hsettle
    refine ⟨h₁.found, fun hp => ?_, h₁.operands⟩
    obtain rfl := Option.some.inj hp
    exact .value ho hkind
  next => cases htake
  next hkind =>
    obtain ⟨r₁, hsettle, hstore⟩ := bind_eq_ok htake
    exact (h.settle hsettle).store (.flag ho hkind) hstore
  next =>
    obtain ⟨_, _, hr'⟩ := bind_eq_ok htake
    cases hr'
  next =>
    obtain ⟨_, _, hr'⟩ := bind_eq_ok htake
    cases hr'

/-- `Reading.takeOperand` keeps `Fits`. -/
theorem Fits.takeOperand (h : r.Fits level) {value : String}
    (htake : r.takeOperand level value = .ok r') : r'.Fits level := by
  unfold Reading.takeOperand at htake
  split at htake
  next name rest hoperands =>
    obtain ⟨r₁, hsettle, hr'⟩ := bind_eq_ok htake
    obtain rfl := Except.ok.inj hr'
    refine ⟨(h.settle hsettle).found, fun hp => ?_, fun hmem => ?_⟩
    · obtain rfl := Option.some.inj hp
      exact .operand (h.operands (hoperands ▸ List.mem_cons_self))
    · exact h.operands (hoperands ▸ List.mem_cons_of_mem _ hmem)
  next =>
    split at htake
    next => cases htake
    next => split at htake <;> cases htake

/-- `takeShort` keeps `Fits`: the short options of one argument are taken one after the other. -/
theorem Fits.takeShort {cs : List Char} (h : r.Fits level)
    (htake : takeShort level r cs = .ok r') : r'.Fits level := by
  induction cs generalizing r with
  | nil =>
    obtain rfl := Except.ok.inj htake
    exact h
  | cons c rest ih =>
    unfold CommandLine.takeShort at htake
    split at htake
    next => cases htake
    next o ho =>
      have hmem : o ∈ level.options := List.mem_of_find?_eq_some ho
      split at htake
      next => exact h.takeOption hmem htake
      next =>
        obtain ⟨r₁, hfirst, hrest⟩ := bind_eq_ok htake
        exact ih (h.takeOption hmem hfirst) hrest

/-- An argument that is a value of what is pending, or an operand, keeps `Fits`. -/
theorem Fits.takePlain (h : r.Fits level) {arg : String}
    (htake : (match r.pending with
      | some p =>
        if p.value.isNone then Except.ok { r with pending := some { p with value := some arg } }
        else r.takeOperand level arg
      | none => r.takeOperand level arg) = .ok r') : r'.Fits level := by
  cases hp : r.pending with
  | none =>
    rw [hp] at htake
    exact h.takeOperand htake
  | some p =>
    rw [hp] at htake
    dsimp only at htake
    split at htake
    next =>
      have hnames := h.pending hp
      obtain rfl := Except.ok.inj htake
      refine ⟨h.found, fun hp' => ?_, h.operands⟩
      obtain rfl := Option.some.inj hp'
      exact hnames
    next => exact h.takeOperand htake

/-- `takeArgument` keeps `Fits`, whatever the argument is. -/
theorem Fits.takeArgument (h : r.Fits level) {arg : String}
    (htake : takeArgument level r arg = .ok r') : r'.Fits level := by
  unfold CommandLine.takeArgument at htake
  dsimp only at htake
  split at htake
  next =>
    obtain rfl := Except.ok.inj htake
    exact ⟨h.found, h.pending, h.operands⟩
  next =>
    split at htake
    next o ho => exact h.takeOption (List.mem_of_find?_eq_some ho) htake
    next => cases htake
  next =>
    split at htake
    next => exact h.takePlain htake
    next => exact h.takeShort htake
  next => exact h.takePlain htake

/-- `readLevel` keeps `Fits`, whatever the arguments are. -/
theorem Fits.readLevel {args : List String} {rest : Option (String × List String)}
    (h : r.Fits level) (hread : readLevel level r args = .ok (r', rest)) : r'.Fits level := by
  induction args generalizing r with
  | nil =>
    obtain ⟨rfl, -⟩ := Prod.mk.inj (Except.ok.inj hread)
    exact h
  | cons arg args ih =>
    unfold CommandLine.readLevel at hread
    split at hread
    next =>
      split at hread
      next r₁ htake => exact ih (h.takeOperand htake) hread
      next => cases hread
    next =>
      split at hread
      next =>
        obtain ⟨rfl, -⟩ := Prod.mk.inj (Except.ok.inj hread)
        exact h
      next =>
        split at hread
        next r₁ htake => exact ih (h.takeArgument htake) hread
        next => cases hread

end Reading

end TaskScheduler.CommandLine
