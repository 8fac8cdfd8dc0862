import WorkflowEngine.Ascending

/-!
# Arguments of a command

The arguments of a command are options, which begin with a dash, and positional arguments. A long
option has two dashes and its name, and its value may follow after an equals sign; short options are
single letters behind one dash, the last of which may have its value directly behind it. The value
of an option may also be the next argument, unless that looks like an option. After two dashes alone
every argument is positional.

Arguments take effect from left to right, and the first one that stops the command decides.
-/

namespace WorkflowEngine.CommandLine

/-- Why no command is carried out. -/
inductive Stop where
  /-- Help was asked for. -/
  | help
  /-- The version was asked for. -/
  | version
  /-- The arguments are no command. -/
  | misuse
  deriving DecidableEq, Repr, Inhabited

/-- What an option does to the arguments gathered so far. -/
inductive Effect (δ : Type) where
  /-- The option stands alone. -/
  | alone (act : δ → Except Stop δ)
  /-- The option takes a value. -/
  | valued (act : String → δ → Except Stop δ)

/-- An option of a command. -/
structure CommandOption (δ : Type) where
  /-- The name behind two dashes. -/
  long : String
  /-- The letter behind one dash. -/
  short : Option Char
  /-- What the option does. -/
  effect : Effect δ

/-- The arguments that a command takes. -/
structure Grammar (δ : Type) where
  /-- The options. -/
  options : List (CommandOption δ)
  /-- What a positional argument does. -/
  positional : String → δ → Except Stop δ

/-- The form of an argument. -/
inductive Form where
  /-- Two dashes alone. -/
  | escape
  /-- A long option, with what stands behind its equals sign. -/
  | long (name : String) (value : Option String)
  /-- Short options with what stands behind them. -/
  | short (letters : List Char)
  /-- Everything else, a dash alone included. -/
  | plain
  deriving DecidableEq, Repr, Inhabited

/-- The form of an argument. -/
def Form.of (arg : String) : Form :=
  match arg.toList with
  | ['-', '-'] => .escape
  | '-' :: '-' :: cs =>
    let (name, rest) := cs.span (· != '=')
    match rest with
    | [] => .long (String.ofList name) none
    | _ :: value => .long (String.ofList name) (some (String.ofList value))
  | '-' :: c :: cs => .short (c :: cs)
  | _ => .plain

namespace Grammar

variable {δ : Type} (g : Grammar δ)

/-- The effect of a long option. -/
def long? (name : String) : Option (Effect δ) :=
  (g.options.find? fun o => o.long == name).map CommandOption.effect

/-- The effect of a short option. -/
def short? (letter : Char) : Option (Effect δ) :=
  (g.options.find? fun o => o.short == some letter).map CommandOption.effect

/-- What remains to be done for an option: nothing, or what to do with a value that is still to
come. -/
abbrev Awaited (δ : Type) := δ × Option (String → δ → Except Stop δ)

/-- Applies a long option. -/
def applyLong (name : String) (value : Option String) (d : δ) : Except Stop (Awaited δ) :=
  match g.long? name, value with
  | some (.alone act), none => return (← act d, none)
  | some (.valued act), some v => return (← act v d, none)
  | some (.valued act), none => return (d, some act)
  | _, _ => .error .misuse

/-- Applies short options. -/
def applyShort : List Char → δ → Except Stop (Awaited δ)
  | [], d => return (d, none)
  | c :: rest, d =>
    match g.short? c with
    | some (.alone act) => do applyShort rest (← act d)
    | some (.valued act) =>
      match rest with
      | [] => return (d, some act)
      | '=' :: v => return (← act (String.ofList v) d, none)
      | v => return (← act (String.ofList v) d, none)
    | none => .error .misuse

/-- Applies options, and says what to do with a value that is still to come. -/
def applyForm (f : Form) (arg : String) (d : δ) : Except Stop (Awaited δ) :=
  match f with
  | .long name value => g.applyLong name value d
  | .short letters => g.applyShort letters d
  | .plain | .escape => return (← g.positional arg d, none)

/-- Applies arguments from left to right; `escaped` says whether all of them are positional. -/
def read (escaped : Bool) : List String → δ → Except Stop δ
  | [], d => .ok d
  | arg :: rest, d =>
    if escaped then do read true rest (← g.positional arg d)
    else
      match Form.of arg with
      | .escape => read true rest d
      | form =>
        match g.applyForm form arg d with
        | .error stop => .error stop
        | .ok (d, none) => read false rest d
        | .ok (d, some act) =>
          match rest with
          | [] => .error .misuse
          | value :: rest =>
            if Form.of value = .plain then do read false rest (← act value d)
            else .error .misuse

end Grammar

end WorkflowEngine.CommandLine
