/-!
Options on a command line. An option is written `--name`; its value follows as the next argument or
behind an equals sign. An argument that begins with a dash is never taken as a value, except the
dash alone. Arguments are looked at one by one, so that a request for help counts only if nothing
before it is wrong.
-/
namespace AgentPaths.Cli

inductive Arity where
  | flag
  | one
  | optional
deriving DecidableEq

structure OptionSpec where
  name : String
  arity : Arity
  /-- What stands for the value in the help. -/
  placeholder : String
  help : String
  /-- The value if the option is not given, for the help. -/
  default : Option String

inductive Stop where
  | help
  | misuse
deriving DecidableEq

/-- Whether an argument asks for the meaning of an option rather than being a value. -/
def looksLikeOption (arg : List Char) : Bool := arg.head? == some '-' && arg.length != 1

/-- The name of a long option and the value behind the equals sign. -/
def splitOption? (arg : List Char) : Option (String × Option (List Char)) :=
  match arg with
  | '-' :: '-' :: rest =>
    let name := String.ofList (rest.takeWhile (· != '='))
    match rest.dropWhile (· != '=') with
    | [] => some (name, none)
    | _ :: value => some (name, some value)
  | _ => none

/-- Whether an argument asks for help; the letters behind a short option that prints are not
read. -/
def asksForHelp (arg : List Char) : Bool :=
  arg == "--help".toList || arg.take 2 == ['-', 'h']

/-- Reads the options of a command into `a`. `put` takes an option with its value, if it has one,
unless the option cannot have that value; `given` are the options so far, each of which may be given
once. -/
def parseOptions (specs : List OptionSpec) (put : α → String → Option (List Char) → Option α)
    (given : List String) (a : α) : List (List Char) → Except Stop α
  | [] => .ok a
  | arg :: rest =>
    if arg = ['-', '-'] then if rest = [] then .ok a else .error .misuse
    else if asksForHelp arg then .error .help
    else match splitOption? arg with
      | none => .error .misuse
      | some (name, attached) =>
        match specs.find? (·.name == name) with
        | none => .error .misuse
        | some spec =>
          if name ∈ given then .error .misuse
          else
            let take (value : Option (List Char)) (rest' : List (List Char))
                (_h : rest'.length ≤ rest.length) : Except Stop α :=
              match put a name value with
              | none => .error .misuse
              | some a => parseOptions specs put (name :: given) a rest'
            match spec.arity, attached with
            | .flag, some _ => .error .misuse
            | .flag, none => take none rest (Nat.le_refl _)
            | _, some value => take (some value) rest (Nat.le_refl _)
            | arity, none =>
              match h : rest with
              | value :: rest' =>
                if !looksLikeOption value then take (some value) rest' (by simp [h])
                else if arity = .optional then take none rest (by simp [h])
                else .error .misuse
              | [] => if arity = .optional then take none [] (by simp) else .error .misuse
termination_by args => args.length
decreasing_by
  simp only [List.length_cons]
  omega

end AgentPaths.Cli
