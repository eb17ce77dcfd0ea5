import ShapeSchema.Runner.Report

/-!
# The command line

`-v` and `--verbose` say how much is logged, `--config` names the settings, and all other arguments
are paths and patterns of fixtures. Behind `--` everything is one of those.
-/

namespace ShapeSchema.Runner

/-- The fixtures that are run if none are named. -/
def defaultPattern : String := "dev-test-runner/fixtures/*.json"

namespace Options

/-- What follows `lead` in the text, if it starts with it. -/
def behind? : List Char → List Char → Option String
  | [], rest => some (String.ofList rest)
  | c :: lead, d :: rest => if c = d then behind? lead rest else none
  | _ :: _, [] => none

/-- How often a short flag says `v`; `none` if it is another flag. -/
def countVerbose (argument : String) : Option Nat :=
  match argument.toList with
  | '-' :: 'v' :: rest => if rest.all (· = 'v') then some (rest.length + 1) else none
  | _ => none

/-- Whether an argument is the name of a flag. -/
def isFlag (argument : String) : Bool :=
  match argument.toList with
  | '-' :: _ :: _ => true
  | _ => false

/-- Read the arguments one after the other. -/
def parse : List String → Options → Except RunError Options
  | [], options => .ok options
  | argument :: rest, options =>
    if argument = "--" then .ok { options with fixtures := options.fixtures ++ rest }
    else if argument = "--verbose" then
      parse rest { options with verbosity := options.verbosity + 1 }
    else if argument = "--config" then
      match rest, options.config with
      | path :: rest, none => parse rest { options with config := some path }
      | _, _ => .error (.usage argument)
    else
      match behind? "--config=".toList argument.toList, countVerbose argument with
      | some path, _ =>
        if options.config.isSome then .error (.usage argument)
        else parse rest { options with config := some path }
      | none, some n => parse rest { options with verbosity := options.verbosity + n }
      | none, none =>
        if isFlag argument then .error (.usage argument)
        else parse rest { options with fixtures := options.fixtures ++ [argument] }

/-- The options of a command line. -/
def ofArguments (arguments : List String) : Except RunError Options := do
  let options ← parse arguments ⟨[], none, 0⟩
  .ok (if options.fixtures.isEmpty then { options with fixtures := [defaultPattern] } else options)

end Options

/-- The whole program, from the arguments and the files of its directory to its exit. -/
def program (files : Files) (arguments : List String) : Exit :=
  match Options.ofArguments arguments with
  | .error e => exitOf 0 (.error e)
  | .ok options => exitOf options.verbosity (run files options)

end ShapeSchema.Runner
