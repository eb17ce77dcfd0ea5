import ShapeSchema.Runner.Fixture
import ShapeSchema.Runner.Pattern

/-!
# Running fixtures

A run resolves the given patterns to paths, checks the fixture at each path and reports one verdict
for each, in the order of the paths. Everything that is printed is text of the run's report; nothing
here touches a file.
-/

namespace ShapeSchema.Runner

/-- What a run is asked to do. -/
structure Options where
  /-- Paths and patterns of fixtures. -/
  fixtures : List String
  /-- The path of the settings. -/
  config : Option String := none
  /-- How much is logged. -/
  verbosity : Nat := 0

/-- Why there is no run. -/
inductive RunError where
  | unreadable (path : String) (error : FileError)
  | badConfig (path : String) (error : LoadError)
  | badPattern (error : PatternError)
  | noMatch (pattern : String)
  | noFixtures
  /-- The command line does not make sense. -/
  | usage (argument : String)

/-- The message about a path that could not be read. -/
def unreadableText (path : String) (e : FileError) : String :=
  "reading " ++ path ++ ": " ++ e.message

/-- The message of a load error, followed by its cause. -/
def chainText (e : LoadError) : String := e.message ++ ": " ++ e.fault.message

/-- The message of a run error. -/
def RunError.message : RunError → String
  | unreadable path e => unreadableText path e
  | badConfig path e => "parsing " ++ path ++ ": " ++ chainText e
  | badPattern e => e.message
  | noMatch pattern => "glob pattern matched no files: " ++ pattern
  | noFixtures => "no fixtures given"
  | usage argument => "unexpected argument '" ++ argument ++ "' found"

/-- The judgement on one path. -/
inductive Verdict where
  | pass
  | mismatch (expected actual : Outcome)
  | unreadable (error : FileError)
  | malformed (error : LoadError)

namespace Verdict

/-- Whether the fixture passed. -/
def passed : Verdict → Bool
  | pass => true
  | _ => false

/-- The report on a path. -/
def text (path : String) : Verdict → String
  | pass => "✅ " ++ path ++ "\n"
  | mismatch expected actual =>
    "❌ " ++ path ++ "\n  expected: " ++ expected.text ++ "\n  actual:   " ++ actual.text ++ "\n"
  | unreadable e => "⚠️ " ++ path ++ ": " ++ unreadableText path e ++ "\n"
  | malformed e => "⚠️ " ++ path ++ ": " ++ chainText e ++ "\n"

end Verdict

/-- A checked path: what happened on the way, and the verdict. -/
structure Checked where
  path : String
  events : List Event
  verdict : Verdict

/-- Check the fixture at a path. -/
def check (files : Files) (config : Config) (path : String) : Checked :=
  match files.readText path with
  | .error e => ⟨path, [], .unreadable e⟩
  | .ok text =>
    match load readFixture text with
    | .error e => ⟨path, [], .malformed e⟩
    | .ok fixture =>
      let conversion := fixture.struct.convert config
      let actual : Outcome := conversion.result.mapError ConversionError.message
      ⟨path, conversion.events,
        if Outcome.same fixture.expected actual then .pass
        else .mismatch fixture.expected actual⟩

/-- The paths of one argument: those that match it if it is a pattern, or the path that it is. -/
def resolveOne (files : Files) (text : String) : Except RunError (List String) :=
  if Pattern.isPattern text then
    match Pattern.ofText text with
    | .error e => .error (.badPattern e)
    | .ok pattern =>
      match files.expand pattern with
      | [] => .error (.noMatch text)
      | paths => .ok paths
  else .ok [text]

/-- The paths of all arguments, in the order of their components. A path that is given twice stays
twice. -/
def resolveAll (files : Files) (arguments : List String) : Except RunError (List String) := do
  .ok ((← arguments.mapM (resolveOne files)).flatten.mergeSort pathLe)

/-- The settings of a run. -/
def readSettings (files : Files) : Option String → Except RunError Config
  | none => .ok {}
  | some path =>
    match files.read path with
    | .error e => .error (.unreadable path e)
    | .ok bytes => (loadBytes Source.readConfig bytes).mapError (.badConfig path)

/-- A finished run. -/
structure Report where
  config : Config
  checked : List Checked

/-- Run the fixtures. -/
def run (files : Files) (options : Options) : Except RunError Report := do
  let config ← readSettings files options.config
  match ← resolveAll files options.fixtures with
  | [] => .error .noFixtures
  | paths => .ok ⟨config, paths.map (check files config)⟩

/-- Whether events of this level are logged. -/
def logged (verbosity : Nat) : Level → Bool
  | .warn => true
  | .trace => 2 ≤ verbosity
  | _ => 1 ≤ verbosity

/-- A line of the log. -/
def logLine (level : Level) (message : String) (data : List (String × Datum)) : String :=
  level.text ++ " " ++ message ++
    String.join (data.map fun (key, datum) =>
      " " ++ key ++ "=" ++ (if datum.quoted then Text.quoted datum.text else datum.text)) ++ "\n"

namespace Report

/-- How many fixtures did not pass. -/
def failures (r : Report) : Nat := (r.checked.filter fun c => !c.verdict.passed).length

/-- The log, as far as it is wanted. -/
def log (verbosity : Nat) (r : Report) : String :=
  let start := logLine .info "running fixtures"
    [("fixtures", ⟨Nat.repr r.checked.length, false⟩),
      ("max_depth", ⟨Nat.repr r.config.maxDepth, false⟩)]
  let events := (r.checked.flatMap Checked.events).filter fun e => logged verbosity e.level
  (if logged verbosity .info then start else "") ++
    String.join (events.map fun e => logLine e.level e.message e.data)

/-- The verdicts, one after the other, and their counts. -/
def text (r : Report) : String :=
  String.join (r.checked.map fun c => c.verdict.text c.path) ++
    Nat.repr (r.checked.length - r.failures) ++ " passed, " ++ Nat.repr r.failures ++ " failed\n"

/-- The exit status: whether any fixture failed. -/
def status (r : Report) : Nat := if r.failures = 0 then 0 else 1

end Report

/-- What a program leaves behind. -/
structure Exit where
  status : Nat
  output : String
  errors : String

/-- The exit of a run: its log comes before its report, and a run that there is not has status 2. -/
def exitOf (verbosity : Nat) : Except RunError Report → Exit
  | .ok report => ⟨report.status, report.log verbosity ++ report.text, ""⟩
  | .error e => ⟨2, "", "error: " ++ e.message ++ "\n"⟩

end ShapeSchema.Runner
