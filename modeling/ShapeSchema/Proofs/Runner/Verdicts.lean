import Mathlib.Data.Char
import Mathlib.Data.List.Lex
import Mathlib.Data.List.Perm.Basic
import Mathlib.Data.Prod.Lex
import ShapeSchema.Proofs.Json.Equality
import ShapeSchema.Proofs.Outcome
import ShapeSchema.Runner.Report

/-!
# Verdicts of a run

A run gives one verdict for each path that its arguments resolve to. The verdict on a path depends
on the settings and on the file at that path only, so neither the other fixtures nor the order of
the arguments matter.
-/

namespace ShapeSchema.Runner

/-! ## The order of paths -/

section

variable {α : Type} [LinearOrder α]

theorem nil_le (l : List α) : [] ≤ l := by
  rw [← not_lt]
  exact List.not_lt_nil l

-- The lemma of this name about lists is about another instance of the order.
theorem cons_le_cons_iff {a b : α} {l m : List α} : a :: l ≤ b :: m ↔ a < b ∨ a = b ∧ l ≤ m := by
  rw [← not_lt, List.cons_lt_cons_iff, ← not_lt (a := m)]
  rcases lt_trichotomy a b with h | rfl | h
  · simp [h, h.ne', h.not_gt]
  · simp
  · simp [h, h.ne', h.not_gt]

end

/-- Components are ordered by their kind first and then by their name. -/
def Component.key (c : Component) : ℕ ×ₗ List Char := toLex (c.rank, c.text)

theorem Component.key_injective : Function.Injective key := by
  intro c d h
  obtain ⟨hrank, htext⟩ := Prod.mk.inj (toLex.injective h)
  cases c <;> cases d <;> simp_all [rank, text, String.toList_inj]

theorem charsLe_iff {cs ds : List Char} : charsLe cs ds = true ↔ cs ≤ ds := by
  induction cs generalizing ds with
  | nil => exact iff_of_true rfl (nil_le ds)
  | cons c cs ih =>
    cases ds with
    | nil => simp [charsLe]
    | cons d ds =>
      rw [charsLe, cons_le_cons_iff]
      split
      · rename_i heq
        simp [heq, ih]
      · rename_i hne
        simp [hne, Char.lt_def, UInt32.lt_iff_toNat_lt]

theorem componentsLe_iff {cs ds : List Component} :
    componentsLe cs ds = true ↔ cs.map Component.key ≤ ds.map Component.key := by
  induction cs generalizing ds with
  | nil => exact iff_of_true rfl (nil_le _)
  | cons c cs ih =>
    cases ds with
    | nil => simp [componentsLe]
    | cons d ds =>
      rw [componentsLe, List.map_cons, List.map_cons, cons_le_cons_iff,
        Component.key_injective.eq_iff]
      split
      · rename_i heq
        simp [heq, ih]
      · rename_i hne
        rw [or_iff_left fun h => hne h.1, Component.key, Component.key, Prod.Lex.toLex_lt_toLex]
        split
        · rename_i hrank
          -- Of one kind, and yet different: then the names differ.
          have htext : c.text ≠ d.text := fun h =>
            hne (Component.key_injective (by rw [Component.key, Component.key, hrank, h]))
          simp [hrank, charsLe_iff, htext.le_iff_lt]
        · rename_i hrank
          simp [hrank]

/-- One path comes before another if the rows of their components do. -/
theorem pathLe_iff {a b : String} : pathLe a b = true ↔
    (Component.ofPath a).map Component.key ≤ (Component.ofPath b).map Component.key :=
  componentsLe_iff

theorem pathLe_trans (a b c : String) (hab : pathLe a b = true) (hbc : pathLe b c = true) :
    pathLe a c = true :=
  pathLe_iff.mpr (le_trans (pathLe_iff.mp hab) (pathLe_iff.mp hbc))

theorem pathLe_total (a b : String) : (pathLe a b || pathLe b a) = true := by
  rw [Bool.or_eq_true, pathLe_iff, pathLe_iff]
  exact le_total _ _

/-! ## Resolving the arguments -/

section

variable {ε α β : Type} {f : α → Except ε β} {as : List α} {bs : List β}

theorem mapM_eq_ok_iff : as.mapM f = .ok bs ↔ List.Forall₂ (fun a b => f a = .ok b) as bs := by
  induction as generalizing bs with
  | nil =>
    rw [List.mapM_nil, List.forall₂_nil_left_iff]
    exact ⟨fun h => (Except.ok.inj h).symm, fun h => h ▸ rfl⟩
  | cons a as ih =>
    rw [List.mapM_cons, bind_eq_ok, List.forall₂_cons_left_iff]
    refine exists_congr fun b => ?_
    rw [bind_eq_ok]
    constructor
    · rintro ⟨hb, bs', hbs, h⟩
      exact ⟨bs', hb, ih.mp hbs, (Except.ok.inj h).symm⟩
    · rintro ⟨bs', hb, hbs, rfl⟩
      exact ⟨hb, bs', ih.mpr hbs, rfl⟩

/-- What is done item by item is done for the items in any order. -/
theorem mapM_of_perm {as' : List α} (hperm : as'.Perm as) (h : as.mapM f = .ok bs) :
    ∃ bs', as'.mapM f = .ok bs' ∧ bs'.Perm bs := by
  obtain ⟨bs', hbs', hperm'⟩ := List.perm_comp_forall₂ hperm (mapM_eq_ok_iff.mp h)
  exact ⟨bs', mapM_eq_ok_iff.mpr hbs', hperm'⟩

end

section

variable {files : Files} {arguments paths : List String}

theorem resolveAll_eq_ok : resolveAll files arguments = .ok paths ↔
    ∃ found, arguments.mapM (resolveOne files) = .ok found ∧
      found.flatten.mergeSort pathLe = paths := by
  rw [resolveAll, bind_eq_ok]
  simp only [Except.ok.injEq]

/-- The paths stand in order. -/
theorem pairwise_of_resolveAll (h : resolveAll files arguments = .ok paths) :
    paths.Pairwise fun a b => pathLe a b = true := by
  obtain ⟨found, -, rfl⟩ := resolveAll_eq_ok.mp h
  exact List.pairwise_mergeSort pathLe_trans pathLe_total _

/-- They are the paths of the arguments, each as often as it was found. -/
theorem perm_of_resolveAll (h : resolveAll files arguments = .ok paths) :
    ∃ found, List.Forall₂ (fun argument some => resolveOne files argument = .ok some)
      arguments found ∧ paths.Perm found.flatten := by
  obtain ⟨found, hfound, rfl⟩ := resolveAll_eq_ok.mp h
  exact ⟨found, mapM_eq_ok_iff.mp hfound, List.mergeSort_perm _ _⟩

theorem resolveAll_of_perm {arguments' : List String} (hperm : arguments'.Perm arguments)
    (h : resolveAll files arguments = .ok paths) :
    ∃ paths', resolveAll files arguments' = .ok paths' ∧ paths'.Perm paths := by
  obtain ⟨found, hfound, rfl⟩ := resolveAll_eq_ok.mp h
  obtain ⟨found', hfound', hperm'⟩ := mapM_of_perm hperm hfound
  refine ⟨_, resolveAll_eq_ok.mpr ⟨found', hfound', rfl⟩, ?_⟩
  exact (List.mergeSort_perm _ _).trans (hperm'.flatten.trans (List.mergeSort_perm _ _).symm)

end

/-! ## Checking a path -/

/-- The conversion gives what the fixture expects: a document that is equal to the expected one, or an
error with exactly the expected message. -/
def Fixture.Met (config : Config) (fixture : Fixture) : Prop :=
  match fixture.expected with
  | .ok want => ∃ got, fixture.struct.documentWith config = .ok got ∧ want.Same got
  | .error message => ∃ e, fixture.struct.documentWith config = .error e ∧ e.message = message

/-- The file at the path can be read, is a fixture, and the fixture is met. -/
def Passes (files : Files) (config : Config) (path : String) : Prop :=
  ∃ text fixture, files.readText path = .ok text ∧ load readFixture text = .ok fixture ∧
    fixture.Met config

section

variable {files : Files} {config : Config} {path : String}

theorem Fixture.met_iff {fixture : Fixture} : fixture.Met config ↔
    Outcome.same fixture.expected
      ((fixture.struct.documentWith config).mapError ConversionError.message) = true := by
  rw [Met]
  cases fixture.expected with
  | ok want => cases fixture.struct.documentWith config <;> simp [Except.mapError, Outcome.same]
  | error message =>
    cases fixture.struct.documentWith config with
    | ok got => simp [Except.mapError, Outcome.same]
    | error e =>
      rw [show Outcome.same (.error message) _ = (message == e.message) from rfl, beq_iff_eq]
      constructor
      · rintro ⟨_, ⟨⟩, h⟩
        exact h.symm
      · exact fun h => ⟨e, rfl, h.symm⟩

theorem check_path (files : Files) (config : Config) (path : String) :
    (check files config path).path = path := by
  unfold check
  split
  · rfl
  · split <;> rfl

theorem check_pass_iff : (check files config path).verdict = .pass ↔ Passes files config path := by
  unfold check Passes
  cases files.readText path with
  | error e => simp
  | ok text =>
    simp only [Except.ok.injEq, exists_and_left, exists_eq_left']
    cases load readFixture text with
    | error e => simp
    | ok fixture =>
      simp only [Except.ok.injEq, exists_eq_left', Fixture.met_iff, Struct.documentWith]
      split <;> simp_all

/-- The verdict depends on nothing but the settings and the text at the path. -/
theorem check_congr {files' : Files} (h : files.readText path = files'.readText path) :
    check files config path = check files' config path := by
  unfold check
  rw [h]

end

/-! ## Reports -/

theorem Verdict.passed_iff {v : Verdict} : v.passed = true ↔ v = .pass := by
  cases v <;> simp [passed]

/-- What is printed about a path begins with the mark of a pass, a failure or a warning, and names the
path; nothing else is printed about a pass, and nothing else has its mark. -/
theorem Verdict.text_marked (v : Verdict) (path : String) :
    ∃ mark ∈ ["✅", "❌", "⚠️"], ∃ reason, v.text path = mark ++ " " ++ path ++ reason ++ "\n" ∧
      (mark = "✅" ↔ v = .pass) ∧ (v = .pass → reason = "") := by
  cases v with
  | pass => exact ⟨"✅", by simp, "", by simp [text], by simp, fun _ => rfl⟩
  | mismatch expected actual =>
    refine ⟨"❌", by simp, "\n  expected: " ++ expected.text ++ "\n  actual:   " ++ actual.text, ?_,
      by simp, nofun⟩
    simp [text, String.append_assoc]
  | unreadable e =>
    exact ⟨"⚠️", by simp, ": " ++ unreadableText path e, by simp [text, String.append_assoc],
      by simp, nofun⟩
  | malformed e =>
    exact ⟨"⚠️", by simp, ": " ++ chainText e, by simp [text, String.append_assoc], by simp, nofun⟩

namespace Report

variable {r r' : Report}

/-- How many fixtures passed. -/
def passes (r : Report) : Nat := r.checked.countP fun c => c.verdict.passed

theorem passes_add_failures (r : Report) : r.passes + r.failures = r.checked.length := by
  have hcount := List.length_eq_countP_add_countP (fun c => c.verdict.passed) (l := r.checked)
  rw [passes, failures, ← List.countP_eq_length_filter, hcount]
  simp

theorem failures_eq_zero_iff : r.failures = 0 ↔ ∀ c ∈ r.checked, c.verdict = .pass := by
  rw [failures, List.length_eq_zero_iff, List.filter_eq_nil_iff]
  simp only [Bool.not_eq_true', Bool.not_eq_false, Verdict.passed_iff]

theorem text_eq (r : Report) : r.text = String.join (r.checked.map fun c => c.verdict.text c.path) ++
    Nat.repr r.passes ++ " passed, " ++ Nat.repr r.failures ++ " failed\n" := by
  rw [text, ← r.passes_add_failures, Nat.add_sub_cancel_right]

theorem status_eq_zero_iff : r.status = 0 ↔ ∀ c ∈ r.checked, c.verdict = .pass := by
  rw [← failures_eq_zero_iff, status]
  split <;> simp_all

theorem status_eq_one_of_ne_zero (h : r.status ≠ 0) : r.status = 1 := by
  rw [status] at h ⊢
  split
  · rename_i hzero
    exact absurd (if_pos hzero) h
  · rfl

theorem passes_of_perm (h : r'.checked.Perm r.checked) : r'.passes = r.passes :=
  h.countP_eq _

theorem failures_of_perm (h : r'.checked.Perm r.checked) : r'.failures = r.failures :=
  (h.filter _).length_eq

theorem status_of_perm (h : r'.checked.Perm r.checked) : r'.status = r.status := by
  rw [status, status, failures_of_perm h]

end Report

/-! ## Runs -/

section

variable {files : Files} {options : Options} {config : Config} {paths : List String}

theorem run_eq (hconfig : readSettings files options.config = .ok config)
    (hpaths : resolveAll files options.fixtures = .ok paths) (hsome : paths ≠ []) :
    run files options = .ok ⟨config, paths.map (check files config)⟩ := by
  rw [run, hconfig, ok_bind, hpaths, ok_bind]
  cases paths with
  | nil => exact absurd rfl hsome
  | cons path rest => rfl

/-- Whatever a run reports was checked under its settings. -/
theorem check_of_run {report : Report} (hconfig : readSettings files options.config = .ok config)
    (h : run files options = .ok report) {c : Checked} (hc : c ∈ report.checked) :
    c = check files config c.path := by
  obtain ⟨config', hconfig', h⟩ := bind_eq_ok.mp h
  obtain rfl := Except.ok.inj (hconfig.symm.trans hconfig')
  obtain ⟨paths, -, h⟩ := bind_eq_ok.mp h
  split at h
  · cases h
  · obtain rfl := Except.ok.inj h
    obtain ⟨path, -, rfl⟩ := List.mem_map.mp hc
    rw [check_path]

/-- **Verdicts.** With settings that load and arguments that resolve to some paths, a run reports one
verdict for each path, in the order of the paths. A path passes just if its file can be read, is a
fixture, and the fixture is met; any other run under the same settings that finds the same text at
the path comes to the same verdict. Behind its log the run prints the verdicts, each with its path and
with a mark that tells whether it is a pass, and then the counts. The counts add up, the exit status
tells whether all paths passed, and the order of the arguments changes neither. -/
theorem run_verdicts (hconfig : readSettings files options.config = .ok config)
    (hpaths : resolveAll files options.fixtures = .ok paths) (hsome : paths ≠ []) :
    ∃ report, run files options = .ok report ∧
      report.checked.map Checked.path = paths ∧
      (paths.Pairwise fun a b => pathLe a b = true) ∧
      (∃ found, List.Forall₂ (fun argument some => resolveOne files argument = .ok some)
        options.fixtures found ∧ paths.Perm found.flatten) ∧
      (∀ c ∈ report.checked, c.verdict = .pass ↔ Passes files config c.path) ∧
      (∀ (files' : Files) (options' : Options) (report' : Report),
        readSettings files' options'.config = .ok config → run files' options' = .ok report' →
        ∀ c ∈ report.checked, ∀ c' ∈ report'.checked, c.path = c'.path →
          files.readText c.path = files'.readText c.path → c = c') ∧
      report.passes + report.failures = paths.length ∧
      report.text = String.join (report.checked.map fun c => c.verdict.text c.path) ++
        Nat.repr report.passes ++ " passed, " ++ Nat.repr report.failures ++ " failed\n" ∧
      (∀ c ∈ report.checked, ∃ mark ∈ ["✅", "❌", "⚠️"], ∃ reason,
        c.verdict.text c.path = mark ++ " " ++ c.path ++ reason ++ "\n" ∧
          (mark = "✅" ↔ c.verdict = .pass) ∧ (c.verdict = .pass → reason = "")) ∧
      (exitOf options.verbosity (run files options)).output =
        report.log options.verbosity ++ report.text ∧
      (exitOf options.verbosity (run files options)).errors = "" ∧
      ((exitOf options.verbosity (run files options)).status = 0 ↔
        ∀ c ∈ report.checked, c.verdict = .pass) ∧
      ((exitOf options.verbosity (run files options)).status ≠ 0 →
        (exitOf options.verbosity (run files options)).status = 1) ∧
      ∀ fixtures' : List String, fixtures'.Perm options.fixtures →
        ∃ report', run files { options with fixtures := fixtures' } = .ok report' ∧
          report'.checked.Perm report.checked ∧ report'.passes = report.passes ∧
          report'.failures = report.failures ∧
          (exitOf options.verbosity (run files { options with fixtures := fixtures' })).status =
            (exitOf options.verbosity (run files options)).status := by
  have hrun := run_eq hconfig hpaths hsome
  refine ⟨⟨config, paths.map (check files config)⟩, hrun, ?_, pairwise_of_resolveAll hpaths,
    perm_of_resolveAll hpaths, ?_, ?_, ?_, Report.text_eq _, fun c _ => c.verdict.text_marked c.path,
    ?_, ?_, ?_, ?_, ?_⟩
  · simp [List.map_map, Function.comp_def, check_path]
  · intro c hc
    have hcheck := check_of_run hconfig hrun hc
    rw [hcheck, check_pass_iff, check_path]
  · intro files' options' report' hconfig' hrun' c hc c' hc' hpath htext
    rw [check_of_run hconfig hrun hc, check_of_run hconfig' hrun' hc', ← hpath]
    exact check_congr htext
  · exact (Report.passes_add_failures _).trans (List.length_map _)
  · rw [hrun]
    rfl
  · rw [hrun]
    rfl
  · rw [hrun]
    exact Report.status_eq_zero_iff
  · rw [hrun]
    exact Report.status_eq_one_of_ne_zero
  · intro fixtures' hperm
    obtain ⟨paths', hpaths', hperm'⟩ := resolveAll_of_perm hperm hpaths
    have hsome' : paths' ≠ [] := by
      rintro rfl
      exact hsome hperm'.symm.eq_nil
    have hchecked := hperm'.map (check files config)
    have hrun' : run files { options with fixtures := fixtures' } =
        .ok ⟨config, paths'.map (check files config)⟩ := run_eq hconfig hpaths' hsome'
    refine ⟨_, hrun', hchecked, ?_, ?_, ?_⟩
    · exact Report.passes_of_perm hchecked
    · exact Report.failures_of_perm hchecked
    · rw [hrun, hrun']
      exact Report.status_of_perm hchecked

end

/-! ### A directory with one fixture -/

/-- A fixture in which anything at all is described. -/
def unknownFixture : String :=
  "[[[\"unknown\",null]],\x7b\"ok\":\x7b\"$schema\":\"" ++ Fragment.dialect ++ "\"\x7d\x7d]"

/-- The directory of this fixture. -/
def oneFixture : Files := [("known", .file (Source.bytesOf unknownFixture))]

theorem passes_known : Passes oneFixture {} "known" := check_pass_iff.mp rfl

theorem not_passes_missing : ¬Passes oneFixture {} "missing" := by
  rintro ⟨text, -, htext, -⟩
  have hmissing : oneFixture.readText "missing" = .error .notFound := rfl
  rw [hmissing] at htext
  cases htext

/-- The path at which there is no file fails, in whatever order the two paths are given, and the
other one passes all the same. -/
theorem run_verdicts_missing :
    resolveAll oneFixture ["known", "missing"] = .ok ["known", "missing"] ∧
    ∃ report, run oneFixture ⟨["known", "missing"], none, 0⟩ = .ok report ∧
      report.checked.map Checked.path = ["known", "missing"] ∧
      (∀ c ∈ report.checked, c.verdict = .pass ↔ c.path = "known") ∧
      report.passes + report.failures = 2 ∧
      (∀ c ∈ report.checked, c.path = "known" → c.verdict.text c.path = "✅ known\n") ∧
      (exitOf 0 (run oneFixture ⟨["known", "missing"], none, 0⟩)).output =
        report.log 0 ++ report.text ∧
      (exitOf 0 (run oneFixture ⟨["known", "missing"], none, 0⟩)).status = 1 ∧
      (exitOf 0 (run oneFixture ⟨["missing", "known"], none, 0⟩)).status = 1 := by
  have hpaths : resolveAll oneFixture ["known", "missing"] = .ok ["known", "missing"] := by
    refine resolveAll_eq_ok.mpr ⟨[["known"], ["missing"]], rfl, ?_⟩
    exact List.mergeSort_of_pairwise (by decide)
  obtain ⟨report, hrun, hmap, -, -, hpass, -, hcount, -, hprinted, houtput, -, hzero, hone, hperm⟩ :=
    @run_verdicts oneFixture ⟨["known", "missing"], none, 0⟩ {} _ rfl hpaths (List.cons_ne_nil _ _)
  have hstatus : (exitOf 0 (run oneFixture ⟨["known", "missing"], none, 0⟩)).status = 1 := by
    refine hone fun h => ?_
    have hmissing : "missing" ∈ report.checked.map Checked.path := by rw [hmap]; simp
    obtain ⟨c, hc, hpath⟩ := List.mem_map.mp hmissing
    exact not_passes_missing (hpath ▸ (hpass c hc).mp (hzero.mp h c hc))
  refine ⟨hpaths, report, hrun, hmap, fun c hc => ?_, hcount, fun c hc hpath => ?_, houtput, hstatus,
    ?_⟩
  · have hmem := List.mem_map_of_mem (f := Checked.path) hc
    rw [hmap] at hmem
    rw [hpass c hc]
    rcases List.mem_pair.mp hmem with hpath | hpath
    · rw [hpath]
      exact iff_of_true passes_known rfl
    · rw [hpath]
      exact iff_of_false not_passes_missing (by decide)
  · obtain ⟨mark, -, reason, htext, hmark, hreason⟩ := hprinted c hc
    have hverdict : c.verdict = .pass := (hpass c hc).mpr (hpath ▸ passes_known)
    rw [htext, hmark.mpr hverdict, hreason hverdict, hpath]
    rfl
  · obtain ⟨_, -, -, -, -, hsame⟩ := hperm ["missing", "known"] (.swap _ _ _)
    exact hsame.trans hstatus

end ShapeSchema.Runner
