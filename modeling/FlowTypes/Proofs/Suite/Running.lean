import FlowTypes.Proofs.Steps
import FlowTypes.Proofs.Suite.Cases
import Mathlib.Algebra.GroupWithZero.Nat

namespace FlowTypes.Suite

open Steps

inductive Item
  | check (case : CheckCase)
  | accept (case : MatchCase)

namespace Item

def label : Item → String
  | .check case => case.label
  | .accept case => case.label

def run : Item → Except Trouble (Option String)
  | .check case => case.run
  | .accept case => case.run

def Settled : Item → Prop
  | .check case => case.Settled
  | .accept case => case.Settled

def Passes : Item → Prop
  | .check case => case.Passes
  | .accept case => case.Passes

/-- What is wrong with the outcome of a case, if anything. -/
def wrong (item : Item) : Option String :=
  match item.run with
  | .ok wrong => wrong
  | .error _ => none

def line (item : Item) : String :=
  match item.wrong with
  | none => "ok   " ++ item.label
  | some reason => "FAIL " ++ item.label ++ ": " ++ reason

end Item

def items (suite : Suite) : List Item := suite.checks.map .check ++ suite.matchings.map .accept

theorem cases_eq_map (suite : Suite) :
    suite.cases = suite.items.map fun item ↦ (item.label, item.run) := by
  rw [items, List.map_append, List.map_map, List.map_map]
  rfl

theorem run_of_settled {disk : Disk} {path : String} {suite : Suite}
    (hload : loadSuite disk path = .ok suite) {item : Item} (hmem : item ∈ suite.items)
    (h : item.Settled) : item.run = .ok item.wrong ∧ (item.wrong = none ↔ item.Passes) := by
  obtain ⟨wrong, hrun, hpasses⟩ :
      ∃ wrong, item.run = .ok wrong ∧ (wrong = none ↔ item.Passes) := by
    cases item with
    | check case => exact CheckCase.run_of_settled h
    | accept case =>
      have hcase : case ∈ suite.matchings := by simpa [items] using hmem
      exact MatchCase.run_of_settled (distinct_of_load hload hcase) h
  have hwrong : item.wrong = wrong := by rw [Item.wrong, hrun]
  rw [hwrong]
  exact ⟨hrun, hpasses⟩

section

variable (picks : String → Bool)

def picked (items : List Item) : List Item := items.filter (picks ·.label)

theorem picked_append (items more : List Item) :
    picked picks (items ++ more) = picked picks items ++ picked picks more :=
  List.filter_append ..

def tally (items : List Item) : Tally where
  passed := (picked picks items).countP (·.wrong.isNone)
  failed := (picked picks items).countP (·.wrong.isSome)
  skipped := items.countP (!picks ·.label)

theorem tally_sum (items : List Item) : (tally picks items).passed + (tally picks items).failed +
    (tally picks items).skipped = items.length := by
  induction items with
  | nil => rfl
  | cons item items ih =>
    cases hpicks : picks item.label <;> cases hwrong : item.wrong <;>
      simp [tally, picked, hpicks, hwrong] at ih ⊢ <;> omega

theorem failed_eq_zero_iff (items : List Item) :
    (tally picks items).failed = 0 ↔ ∀ item ∈ picked picks items, item.wrong = none := by
  simp [tally, List.countP_eq_zero]

def suiteLines (loaded : String × Suite) : List String :=
  ("# " ++ loaded.1) :: (picked picks loaded.2.items).map Item.line

/-- The log of a run that has printed these lines and gone through these cases. -/
def logOf (printed : List String) (done : List Item) : Log := ⟨printed, tally picks done⟩

variable {picks} (printed : List String) (done : List Item)

theorem runCase_apply {item : Item} (h : picks item.label → item.run = .ok item.wrong) :
    runCase picks (item.label, item.run) (logOf picks printed done) =
      (.ok (), logOf picks (printed ++ (picked picks [item]).map Item.line) (done ++ [item])) := by
  by_cases hpicks : picks item.label
  · rw [runCase, if_pos hpicks, h hpicks]
    cases hwrong : item.wrong <;>
      simp [logOf, picked, tally, hpicks, hwrong, Item.line, Log.report, Log.print]
  · rw [runCase, if_neg hpicks]
    simp [logOf, picked, tally, hpicks, Log.skip]

theorem forM_runCase {items : List Item}
    (h : ∀ item ∈ items, picks item.label → item.run = .ok item.wrong) :
    (items.map fun item ↦ (item.label, item.run)).forM (runCase picks) (logOf picks printed done) =
      (.ok (), logOf picks (printed ++ (picked picks items).map Item.line) (done ++ items)) := by
  induction items generalizing printed done with
  | nil => simp [picked]
  | cons item items ih =>
    rw [List.forall_mem_cons] at h
    rw [List.map_cons, forM_of_ok (runCase_apply printed done h.1), ih _ _ h.2, List.append_assoc,
      List.append_assoc, ← List.map_append, ← picked_append, List.singleton_append]

variable {disk : Disk}

theorem runSuite_apply {path : String} {suite : Suite} (hload : loadSuite disk path = .ok suite)
    (h : ∀ item ∈ suite.items, picks item.label → item.run = .ok item.wrong) :
    runSuite picks disk path (logOf picks printed done) =
      (.ok (), logOf picks (printed ++ suiteLines picks (path, suite)) (done ++ suite.items)) := by
  rw [runSuite, hload]
  dsimp only
  rw [bind_of_ok (modify_apply ..), cases_eq_map]
  have hprint : Log.print ("# " ++ path) (logOf picks printed done) =
      logOf picks (printed ++ ["# " ++ path]) done := rfl
  rw [hprint, forM_runCase _ _ h, List.append_assoc]
  rfl

theorem runSuites_apply {paths : List String} {suites : List Suite}
    (hload : List.Forall₂ (fun path suite ↦ loadSuite disk path = .ok suite) paths suites)
    (h : ∀ suite ∈ suites, ∀ item ∈ suite.items, picks item.label → item.run = .ok item.wrong) :
    runSuites picks disk paths (logOf picks printed done) =
      (.ok (), logOf picks (printed ++ (paths.zip suites).flatMap (suiteLines picks))
        (done ++ suites.flatMap items)) := by
  unfold runSuites
  induction hload generalizing printed done with
  | nil => simp
  | cons hfirst hrest ih =>
    rw [List.forall_mem_cons] at h
    rw [forM_of_ok (runSuite_apply printed done hfirst h.1), ih _ _ h.2]
    simp

end

theorem report_of_ok {picks : String → Bool} {disk : Disk} {paths : List String} {log : Log}
    (h : runSuites picks disk paths ⟨[], ⟨0, 0, 0⟩⟩ = (.ok (), log)) :
    report picks disk paths =
      ⟨none, if log.tally.failed = 0 then 0 else 1, unlines (log.lines ++ [log.tally.line])⟩ := by
  unfold report ExceptT.run
  rw [h]

theorem unlines_append (lines more : List String) :
    unlines (lines ++ more) = unlines lines ++ unlines more := by
  simp [unlines]

theorem unlines_suiteLines (picks : String → Bool) (loaded : List (String × Suite)) :
    unlines (loaded.flatMap (suiteLines picks)) = String.join (loaded.map fun l ↦
      "# " ++ l.1 ++ "\n" ++ String.join ((picked picks l.2.items).map (·.line ++ "\n"))) := by
  induction loaded with
  | nil => rfl
  | cons l loaded ih =>
    rw [List.flatMap_cons, unlines_append, ih]
    simp [unlines, suiteLines, Function.comp_def]

/-- Suites that can all be loaded, with cases that are settled as far as they are picked. Each suite
has its heading, and under it each case that is picked has its line, which says `ok` if it passes;
the last line counts all cases; and the run succeeds if every case that is picked passes. -/
theorem report_of_settled (picks : String → Bool) {disk : Disk} {paths : List String}
    {suites : List Suite} (hload : paths.mapM (loadSuite disk) = .ok suites)
    (hsettled : ∀ suite ∈ suites, ∀ item ∈ suite.items, picks item.label → item.Settled) :
    let all := suites.flatMap items
    let passed := (picked picks all).countP (·.wrong.isNone)
    let failed := (picked picks all).countP (·.wrong.isSome)
    let skipped := all.countP (!picks ·.label)
    (∀ item ∈ picked picks all, item.wrong = none ↔ item.Passes) ∧
      passed + failed + skipped =
        (suites.map fun suite ↦ suite.checks.length + suite.matchings.length).sum ∧
      (report picks disk paths).trouble = none ∧
      (report picks disk paths).stdout =
        String.join ((paths.zip suites).map fun loaded ↦ "# " ++ loaded.1 ++ "\n" ++
          String.join ((picked picks loaded.2.items).map (·.line ++ "\n"))) ++
        "\n" ++ passed.repr ++ " passed, " ++ failed.repr ++ " failed, " ++ skipped.repr ++
          " filtered out\n" ∧
      ((report picks disk paths).exit = 0 ↔ ∀ item ∈ picked picks all, item.Passes) := by
  intro all passed failed skipped
  have hloaded := mapM_eq_ok_iff.1 hload
  have hrun (suite : Suite) (hsuite : suite ∈ suites) (item : Item) (hitem : item ∈ suite.items)
      (hpicks : picks item.label) :
      item.run = .ok item.wrong ∧ (item.wrong = none ↔ item.Passes) := by
    obtain ⟨path, -, hpath⟩ := exists_of_mem_forall₂ hloaded hsuite
    exact run_of_settled hpath hitem (hsettled suite hsuite item hitem hpicks)
  have hpasses (item : Item) (hitem : item ∈ picked picks all) :
      item.wrong = none ↔ item.Passes := by
    obtain ⟨hitem, hpicks⟩ := List.mem_filter.1 hitem
    obtain ⟨suite, hsuite, hitem⟩ := List.mem_flatMap.1 hitem
    exact (hrun suite hsuite item hitem hpicks).2
  have hreport := report_of_ok (runSuites_apply [] [] hloaded
    fun suite hsuite item hitem hpicks ↦ (hrun suite hsuite item hitem hpicks).1)
  simp only [List.nil_append, logOf] at hreport
  refine ⟨hpasses, ?_, by rw [hreport], ?_, ?_⟩
  · have hlength : all.length =
        (suites.map fun suite ↦ suite.checks.length + suite.matchings.length).sum := by
      simp [all, items, List.length_flatMap]
    exact (tally_sum picks all).trans hlength
  · rw [hreport, unlines_append, unlines_suiteLines]
    simp [unlines, Tally.line, tally, all, passed, failed, skipped, String.append_assoc]
  · have hfailed : (tally picks all).failed = 0 ↔ ∀ item ∈ picked picks all, item.Passes := by
      rw [failed_eq_zero_iff]
      exact forall₂_congr hpasses
    rw [hreport, ← hfailed]
    change (if (tally picks all).failed = 0 then 0 else 1) = 0 ↔ _
    simp

/-- A check that fails and one that is not picked, whose type cannot be read; and in another suite
a match that binds a name as expected. -/
theorem report_of_settled_twice :
    let disk : Disk := [("a", .file ("[[[\"c\",\"bool\",null,false,\x7b\x7d,true]," ++
        "[\"s\",\"?\",null,false,\x7b\x7d,true]]]")),
      ("b", .file "[[],[[\"m\",\"T\",\"bool\",true,\x7b\x7d,\x7b\"T\":\"bool\"\x7d,true]]]")]
    let report := report (· != "s") disk ["a", "b"]
    report.trouble = none ∧ report.exit ≠ 0 ∧ report.stdout =
      "# a\nFAIL c: expected true, got false\n# b\nok   m\n\n1 passed, 1 failed, 1 filtered out\n" := by
  intro disk
  let check : CheckCase := ⟨some "c", "bool", .null, false, [], true⟩
  let skipped : CheckCase := ⟨some "s", "?", .null, false, [], true⟩
  let accept : MatchCase := ⟨some "m", "T", "bool", true, [], some [("T", "bool")], true⟩
  let sorted (texts : Entries String) : Entries String := texts.mergeSort fun a b ↦ a.1 ≤ b.1
  have hnone : sorted [] = [] := List.mergeSort_nil
  have hone : sorted [("T", "bool")] = [("T", "bool")] := List.mergeSort_singleton _
  have hfirst : loadSuite disk "a" = .ok ⟨[check, skipped], []⟩ := by
    have hread : Json.readFirst ("[[[\"c\",\"bool\",null,false,\x7b\x7d,true]," ++
        "[\"s\",\"?\",null,false,\x7b\x7d,true]]]") = .ok (.array [.array [
      .array [.string "c", .string "bool", .null, .bool false, .object [], .bool true],
      .array [.string "s", .string "?", .null, .bool false, .object [], .bool true]]]) := rfl
    have hdisk : disk.read "a" = .ok _ := rfl
    simp only [loadSuite, hdisk, read?, hread]
    change Except.ok (Suite.mk
      [{ check with bindings := sorted [] }, { skipped with bindings := sorted [] }] []) = _
    rw [hnone]
  have hsecond : loadSuite disk "b" = .ok ⟨[], [accept]⟩ := by
    have hread : Json.readFirst
        "[[],[[\"m\",\"T\",\"bool\",true,\x7b\x7d,\x7b\"T\":\"bool\"\x7d,true]]]" = .ok (.array [
      .array [], .array [.array [.string "m", .string "T", .string "bool", .bool true, .object [],
        .object [("T", .string "bool")], .bool true]]]) := rfl
    have hdisk : disk.read "b" = .ok _ := rfl
    simp only [loadSuite, hdisk, read?, hread]
    change Except.ok (Suite.mk [] [{ accept with
      bindings := sorted [], result := some (sorted [("T", "bool")]) }]) = _
    rw [hnone, hone]
  have hload : ["a", "b"].mapM (loadSuite disk) = .ok [⟨[check, skipped], []⟩, ⟨[], [accept]⟩] :=
    mapM_eq_ok_iff.2 (.cons hfirst (.cons hsecond .nil))
  have hbool : Notation.parse "bool" = .ok (.primitive .bool) := rfl
  have hT : Notation.parse "T" = .ok (.generic "T") := rfl
  have hverdict : check.HasVerdict false := ⟨.primitive .bool, [], hbool, .nil, rfl⟩
  have houtcome : accept.HasOutcome true [("T", .primitive .bool)] :=
    ⟨.generic "T", .primitive .bool, [], hT, hbool, .nil, rfl⟩
  have hspelled : AsSpelled [("T", "bool")] [("T", .primitive .bool)] := by
    refine ⟨fun name ↦ .rfl, fun text htext ↦ ?_⟩
    obtain rfl := List.mem_singleton.1 htext
    exact ⟨.primitive .bool, .primitive .bool, hbool, rfl, rfl⟩
  have hsettled : accept.Settled := by
    refine ⟨⟨_, _, houtcome⟩, ?_⟩
    rintro texts ⟨⟩
    exact ⟨[("T", .primitive .bool)], .cons ⟨rfl, hbool⟩ .nil⟩
  obtain ⟨hpasses, -, htrouble, hstdout, hexit⟩ := report_of_settled (· != "s") hload <| by
    intro suite hsuite item hitem hpicks
    rcases List.mem_pair.1 hsuite with rfl | rfl
    · rcases List.mem_pair.1 hitem with rfl | rfl
      · exact ⟨false, hverdict⟩
      · cases hpicks
    · obtain rfl := List.mem_singleton.1 hitem
      exact hsettled
  have hcheck : (Item.check check).wrong = some "expected true, got false" := by
    rw [Item.wrong, Item.run, CheckCase.run_of_verdict hverdict]
    rfl
  have haccept : (Item.accept accept).wrong = none :=
    (hpasses (.accept accept) (.tail _ (.head _))).2
      ⟨_, houtcome, by rintro texts ⟨⟩; exact hspelled⟩
  refine ⟨htrouble, fun hzero ↦ ?_, ?_⟩
  · have hnone := (hpasses (.check check) (.head _)).2 (hexit.1 hzero _ (.head _))
    cases hcheck.symm.trans hnone
  · have hfirst : picked (· != "s") (items ⟨[check, skipped], []⟩) = [.check check] := rfl
    have hsecond : picked (· != "s") (items ⟨[], [accept]⟩) = [.accept accept] := rfl
    have hline : (Item.check check).line = "FAIL c: expected true, got false" := by
      rw [Item.line, hcheck]
      rfl
    have hline' : (Item.accept accept).line = "ok   m" := by
      rw [Item.line, haccept]
      rfl
    have hskipped : (items ⟨[check, skipped], []⟩ ++ items ⟨[], [accept]⟩).countP
        (fun item ↦ !(item.label != "s")) = 1 := rfl
    rw [hstdout, List.flatMap_cons, List.flatMap_singleton, picked_append, hskipped]
    simp only [List.zip_cons_cons, List.zip_nil_right, List.map_cons, List.map_nil, hfirst, hsecond,
      hline, hline']
    simp [hcheck, haccept]
    decide

end FlowTypes.Suite
