import FlowTypes.Command.Run
import FlowTypes.Proofs.Command.Loading
import FlowTypes.Proofs.Steps
import FlowTypes.Proofs.Ty.Acyclic

namespace FlowTypes.Command

open Steps FlowTypes.Command.Action

section

variable (quiet : Bool) (accepts : Json → Bool)

def verdictLine (document : Document) : String :=
  (if accepts document.value then "pass " else "fail ") ++ document.label ++ "\n"

/-- The lines about documents, without those that pass if `quiet`. -/
def verdictLines (documents : List Document) : String :=
  String.join ((documents.filter fun d ↦ !(quiet && accepts d.value)).map (verdictLine accepts))

theorem verdictLines_append (documents more : List Document) :
    verdictLines quiet accepts (documents ++ more) =
      verdictLines quiet accepts documents ++ verdictLines quiet accepts more := by
  simp [verdictLines]

theorem say_apply (line : String) (world : World) :
    say line world = (.ok (), { world with stdout := world.stdout ++ (line ++ "\n") }) := rfl

theorem remark_apply (line : String) (world : World) :
    remark line world = (.ok (), { world with stderr := world.stderr ++ (line ++ "\n") }) := rfl

theorem sayVerdict_apply (failed : Nat) (document : Document) (world : World) :
    sayVerdict quiet failed (document, accepts document.value) world =
      (.ok (failed + [document].countP (!accepts ·.value)),
        { world with stdout := world.stdout ++ verdictLines quiet accepts [document] }) := by
  unfold sayVerdict
  cases haccepts : accepts document.value with
  | false =>
    simp only [Bool.false_eq_true, if_false]
    rw [bind_of_ok (say_apply _ world), pure_apply]
    simp [verdictLines, verdictLine, haccepts]
  | true =>
    cases quiet with
    | true => simp [verdictLines, haccepts]
    | false =>
      simp only [Bool.false_eq_true, if_true, if_false]
      rw [bind_of_ok (say_apply _ world), pure_apply]
      simp [verdictLines, verdictLine, haccepts]

theorem foldlM_sayVerdict (documents : List Document) (failed : Nat) (world : World) :
    (documents.map fun d ↦ (d, accepts d.value)).foldlM (sayVerdict quiet) failed world =
      (.ok (failed + documents.countP (!accepts ·.value)),
        { world with stdout := world.stdout ++ verdictLines quiet accepts documents }) := by
  induction documents generalizing failed world with
  | nil => simp [verdictLines]
  | cons document documents ih =>
    rw [List.map_cons, List.foldlM_cons, bind_of_ok (sayVerdict_apply ..), ih, Nat.add_assoc,
      String.append_assoc, ← List.countP_append, ← verdictLines_append, List.singleton_append]

end

variable {ty : Ty} {bindings : Bindings} {accepts : Json → Bool}

theorem judge_eq (h : ∀ value, ty.check? bindings [] (some value) = some (accepts value))
    (documents : List Document) :
    judge bindings ty documents = .ok (documents.map (accepts ·.value)) := by
  unfold judge
  rw [mapM_eq_ok_iff, List.forall₂_map_right_iff, List.forall₂_same]
  intro document _
  rw [h]

variable {inputs : Inputs} {type : String} {path : Option String} {disk : Disk} {stdin : String}
  {documents : List Document}

theorem carryOut_check (hty : parseType type = .ok ty)
    (hbindings : loadBindings? disk path = .ok bindings)
    (hload : inputs.load disk stdin = .ok documents)
    (h : ∀ value, ty.check? bindings [] (some value) = some (accepts value)) (quiet : Bool) :
    carryOut (.check inputs type path quiet) stdin ⟨"", "", disk⟩ =
      (.ok (exitCode (documents.countP (!accepts ·.value) = 0)),
        { stdout := verdictLines quiet accepts documents
          stderr := (documents.countP (accepts ·.value)).repr ++ " of " ++ documents.length.repr ++
            " documents conform to " ++ Notation.print ty ++ "\n"
          disk := disk }) := by
  have hcount : documents.length - documents.countP (!accepts ·.value) =
      documents.countP (accepts ·.value) := by
    have hsum := List.length_eq_countP_add_countP (accepts ·.value) (l := documents)
    simp only [Bool.not_eq_true, Bool.decide_eq_false] at hsum
    omega
  rw [carryOut, runCheck, hty, bind_of_ok (lift_apply _ _), bind_of_ok (get_apply _), hbindings,
    bind_of_ok (lift_apply _ _), bind_of_ok (get_apply _), hload, bind_of_ok (lift_apply _ _),
    judge_eq h, bind_of_ok (lift_apply _ _), ← List.map_prod_left_eq_zip,
    bind_of_ok (foldlM_sayVerdict ..), bind_of_ok (remark_apply ..), pure_apply, Nat.zero_add,
    hcount]
  simp only [String.empty_append]

theorem run_of_ok {request : Request} {world : World} {exit : Nat}
    (h : carryOut request stdin ⟨"", "", disk⟩ = (.ok exit, world)) :
    run request disk stdin = ⟨world, none, exit⟩ := by
  unfold run ExceptT.run
  rw [h]

/-- A check whose type, bindings and inputs can be read. The documents are those at the places that
the arguments stand for, in order; a pattern stands for its paths as they are found, which is by
name if it is regular; a line tells of each document that it passes or fails, unless it passes
quietly; and the run succeeds if all pass. -/
theorem run_check (hty : parseType type = .ok ty)
    (hbindings : loadBindings? disk path = .ok bindings) (hacyclic : bindings.Acyclic)
    (hload : inputs.load disk stdin = .ok documents) (quiet : Bool) :
    Enumerates
      (inputs.documentAt? disk stdin (inputs.sources.flatMap (Inputs.standsFor disk))) documents ∧
      (Disk.Proper disk → ∀ argument ∈ inputs.sources, Glob.IsRegular argument →
        (Inputs.standsFor disk argument).Pairwise (Glob.precedes · ·)) ∧
      ∃ accepts : Json → Bool,
        (∀ value, ty.check? bindings [] (some value) = some (accepts value)) ∧
        let report := run (.check inputs type path quiet) disk stdin
        report.failure = none ∧ report.stdout = verdictLines quiet accepts documents ∧
        report.stderr = (documents.countP (accepts ·.value)).repr ++ " of " ++
          documents.length.repr ++ " documents conform to " ++ Notation.print ty ++ "\n" ∧
        report.disk = disk ∧ (report.exit = 0 ↔ ∀ document ∈ documents, accepts document.value) := by
  have hchecks := fun value ↦ Ty.check?_of_acyclic hacyclic [] ty (some value)
  refine ⟨Inputs.enumerates_load hload,
    fun hdisk argument _ hregular ↦ Inputs.standsFor_pairwise hdisk hregular, _, hchecks, ?_⟩
  rw [run_of_ok (carryOut_check hty hbindings hload hchecks quiet)]
  refine ⟨rfl, rfl, rfl, rfl, ?_⟩
  simp [exitCode, List.countP_eq_zero]

/-- Two files that a pattern gives, the first with a blank line, with two values from each line that
is not blank; and the standard input, which has no line. -/
theorem run_check_quiet :
    let disk : Disk := [("g", .file "\x7b\"T\":\"bool\"\x7d"),
      ("d", .folder [("b", .file "null"), ("a", .file "\ntrue")])]
    let inputs : Inputs := ⟨true, none, some ".,.", ["d/*", "-"]⟩
    let documents : List Document :=
      [⟨"d/a:2#0", .bool true⟩, ⟨"d/a:2#1", .bool true⟩, ⟨"d/b:1#0", .null⟩, ⟨"d/b:1#1", .null⟩]
    let report := run (.check inputs "T" (some "g") true) disk ""
    Enumerates
      (inputs.documentAt? disk "" (inputs.sources.flatMap (Inputs.standsFor disk))) documents ∧
      (Inputs.standsFor disk "d/*").Pairwise (Glob.precedes · ·) ∧
      report.failure = none ∧ report.stdout = "fail d/b:1#0\nfail d/b:1#1\n" ∧
      report.stderr = "2 of 4 documents conform to T\n" ∧ report.exit ≠ 0 := by
  intro disk inputs documents report
  have hsort : (["b", "a"] : List String).mergeSort (· ≤ ·) = ["a", "b"] := by
    have hperm := (List.mergeSort_perm ["b", "a"] (· ≤ ·)).trans (.swap "a" "b" [])
    exact hperm.eq_of_sortedLE List.sortedLE_mergeSort (List.Pairwise.sortedLE (by decide))
  have hchildren : Glob.children disk "d" = some ["a", "b"] := congrArg some hsort
  have hinside (fuel : Nat) :
      Glob.expand disk false (fuel + 2) [.name [.many]] "d" = ["d/a", "d/b"] := by
    rw [Glob.expand, hchildren]
    rfl
  have hparse : Glob.parse? "d/*" = some ([.name [.char 'd'], .name [.many]], false) := rfl
  have hglob : Glob.paths? disk "d/*" = some ["d/a", "d/b"] := by
    rw [Glob.paths?, hparse]
    exact congrArg some (hinside _)
  have hproper : Disk.Proper disk :=
    ⟨by decide, by decide, trivial, by decide, by decide,
      ⟨by decide, by decide, trivial, by decide, by decide, trivial, trivial⟩, trivial⟩
  have hregular : Glob.IsRegular "d/*" := ⟨_, _, hparse, by decide, fun _ ↦ rfl, trivial⟩
  have hpaths := Inputs.pathsOf_of_matches rfl hglob
  have hall : inputs.paths disk = .ok ["d/a", "d/b", "-"] := by
    unfold Inputs.paths
    rw [List.mapM_cons, hpaths]
    rfl
  have hload : inputs.load disk "" = .ok documents := by
    unfold Inputs.load
    rw [hall]
    rfl
  have hacyclic : Bindings.Acyclic [("T", .primitive .bool)] :=
    Bindings.Closed.acyclic (by simp [Bindings.Closed, Ty.generics])
  have hty : parseType "T" = .ok (.generic "T") := rfl
  have hb : loadBindings? disk (some "g") = .ok [("T", .primitive .bool)] := rfl
  obtain ⟨hplaces, hsorted, accepts, haccepts, hfailure, hstdout, hstderr, -, hexit⟩ :=
    run_check hty hb hacyclic hload true
  have hbool : accepts (.bool true) = true := (Option.some.inj (haccepts (.bool true))).symm
  have hnull : accepts .null = false := (Option.some.inj (haccepts .null)).symm
  refine ⟨hplaces, hsorted hproper "d/*" List.mem_cons_self hregular, hfailure, ?_, ?_, ?_⟩
  · rw [hstdout]
    simp [verdictLines, verdictLine, documents, hbool, hnull]
  · have hcount : documents.countP (accepts ·.value) = 2 := by simp [documents, hbool, hnull]
    rw [hstderr, hcount]
    decide
  · intro hzero
    simpa [documents, hnull] using hexit.1 hzero

/-- Paths that a pattern gives out of order: one that it finds in a folder comes before those that
it finds deeper. -/
theorem run_check_unsorted :
    let disk : Disk := [("b", .folder [("a", .folder [("b", .folder [("x.json", .file "1")])]),
      ("y.json", .file "2")])]
    let inputs : Inputs := ⟨false, none, none, ["**/b/*.json"]⟩
    let report := run (.check inputs "any" none false) disk ""
    report.failure = none ∧ report.stdout = "pass b/y.json\npass b/a/b/x.json\n" ∧
      Glob.paths? disk "**/b/*.json" = some ["b/y.json", "b/a/b/x.json"] ∧
      Glob.precedes "b/a/b/x.json" "b/y.json" ∧ ¬Glob.precedes "b/y.json" "b/a/b/x.json" := by
  intro disk inputs report
  let json : List Glob.Step :=
    [.name [.many, .char '.', .char 'j', .char 's', .char 'o', .char 'n']]
  let steps : List Glob.Step := .folders :: .name [.char 'b'] :: json
  have hroot : Glob.children disk "." = some ["b"] := Glob.children_of_sorted rfl (by decide)
  have hb : Glob.children disk "b" = some ["a", "y.json"] := Glob.children_of_sorted rfl (by decide)
  have ha : Glob.children disk "b/a" = some ["b"] := Glob.children_of_sorted rfl (by decide)
  have hdeep : Glob.children disk "b/a/b" = some ["x.json"] :=
    Glob.children_of_sorted rfl (by decide)
  have hy (fuel : Nat) : Glob.expand disk false (fuel + 2) json "b" = ["b/y.json"] := by
    rw [Glob.expand, hb]
    rfl
  have hx (fuel : Nat) : Glob.expand disk false (fuel + 2) json "b/a/b" = ["b/a/b/x.json"] := by
    rw [Glob.expand, hdeep]
    rfl
  have hend (fuel : Nat) : Glob.expand disk false (fuel + 2) steps "b/a/b" = [] := by
    rw [Glob.expand, hdeep]
    rfl
  have hinner (fuel : Nat) : Glob.expand disk false (fuel + 3) steps "b/a" = ["b/a/b/x.json"] := by
    rw [Glob.expand, ha]
    change Glob.expand disk false (fuel + 2) json "b/a/b" ++
      Glob.expand disk false (fuel + 2) steps "b/a/b" ++ [] = _
    rw [hx, hend]
    rfl
  have houter (fuel : Nat) : Glob.expand disk false (fuel + 4) steps "b" = ["b/a/b/x.json"] := by
    rw [Glob.expand, hb]
    change Glob.expand disk false (fuel + 3) steps "b/a" ++
      (Glob.expand disk false (fuel + 3) steps "b/y.json" ++ []) = _
    rw [hinner]
    rfl
  have hall (fuel : Nat) :
      Glob.expand disk false (fuel + 5) steps "." = ["b/y.json", "b/a/b/x.json"] := by
    rw [Glob.expand, hroot]
    change Glob.expand disk false (fuel + 4) json "b" ++
      Glob.expand disk false (fuel + 4) steps "b" ++ [] = _
    rw [hy, houter]
    rfl
  have hglob : Glob.paths? disk "**/b/*.json" = some ["b/y.json", "b/a/b/x.json"] := by
    have hparse : Glob.parse? "**/b/*.json" = some (steps, false) := rfl
    rw [Glob.paths?, hparse]
    exact congrArg some (hall _)
  have hpaths := Inputs.pathsOf_of_matches rfl hglob
  have hload : inputs.load disk "" = .ok [⟨"b/y.json", .int 2⟩, ⟨"b/a/b/x.json", .int 1⟩] := by
    have hsources : inputs.paths disk = .ok ["b/y.json", "b/a/b/x.json"] := by
      unfold Inputs.paths
      rw [List.mapM_cons, hpaths]
      rfl
    unfold Inputs.load
    rw [hsources]
    rfl
  have hrun : report = _ := run_of_ok (carryOut_check rfl rfl hload (fun _ ↦ rfl) false)
  rw [hrun]
  refine ⟨rfl, ?_, hglob, by decide, by decide⟩
  simp [verdictLines, verdictLine, Primitive.admits]

end FlowTypes.Command
