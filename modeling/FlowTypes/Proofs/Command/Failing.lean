import FlowTypes.Command.Run
import FlowTypes.Proofs.Entries
import FlowTypes.Proofs.Steps

namespace FlowTypes

open Steps

namespace Disk

theorem filesUnder_append (base : String) (disk more : Disk) :
    filesUnder base (disk ++ more) = filesUnder base disk ++ filesUnder base more := by
  induction disk with
  | nil => rfl
  | cons entry disk ih => simp [filesUnder, ih]

theorem filesUnder_put_same (base : String) {disk : Disk} {name : String} {old new : Node}
    (hold : disk.lookup name = some old) (hnew : ∀ path, nodeFiles path new = nodeFiles path old) :
    filesUnder base (Entries.put name new disk) = filesUnder base disk := by
  induction disk with
  | nil => cases hold
  | cons entry disk ih =>
    obtain ⟨other, node⟩ := entry
    by_cases he : other = name
    · subst he
      obtain rfl : node = old := by simpa [List.lookup_cons] using hold
      simp [Entries.put, filesUnder, hnew]
    · have hl : disk.lookup name = some old := by
        simpa [List.lookup_cons, beq_eq_false_iff_ne.2 (Ne.symm he)] using hold
      simp [Entries.put, filesUnder, he, ih hl]

theorem filesUnder_put_folder {names : List String} {disk : Disk} (h : disk.get? names = none)
    (base : String) : filesUnder base (disk.put (.folder []) names) = filesUnder base disk := by
  induction names generalizing disk base with
  | nil => rfl
  | cons name names ih =>
    cases hl : disk.lookup name with
    | none =>
      cases names with
      | nil =>
        rw [put, Entries.put_of_not_mem _ (Entries.lookup_eq_none_iff_names.1 hl)]
        simp [filesUnder_append, filesUnder, nodeFiles]
      | cons => simp [put, hl]
    | some node =>
      cases node with
      | file content => cases names <;> simp_all [get?, put]
      | folder entries =>
        have hentries : get? names entries = none := by simpa [get?, hl] using h
        cases names with
        | nil => simp [get?] at hentries
        | cons =>
          simp only [put, hl]
          apply filesUnder_put_same base hl
          intro path
          simp [nodeFiles, ih hentries]

theorem files_makeFolders (made : Bool) (place : Place) (names : List String) (disk : Disk) :
    files (makeFolders made place names disk).2 = files disk := by
  induction names generalizing made place disk with
  | nil => cases place <;> rfl
  | cons name names ih =>
    cases place with
    | inside trail =>
      rw [makeFolders]
      split
      · exact ih made (.up trail) disk
      · rw [bind_of_ok (get_apply disk)]
        cases hget : disk.get? (name :: trail).reverse with
        | none =>
          dsimp only
          rw [bind_of_ok (modify_apply _ disk), ih]
          exact filesUnder_put_folder hget ""
        | some node =>
          cases node with
          | folder entries => exact ih made _ disk
          | file content => rfl
    | above | elsewhere => rfl

def Unchanged (before : Disk) (_ : Fault) (after : Disk) : Prop := after = before

theorem Unchanged.refl (disk : Disk) (fault : Fault) : Unchanged disk fault disk := rfl

theorem fails_write (path content : String) : Fails Unchanged (write path content) := by
  unfold write
  split
  · exact .throw .refl _
  · refine .bind .refl .get fun disk ↦ .bind .refl (.lift _) fun place ↦ ?_
    unfold writeAt
    refine .bind .refl .get fun disk ↦ ?_
    split
    · exact .throw .refl _
    · split
      · exact .throw .refl _
      · exact .throw .refl _
      · exact .of_succeeds (.modify _)
    · split
      · exact .throw .refl _
      · exact .of_succeeds (.pure _)

end Disk

namespace Command

open FlowTypes.Command.Action

/-- Failures to put the output where it belongs. -/
def Failure.ofOutput : Failure → Bool
  | .noFolder _ | .unwritable .. => true
  | _ => false

/-- Nothing has been printed, and the files are the same; so are the folders, unless the output
could not be written. -/
structure Harmless (before : World) (failure : Failure) (after : World) : Prop where
  stdout : after.stdout = before.stdout
  files : Disk.files after.disk = Disk.files before.disk
  disk : failure.ofOutput = false → after.disk = before.disk

theorem Harmless.refl (world : World) (failure : Failure) : Harmless world failure world :=
  ⟨rfl, rfl, fun _ ↦ rfl⟩

theorem succeeds_say (line : String) : Succeeds (say line) := .modify _

theorem succeeds_sayVerdict (quiet : Bool) (failed : Nat) (judged : Document × Bool) :
    Succeeds (sayVerdict quiet failed judged) := by
  unfold sayVerdict
  split
  · split
    · exact .pure _
    · exact (succeeds_say _).bind fun _ ↦ .pure _
  · exact (succeeds_say _).bind fun _ ↦ .pure _

theorem fails_runCheck (inputs : Inputs) (type : String) (bindings : Option String) (quiet : Bool)
    (stdin : String) : Fails Harmless (runCheck inputs type bindings quiet stdin) := by
  refine .bind .refl (.lift _) fun ty ↦ .bind .refl .get fun world ↦
    .bind .refl (.lift _) fun bindings ↦ .bind .refl .get fun world ↦
    .bind .refl (.lift _) fun documents ↦ .bind .refl (.lift _) fun verdicts ↦ .of_succeeds ?_
  -- From here on there are only lines to print.
  exact (Succeeds.foldlM (succeeds_sayVerdict quiet) _ 0).bind fun failed ↦
    (Succeeds.modify _).bind fun _ ↦ .pure _

theorem fails_runAccept (receiving received : String) (resolve : Bool) (bindings : Option String) :
    Fails Harmless (runAccept receiving received resolve bindings) := by
  refine .bind .refl (.lift _) fun a ↦ .bind .refl (.lift _) fun b ↦ .bind .refl .get fun world ↦
    .bind .refl (.lift _) fun bindings ↦ ?_
  split
  · exact .throw .refl _
  · refine .of_succeeds ((succeeds_say _).bind fun _ ↦ ?_)
    split
    · exact (Succeeds.forM (fun binding ↦ succeeds_say _) _).bind fun _ ↦ .pure _
    · exact .pure _

section

variable {step : Disk.Change Unit} {world : World} {disk : Disk} (wrap : Disk.Fault → Failure)

theorem change_of_ok (h : step world.disk = (.ok (), disk)) :
    change step wrap world = (.ok (), { world with disk }) := by
  unfold change
  rw [h]
  rfl

theorem change_of_error {fault : Disk.Fault} (h : step world.disk = (.error fault, disk)) :
    change step wrap world = (.error (wrap fault), { world with disk }) := by
  unfold change
  rw [h]
  rfl

end

theorem fails_deliver (out : Option String) (text : String) : Fails Harmless (deliver out text) := by
  cases out with
  | none => exact .of_succeeds (succeeds_say text)
  | some path =>
    intro before failure after h
    cases hmake : Disk.makeParent path before.disk with
    | mk result made =>
      have hfiles : Disk.files made = Disk.files before.disk := by
        have hf : Disk.files (Disk.makeParent path before.disk).2 = Disk.files before.disk :=
          Disk.files_makeFolders false (.start path) _ before.disk
        rwa [hmake] at hf
      cases result with
      | error fault =>
        cases (bind_of_error (change_of_error _ hmake)).symm.trans h
        exact ⟨rfl, hfiles, nofun⟩
      | ok =>
        replace h := (bind_of_ok (change_of_ok _ hmake)).symm.trans h
        cases hwrite : Disk.write path text made with
        | mk result disk =>
          cases result with
          | ok => cases (change_of_ok _ hwrite).symm.trans h
          | error fault =>
            obtain rfl : disk = made := Disk.fails_write path text _ _ _ hwrite
            cases (change_of_error _ hwrite).symm.trans h
            exact ⟨rfl, hfiles, nofun⟩

theorem fails_carryOut (request : Request) (stdin : String) :
    Fails Harmless (carryOut request stdin) := by
  cases request with
  | check inputs type bindings quiet => exact fails_runCheck inputs type bindings quiet stdin
  | accept receiving received resolve bindings =>
    exact fails_runAccept receiving received resolve bindings
  | infer inputs asTree out =>
    refine .bind .refl .get fun world ↦ .bind .refl (.lift _) fun documents ↦ ?_
    split
    · exact .throw .refl _
    · exact (fails_deliver out _).bind_succeeds fun _ ↦ .pure _
  | format type asTree =>
    exact .bind .refl (.lift _) fun ty ↦ .of_succeeds ((succeeds_say _).bind fun _ ↦ .pure _)

/-- A run that ends with a failure has printed nothing and left all files as they were, and no
folder is new unless the output could not be written. -/
theorem run_of_failure {request : Request} {disk : Disk} {stdin : String} {failure : Failure}
    (h : (run request disk stdin).failure = some failure) :
    (run request disk stdin).stdout = "" ∧
      Disk.files (run request disk stdin).disk = Disk.files disk ∧
      (failure.ofOutput = false → (run request disk stdin).disk = disk) := by
  unfold run at h ⊢
  cases hc : (carryOut request stdin).run ⟨"", "", disk⟩ with
  | mk result world =>
    rw [hc] at h
    cases result with
    | ok exit => cases h
    | error failure' =>
      cases h
      obtain ⟨hstdout, hfiles, hdisk⟩ := fails_carryOut request stdin _ _ _ hc
      exact ⟨hstdout, hfiles, hdisk⟩

theorem run_of_failure_late :
    let disk : Disk := [("a", .file "1\n\x7b"), ("b", .folder [])]
    let check := run (.check ⟨true, none, none, ["a"]⟩ "int" none false) disk ""
    let infer := run (.infer ⟨false, none, none, ["-"]⟩ false (some "b/c/d/")) disk "1"
    (check.failure = some (.badLine "a:2" .eof) ∧ check.stdout = "" ∧ check.disk = disk) ∧
      infer.failure = some (.unwritable "b/c/d/" .isDirectory) ∧ infer.stdout = "" ∧
      Disk.files infer.disk = Disk.files disk ∧
      infer.disk = [("a", .file "1\n\x7b"), ("b", .folder [("c", .folder [])])] := by
  intro disk check infer
  have hcheck : check.failure = some (.badLine "a:2" .eof) := rfl
  have hinfer : infer.failure = some (.unwritable "b/c/d/" .isDirectory) := rfl
  obtain ⟨hline, -, hdisk⟩ := run_of_failure hcheck
  obtain ⟨hout, hfiles, -⟩ := run_of_failure hinfer
  exact ⟨⟨hcheck, hline, hdisk rfl⟩, hinfer, hout, hfiles, rfl⟩

end Command

end FlowTypes
