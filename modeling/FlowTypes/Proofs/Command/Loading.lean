import FlowTypes.Command.Documents
import FlowTypes.Proofs.Command.Globbing
import FlowTypes.Proofs.Enumeration

namespace FlowTypes.Command.Inputs

variable (inputs : Inputs) (disk : Disk)

/-- The label and the text of a source. The standard input is empty once it has been read. -/
def sourceAt? (stdin : String) (paths : List String) (place : Nat) : Option (String × String) := do
  let path ← paths[place]?
  if isStandard path then
    return ("<stdin>", if (paths.take place).any isStandard then "" else stdin)
  else return (path, ← (disk.read path).toOption)

/-- The label and the text of a piece of a source that is to be a JSON text: a line that is not
blank, or all of the source. -/
def pieceAt? (label text : String) (place : Nat) : Option (String × String) :=
  if inputs.byLine then do
    let line ← (lines text)[place]?
    if isBlankLine line then none else return (label ++ ":" ++ (place + 1).repr, line)
  else if place = 0 then some (label, text) else none

def pointed? (value : Json) : Option Json :=
  match inputs.pointer with
  | none => some value
  | some pointer => value.pointer? pointer

def queried? (value : Json) : Option (List Json) :=
  match inputs.query with
  | none => some [value]
  | some query => Json.Query.parse? query >>= (·.results? value)

def labelled? (label : String) (values : List Json) (place : Nat) : Option Document := do
  return ⟨if 1 < values.length then label ++ "#" ++ place.repr else label, ← values[place]?⟩

def inPiece? (label text : String) (place : Nat) : Option Document := do
  let value ← (Json.read text).toOption
  labelled? label (← inputs.queried? (← inputs.pointed? value)) place

def inSource? (label text : String) (place : Nat ×ₗ Nat) : Option Document := do
  let piece ← inputs.pieceAt? label text (ofLex place).1
  inputs.inPiece? piece.1 piece.2 (ofLex place).2

/-- The document that comes from a source, a piece of it and a value selected there. -/
def documentAt? (stdin : String) (paths : List String) (place : Nat ×ₗ Nat ×ₗ Nat) :
    Option Document := do
  let source ← sourceAt? disk stdin paths (ofLex place).1
  inputs.inSource? source.1 source.2 (ofLex place).2

theorem enumerates_numbered (label : String) (values : List Json) :
    Enumerates (labelled? label values) (numbered label values) := by
  have h : labelled? label values = fun place ↦ (numbered label values)[place]? := by
    funext place
    match values with
    | [] => rfl
    | [value] => cases place <;> rfl
    | first :: second :: rest =>
      simp only [labelled?, numbered, List.getElem?_map, List.getElem?_zipIdx, Option.map_map]
      cases (first :: second :: rest)[place]? <;> simp
  rw [h]
  exact enumerates_getElem? _

variable {inputs disk} {documents : List Document}

theorem pointed?_of_pointed {label : String} {value part : Json}
    (h : inputs.pointed label value = .ok part) : inputs.pointed? value = some part := by
  unfold pointed at h
  unfold pointed?
  cases hpointer : inputs.pointer with
  | none =>
    rw [hpointer] at h
    exact congrArg some (Except.ok.inj h)
  | some pointer =>
    simp only [hpointer] at h ⊢
    cases hpart : value.pointer? pointer with
    | none => simp [hpart] at h
    | some found =>
      rw [hpart] at h
      exact congrArg some (Except.ok.inj h)

theorem queried?_of_queried {label : String} {value : Json} {values : List Json}
    (h : inputs.queried label value = .ok values) : inputs.queried? value = some values := by
  unfold queried at h
  unfold queried?
  cases hquery : inputs.query with
  | none =>
    rw [hquery] at h
    exact congrArg some (Except.ok.inj h)
  | some query =>
    simp only [hquery] at h ⊢
    cases hvalues : Json.Query.parse? query >>= (·.results? value) with
    | none => simp [hvalues] at h
    | some found =>
      rw [hvalues] at h
      exact congrArg some (Except.ok.inj h)

theorem enumerates_select {label text : String} {value : Json} (hread : Json.read text = .ok value)
    (h : inputs.select label value = .ok documents) :
    Enumerates (inputs.inPiece? label text) documents := by
  obtain ⟨part, hpart, h⟩ := ok_of_bind h
  obtain ⟨values, hvalues, h⟩ := ok_of_bind h
  obtain rfl := Except.ok.inj h
  have hin : inputs.inPiece? label text = labelled? label values := by
    funext place
    simp [inPiece?, hread, pointed?_of_pointed hpart, queried?_of_queried hvalues, Except.toOption]
  rw [hin]
  exact enumerates_numbered label values

theorem enumerates_inSource {label text label' text' : String} {n : Nat} {value : Json}
    (hpiece : inputs.pieceAt? label text n = some (label', text'))
    (hread : Json.read text' = .ok value) (h : inputs.select label' value = .ok documents) :
    Enumerates (fun i ↦ inputs.inSource? label text (toLex (n, i))) documents := by
  have hin : (fun i ↦ inputs.inSource? label text (toLex (n, i))) =
      inputs.inPiece? label' text' := by
    funext i
    simp [inSource?, hpiece]
  rw [hin]
  exact enumerates_select hread h

theorem inSource?_eq_none {label text : String} {n : Nat}
    (h : inputs.pieceAt? label text n = none) (i : Nat) :
    inputs.inSource? label text (toLex (n, i)) = none := by
  simp [inSource?, h]

theorem enumerates_ofSource {label text : String}
    (h : inputs.ofSource label text = .ok documents) :
    Enumerates (inputs.inSource? label text) documents := by
  unfold ofSource at h
  split at h
  · next hline =>
    have hpiece : inputs.pieceAt? label text = fun n ↦ (lines text)[n]?.bind fun line ↦
        if isBlankLine line then none else some (label ++ ":" ++ (n + 1).repr, line) := by
      funext n
      simp [pieceAt?, hline]
    obtain ⟨groups, hgroups, h⟩ := ok_of_bind h
    obtain rfl := Except.ok.inj h
    have hplace (n : Nat) : (lines text)[n]? = none ∧ groups[n]? = none ∨
        ∃ line group, (lines text)[n]? = some line ∧ groups[n]? = some group ∧
          inputs.ofLine label (line, n) = .ok group := by
      simpa [List.getElem?_zipIdx] using getElem?_of_mapM hgroups n
    apply enumerates_flatten
    · intro n group hgroup
      obtain ⟨-, hnone⟩ | ⟨line, group', hl, hg, hof⟩ := hplace n
      · simp [hnone] at hgroup
      obtain rfl : group' = group := Option.some_inj.1 (hg.symm.trans hgroup)
      unfold ofLine at hof
      split at hof
      · next hblank =>
        cases hof
        exact enumerates_nil (inSource?_eq_none (by simp [hpiece, hl, hblank]))
      · next hblank =>
        obtain ⟨value, hread, hof⟩ := ok_of_bind hof
        refine enumerates_inSource ?_ (ok_of_mapError hread) hof
        simp [hpiece, hl, hblank]
    · intro n i hgroup
      obtain ⟨hl, -⟩ | ⟨line, group, -, hg, -⟩ := hplace n
      · exact inSource?_eq_none (by simp [hpiece, hl]) i
      · simp [hg] at hgroup
  · next hline =>
    obtain ⟨value, hread, h⟩ := ok_of_bind h
    rw [← List.flatten_singleton (l := documents)]
    apply enumerates_flatten
    · intro n group hgroup
      cases n with
      | zero =>
        cases hgroup
        exact enumerates_inSource (by simp [pieceAt?, hline]) (ok_of_mapError hread) h
      | succ n => cases hgroup
    · intro n i hgroup
      cases n with
      | zero => cases hgroup
      | succ n => exact inSource?_eq_none (by simp [pieceAt?, hline]) i

def leftAfter (path stdin : String) : String := if isStandard path then "" else stdin

theorem sourceAt?_succ (path stdin : String) (paths : List String) (n : Nat) :
    sourceAt? disk stdin (path :: paths) (n + 1) =
      sourceAt? disk (leftAfter path stdin) paths n := by
  by_cases hpath : isStandard path <;> simp [sourceAt?, leftAfter, hpath]

theorem enumerates_ofPaths {stdin : String} {paths : List String}
    (h : inputs.ofPaths disk stdin paths = .ok documents) :
    Enumerates (inputs.documentAt? disk stdin paths) documents := by
  induction paths generalizing stdin documents with
  | nil =>
    cases h
    exact enumerates_nil fun place ↦ by simp [documentAt?, sourceAt?]
  | cons path paths ih =>
    have hrest {rest : List Document}
        (h : inputs.ofPaths disk (leftAfter path stdin) paths = .ok rest) :
        Enumerates (fun p ↦ inputs.documentAt? disk stdin (path :: paths) (later p)) rest := by
      have hlater : (fun p ↦ inputs.documentAt? disk stdin (path :: paths) (later p)) =
          inputs.documentAt? disk (leftAfter path stdin) paths := by
        funext p
        simp only [documentAt?, later, ofLex_toLex, sourceAt?_succ]
      rw [hlater]
      exact ih h
    unfold ofPaths at h
    split at h
    · next hstandard =>
      obtain ⟨here, hhere, h⟩ := ok_of_bind h
      obtain ⟨rest, h', h⟩ := ok_of_bind h
      obtain rfl := Except.ok.inj h
      apply Enumerates.cons
      · simpa [documentAt?, sourceAt?, hstandard] using enumerates_ofSource hhere
      · exact hrest (by simpa [leftAfter, hstandard] using h')
    · next hstandard =>
      obtain ⟨text, htext, h⟩ := ok_of_bind h
      obtain ⟨here, hhere, h⟩ := ok_of_bind h
      obtain ⟨rest, h', h⟩ := ok_of_bind h
      obtain rfl := Except.ok.inj h
      apply Enumerates.cons
      · simpa [documentAt?, sourceAt?, hstandard, ok_of_mapError htext, Except.toOption]
          using enumerates_ofSource hhere
      · exact hrest (by simpa [leftAfter, hstandard] using h')

theorem pathsOf_of_matches {pattern first : String} {rest : List String}
    (hpattern : Glob.isPattern pattern) (h : Glob.paths? disk pattern = some (first :: rest)) :
    pathsOf disk pattern = .ok (first :: rest) := by
  rw [pathsOf, if_pos hpattern, h]

/-- The paths that an argument stands for: those that match it, if it is a pattern. -/
def standsFor (disk : Disk) (argument : String) : List String :=
  if Glob.isPattern argument then (Glob.paths? disk argument).getD [] else [argument]

theorem pathsOf_eq_standsFor {argument : String} {paths : List String}
    (h : pathsOf disk argument = .ok paths) : paths = standsFor disk argument := by
  unfold pathsOf at h
  unfold standsFor
  split at h
  · next hpattern =>
    rw [if_pos hpattern]
    split at h
    · cases h
    · cases h
    · next hmatched =>
      cases h
      rw [hmatched, Option.getD_some]
  · next hpattern =>
    cases h
    rw [if_neg hpattern]

theorem standsFor_pairwise (hdisk : Disk.Proper disk) {pattern : String}
    (hregular : Glob.IsRegular pattern) : (standsFor disk pattern).Pairwise (Glob.precedes · ·) := by
  unfold standsFor
  split
  · cases hpaths : Glob.paths? disk pattern with
    | none => exact .nil
    | some paths => exact Glob.pairwise_of_isRegular hdisk hregular hpaths
  · exact List.pairwise_singleton ..

theorem paths_eq_flatMap {paths : List String} (h : inputs.paths disk = .ok paths) :
    paths = inputs.sources.flatMap (standsFor disk) := by
  obtain ⟨groups, hgroups, h⟩ := ok_of_bind h
  obtain rfl := Except.ok.inj h
  rw [List.flatMap_def, eq_map_of_mapM hgroups]
  exact fun argument _ paths hpaths ↦ pathsOf_eq_standsFor hpaths

theorem enumerates_load {stdin : String} (h : inputs.load disk stdin = .ok documents) :
    Enumerates (inputs.documentAt? disk stdin (inputs.sources.flatMap (standsFor disk)))
      documents := by
  obtain ⟨paths, hpaths, h⟩ := ok_of_bind h
  rw [← paths_eq_flatMap hpaths]
  exact enumerates_ofPaths h

end FlowTypes.Command.Inputs
