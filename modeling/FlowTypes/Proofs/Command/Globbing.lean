import FlowTypes.Command.Glob
import FlowTypes.Proofs.Entries
import FlowTypes.Proofs.Results
import Mathlib.Data.List.DropRight
import Mathlib.Data.List.Lex
import Mathlib.Data.List.Sort
import Mathlib.Data.String.Basic

namespace FlowTypes

namespace Disk

/-- The names on a path, without those that stay in the same folder. -/
def route (path : String) : List String := (steps path).filter (· != ".")

theorem route_slash (path rest : String) :
    route (path ++ "/" ++ rest) = route path ++ route rest := by
  simp [route, steps, List.splitOn_append_cons_self]

def IsName (name : String) : Prop := route name = [name]

instance (name : String) : Decidable (IsName name) := inferInstanceAs (Decidable (_ = _))

mutual

/-- Every folder has distinct names, each of which is one step of a path. -/
def Proper : List (String × Node) → Prop
  | [] => True
  | (name, node) :: entries =>
    IsName name ∧ name ∉ Entries.names entries ∧ ProperNode node ∧ Proper entries

def ProperNode : Node → Prop
  | .file _ => True
  | .folder entries => Proper entries

end

variable {disk entries : Disk}

theorem Proper.lookup {name : String} {node : Node} (h : Proper disk)
    (hl : disk.lookup name = some node) : ProperNode node := by
  induction disk with
  | nil => cases hl
  | cons entry disk ih =>
    obtain ⟨other, first⟩ := entry
    obtain ⟨-, -, hnode, hrest⟩ := h
    by_cases he : name = other
    · obtain rfl : first = node := by simpa [List.lookup_cons, he] using hl
      exact hnode
    · exact ih hrest (by simpa [List.lookup_cons, beq_eq_false_iff_ne.2 he] using hl)

theorem Proper.get? {names : List String} (h : Proper disk)
    (hget : disk.get? names = some (.folder entries)) : Proper entries := by
  induction names generalizing disk with
  | nil =>
    cases hget
    exact h
  | cons name names ih =>
    unfold Disk.get? at hget
    split at hget
    · next inner hl => exact ih (h.lookup hl) hget
    · split at hget <;> cases hget
    · cases hget

theorem exists_place_of_find {path : String} {node : Node} (h : disk.find path = .ok node) :
    ∃ place : Place, place.node? disk = some node := by
  unfold find at h
  split at h
  · cases h
  · obtain ⟨place, -, h⟩ := ok_of_bind h
    split at h
    · next hnode =>
      cases h
      exact ⟨place, hnode⟩
    · cases h

theorem Proper.list? {path : String} (h : Proper disk) (hlist : disk.list? path = some entries) :
    Proper entries := by
  unfold Disk.list? at hlist
  split at hlist
  · next hfind =>
    cases hlist
    obtain ⟨place, hplace⟩ := exists_place_of_find hfind
    cases place with
    | inside trail => exact h.get? hplace
    | above =>
      cases hplace
      trivial
    | elsewhere => cases hplace
  · cases hlist

theorem Proper.nodup (h : Proper disk) : (Entries.names disk).Nodup := by
  induction disk with
  | nil => exact List.nodup_nil
  | cons entry disk ih =>
    obtain ⟨-, hmem, -, hrest⟩ := h
    exact List.nodup_cons.2 ⟨hmem, ih hrest⟩

theorem Proper.isName (h : Proper disk) {name : String} (hmem : name ∈ Entries.names disk) :
    IsName name := by
  induction disk with
  | nil => cases hmem
  | cons entry disk ih =>
    obtain ⟨hname, -, -, hrest⟩ := h
    rcases List.mem_cons.1 hmem with rfl | hmem
    · exact hname
    · exact ih hrest hmem

end Disk

namespace Glob

open Disk

theorem route_attach (path name : String) : route (attach path name) = route path ++ route name := by
  unfold attach
  split
  · next hlast =>
    obtain ⟨front, hfront⟩ := List.getLast?_eq_some_iff.1 hlast
    obtain rfl : path = String.ofList front ++ "/" := by
      rw [← String.toList_inj, hfront]
      simp
    have hfolder : route (String.ofList front ++ "/") = route (String.ofList front) := by
      have hempty : route "" = [] := by decide
      simpa [hempty] using route_slash (String.ofList front) ""
    rw [hfolder]
    exact route_slash _ name
  · exact route_slash path name

theorem route_join (path name : String) : route (join path name) = route path ++ route name := by
  unfold join
  split
  · next hhere =>
    have hpath : route path = [] := by
      simp only [isHere, Bool.and_eq_true, List.all_eq_true, beq_iff_eq] at hhere
      simpa [route] using hhere.2
    rw [hpath, List.nil_append]
  · exact route_attach path name

/-- The order of paths by the names on them. -/
def precedes (path path' : String) : Bool := route path ≤ route path'

/-- Paths below a path, in their order. -/
structure Below (path : String) (paths : List String) : Prop where
  within : ∀ result ∈ paths, route path <+: route result
  sorted : paths.Pairwise (precedes · ·)

variable {path : String} {paths : List String}

theorem Below.nil (path : String) : Below path [] := ⟨by simp, .nil⟩

theorem Below.ite (h : Below path paths) (c : Prop) [Decidable c] :
    Below path (if c then paths else []) := by
  split
  · exact h
  · exact .nil path

theorem Below.join {name : String} (h : Below (join path name) paths) : Below path paths := by
  refine ⟨fun result hr ↦ ?_, h.sorted⟩
  have hin := h.within result hr
  rw [route_join] at hin
  exact (List.prefix_append ..).trans hin

theorem Below.append {here : List String} (hhere : here = [] ∨ here = [path])
    (h : Below path paths) : Below path (here ++ paths) := by
  rcases hhere with rfl | rfl
  · exact h
  · refine ⟨by simpa using h.within, List.pairwise_cons.2 ⟨fun result hr ↦ ?_, h.sorted⟩⟩
    have hle := (h.within result hr).le
    exact decide_eq_true (not_lt.1 (List.not_lt.2 hle))

theorem precedes_of_lt {path' : String} {way : List String} {a b : String} (h : a < b)
    (ha : way ++ [a] <+: route path) (hb : way ++ [b] <+: route path') : precedes path path' := by
  obtain ⟨rest, ha⟩ := ha
  obtain ⟨rest', hb⟩ := hb
  have hlt : way ++ a :: rest < way ++ b :: rest' :=
    List.append_left_lt (List.cons_lt_cons_iff.2 (.inl h))
  rw [precedes, decide_eq_true_iff, ← ha, ← hb]
  simpa using hlt.le

theorem Below.flatMap {names : List String} {f : String → List String}
    (hnames : names.Pairwise (· < ·)) (hname : ∀ name ∈ names, IsName name)
    (h : ∀ name ∈ names, Below (Glob.join path name) (f name)) : Below path (names.flatMap f) := by
  have hin (name : String) (hm : name ∈ names) (result : String) (hr : result ∈ f name) :
      route path ++ [name] <+: route result := by
    have hin := (h name hm).within result hr
    rwa [route_join, hname name hm] at hin
  constructor
  · intro result hr
    obtain ⟨name, hm, hr⟩ := List.mem_flatMap.1 hr
    exact (h name hm).join.within result hr
  · refine List.pairwise_flatMap.2 ⟨fun name hm ↦ (h name hm).sorted, ?_⟩
    refine hnames.imp_of_mem fun ha hb hlt result hr result' hr' ↦ ?_
    exact precedes_of_lt hlt (hin _ ha result hr) (hin _ hb result' hr')

variable {disk : Disk}

theorem children_sorted (hdisk : Proper disk) {names : List String}
    (h : children disk path = some names) :
    names.Pairwise (· < ·) ∧ ∀ name ∈ names, IsName name := by
  obtain ⟨entries, hlist, rfl⟩ := Option.map_eq_some_iff.1 h
  have hentries := hdisk.list? hlist
  have hperm := List.mergeSort_perm (Entries.names entries) (· ≤ ·)
  have hnodup := hperm.nodup_iff.2 hentries.nodup
  constructor
  · exact (List.sortedLE_mergeSort.sortedLT_of_nodup hnodup).pairwise
  · exact fun name hm ↦ hentries.isName (hperm.mem_iff.1 hm)

theorem children_of_sorted {names : List String}
    (hnames : (disk.list? path).map Entries.names = some names) (h : names.Pairwise (· ≤ ·)) :
    children disk path = some names := by
  obtain ⟨entries, hlist, rfl⟩ := Option.map_eq_some_iff.1 hnames
  rw [children, hlist, Option.map_some, List.mergeSort_of_pairwise (by simpa using h)]

/-- Steps whose paths come in order: what is found at any depth is the last step, and no step with
wildcards stands for dots. -/
def Regular : List Step → Prop
  | [] => True
  | .folders :: steps => (steps.dropWhile (· == .folders)).length ≤ 1
  | .name parts :: steps => (literal? parts = none → dotNames parts = []) ∧ Regular steps

theorem expand_nil (disk : Disk) (foldersOnly : Bool) (fuel : Nat) (path : String) :
    expand disk foldersOnly fuel [] path = [] ∨ expand disk foldersOnly fuel [] path = [path] := by
  cases fuel with
  | zero => exact .inl rfl
  | succ fuel =>
    unfold expand result
    split
    · exact .inl rfl
    · exact .inr rfl

theorem below_expand (hdisk : Proper disk) (foldersOnly : Bool) (fuel : Nat) {steps : List Step}
    (hsteps : Regular steps) (path : String) :
    Below path (expand disk foldersOnly fuel steps path) := by
  induction fuel generalizing steps path with
  | zero => exact .nil path
  | succ fuel ih =>
    match steps with
    | [] => simpa using Below.append (expand_nil disk foldersOnly (fuel + 1) path) (.nil path)
    | .name parts :: steps =>
      obtain ⟨hdots, hsteps⟩ := hsteps
      rw [expand]
      split
      · exact (ih hsteps _).join.ite _
      · next hliteral =>
        split
        · exact .nil path
        · next names hnames =>
          obtain ⟨hsorted, hname⟩ := children_sorted hdisk hnames
          rw [hdots hliteral, List.flatMap_nil, List.nil_append]
          exact .flatMap hsorted hname fun name _ ↦ (ih hsteps _).ite _
    | .folders :: steps =>
      rw [expand]
      split
      · exact .nil path
      · next names hnames =>
        obtain ⟨hsorted, hname⟩ := children_sorted hdisk hnames
        refine .flatMap hsorted hname fun name _ ↦ .append ?_ (ih ?_ _)
        · split
          · exact (ite_eq_or_eq ..).symm
          · next parts rest hlast =>
            obtain rfl : rest = [] := by simpa [Regular, hlast] using hsteps
            split
            · exact expand_nil ..
            · exact .inl rfl
          · exact .inl rfl
        · rwa [Regular, List.dropWhile_idempotent]

def IsRegular (pattern : String) : Prop :=
  ∃ steps foldersOnly, parse? pattern = some (steps, foldersOnly) ∧ Regular steps

theorem pairwise_of_isRegular (hdisk : Proper disk) {pattern : String} (h : IsRegular pattern)
    (hpaths : paths? disk pattern = some paths) : paths.Pairwise (precedes · ·) := by
  obtain ⟨steps, foldersOnly, hparse, hregular⟩ := h
  simp only [paths?, hparse, Option.bind_eq_bind, Option.bind_some] at hpaths
  split at hpaths
  · cases hpaths
    exact .nil
  · cases hpaths
    exact (below_expand hdisk foldersOnly _ hregular ".").sorted

end Glob

end FlowTypes
