import FlowTypes.Proofs.Entries
import FlowTypes.Proofs.Pairs
import FlowTypes.Proofs.Results
import FlowTypes.Proofs.Ty.Session
import FlowTypes.Suite.Run
import Mathlib.Data.List.Perm.Subperm

namespace FlowTypes

open Entries

theorem Ty.lasts_nodup : Lasts (fun _ ↦ True) fun ρ τ ↦ ρ.names.Nodup → τ.names.Nodup where
  refl _ := id
  trans h h' := h' ∘ h
  put _ _ h hd := nodup_names_put _ (h hd)

namespace Suite

section

variable {bindings expected : Bindings}

theorem misbound_eq_none_iff {entry : String × Ty} :
    misbound bindings entry = none ↔ ∃ t, bindings.lookup entry.1 = some t ∧ t.same entry.2 := by
  unfold misbound
  cases bindings.lookup entry.1 with
  | none => simp
  | some t => simp

/-- Names are distinct on both sides, so as many bindings that are found under all expected names
are all that there are. -/
theorem differs_eq_none_iff (hb : bindings.names.Nodup) (he : expected.names.Nodup) :
    differs bindings expected = none ↔
      (∀ name, name ∈ bindings.names ↔ name ∈ expected.names) ∧
        ∀ entry ∈ expected, ∃ t, bindings.lookup entry.1 = some t ∧ t.same entry.2 := by
  have hlength (entries : Bindings) : entries.names.length = entries.length := List.length_map ..
  unfold differs
  constructor
  · intro h
    split at h
    · next hsize =>
      have hfound (entry : String × Ty) (hentry : entry ∈ expected) :
          ∃ t, bindings.lookup entry.1 = some t ∧ t.same entry.2 :=
        misbound_eq_none_iff.1 (List.findSome?_eq_none_iff.1 h entry hentry)
      have hsub : expected.names ⊆ bindings.names := by
        intro name hmem
        obtain ⟨entry, hentry, rfl⟩ := List.mem_map.1 hmem
        obtain ⟨t, ht, -⟩ := hfound entry hentry
        exact mem_names_of_lookup ht
      have hperm : expected.names.Perm bindings.names :=
        (he.subperm hsub).perm_of_length_le (by simp [hlength, hsize])
      exact ⟨fun name ↦ hperm.mem_iff.symm, hfound⟩
    · cases h
  · rintro ⟨hnames, hfound⟩
    have hperm := (List.perm_ext_iff_of_nodup hb he).2 hnames
    rw [if_pos (by rw [← hlength, ← hlength, hperm.length_eq]), List.findSome?_eq_none_iff]
    exact fun entry hentry ↦ misbound_eq_none_iff.2 (hfound entry hentry)

end

/-- Bindings of the names in their order, to the types that the texts stand for. -/
def Spell (texts : Entries String) (bindings : Bindings) : Prop :=
  List.Forall₂ (fun text entry ↦ entry.1 = text.1 ∧ Notation.parse text.2 = .ok entry.2)
    texts bindings

section

variable {text : String} {ty : Ty} {texts : Entries String} {bindings expected after : Bindings}

theorem parseType_eq_ok_iff : parseType text = .ok ty ↔ Notation.parse text = .ok ty := by
  constructor
  · exact ok_of_mapError
  · intro h
    rw [parseType, h]
    rfl

theorem parseBindings_eq_ok_iff : parseBindings texts = .ok bindings ↔ Spell texts bindings := by
  rw [parseBindings, mapM_eq_ok_iff]
  constructor
  · refine List.Forall₂.imp fun text entry h ↦ ?_
    obtain ⟨ty, hty, h⟩ := ok_of_bind h
    cases h
    exact ⟨rfl, parseType_eq_ok_iff.1 hty⟩
  · refine List.Forall₂.imp fun text entry h ↦ ?_
    rw [parseType_eq_ok_iff.2 h.2, ← h.1]
    rfl

theorem Spell.names_eq (h : Spell texts bindings) : bindings.names = texts.names := by
  induction h with
  | nil => rfl
  | cons hentry hrest ih => exact congrArg₂ List.cons hentry.1 ih

/-- The names of the texts are bound and no others, each to the type that its text stands for. -/
structure AsSpelled (texts : Entries String) (bindings : Bindings) : Prop where
  names : ∀ name, name ∈ bindings.names ↔ name ∈ texts.names
  types : ∀ text ∈ texts, ∃ ty bound,
    Notation.parse text.2 = .ok ty ∧ bindings.lookup text.1 = some bound ∧ bound.same ty

theorem differs_eq_none_iff_asSpelled (h : Spell texts expected) (hafter : after.names.Nodup)
    (hnodup : texts.names.Nodup) : differs after expected = none ↔ AsSpelled texts after := by
  rw [differs_eq_none_iff hafter (h.names_eq ▸ hnodup), h.names_eq]
  constructor
  · rintro ⟨hnames, hfound⟩
    refine ⟨hnames, fun text htext ↦ ?_⟩
    obtain ⟨entry, hentry, hname, hty⟩ := exists_of_mem_forall₂ h.flip htext
    obtain ⟨bound, hbound, hsame⟩ := hfound entry hentry
    exact ⟨entry.2, bound, hty, hname ▸ hbound, hsame⟩
  · rintro ⟨hnames, hfound⟩
    refine ⟨hnames, fun entry hentry ↦ ?_⟩
    obtain ⟨text, htext, hname, hty⟩ := exists_of_mem_forall₂ h hentry
    obtain ⟨ty, bound, hty', hbound, hsame⟩ := hfound text htext
    cases hty.symm.trans hty'
    exact ⟨bound, hname ▸ hbound, hsame⟩

end

namespace CheckCase

variable {case : CheckCase} {verdict : Bool}

/-- The verdict of the check on the value, or on none. -/
def HasVerdict (case : CheckCase) (verdict : Bool) : Prop :=
  ∃ ty bindings, Notation.parse case.type = .ok ty ∧ Spell case.bindings bindings ∧
    ty.check? bindings [] (if case.absent then none else some case.value) = some verdict

def Settled (case : CheckCase) : Prop := ∃ verdict, case.HasVerdict verdict

def Passes (case : CheckCase) : Prop := case.HasVerdict case.expect

theorem run_of_verdict (h : case.HasVerdict verdict) : case.run =
    .ok (if verdict = case.expect then none else some (unexpected case.expect verdict)) := by
  obtain ⟨ty, bindings, hty, hbindings, hcheck⟩ := h
  rw [run, parseType_eq_ok_iff.2 hty, ok_bind, parseBindings_eq_ok_iff.2 hbindings, ok_bind, hcheck]
  rfl

theorem run_of_settled (h : case.Settled) :
    ∃ wrong, case.run = .ok wrong ∧ (wrong = none ↔ case.Passes) := by
  obtain ⟨verdict, hverdict⟩ := h
  refine ⟨_, run_of_verdict hverdict, ?_⟩
  constructor
  · intro hnone
    obtain rfl : verdict = case.expect := by simpa using hnone
    exact hverdict
  · intro hpasses
    have hrun := (run_of_verdict hverdict).symm.trans (run_of_verdict hpasses)
    simpa using hrun

end CheckCase

namespace MatchCase

variable {case : MatchCase} {verdict : Bool} {after : Bindings}

/-- The verdict of the match and the bindings after it. -/
def HasOutcome (case : MatchCase) (verdict : Bool) (after : Bindings) : Prop :=
  ∃ receiving received bindings, Notation.parse case.receiving = .ok receiving ∧
    Notation.parse case.received = .ok received ∧ Spell case.bindings bindings ∧
    Ty.accept? ⟨false, case.resolve⟩ receiving received (some bindings) =
      some (verdict, some after)

/-- All types can be read, also those that names are expected to be bound to, and there is a
verdict. -/
structure Settled (case : MatchCase) : Prop where
  outcome : ∃ verdict after, case.HasOutcome verdict after
  result : ∀ texts ∈ case.result, ∃ expected, Spell texts expected

/-- The verdict is the expected one, and so are the bindings if any are expected. -/
def Passes (case : MatchCase) : Prop :=
  ∃ after, case.HasOutcome case.expect after ∧ ∀ texts ∈ case.result, AsSpelled texts after

structure Distinct (case : MatchCase) : Prop where
  bindings : case.bindings.names.Nodup
  result : ∀ texts ∈ case.result, texts.names.Nodup

theorem HasOutcome.unique {verdict' : Bool} {after' : Bindings} (h : case.HasOutcome verdict after)
    (h' : case.HasOutcome verdict' after') : verdict' = verdict ∧ after' = after := by
  obtain ⟨receiving, received, bindings, hreceiving, hreceived, hbindings, haccept⟩ := h
  obtain ⟨receiving', received', bindings', hreceiving', hreceived', hbindings', haccept'⟩ := h'
  rw [← parseBindings_eq_ok_iff] at hbindings hbindings'
  cases hreceiving.symm.trans hreceiving'
  cases hreceived.symm.trans hreceived'
  cases hbindings.symm.trans hbindings'
  cases haccept.symm.trans haccept'
  exact ⟨rfl, rfl⟩

theorem HasOutcome.nodup (h : case.HasOutcome verdict after) (hd : case.Distinct) :
    after.names.Nodup := by
  obtain ⟨receiving, received, bindings, -, -, hbindings, haccept⟩ := h
  obtain ⟨after', hafter', hkeeps⟩ :=
    Ty.lasts_nodup.acceptWithin Ty.hereditary_true _ _ receiving trivial _ _ _ haccept
  cases hafter'
  exact hkeeps (hbindings.names_eq ▸ hd.bindings)

theorem HasOutcome.run_eq (h : case.HasOutcome verdict after) : case.run =
    if verdict = case.expect then
      match case.result with
      | none => .ok none
      | some texts => parseBindings texts >>= fun expected ↦ .ok (differs after expected)
    else .ok (some (unexpected case.expect verdict)) := by
  obtain ⟨receiving, received, bindings, hreceiving, hreceived, hbindings, haccept⟩ := h
  rw [run, parseType_eq_ok_iff.2 hreceiving, ok_bind, parseType_eq_ok_iff.2 hreceived, ok_bind,
    parseBindings_eq_ok_iff.2 hbindings, ok_bind, haccept]
  rfl

theorem run_of_settled (hd : case.Distinct) (h : case.Settled) :
    ∃ wrong, case.run = .ok wrong ∧ (wrong = none ↔ case.Passes) := by
  obtain ⟨⟨verdict, after, houtcome⟩, hresult⟩ := h
  have hpasses : case.Passes ↔
      verdict = case.expect ∧ ∀ texts ∈ case.result, AsSpelled texts after := by
    constructor
    · rintro ⟨after', houtcome', hspelled⟩
      obtain ⟨rfl, rfl⟩ := houtcome'.unique houtcome
      exact ⟨rfl, hspelled⟩
    · rintro ⟨rfl, hspelled⟩
      exact ⟨after, houtcome, hspelled⟩
  rw [houtcome.run_eq, hpasses]
  by_cases hverdict : verdict = case.expect
  · rw [if_pos hverdict]
    cases htexts : case.result with
    | none => exact ⟨none, rfl, by simp [hverdict]⟩
    | some texts =>
      obtain ⟨expected, hexpected⟩ := hresult texts htexts
      refine ⟨differs after expected, ?_, ?_⟩
      · exact congrArg (· >>= _) (parseBindings_eq_ok_iff.2 hexpected)
      · rw [differs_eq_none_iff_asSpelled hexpected (houtcome.nodup hd) (hd.result texts htexts)]
        simp [hverdict]
  · rw [if_neg hverdict]
    exact ⟨_, rfl, by simp [hverdict]⟩

end MatchCase

section

variable {json : Json}

theorem nodup_texts {texts : Entries String} (h : texts? json = some texts) :
    texts.names.Nodup := by
  unfold texts? at h
  split at h
  · obtain ⟨pairs, -, h⟩ := Option.bind_eq_some_iff.1 h
    cases h
    have hperm := List.mergeSort_perm (collect pairs) fun a b ↦ a.1 ≤ b.1
    exact (hperm.map _).nodup_iff.2 (nodup_names_collect pairs)
  · cases h

theorem of_default {α : Type} {P : α → Prop} {members : Entries Json} {name : String}
    {read : Json → Option α} {value a : α} (h : default? members name read value = some a)
    (hvalue : P value) (hread : ∀ json a, read json = some a → P a) : P a := by
  unfold default? at h
  split at h
  · cases h
    exact hvalue
  · exact hread _ _ h

theorem MatchCase.distinct_of_json {case : MatchCase} (h : matchCase? json = some case) :
    case.Distinct := by
  obtain ⟨members, -, h⟩ := Option.bind_eq_some_iff.1 h
  obtain ⟨name, -, h⟩ := Option.bind_eq_some_iff.1 h
  obtain ⟨receiving, -, h⟩ := Option.bind_eq_some_iff.1 h
  obtain ⟨received, -, h⟩ := Option.bind_eq_some_iff.1 h
  obtain ⟨resolve, -, h⟩ := Option.bind_eq_some_iff.1 h
  obtain ⟨bindings, hbindings, h⟩ := Option.bind_eq_some_iff.1 h
  obtain ⟨result, hresult, h⟩ := Option.bind_eq_some_iff.1 h
  obtain ⟨expect, -, h⟩ := Option.bind_eq_some_iff.1 h
  cases h
  constructor
  · exact of_default (P := fun texts : Entries String ↦ texts.names.Nodup) hbindings
      List.nodup_nil fun _ _ ↦ nodup_texts
  · refine of_default (P := fun result ↦ ∀ texts ∈ result, names texts |>.Nodup) hresult
      (by simp) ?_
    intro json result h texts htexts
    unfold orNull? at h
    split at h
    · cases h
      cases htexts
    · obtain ⟨given, hgiven, rfl⟩ := Option.map_eq_some_iff.1 h
      cases htexts
      exact nodup_texts hgiven

theorem distinct_of_ofJson {suite : Suite} (h : ofJson? json = some suite) {case : MatchCase}
    (hmem : case ∈ suite.matchings) : case.Distinct := by
  obtain ⟨members, -, h⟩ := Option.bind_eq_some_iff.1 h
  obtain ⟨checks, -, h⟩ := Option.bind_eq_some_iff.1 h
  obtain ⟨matchings, -, h⟩ := Option.bind_eq_some_iff.1 h
  obtain ⟨checkCases, -, h⟩ := Option.bind_eq_some_iff.1 h
  obtain ⟨matchCases, hcases, h⟩ := Option.bind_eq_some_iff.1 h
  cases h
  obtain ⟨item, -, hitem⟩ := exists_of_mem_forall₂ (forall₂_of_mapM hcases) hmem
  exact MatchCase.distinct_of_json hitem

end

theorem distinct_of_load {disk : Disk} {path : String} {suite : Suite}
    (h : loadSuite disk path = .ok suite) {case : MatchCase} (hmem : case ∈ suite.matchings) :
    case.Distinct := by
  unfold loadSuite at h
  split at h
  · cases h
  · split at h
    · next hread =>
      cases h
      unfold read? at hread
      split at hread
      · exact distinct_of_ofJson hread hmem
      · cases hread
    · cases h

end Suite

end FlowTypes
