import FlowTypes.Entries
import Mathlib.Data.List.Induction
import Mathlib.Data.List.Nodup

namespace FlowTypes

theorem mem_of_lookup {α : Type} {entries : Entries α} {name : String} {x : α}
    (h : entries.lookup name = some x) : (name, x) ∈ entries := by
  induction entries with
  | nil => simp at h
  | cons entry rest ih =>
    obtain ⟨other, y⟩ := entry
    rw [List.lookup_cons] at h
    split at h
    · next he => simp_all
    · exact List.mem_cons_of_mem _ (ih h)

theorem lookup_of_mem {α : Type} {entries : Entries α} (hd : entries.names.Nodup)
    {m : String × α} (hm : m ∈ entries) : entries.lookup m.1 = some m.2 := by
  induction entries with
  | nil => simp at hm
  | cons e entries ih =>
    rw [Entries.names, List.map_cons, List.nodup_cons] at hd
    rw [List.lookup_cons]
    cases hm with
    | head => simp
    | tail _ hm =>
      have hne : (m.1 == e.1) = false := by
        rw [beq_eq_false_iff_ne]
        intro he
        exact hd.1 (he ▸ List.mem_map_of_mem hm)
      simp only [hne]
      exact ih hd.2 hm

section

variable {α : Type} (name : String) (x : α)

theorem lookup_put_self (entries : Entries α) : (entries.put name x).lookup name = some x := by
  induction entries with
  | nil => simp [Entries.put]
  | cons entry rest ih =>
    obtain ⟨other, y⟩ := entry
    rw [Entries.put]
    split
    · next h => simp [beq_iff_eq.1 h]
    · next h =>
      have hne : (name == other) = false := beq_eq_false_iff_ne.2 fun he ↦ h (by simp [he])
      rw [List.lookup_cons, hne]
      exact ih

theorem lookup_put_of_ne {other : String} (h : other ≠ name) (entries : Entries α) :
    (entries.put name x).lookup other = entries.lookup other := by
  induction entries with
  | nil =>
    rw [Entries.put, List.lookup_cons, beq_eq_false_iff_ne.2 h]
  | cons entry rest ih =>
    obtain ⟨first, y⟩ := entry
    rw [Entries.put]
    split
    · next he =>
      have hne : (other == first) = false := by simpa [beq_iff_eq.1 he] using h
      rw [List.lookup_cons, List.lookup_cons, hne]
    · rw [List.lookup_cons, List.lookup_cons, ih]

theorem mem_put {entries : Entries α} {entry : String × α} (h : entry ∈ entries.put name x) :
    entry.2 = x ∨ entry ∈ entries := by
  induction entries with
  | nil =>
    obtain rfl := List.mem_singleton.1 h
    exact .inl rfl
  | cons first rest ih =>
    rw [Entries.put] at h
    split at h <;> obtain rfl | h := List.mem_cons.1 h
    · exact .inl rfl
    · exact .inr (List.mem_cons_of_mem _ h)
    · exact .inr List.mem_cons_self
    · exact (ih h).imp_right (List.mem_cons_of_mem _)

theorem names_prefix_put (entries : Entries α) : entries.names <+: (entries.put name x).names := by
  induction entries with
  | nil => exact List.nil_prefix
  | cons entry rest ih =>
    rw [Entries.put]
    split
    · exact List.prefix_rfl
    · exact (List.cons_prefix_cons).2 ⟨rfl, ih⟩

end

namespace Entries

variable {α : Type} {entries : Entries α} {name : String}

theorem lookup_eq_none_iff_names : entries.lookup name = none ↔ name ∉ entries.names := by
  rw [List.lookup_eq_none_iff]
  simp only [names, List.mem_map, not_exists, not_and, bne_iff_ne]
  exact ⟨fun h entry he ↦ (h entry he).symm, fun h entry he ↦ Ne.symm (h entry he)⟩

theorem mem_names_of_lookup {x : α} (h : entries.lookup name = some x) : name ∈ entries.names :=
  List.mem_map.2 ⟨(name, x), mem_of_lookup h, rfl⟩

theorem eq_of_lookup {other : Entries α} (hnames : entries.names = other.names)
    (hd : entries.names.Nodup) (h : ∀ name, entries.lookup name = other.lookup name) :
    entries = other := by
  have hd' : other.names.Nodup := hnames ▸ hd
  have hlength : entries.length = other.length := by
    simpa [names] using congrArg List.length hnames
  refine List.ext_getElem hlength fun n hn hn' ↦ ?_
  have hname : entries[n].1 = other[n].1 := by
    simpa [names] using List.getElem_of_eq hnames (by simpa [names] using hn)
  have hl := lookup_of_mem hd (List.getElem_mem hn)
  rw [h, hname, lookup_of_mem hd' (List.getElem_mem hn')] at hl
  exact Prod.ext hname (Option.some.inj hl).symm

theorem put_of_not_mem (x : α) (h : name ∉ entries.names) :
    entries.put name x = entries ++ [(name, x)] := by
  induction entries with
  | nil => rfl
  | cons entry entries ih =>
    obtain ⟨hne, hmem⟩ : name ≠ entry.1 ∧ name ∉ names entries := by simpa [names] using h
    simp [put, Ne.symm hne, ih hmem]

theorem names_put_of_mem (x : α) (h : name ∈ entries.names) :
    (entries.put name x).names = entries.names := by
  induction entries with
  | nil => simp [names] at h
  | cons entry entries ih =>
    by_cases he : entry.1 = name
    · simp [put, names, he]
    · have hmem : name ∈ names entries := by simpa [names, Ne.symm he] using h
      simpa [put, names, he] using ih hmem

theorem nodup_names_put (x : α) (h : entries.names.Nodup) : (entries.put name x).names.Nodup := by
  by_cases hmem : name ∈ entries.names
  · rwa [names_put_of_mem x hmem]
  · rw [put_of_not_mem x hmem]
    simpa [names] using List.nodup_append'.2 ⟨h, List.nodup_singleton name, by simpa using hmem⟩

theorem nodup_names_collect (pairs : List (String × α)) : (collect pairs).names.Nodup := by
  suffices h : ∀ entries : Entries α, entries.names.Nodup →
      (pairs.foldl (fun entries p ↦ entries.put p.1 p.2) entries).names.Nodup from
    h [] List.nodup_nil
  induction pairs with
  | nil => exact fun _ h ↦ h
  | cons p pairs ih => exact fun entries h ↦ ih _ (nodup_names_put p.2 h)

theorem collect_concat (pairs : List (String × α)) (pair : String × α) :
    collect (pairs ++ [pair]) = (collect pairs).put pair.1 pair.2 := by
  simp [collect]

theorem names_collect (pairs : List (String × α)) :
    (collect pairs).names = (pairs.map (·.1)).eraseDups := by
  induction pairs using List.reverseRecOn with
  | nil => rfl
  | append_singleton pairs pair ih =>
    have hmem : pair.1 ∈ (collect pairs).names ↔ pair.1 ∈ pairs.map (·.1) := by
      rw [ih, List.mem_eraseDups]
    have hdups : [pair.1].eraseDups = [pair.1] := rfl
    rw [collect_concat, List.map_append, List.map_singleton, List.eraseDups_append, ← ih]
    by_cases h : pair.1 ∈ pairs.map (·.1)
    · rw [names_put_of_mem _ (hmem.2 h)]
      simp [List.removeAll, h]
    · rw [put_of_not_mem _ (mt hmem.1 h)]
      simp [List.removeAll, h, names, hdups]

theorem lookup_collect (pairs : List (String × α)) (name : String) :
    (collect pairs).lookup name = pairs.reverse.lookup name := by
  induction pairs using List.reverseRecOn with
  | nil => rfl
  | append_singleton pairs pair ih =>
    rw [collect_concat, List.reverse_append, List.reverse_singleton, List.singleton_append,
      List.lookup_cons]
    by_cases h : name = pair.1
    · rw [h, lookup_put_self]
      simp only [beq_self_eq_true]
    · rw [lookup_put_of_ne _ _ h, ih]
      simp only [beq_eq_false_iff_ne.2 h]

end Entries

end FlowTypes
