import FlowTypes.Bindings.File
import FlowTypes.Proofs.Entries
import FlowTypes.Proofs.Json.Reading

namespace FlowTypes.Bindings

open Json (Quotes maxDepth readFirst readMembers readName readValue skipSpace)

section

variable {text rest : List Char} {name s : String}

theorem readKey_eq_ok_iff : readKey text = .ok (name, rest) ↔ Quotes text name rest := by
  unfold readKey Quotes
  constructor
  · intro h
    split at h
    · cases h
    · next more hquote => exact ⟨more, hquote, h⟩
    · cases h
  · rintro ⟨more, hquote, hread⟩
    rw [hquote]
    exact hread

theorem readString_eq_ok_iff : readString text = .ok (s, rest) ↔ Quotes text s rest := by
  unfold readString Quotes
  constructor
  · intro h
    split at h
    · next more hquote => exact ⟨more, hquote, h⟩
    · cases h
  · rintro ⟨more, hquote, hread⟩
    rw [hquote]
    exact hread

theorem readColon_eq_ok_iff : readColon text = .ok rest ↔ skipSpace text = ':' :: rest := by
  unfold readColon
  constructor
  · intro h
    split at h
    · cases h
    · next hcolon =>
      rw [hcolon, Except.ok.inj h]
    · cases h
  · intro h
    simp only [h]

end

def member (pair : String × String) : String × Json := (pair.1, .string pair.2)

/-- A name, a colon and a text at the front of a text. -/
def Pair (text : List Char) (pair : String × String) (rest : List Char) : Prop :=
  ∃ named valued, Quotes text pair.1 named ∧ skipSpace named = ':' :: valued ∧
    Quotes valued pair.2 rest

/-- Names and texts up to the end of an object, and what comes after it. -/
inductive Pairs : List Char → List (String × String) → List Char → Prop
  | last {text rest after : List Char} {pair : String × String} (hpair : Pair text pair rest)
      (hclose : skipSpace rest = '}' :: after) : Pairs text [pair] after
  | more {text rest next after : List Char} {pair : String × String}
      {pairs : List (String × String)} (hpair : Pair text pair rest)
      (hcomma : skipSpace rest = ',' :: next) (hpairs : Pairs next pairs after) :
      Pairs text (pair :: pairs) after

section

variable {text rest after : List Char} {pair : String × String} {pairs : List (String × String)}

theorem Pair.length_lt (h : Pair text pair rest) : rest.length < text.length := by
  obtain ⟨named, valued, hname, hcolon, hvalue⟩ := h
  have h₁ := hname.length_lt
  have h₂ := Json.length_of_skipSpace hcolon
  have h₃ := hvalue.length_lt
  omega

theorem pairs_of_readPairs {fuel : Nat} (h : readPairs fuel text = .ok pairs) :
    ∃ after, Pairs text pairs after := by
  induction fuel generalizing text pairs with
  | zero => cases h
  | succ fuel ih =>
    rw [readPairs] at h
    obtain ⟨⟨name, named⟩, hname, h⟩ := ok_of_bind h
    obtain ⟨valued, hcolon, h⟩ := ok_of_bind h
    obtain ⟨⟨value, rest⟩, hvalue, h⟩ := ok_of_bind h
    have hpair : Pair text (name, value) rest :=
      ⟨named, valued, readKey_eq_ok_iff.1 (ok_of_mapError hname),
        readColon_eq_ok_iff.1 (ok_of_mapError hcolon),
        readString_eq_ok_iff.1 (ok_of_mapError hvalue)⟩
    dsimp only at h
    split at h
    · cases h
    · next next hcomma =>
      obtain ⟨pairs, hpairs, h⟩ := ok_of_bind h
      obtain ⟨after, hpairs⟩ := ih hpairs
      cases h
      exact ⟨after, .more hpair hcomma hpairs⟩
    · next after hclose =>
      cases h
      exact ⟨after, .last hpair hclose⟩
    · cases h

theorem readPairs_of_pairs (h : Pairs text pairs after) {fuel : Nat} (hf : text.length < fuel) :
    readPairs fuel text = .ok pairs := by
  -- What is left gets shorter with each pair, so the fuel lasts.
  induction h generalizing fuel with
  | last hpair hclose =>
    obtain ⟨fuel, rfl⟩ := Nat.exists_eq_add_one_of_ne_zero (Nat.ne_zero_of_lt hf)
    obtain ⟨named, valued, hname, hcolon, hvalue⟩ := hpair
    rw [readPairs, readKey_eq_ok_iff.2 hname]
    simp only [Except.mapError, ok_bind, readColon_eq_ok_iff.2 hcolon,
      readString_eq_ok_iff.2 hvalue, hclose]
    rfl
  | more hpair hcomma hpairs ih =>
    obtain ⟨fuel, rfl⟩ := Nat.exists_eq_add_one_of_ne_zero (Nat.ne_zero_of_lt hf)
    have hlt := hpair.length_lt
    have hlt' := Json.length_of_skipSpace hcomma
    have hrest := ih (show _ < fuel by omega)
    obtain ⟨named, valued, hname, hcolon, hvalue⟩ := hpair
    rw [readPairs, readKey_eq_ok_iff.2 hname]
    simp only [Except.mapError, ok_bind, readColon_eq_ok_iff.2 hcolon,
      readString_eq_ok_iff.2 hvalue, hcomma, hrest]
    rfl

theorem readMembers_of_pairs (h : Pairs text pairs after) (depth : Nat) {fuel : List Char}
    (hf : text.length ≤ fuel.length) :
    readMembers (readValue depth) fuel text = .ok (pairs.map member, after) := by
  induction h generalizing fuel with
  | last hpair hclose =>
    have hlt := hpair.length_lt
    obtain ⟨c, fuel, rfl⟩ := List.exists_cons_of_length_pos (show 0 < fuel.length by omega)
    obtain ⟨named, valued, hname, hcolon, hvalue⟩ := hpair
    rw [readMembers, Json.readName_eq_ok_iff.2 ⟨named, hname, hcolon⟩]
    simp only [ok_bind, Json.readValue_eq_string_iff.2 hvalue, hclose]
    rfl
  | more hpair hcomma hpairs ih =>
    have hlt := hpair.length_lt
    have hlt' := Json.length_of_skipSpace hcomma
    obtain ⟨c, fuel, rfl⟩ := List.exists_cons_of_length_pos (show 0 < fuel.length by omega)
    rw [List.length_cons] at hf
    have hrest := ih (show _ ≤ fuel.length by omega)
    obtain ⟨named, valued, hname, hcolon, hvalue⟩ := hpair
    rw [readMembers, Json.readName_eq_ok_iff.2 ⟨named, hname, hcolon⟩]
    simp only [ok_bind, Json.readValue_eq_string_iff.2 hvalue, hcomma, hrest]
    rfl

theorem pairs_of_readMembers {depth : Nat} {fuel : List Char}
    (h : readMembers (readValue depth) fuel text = .ok (pairs.map member, after)) :
    Pairs text pairs after := by
  induction fuel generalizing text pairs with
  | nil => cases h
  | cons c fuel ih =>
    rw [readMembers] at h
    obtain ⟨⟨name, valued⟩, hname, h⟩ := ok_of_bind h
    obtain ⟨⟨item, rest⟩, hitem, h⟩ := ok_of_bind h
    obtain ⟨named, hname, hcolon⟩ := Json.readName_eq_ok_iff.1 hname
    have hpair (value : String) (he : (name, item) = member (name, value)) :
        Pair text (name, value) rest :=
      ⟨named, valued, hname, hcolon,
        Json.readValue_eq_string_iff.1 (hitem.trans (by rw [(Prod.mk.inj he).2]))⟩
    dsimp only at h
    split at h
    · cases h
    · next next hcomma =>
      obtain ⟨⟨members, rest'⟩, hmembers, h⟩ := ok_of_bind h
      obtain ⟨hcons, rfl⟩ := Prod.mk.inj (Except.ok.inj h)
      obtain ⟨⟨name', value⟩, pairs, rfl, hm, rfl⟩ := List.map_eq_cons_iff.1 hcons.symm
      obtain rfl := (Prod.mk.inj hm).1
      exact .more (hpair value hm.symm) hcomma (ih hmembers)
    · next after' hclose =>
      obtain ⟨hcons, rfl⟩ := Prod.mk.inj (Except.ok.inj h)
      obtain ⟨⟨name', value⟩, pairs, rfl, hm, hnil⟩ := List.map_eq_cons_iff.1 hcons.symm
      obtain rfl := List.map_eq_nil_iff.1 hnil
      obtain rfl := (Prod.mk.inj hm).1
      exact .last (hpair value hm.symm) hclose
    · cases h

end

theorem readTexts_eq_ok_iff {text : String} {entries : Entries String} :
    readTexts text = .ok entries ↔ ∃ pairs,
      readFirst text = .ok (.object (List.map member pairs)) ∧
        entries = Entries.collect pairs := by
  simp only [Json.readFirst_eq_ok_iff]
  unfold readTexts
  constructor
  · intro h
    split at h
    · next opened hbrace =>
      split at h
      · next rest hclose =>
        obtain rfl := Except.ok.inj h
        exact ⟨[], ⟨rest, Json.readValue_eq_object_iff.2 ⟨opened, hbrace, .inl ⟨rfl, hclose⟩⟩⟩, rfl⟩
      · obtain ⟨pairs, hpairs, h⟩ := ok_of_bind h
        obtain rfl := Except.ok.inj h
        obtain ⟨after, hpairs⟩ := pairs_of_readPairs hpairs
        exact ⟨pairs, ⟨after, Json.readValue_eq_object_iff.2
          ⟨opened, hbrace, .inr (readMembers_of_pairs hpairs _ (Nat.le_refl _))⟩⟩, rfl⟩
    · cases h
  · rintro ⟨pairs, ⟨rest, hvalue⟩, rfl⟩
    obtain ⟨opened, hbrace, hopened⟩ := Json.readValue_eq_object_iff.1 hvalue
    simp only [hbrace]
    obtain ⟨hnil, hclose⟩ | hmembers := hopened
    · obtain rfl := List.map_eq_nil_iff.1 hnil
      simp only [hclose]
      rfl
    · have hpairs := pairs_of_readMembers hmembers
      split
      · next hclose =>
        rw [hclose] at hmembers
        cases hmembers
      · rw [readPairs_of_pairs hpairs (Nat.lt_succ_self _)]
        rfl

theorem json_of_readPairs {fuel : Nat} {text : List Char} {error : LoadError}
    (h : readPairs fuel text = .error error) : ∃ place fault, error = .json place fault := by
  have hmap {α : Type} {x : Except Json.Fault α} {place : Place}
      (h : x.mapError (.json place) = .error error) : ∃ place fault, error = .json place fault := by
    obtain ⟨fault, -, rfl⟩ := error_of_mapError h
    exact ⟨place, fault, rfl⟩
  induction fuel generalizing text with
  | zero =>
    cases h
    exact ⟨_, _, rfl⟩
  | succ fuel ih =>
    rw [readPairs] at h
    obtain h | ⟨⟨name, named⟩, -, h⟩ := error_of_bind h
    · exact hmap h
    obtain h | ⟨valued, -, h⟩ := error_of_bind h
    · exact hmap h
    obtain h | ⟨⟨value, rest⟩, -, h⟩ := error_of_bind h
    · exact hmap h
    dsimp only at h
    split at h
    · cases h
      exact ⟨_, _, rfl⟩
    · obtain h | ⟨pairs, -, h⟩ := error_of_bind h
      · exact ih h
      · cases h
    · cases h
    · cases h
      exact ⟨_, _, rfl⟩

theorem json_of_readTexts {text : String} {error : LoadError} (h : readTexts text = .error error) :
    ∃ place fault, error = .json place fault := by
  unfold readTexts at h
  split at h
  · split at h
    · cases h
    · obtain h | ⟨pairs, -, h⟩ := error_of_bind h
      · exact json_of_readPairs h
      · cases h
  · cases h
    exact ⟨_, _, rfl⟩

theorem parseEntry_eq_ok_iff {entry : String × String} {binding : String × Ty} :
    parseEntry entry = .ok binding ↔
      binding.1 = entry.1 ∧ Notation.parse entry.2 = .ok binding.2 := by
  obtain ⟨name, ty⟩ := binding
  unfold parseEntry
  cases h : Notation.parse entry.2 with
  | error e => simp
  | ok ty' => simp [eq_comm]

theorem parseEntry_eq_error_iff {entry : String × String} {error : LoadError} :
    parseEntry entry = .error error ↔
      ∃ e, Notation.parse entry.2 = .error e ∧ error = .type entry.1 e := by
  unfold parseEntry
  cases h : Notation.parse entry.2 with
  | error e => simp [eq_comm]
  | ok ty => simp

/-- The texts of the names in the object that comes first in the text: each name in the place where
it comes first, with the text that it is given last. -/
def TextsOf (text : String) (entries : Entries String) : Prop :=
  ∃ pairs : List (String × String), readFirst text = .ok (.object (pairs.map member)) ∧
    entries.names = (pairs.map (·.1)).eraseDups ∧
    ∀ name, entries.lookup name = pairs.reverse.lookup name

theorem readTexts_eq_ok_iff_textsOf {text : String} {entries : Entries String} :
    readTexts text = .ok entries ↔ TextsOf text entries := by
  rw [readTexts_eq_ok_iff]
  constructor
  · rintro ⟨pairs, hread, rfl⟩
    exact ⟨pairs, hread, Entries.names_collect pairs, Entries.lookup_collect pairs⟩
  · rintro ⟨pairs, hread, hnames, hlookup⟩
    have hn : (Entries.collect pairs).names = entries.names := by
      rw [hnames, Entries.names_collect]
    have hl (name : String) : (Entries.collect pairs).lookup name = entries.lookup name := by
      rw [hlookup, Entries.lookup_collect]
    exact ⟨pairs, hread, (Entries.eq_of_lookup hn (Entries.nodup_names_collect pairs) hl).symm⟩

section

variable {text : String}

theorem load_eq_ok_iff {bindings : Bindings} : load text = .ok bindings ↔
    ∃ entries, readTexts text = .ok entries ∧
      List.Forall₂ (fun entry binding ↦ binding.1 = entry.1 ∧
        Notation.parse entry.2 = .ok binding.2) entries bindings := by
  simp only [← parseEntry_eq_ok_iff]
  constructor
  · intro h
    obtain ⟨entries, htexts, h⟩ := ok_of_bind h
    exact ⟨entries, htexts, mapM_eq_ok_iff.1 h⟩
  · rintro ⟨entries, htexts, hall⟩
    rw [load, htexts, ok_bind]
    exact mapM_eq_ok_iff.2 hall

theorem load_eq_type_iff {name : String} {error : Notation.Error} :
    load text = .error (.type name error) ↔
      ∃ before spelling after, readTexts text = .ok (before ++ (name, spelling) :: after) ∧
        (∀ entry ∈ before, ∃ ty, Notation.parse entry.2 = .ok ty) ∧
        Notation.parse spelling = .error error := by
  constructor
  · intro h
    obtain h | ⟨entries, htexts, h⟩ := error_of_bind h
    · obtain ⟨place, fault, he⟩ := json_of_readTexts h
      cases he
    · obtain ⟨before, entry, after, rfl, hbefore, hentry⟩ := mapM_eq_error_iff.1 h
      obtain ⟨e, hparse, he⟩ := parseEntry_eq_error_iff.1 hentry
      cases he
      refine ⟨before, entry.2, after, htexts, fun other hother ↦ ?_, hparse⟩
      obtain ⟨binding, hb⟩ := hbefore other hother
      exact ⟨binding.2, (parseEntry_eq_ok_iff.1 hb).2⟩
  · rintro ⟨before, spelling, after, htexts, hbefore, hparse⟩
    rw [load, htexts, ok_bind]
    refine mapM_eq_error_iff.2 ⟨before, (name, spelling), after, rfl, fun other hother ↦ ?_,
      parseEntry_eq_error_iff.2 ⟨error, hparse, rfl⟩⟩
    obtain ⟨ty, hty⟩ := hbefore other hother
    exact ⟨(other.1, ty), parseEntry_eq_ok_iff.2 ⟨rfl, hty⟩⟩

/-- A fault in the object is reported before any type is looked at. -/
theorem load_eq_json_iff : (∃ place fault, load text = .error (.json place fault)) ↔
    ¬∃ entries, readTexts text = .ok entries := by
  constructor
  · rintro ⟨place, fault, h⟩ ⟨entries, htexts⟩
    rw [load, htexts, ok_bind] at h
    obtain ⟨before, entry, after, -, -, hentry⟩ := mapM_eq_error_iff.1 h
    obtain ⟨e, -, he⟩ := parseEntry_eq_error_iff.1 hentry
    cases he
  · intro hnone
    cases htexts : readTexts text with
    | ok entries => exact absurd ⟨entries, htexts⟩ hnone
    | error error =>
      obtain ⟨place, fault, rfl⟩ := json_of_readTexts htexts
      refine ⟨place, fault, ?_⟩
      rw [load, htexts]
      rfl

end

/-- A text holds bindings just if an object of strings comes first in it, each of which spells a
type. If one spells none, the first of them is reported; if there is no such object, this is
reported before any type. -/
theorem load_iff (text : String) :
    (∀ bindings : Bindings, load text = .ok bindings ↔ ∃ entries, TextsOf text entries ∧
      List.Forall₂ (fun entry binding ↦ binding.1 = entry.1 ∧
        Notation.parse entry.2 = .ok binding.2) entries bindings) ∧
    (∀ name error, load text = .error (.type name error) ↔
      ∃ before spelling after, TextsOf text (before ++ (name, spelling) :: after) ∧
        (∀ entry ∈ before, ∃ ty, Notation.parse entry.2 = .ok ty) ∧
        Notation.parse spelling = .error error) ∧
    ((∃ place fault, load text = .error (.json place fault)) ↔
      ¬∃ entries, TextsOf text entries) := by
  simp only [← readTexts_eq_ok_iff_textsOf]
  exact ⟨fun _ ↦ load_eq_ok_iff, fun _ _ ↦ load_eq_type_iff, load_eq_json_iff⟩

theorem load_iff_repeated :
    let text := "\x7b \"T\": \"int |\", \"U\": \"?bool\", \"T\": \"char\" \x7d ]"
    ∃ entries, TextsOf text entries ∧
      List.Forall₂ (fun entry binding ↦ binding.1 = entry.1 ∧
        Notation.parse entry.2 = .ok binding.2) entries
        [("T", .primitive .char), ("U", .nullable (.primitive .bool))] :=
  ((load_iff _).1 _).1 rfl

end FlowTypes.Bindings
