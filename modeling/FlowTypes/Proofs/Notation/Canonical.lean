import FlowTypes.Notation.Parser
import FlowTypes.Proofs.Notation.Lexing
import FlowTypes.Proofs.Ty.Parts
import FlowTypes.Proofs.Results

namespace FlowTypes.Notation

/-- Can the notation spell the node of a type, whatever its parts are? A struct has each name once.
-/
def isSpellable : Ty → Bool
  | .literal (.number x) => x.isFinite
  | .generic name | .bounded name _ => Text.isWord name.toList && startsUppercase name
  | .tuple ts => !ts.isEmpty
  | .array _ size => size < twoPow 64
  | .struct fs => !fs.isEmpty && decide (fs.map (·.name)).Nodup
  | .tag name | .named name _ => Text.isWord name.toList && !isReserved name
  | _ => true

/-- Is every node of a type one that the notation can spell? -/
def isCanonical (t : Ty) : Bool := t.every isSpellable

/-- Lexemes as a text can hold them. -/
def Genuine (ls : List Lexeme) : Prop := ∀ l ∈ ls, l.token.isGenuine

/-- From genuine lexemes a parser gives only results of this kind, and leaves genuine ones. -/
def Yields {α : Type} (P : α → Prop) (p : Parser α) : Prop :=
  ∀ ⦃ls a ls'⦄, Genuine ls → p ls = .ok (a, ls') → P a ∧ Genuine ls'

theorem after?_eq_some {m : Mark} {ls rest : List Lexeme} :
    after? m ls = some rest ↔ ∃ l, ls = l :: rest ∧ l.token = .mark m := by
  cases ls with
  | nil => simp [after?]
  | cons l ls =>
    simp only [after?, Option.ite_none_right_eq_some, Option.some.injEq, List.cons.injEq]
    constructor
    · rintro ⟨h, rfl⟩
      exact ⟨l, ⟨rfl, rfl⟩, h⟩
    · rintro ⟨_, ⟨rfl, rfl⟩, h⟩
      exact ⟨h, rfl⟩

section

variable {stop : Nat} {ls ls' : List Lexeme}

theorem Genuine.after {m : Mark} (hg : Genuine ls) (h : after? m ls = some ls') : Genuine ls' := by
  obtain ⟨l, rfl, -⟩ := after?_eq_some.1 h
  exact (List.forall_mem_cons.1 hg).2

theorem Genuine.expect {m : Mark} {e : Expected} (hg : Genuine ls)
    (h : expect stop m e ls = .ok ls') : Genuine ls' := by
  unfold Notation.expect at h
  split at h
  · next ha =>
    obtain rfl := Except.ok.inj h
    exact hg.after ha
  · simp at h

theorem yields_operands {m : Mark} {join : Ty → Ty → Ty} {operand : Parser Ty}
    (hj : ∀ s t, isCanonical s → isCanonical t → isCanonical (join s t))
    (ho : Yields (isCanonical · = true) operand) (fuel : Nat) {left : Ty} (hl : isCanonical left) :
    Yields (isCanonical · = true) (operands m join operand fuel left) := by
  induction fuel generalizing left with
  | zero =>
    intro ls a ls' hg h
    obtain ⟨rfl, rfl⟩ := Prod.mk.inj (Except.ok.inj h)
    exact ⟨hl, hg⟩
  | succ fuel ih =>
    intro ls a ls' hg h
    unfold operands at h
    split at h
    · obtain ⟨rfl, rfl⟩ := Prod.mk.inj (Except.ok.inj h)
      exact ⟨hl, hg⟩
    · next ha =>
      obtain ⟨⟨right, rest⟩, hr, h⟩ := ok_of_bind h
      obtain ⟨hright, hrest⟩ := ho (hg.after ha) hr
      exact ih (hj _ _ hl hright) hrest h

theorem yields_chain {m : Mark} {join : Ty → Ty → Ty} {operand : Parser Ty}
    (hj : ∀ s t, isCanonical s → isCanonical t → isCanonical (join s t))
    (ho : Yields (isCanonical · = true) operand) :
    Yields (isCanonical · = true) (chain m join operand) := by
  intro ls a ls' hg h
  obtain ⟨⟨left, rest⟩, hl, h⟩ := ok_of_bind h
  obtain ⟨hleft, hrest⟩ := ho hg hl
  dsimp only at h
  split at h
  · obtain ⟨rfl, rfl⟩ := Prod.mk.inj (Except.ok.inj h)
    exact ⟨hleft, hrest⟩
  · exact yields_operands hj ho _ hleft hrest h

theorem lt_of_sizeOf? {text : String} {size : Nat} (h : sizeOf? text = some size) :
    size < twoPow 64 := by
  unfold sizeOf? at h
  dsimp only at h
  split at h
  · next hlt =>
    obtain rfl := Option.some.inj h
    rw [Bool.and_eq_true, decide_eq_true_eq] at hlt
    exact hlt.2
  · simp at h

theorem yields_brackets (fuel : Nat) {base : Ty} (hb : isCanonical base) :
    Yields (isCanonical · = true) (brackets stop fuel base) := by
  induction fuel generalizing base with
  | zero =>
    intro ls a ls' hg h
    obtain ⟨rfl, rfl⟩ := Prod.mk.inj (Except.ok.inj h)
    exact ⟨hb, hg⟩
  | succ fuel ih =>
    intro ls a ls' hg h
    unfold brackets at h
    split at h
    · obtain ⟨rfl, rfl⟩ := Prod.mk.inj (Except.ok.inj h)
      exact ⟨hb, hg⟩
    · next ha =>
      have hrest := hg.after ha
      split at h
      · next hc => exact ih (by simpa [isCanonical, isSpellable] using hb) (hrest.after hc) h
      · split at h
        · split at h
          · simp at h
          · next hs =>
            obtain ⟨rest, he, h⟩ := ok_of_bind h
            have hlt := lt_of_sizeOf? hs
            refine ih ?_ (Genuine.expect (List.forall_mem_cons.1 hrest).2 he) h
            simpa [isCanonical, isSpellable, hlt] using hb
        · simp at h

def reservedWords : List String :=
  ["null", "true", "false", extendsWord] ++ Primitive.all.map Primitive.name

theorem mem_reservedWords_of_isReserved {w : String} (h : isReserved w) : w ∈ reservedWords := by
  unfold isReserved reserved? at h
  split at h
  · simp [reservedWords]
  · simp [reservedWords]
  · simp [reservedWords]
  · rw [Bool.or_eq_true, beq_iff_eq, Option.isSome_map] at h
    obtain h | rfl := h
    · obtain ⟨p, hp⟩ := Option.isSome_iff_exists.1 h
      have hname : p.name = w := by simpa using List.find?_some hp
      exact List.mem_append_right _ (List.mem_map.2 ⟨p, List.mem_of_find?_eq_some hp, hname⟩)
    · simp [reservedWords]

theorem isReserved_of_startsUppercase {w : String} (h : startsUppercase w) :
    isReserved w = false := by
  rw [← Bool.not_eq_true]
  intro hr
  have hlower : ∀ w ∈ reservedWords, startsUppercase w = false := by decide
  rw [hlower w (mem_reservedWords_of_isReserved hr)] at h
  exact Bool.noConfusion h

theorem isCanonical_of_reserved? {w : String} {t : Ty} (h : reserved? w = some t) :
    isCanonical t := by
  unfold reserved? at h
  split at h
  · obtain rfl := Option.some.inj h
    rfl
  · obtain rfl := Option.some.inj h
    rfl
  · obtain rfl := Option.some.inj h
    rfl
  · obtain ⟨p, -, rfl⟩ := Option.map_eq_some_iff.1 h
    rfl

theorem isCanonical_ofItems {ts : List Ty} (h : ∀ t ∈ ts, isCanonical t) :
    isCanonical (.ofItems ts) := by
  cases ts with
  | nil => rfl
  | cons t ts =>
    have hall : (t :: ts).all (Ty.every isSpellable) := List.all_eq_true.2 h
    rw [show Ty.ofItems (t :: ts) = .tuple (t :: ts) from rfl, isCanonical, Ty.every_tuple, hall]
    rfl

section

variable {term : Parser Ty} (ht : Yields (isCanonical · = true) term)

include ht

theorem yields_union : Yields (isCanonical · = true) (union term) := by
  refine yields_chain ?_ (yields_chain ?_ ht)
  · intro s t hs ht
    simp_all [isCanonical, isSpellable]
  · intro s t hs ht
    simp_all [isCanonical, isSpellable]

theorem yields_afterWord {word : String} (hw : Text.isWord word.toList)
    (hr : isReserved word = false) (offset : Nat) :
    Yields (isCanonical · = true) (afterWord stop term word offset) := by
  intro ls a ls' hg h
  unfold afterWord at h
  split at h
  · next ha =>
    have hrest := hg.after ha
    split at h
    · next hc =>
      obtain ⟨rfl, rfl⟩ := Prod.mk.inj (Except.ok.inj h)
      exact ⟨by simp [isCanonical, Ty.every, isSpellable, hw, hr], hrest.after hc⟩
    · obtain ⟨⟨inner, rest⟩, hi, h⟩ := ok_of_bind h
      obtain ⟨hinner, hrest⟩ := yields_union ht hrest hi
      obtain ⟨rest', he, h⟩ := ok_of_bind h
      obtain ⟨rfl, rfl⟩ := Prod.mk.inj (Except.ok.inj h)
      refine ⟨?_, hrest.expect he⟩
      simpa [isCanonical, isSpellable, hw, hr] using hinner
  · split at h
    · next hu =>
      have hname : isCanonical (.generic word) := by
        simp [isCanonical, Ty.every, isSpellable, hw, hu]
      split at h
      · split at h
        · obtain ⟨⟨bound, rest⟩, hb, h⟩ := ok_of_bind h
          obtain ⟨hbound, hrest⟩ := ht (List.forall_mem_cons.1 hg).2 hb
          obtain ⟨rfl, rfl⟩ := Prod.mk.inj (Except.ok.inj h)
          refine ⟨?_, hrest⟩
          simpa [isCanonical, isSpellable, hw, hu] using hbound
        · obtain ⟨rfl, rfl⟩ := Prod.mk.inj (Except.ok.inj h)
          exact ⟨hname, hg⟩
      · obtain ⟨rfl, rfl⟩ := Prod.mk.inj (Except.ok.inj h)
        exact ⟨hname, hg⟩
    · simp at h

theorem yields_items (fuel : Nat) :
    Yields (fun ts ↦ ∀ t ∈ ts, isCanonical t) (items term fuel) := by
  induction fuel with
  | zero =>
    intro ls ts ls' hg h
    obtain ⟨rfl, rfl⟩ := Prod.mk.inj (Except.ok.inj h)
    exact ⟨by simp, hg⟩
  | succ fuel ih =>
    intro ls ts ls' hg h
    unfold items at h
    split at h
    · obtain ⟨rfl, rfl⟩ := Prod.mk.inj (Except.ok.inj h)
      exact ⟨by simp, hg⟩
    · obtain ⟨⟨item, rest⟩, hi, h⟩ := ok_of_bind h
      obtain ⟨hitem, hrest⟩ := yields_union ht hg hi
      dsimp only at h
      split at h
      · obtain ⟨rfl, rfl⟩ := Prod.mk.inj (Except.ok.inj h)
        exact ⟨by simpa using hitem, hrest⟩
      · next hc =>
        obtain ⟨⟨more, rest'⟩, hm, h⟩ := ok_of_bind h
        obtain ⟨hmore, hrest'⟩ := ih (hrest.after hc) hm
        obtain ⟨rfl, rfl⟩ := Prod.mk.inj (Except.ok.inj h)
        exact ⟨List.forall_mem_cons.2 ⟨hitem, hmore⟩, hrest'⟩

theorem yields_fieldType (name : String) (optional : Bool) :
    Yields (fun f : Field Ty ↦ isCanonical f.type) fun ls ↦ do
      let rest ← expect stop .colon .colon ls
      let (type, rest) ← union term rest
      return (⟨name, optional, type⟩, rest) := by
  intro ls f ls' hg h
  obtain ⟨rest₁, he, h⟩ := ok_of_bind h
  obtain ⟨⟨type, rest₂⟩, hty, h⟩ := ok_of_bind h
  obtain ⟨htype, hrest₂⟩ := yields_union ht (hg.expect he) hty
  obtain ⟨rfl, rfl⟩ := Prod.mk.inj (Except.ok.inj h)
  exact ⟨htype, hrest₂⟩

theorem yields_field : Yields (fun f ↦ isCanonical f.type) (field stop term) := by
  intro ls f ls' hg h
  obtain ⟨⟨name, rest⟩, hn, h⟩ := ok_of_bind h
  have hrest : Genuine rest := by
    unfold fieldName at hn
    split at hn
    · obtain ⟨rfl, rfl⟩ := Prod.mk.inj (Except.ok.inj hn)
      exact (List.forall_mem_cons.1 hg).2
    · obtain ⟨rfl, rfl⟩ := Prod.mk.inj (Except.ok.inj hn)
      exact (List.forall_mem_cons.1 hg).2
    · simp at hn
  dsimp only at h
  split at h
  · next ha => exact yields_fieldType ht name true (hrest.after ha) h
  · exact yields_fieldType ht name false hrest h

omit ht in
theorem nodup_of_fields {fuel : Nat} {seen : List String} {fs : List (Field Ty)}
    (h : fields stop term fuel seen ls = .ok (fs, ls')) :
    (fs.map (·.name)).Nodup ∧ ∀ f ∈ fs, f.name ∉ seen := by
  induction fuel generalizing ls fs seen with
  | zero =>
    obtain ⟨rfl, rfl⟩ := Prod.mk.inj (Except.ok.inj h)
    simp
  | succ fuel ih =>
    unfold fields at h
    split at h
    · obtain ⟨rfl, rfl⟩ := Prod.mk.inj (Except.ok.inj h)
      simp
    · obtain ⟨⟨f, rest⟩, -, h⟩ := ok_of_bind h
      dsimp only at h
      split at h
      · simp [throw, throwThe, MonadExceptOf.throw, bind, Except.bind] at h
      · next hseen =>
        split at h
        · obtain ⟨rfl, rfl⟩ := Prod.mk.inj (Except.ok.inj h)
          simp [hseen]
        · obtain ⟨⟨more, rest'⟩, hm, h⟩ := ok_of_bind h
          obtain ⟨rfl, rfl⟩ := Prod.mk.inj (Except.ok.inj h)
          obtain ⟨hnodup, hfresh⟩ := ih hm
          constructor
          · rw [List.map_cons, List.nodup_cons]
            refine ⟨?_, hnodup⟩
            intro hmem
            obtain ⟨g, hg, hname⟩ := List.mem_map.1 hmem
            exact hfresh g hg (by simp [hname])
          · refine List.forall_mem_cons.2 ⟨hseen, fun g hg hin ↦ ?_⟩
            exact hfresh g hg (List.mem_cons_of_mem _ hin)

theorem yields_fields (fuel : Nat) (seen : List String) :
    Yields (fun fs ↦ ∀ f ∈ fs, isCanonical f.type) (fields stop term fuel seen) := by
  induction fuel generalizing seen with
  | zero =>
    intro ls fs ls' hg h
    obtain ⟨rfl, rfl⟩ := Prod.mk.inj (Except.ok.inj h)
    exact ⟨by simp, hg⟩
  | succ fuel ih =>
    intro ls fs ls' hg h
    unfold fields at h
    split at h
    · obtain ⟨rfl, rfl⟩ := Prod.mk.inj (Except.ok.inj h)
      exact ⟨by simp, hg⟩
    · obtain ⟨⟨f, rest⟩, hf, h⟩ := ok_of_bind h
      obtain ⟨hcanonical, hrest⟩ := yields_field ht hg hf
      dsimp only at h
      split at h
      · simp [throw, throwThe, MonadExceptOf.throw, bind, Except.bind] at h
      split at h
      · obtain ⟨rfl, rfl⟩ := Prod.mk.inj (Except.ok.inj h)
        exact ⟨by simp [hcanonical], hrest⟩
      · next hc =>
        obtain ⟨⟨more, rest'⟩, hm, h⟩ := ok_of_bind h
        obtain ⟨hmore, hrest'⟩ := ih (f.name :: seen) (hrest.after hc) hm
        obtain ⟨rfl, rfl⟩ := Prod.mk.inj (Except.ok.inj h)
        exact ⟨List.forall_mem_cons.2 ⟨hcanonical, hmore⟩, hrest'⟩

omit ht in
theorem fields_ne_nil {fuel : Nat} {seen : List String} {fs : List (Field Ty)}
    (hc : after? .closeBrace ls = none)
    (h : fields stop term (fuel + 1) seen ls = .ok (fs, ls')) : fs ≠ [] := by
  unfold fields at h
  rw [hc] at h
  obtain ⟨⟨f, rest⟩, -, h⟩ := ok_of_bind h
  dsimp only at h
  split at h
  · simp [throw, throwThe, MonadExceptOf.throw, bind, Except.bind] at h
  · split at h
    · obtain ⟨rfl, -⟩ := Prod.mk.inj (Except.ok.inj h)
      simp
    · obtain ⟨⟨more, rest'⟩, -, h⟩ := ok_of_bind h
      obtain ⟨rfl, -⟩ := Prod.mk.inj (Except.ok.inj h)
      simp

theorem yields_braced : Yields (isCanonical · = true) (braced stop term) := by
  intro ls a ls' hg h
  unfold braced at h
  split at h
  · next ha =>
    obtain ⟨rfl, rfl⟩ := Prod.mk.inj (Except.ok.inj h)
    exact ⟨rfl, hg.after ha⟩
  · next hbrace =>
    split at h
    · next ha =>
      obtain ⟨⟨key, rest₁⟩, hk, h⟩ := ok_of_bind h
      obtain ⟨hkey, hrest₁⟩ := yields_union ht (hg.after ha) hk
      obtain ⟨rest₂, he₂, h⟩ := ok_of_bind h
      obtain ⟨rest₃, he₃, h⟩ := ok_of_bind h
      obtain ⟨⟨value, rest₄⟩, hv, h⟩ := ok_of_bind h
      obtain ⟨hvalue, hrest₄⟩ := yields_union ht ((hrest₁.expect he₂).expect he₃) hv
      obtain ⟨rest₅, he₅, h⟩ := ok_of_bind h
      obtain ⟨rfl, rfl⟩ := Prod.mk.inj (Except.ok.inj h)
      refine ⟨?_, hrest₄.expect he₅⟩
      rw [isCanonical] at hkey hvalue
      simp [isCanonical, isSpellable, hkey, hvalue]
    · obtain ⟨⟨fs, rest₁⟩, hf, h⟩ := ok_of_bind h
      obtain ⟨hfs, hrest₁⟩ := yields_fields ht _ _ hg hf
      obtain ⟨rest₂, he₂, h⟩ := ok_of_bind h
      obtain ⟨rfl, rfl⟩ := Prod.mk.inj (Except.ok.inj h)
      refine ⟨?_, hrest₁.expect he₂⟩
      have hne := fields_ne_nil hbrace hf
      have hnodup := (nodup_of_fields hf).1
      simp only [isCanonical, Ty.every_struct, isSpellable, hnodup, decide_true, Bool.and_true,
        Bool.and_eq_true, Bool.not_eq_true', List.isEmpty_eq_false_iff, List.all_eq_true]
      exact ⟨hne, hfs⟩

theorem yields_primary : Yields (isCanonical · = true) (primary stop term) := by
  intro ls a ls' hg h
  unfold primary at h
  split at h
  · obtain ⟨hword, hrest⟩ := List.forall_mem_cons.1 hg
    split at h
    · next hr =>
      obtain ⟨rfl, rfl⟩ := Prod.mk.inj (Except.ok.inj h)
      exact ⟨isCanonical_of_reserved? hr, hrest⟩
    · next hr =>
      split at h
      · simp at h
      · next hx => exact yields_afterWord ht hword (by simp [isReserved, hr, hx]) _ hrest h
  · obtain ⟨hfinite, hrest⟩ := List.forall_mem_cons.1 hg
    obtain ⟨rfl, rfl⟩ := Prod.mk.inj (Except.ok.inj h)
    exact ⟨by simpa [isCanonical, Ty.every, isSpellable] using show Double.isFinite _ from hfinite,
      hrest⟩
  · obtain ⟨rfl, rfl⟩ := Prod.mk.inj (Except.ok.inj h)
    exact ⟨rfl, (List.forall_mem_cons.1 hg).2⟩
  · obtain ⟨⟨ts, rest₁⟩, hi, h⟩ := ok_of_bind h
    obtain ⟨hts, hrest₁⟩ := yields_items ht _ (List.forall_mem_cons.1 hg).2 hi
    obtain ⟨rest₂, he, h⟩ := ok_of_bind h
    obtain ⟨rfl, rfl⟩ := Prod.mk.inj (Except.ok.inj h)
    exact ⟨isCanonical_ofItems hts, hrest₁.expect he⟩
  · exact yields_braced ht (List.forall_mem_cons.1 hg).2 h
  · obtain ⟨⟨ty, rest₁⟩, hi, h⟩ := ok_of_bind h
    obtain ⟨hty, hrest₁⟩ := yields_union ht (List.forall_mem_cons.1 hg).2 hi
    obtain ⟨rest₂, he, h⟩ := ok_of_bind h
    obtain ⟨rfl, rfl⟩ := Prod.mk.inj (Except.ok.inj h)
    exact ⟨hty, hrest₁.expect he⟩
  · simp at h

end

theorem yields_term (depth : Nat) : Yields (isCanonical · = true) (term stop depth) := by
  induction depth with
  | zero =>
    intro ls a ls' hg h
    simp [term] at h
  | succ depth ih =>
    intro ls a ls' hg h
    unfold term at h
    split at h
    · next hq =>
      obtain ⟨⟨inner, rest⟩, hi, h⟩ := ok_of_bind h
      obtain ⟨hinner, hrest⟩ := ih (hg.after hq) hi
      obtain ⟨rfl, rfl⟩ := Prod.mk.inj (Except.ok.inj h)
      refine ⟨?_, hrest⟩
      simpa [isCanonical, isSpellable] using hinner
    · obtain ⟨⟨base, rest⟩, hb, h⟩ := ok_of_bind h
      obtain ⟨hbase, hrest⟩ := yields_primary ih hg hb
      dsimp only at h
      split at h
      · obtain ⟨rfl, rfl⟩ := Prod.mk.inj (Except.ok.inj h)
        exact ⟨hbase, hrest⟩
      · exact yields_brackets _ hbase hrest h

end

theorem parseTokens_eq_ok {stop : Nat} {ls : List Lexeme} {t : Ty} :
    parseTokens stop ls = .ok t ↔ union (term stop maxDepth) ls = .ok (t, []) := by
  unfold parseTokens
  constructor
  · intro h
    dsimp only at h
    split at h
    · simp [throw, throwThe, MonadExceptOf.throw, bind, Except.bind] at h
    obtain ⟨⟨ty, rest⟩, hu, h⟩ := ok_of_bind h
    dsimp only at h
    split at h
    · next hrest =>
      obtain rfl := Except.ok.inj h
      rw [hu, List.isEmpty_iff.1 hrest]
    · simp [throw, throwThe, MonadExceptOf.throw] at h
  · intro h
    cases ls with
    | nil => cases h
    | cons l ls =>
      rw [h]
      rfl

theorem isCanonical_of_parse {text : String} {t : Ty} (h : parse text = .ok t) :
    isCanonical t := by
  obtain ⟨ls, hlex, h⟩ := ok_of_bind h
  have hgenuine := (lex_eq_ok_iff.1 hlex).isGenuine
  exact (yields_union (yields_term maxDepth) hgenuine (parseTokens_eq_ok.1 h)).1

end FlowTypes.Notation
