import FlowTypes.Proofs.Notation.Recognition
import FlowTypes.Proofs.Notation.Unambiguity

namespace FlowTypes.Notation

variable {k : Category} {op : Operator} {e : Element} {depth : Nat}

namespace Phrase

variable {ts us vs : List Token}

/-- A phrase keeps to what the parser asks for beyond the grammar. -/
structure Fits (depth : Nat) (p : Phrase k) : Prop where
  distinct : p.every hasDistinctNames
  leaves : p.every leavesBrackets
  nesting : p.nesting ≤ depth

namespace Fits

variable {depth' : Nat} {l m : Category} {p : Phrase k} {x : Phrase l} {y : Phrase m}

theorem unary (hx : Fits depth x)
    (he : ∀ q : {k : Category} → Phrase k → Bool, p.every q = (q p && x.every q))
    (hd : p.hasDistinctNames) (hl : p.leavesBrackets) (hn : p.nesting ≤ depth') :
    Fits depth' p where
  distinct := by simp [he, hd, hx.distinct]
  leaves := by simp [he, hl, hx.leaves]
  nesting := hn

theorem binary (hx : Fits depth x) (hy : Fits depth y)
    (he : ∀ q : {k : Category} → Phrase k → Bool, p.every q = (q p && (x.every q && y.every q)))
    (hd : p.hasDistinctNames) (hl : p.leavesBrackets) (hn : p.nesting ≤ depth') :
    Fits depth' p where
  distinct := by simp [he, hd, hx.distinct, hy.distinct]
  leaves := by simp [he, hl, hx.leaves, hy.leaves]
  nesting := hn

end Fits

structure Spans (depth : Nat) (p : Phrase k) (ts us : List Token) : Prop where
  tokens : ts = p.tokens ++ us
  fits : p.Fits depth

namespace Spans

theorem chain {first : Phrase (.operand op)} {rest : Phrase (.operands op)}
    (hf : Spans depth first ts us) (hr : Spans depth rest us vs) :
    Spans depth (.chain first rest) ts vs where
  tokens := by
    rw [hf.tokens, hr.tokens, ← List.append_assoc]
    rfl
  fits := hf.fits.binary hr.fits (fun _ ↦ rfl) rfl rfl
    (Nat.max_le.2 ⟨hf.fits.nesting, hr.fits.nesting⟩)

theorem noOperand : Spans depth (.noOperand : Phrase (.operands op)) ts ts :=
  ⟨rfl, rfl, rfl, Nat.zero_le _⟩

theorem operand {next : Phrase (.operand op)} {rest : Phrase (.operands op)}
    (hn : Spans depth next ts us) (hr : Spans depth rest us vs) :
    Spans depth (.operand next rest) (.mark op.mark :: ts) vs where
  tokens := by
    rw [hn.tokens, hr.tokens, ← List.append_assoc]
    rfl
  fits := hn.fits.binary hr.fits (fun _ ↦ rfl) rfl rfl
    (Nat.max_le.2 ⟨hn.fits.nesting, hr.fits.nesting⟩)

theorem nullable {inner : Phrase .term} (h : Spans depth inner ts us) :
    Spans (depth + 1) inner.nullable (.mark .question :: ts) us where
  tokens := by
    rw [h.tokens]
    rfl
  fits := h.fits.unary (fun _ ↦ rfl) rfl rfl (Nat.succ_le_succ h.fits.nesting)

theorem bare {base : Phrase .primary} {rest : Phrase .brackets} (hb : Spans depth base ts us)
    (hr : Spans depth rest us vs) (hl : leavesBrackets (.bare base rest)) :
    Spans (depth + 1) (.bare base rest) ts vs where
  tokens := by
    rw [hb.tokens, hr.tokens, ← List.append_assoc]
    rfl
  fits := hb.fits.binary hr.fits (fun _ ↦ rfl) rfl hl (Nat.succ_le_succ hb.fits.nesting)

theorem noBrackets : Spans depth .noBrackets ts ts := ⟨rfl, rfl, rfl, Nat.zero_le _⟩

theorem list {rest : Phrase .brackets} (h : Spans depth rest ts us) :
    Spans depth rest.list (.mark .openBracket :: .mark .closeBracket :: ts) us where
  tokens := by
    rw [h.tokens]
    rfl
  fits := h.fits.unary (fun _ ↦ rfl) rfl rfl (Nat.zero_le _)

theorem array {x : Double} {digits : String} {size : Nat} (hs : sizeOf? digits = some size)
    {rest : Phrase .brackets} (h : Spans depth rest ts us) :
    Spans depth (.array x digits size hs rest)
      (.mark .openBracket :: .number x digits :: .mark .closeBracket :: ts) us where
  tokens := by
    rw [h.tokens]
    rfl
  fits := h.fits.unary (fun _ ↦ rfl) rfl rfl (Nat.zero_le _)

theorem atom {token : Token} {ty : Ty} (ha : atom? token = some ty) :
    Spans depth (.atom token ty ha) (token :: ts) ts := ⟨rfl, rfl, rfl, Nat.zero_le _⟩

theorem generic {name : String} (hn : startsUppercase name) :
    Spans depth (.generic name hn) (.word name :: ts) ts := ⟨rfl, rfl, rfl, Nat.zero_le _⟩

theorem bounded {name : String} (hn : startsUppercase name) {bound : Phrase .term}
    (h : Spans depth bound ts us) :
    Spans depth (.bounded name hn bound) (.word name :: .word extendsWord :: ts) us where
  tokens := by
    rw [h.tokens]
    rfl
  fits := h.fits.unary (fun _ ↦ rfl) rfl rfl h.fits.nesting

theorem tag {name : String} (hn : isReserved name = false) :
    Spans depth (.tag name hn) (.word name :: .mark .openBrace :: .mark .closeBrace :: ts) ts :=
  ⟨rfl, rfl, rfl, Nat.zero_le _⟩

theorem named {name : String} (hn : isReserved name = false) {inner : Phrase .type}
    (h : Spans depth inner ts (.mark .closeBrace :: us)) :
    Spans depth (.named name hn inner) (.word name :: .mark .openBrace :: ts) us where
  tokens := by
    rw [h.tokens, List.append_cons]
    rfl
  fits := h.fits.unary (fun _ ↦ rfl) rfl rfl h.fits.nesting

theorem emptyTuple :
    Spans depth .emptyTuple (.mark .openBracket :: .mark .closeBracket :: ts) ts :=
  ⟨rfl, rfl, rfl, Nat.zero_le _⟩

theorem tuple {items : Phrase (.list .item)}
    (h : Spans depth items ts (.mark .closeBracket :: us)) :
    Spans depth items.tuple (.mark .openBracket :: ts) us where
  tokens := by
    rw [h.tokens, List.append_cons]
    rfl
  fits := h.fits.unary (fun _ ↦ rfl) rfl rfl h.fits.nesting

theorem openStruct :
    Spans depth .openStruct (.mark .openBrace :: .mark .closeBrace :: ts) ts :=
  ⟨rfl, rfl, rfl, Nat.zero_le _⟩

theorem struct {fields : Phrase (.list .field)}
    (h : Spans depth fields ts (.mark .closeBrace :: us))
    (hd : (fields.value.map (·.name)).Nodup) :
    Spans depth fields.struct (.mark .openBrace :: ts) us where
  tokens := by
    rw [h.tokens, List.append_cons]
    rfl
  fits := h.fits.unary (fun _ ↦ rfl) (decide_eq_true hd) rfl h.fits.nesting

theorem map {key value : Phrase .type}
    (hk : Spans depth key ts (.mark .closeBracket :: .mark .colon :: us))
    (hv : Spans depth value us (.mark .closeBrace :: vs)) :
    Spans depth (.map key value) (.mark .openBrace :: .mark .openBracket :: ts) vs where
  tokens := by
    simp only [hk.tokens, hv.tokens, Phrase.tokens, List.cons_append, List.append_assoc,
      List.nil_append]
  fits := hk.fits.binary hv.fits (fun _ ↦ rfl) rfl rfl
    (Nat.max_le.2 ⟨hk.fits.nesting, hv.fits.nesting⟩)

theorem group {inner : Phrase .type} (h : Spans depth inner ts (.mark .closeParen :: us)) :
    Spans depth inner.group (.mark .openParen :: ts) us where
  tokens := by
    rw [h.tokens, List.append_cons]
    rfl
  fits := h.fits.unary (fun _ ↦ rfl) rfl rfl h.fits.nesting

theorem field {label : Label} {t : Phrase .type} (h : Spans depth t ts us) :
    Spans depth (.field label t) (label.tokens ++ ts) us where
  tokens := by
    rw [h.tokens, ← List.append_assoc]
    rfl
  fits := h.fits.unary (fun _ ↦ rfl) rfl rfl h.fits.nesting

theorem last {x : Phrase (.element e)} {comma : Bool}
    (h : Spans depth x ts (commaIf comma ++ us)) : Spans depth (.last x comma) ts us where
  tokens := by
    rw [h.tokens, ← List.append_assoc]
    rfl
  fits := h.fits.unary (fun _ ↦ rfl) rfl rfl h.fits.nesting

theorem more {x : Phrase (.element e)} {rest : Phrase (.list e)}
    (hx : Spans depth x ts (.mark .comma :: us)) (hr : Spans depth rest us vs) :
    Spans depth (.more x rest) ts vs where
  tokens := by
    rw [hx.tokens, hr.tokens, ← List.cons_append, ← List.append_assoc]
    rfl
  fits := hx.fits.binary hr.fits (fun _ ↦ rfl) rfl rfl
    (Nat.max_le.2 ⟨hx.fits.nesting, hr.fits.nesting⟩)

end Spans

end Phrase

/-- No brackets come next that the primary would have to leave to its bound. -/
def Phrase.Leaves (p : Phrase .primary) (ts : List Token) : Prop :=
  ∀ ⦃q : Phrase .brackets⦄ ⦃us : List Token⦄, ts = q.tokens ++ us → leavesBrackets (.bare p q)

section

variable {stop : Nat} {ls ls' : List Lexeme} {t : Ty}

theorem map_of_after? {m : Mark} (h : after? m ls = some ls') :
    ls.map (·.token) = .mark m :: ls'.map (·.token) := by
  obtain ⟨l, rfl, hl⟩ := after?_eq_some.1 h
  rw [List.map_cons, hl]

theorem map_of_expect {m : Mark} {expected : Expected} (h : expect stop m expected ls = .ok ls') :
    ls.map (·.token) = .mark m :: ls'.map (·.token) := by
  unfold expect at h
  split at h
  · next ha =>
    obtain rfl := Except.ok.inj h
    exact map_of_after? ha
  · cases h

def Derives (k : Category) (depth : Nat) (holds : k.Value → Prop) (ts us : List Token) : Prop :=
  ∃ p : Phrase k, holds p.value ∧ p.Spans depth ts us

/-- Whatever the parser reads is spelled by a phrase. -/
def Sound (k : Category) (depth : Nat) (parser : Parser k.Value) : Prop :=
  ∀ ⦃ls v ls'⦄, parser ls = .ok (v, ls') →
    Derives k depth (· = v) (ls.map (·.token)) (ls'.map (·.token))

theorem derives_operands {operand : Parser Ty}
    (ho : ∀ ⦃ls t ls'⦄, operand ls = .ok (t, ls') →
      Derives (.operand op) depth (op.value · = t) (ls.map (·.token)) (ls'.map (·.token)))
    {fuel : Nat} {left : Ty}
    (h : operands op.mark op.join operand fuel left ls = .ok (t, ls')) :
    Derives (.operands op) depth (· left = t) (ls.map (·.token)) (ls'.map (·.token)) := by
  induction fuel generalizing left ls with
  | zero =>
    obtain ⟨rfl, rfl⟩ := Prod.mk.inj (Except.ok.inj h)
    exact ⟨_, rfl, .noOperand⟩
  | succ fuel ih =>
    unfold operands at h
    split at h
    · obtain ⟨rfl, rfl⟩ := Prod.mk.inj (Except.ok.inj h)
      exact ⟨_, rfl, .noOperand⟩
    · next ha =>
      obtain ⟨⟨right, ls₁⟩, hr, h⟩ := ok_of_bind h
      obtain ⟨next, hnext, hspan⟩ := ho hr
      obtain ⟨rest, hrest, hspan'⟩ := ih h
      refine ⟨.operand next rest, ?_, ?_⟩
      · rw [← hrest, ← hnext]
        rfl
      · rw [map_of_after? ha]
        exact hspan.operand hspan'

theorem sound_chain {operand : Parser Ty}
    (ho : ∀ ⦃ls t ls'⦄, operand ls = .ok (t, ls') →
      Derives (.operand op) depth (op.value · = t) (ls.map (·.token)) (ls'.map (·.token))) :
    Sound (.chain op) depth (chain op.mark op.join operand) := by
  intro ls t ls' h
  rw [chain_eq] at h
  obtain ⟨⟨left, ls₁⟩, hl, h⟩ := ok_of_bind h
  obtain ⟨first, hfirst, hspan⟩ := ho hl
  obtain ⟨rest, hrest, hspan'⟩ := derives_operands ho h
  refine ⟨.chain first rest, ?_, hspan.chain hspan'⟩
  rw [← hrest, ← hfirst]
  rfl

theorem derives_brackets {fuel : Nat} {base : Ty}
    (h : brackets stop fuel base ls = .ok (t, ls')) :
    Derives .brackets depth (· base = t) (ls.map (·.token)) (ls'.map (·.token)) := by
  induction fuel generalizing base ls with
  | zero =>
    obtain ⟨rfl, rfl⟩ := Prod.mk.inj (Except.ok.inj h)
    exact ⟨_, rfl, .noBrackets⟩
  | succ fuel ih =>
    unfold brackets at h
    split at h
    · obtain ⟨rfl, rfl⟩ := Prod.mk.inj (Except.ok.inj h)
      exact ⟨_, rfl, .noBrackets⟩
    · next ha =>
      rw [map_of_after? ha]
      split at h
      · next hc =>
        obtain ⟨rest, hrest, hspan⟩ := ih h
        rw [map_of_after? hc]
        exact ⟨rest.list, hrest, hspan.list⟩
      · split at h
        · split at h
          · cases h
          · next hs =>
            obtain ⟨ls₁, he, h⟩ := ok_of_bind h
            obtain ⟨rest, hrest, hspan⟩ := ih h
            rw [List.map_cons, map_of_expect he]
            refine ⟨_, ?_, hspan.array hs⟩
            exact hrest
        · cases h

theorem after?_of_brackets {fuel : Nat} {base : Ty}
    (h : brackets stop fuel base ls = .ok (t, ls')) (hf : ls.length ≤ fuel) :
    after? .openBracket ls' = none := by
  induction fuel generalizing base ls with
  | zero =>
    obtain ⟨rfl, rfl⟩ := Prod.mk.inj (Except.ok.inj h)
    obtain rfl := List.length_eq_zero_iff.1 (Nat.le_zero.1 hf)
    rfl
  | succ fuel ih =>
    unfold brackets at h
    split at h
    · next ha =>
      obtain ⟨rfl, rfl⟩ := Prod.mk.inj (Except.ok.inj h)
      exact ha
    · next ha =>
      obtain ⟨_, rfl, -⟩ := after?_eq_some.1 ha
      simp only [List.length_cons] at hf
      split at h
      · next hc =>
        obtain ⟨_, rfl, -⟩ := after?_eq_some.1 hc
        simp only [List.length_cons] at hf
        exact ih h (by omega)
      · split at h
        · split at h
          · cases h
          · obtain ⟨ls₁, he, h⟩ := ok_of_bind h
            have hlength := length_of_map (map_of_expect he)
            simp only [List.length_cons, List.length_map] at hf hlength
            exact ih h (by omega)
        · cases h

theorem after?_of_term {depth : Nat} (h : term stop depth ls = .ok (t, ls')) :
    after? .openBracket ls' = none := by
  induction depth generalizing ls t with
  | zero => cases h
  | succ depth ih =>
    cases hq : after? .question ls with
    | some _ =>
      rw [term, hq] at h
      obtain ⟨⟨inner, ls₁⟩, hi, h⟩ := ok_of_bind h
      obtain ⟨rfl, rfl⟩ := Prod.mk.inj (Except.ok.inj h)
      exact ih hi
    | none =>
      rw [term_succ hq] at h
      obtain ⟨⟨base, ls₁⟩, hb, h⟩ := ok_of_bind h
      exact after?_of_brackets h (Nat.le_refl _)

theorem Phrase.leaves_of_after? (h : after? .openBracket ls = none) (p : Phrase .primary) :
    p.Leaves (ls.map (·.token)) := by
  intro q us hq
  cases q with
  | noBrackets => cases p <;> rfl
  | list | array =>
    obtain ⟨_, _, _, rfl, -⟩ := exists_of_map_cons hq
    simp at h

/-- Whatever the parser reads after these tokens is spelled, with them, by a primary. If this has a
bound, no brackets come next. -/
def SoundPrimary (depth : Nat) (opening : List Token) (parser : Parser Ty) : Prop :=
  ∀ ⦃ls t ls'⦄, parser ls = .ok (t, ls') → ∃ p : Phrase .primary, p.value = t ∧
    p.Spans depth (opening ++ ls.map (·.token)) (ls'.map (·.token)) ∧ p.Leaves (ls'.map (·.token))

section

variable {term : Parser Ty} (ht : Sound .term depth term)

include ht

theorem sound_union : Sound .type depth (union term) := by
  have hinter : Sound (.chain .inter) depth (chain .ampersand .inter term) := sound_chain ht
  exact sound_chain hinter

theorem sound_afterWord
    (hb : ∀ ⦃ls t ls'⦄, term ls = .ok (t, ls') → after? .openBracket ls' = none) {word : String}
    (hr : isReserved word = false) (offset : Nat) :
    SoundPrimary depth [.word word] (afterWord stop term word offset) := by
  intro ls t ls' h
  unfold afterWord at h
  split at h
  · next ha =>
    rw [map_of_after? ha]
    split at h
    · next hc =>
      obtain ⟨rfl, rfl⟩ := Prod.mk.inj (Except.ok.inj h)
      rw [map_of_after? hc]
      exact ⟨.tag word hr, rfl, .tag hr, fun _ _ _ ↦ rfl⟩
    · obtain ⟨⟨_, ls₁⟩, hi, h⟩ := ok_of_bind h
      obtain ⟨inner, rfl, hspan⟩ := sound_union ht hi
      obtain ⟨ls₂, he, h⟩ := ok_of_bind h
      obtain ⟨rfl, rfl⟩ := Prod.mk.inj (Except.ok.inj h)
      rw [map_of_expect he] at hspan
      exact ⟨.named word hr inner, rfl, .named hr hspan, fun _ _ _ ↦ rfl⟩
  · split at h
    · next hu =>
      split at h
      · split at h
        · next hx =>
          -- The bound is read as a term, which leaves no brackets behind.
          obtain ⟨⟨_, ls₁⟩, hbound, h⟩ := ok_of_bind h
          obtain ⟨bound, rfl, hspan⟩ := ht hbound
          obtain ⟨rfl, rfl⟩ := Prod.mk.inj (Except.ok.inj h)
          refine ⟨.bounded word hu bound, rfl, ?_, Phrase.leaves_of_after? (hb hbound) _⟩
          rw [List.map_cons, hx]
          exact .bounded hu hspan
        · obtain ⟨rfl, rfl⟩ := Prod.mk.inj (Except.ok.inj h)
          exact ⟨.generic word hu, rfl, .generic hu, fun _ _ _ ↦ rfl⟩
      · obtain ⟨rfl, rfl⟩ := Prod.mk.inj (Except.ok.inj h)
        exact ⟨.generic word hu, rfl, .generic hu, fun _ _ _ ↦ rfl⟩
    · cases h

theorem derives_items {fuel : Nat} {xs : List Ty} (h : items term fuel ls = .ok (xs, ls')) :
    xs = [] ∧ ls' = ls ∨
      Derives (.list .item) depth (· = xs) (ls.map (·.token)) (ls'.map (·.token)) := by
  induction fuel generalizing ls xs with
  | zero =>
    obtain ⟨rfl, rfl⟩ := Prod.mk.inj (Except.ok.inj h)
    exact .inl ⟨rfl, rfl⟩
  | succ fuel ih =>
    unfold items at h
    split at h
    · obtain ⟨rfl, rfl⟩ := Prod.mk.inj (Except.ok.inj h)
      exact .inl ⟨rfl, rfl⟩
    · right
      obtain ⟨⟨_, ls₁⟩, hi, h⟩ := ok_of_bind h
      obtain ⟨x, rfl, hspan⟩ := sound_union ht hi
      dsimp only at h
      split at h
      · obtain ⟨rfl, rfl⟩ := Prod.mk.inj (Except.ok.inj h)
        exact ⟨.last x false, rfl, .last hspan⟩
      · next hc =>
        rw [map_of_after? hc] at hspan
        obtain ⟨⟨more, ls₂⟩, hm, h⟩ := ok_of_bind h
        obtain ⟨rfl, rfl⟩ := Prod.mk.inj (Except.ok.inj h)
        obtain ⟨rfl, rfl⟩ | ⟨rest, rfl, hrest⟩ := ih hm
        · exact ⟨.last x true, rfl, .last hspan⟩
        · exact ⟨.more x rest, rfl, .more hspan hrest⟩

omit ht in
theorem map_of_fieldName {name : String} (h : fieldName stop ls = .ok (name, ls')) :
    ∃ quoted : Bool, ls.map (·.token) =
      (if quoted then .string name else .word name) :: ls'.map (·.token) := by
  unfold fieldName at h
  split at h
  · obtain ⟨rfl, rfl⟩ := Prod.mk.inj (Except.ok.inj h)
    exact ⟨false, rfl⟩
  · obtain ⟨rfl, rfl⟩ := Prod.mk.inj (Except.ok.inj h)
    exact ⟨true, rfl⟩
  · cases h

theorem sound_field : Sound .field depth (field stop term) := by
  intro ls f ls' h
  obtain ⟨⟨name, ls₁⟩, hn, h⟩ := ok_of_bind h
  obtain ⟨quoted, hname⟩ := map_of_fieldName hn
  dsimp only at h
  split at h
  · next ha =>
    obtain ⟨ls₂, he, h⟩ := ok_of_bind h
    obtain ⟨⟨_, ls₃⟩, hty, h⟩ := ok_of_bind h
    obtain ⟨t, rfl, hspan⟩ := sound_union ht hty
    obtain ⟨rfl, rfl⟩ := Prod.mk.inj (Except.ok.inj h)
    rw [hname, map_of_after? ha, map_of_expect he]
    exact ⟨.field ⟨quoted, name, true⟩ t, rfl, hspan.field⟩
  · obtain ⟨ls₂, he, h⟩ := ok_of_bind h
    obtain ⟨⟨_, ls₃⟩, hty, h⟩ := ok_of_bind h
    obtain ⟨t, rfl, hspan⟩ := sound_union ht hty
    obtain ⟨rfl, rfl⟩ := Prod.mk.inj (Except.ok.inj h)
    rw [hname, map_of_expect he]
    exact ⟨.field ⟨quoted, name, false⟩ t, rfl, hspan.field⟩

theorem derives_fields {fuel : Nat} {seen : List String} {fs : List (Field Ty)}
    (h : fields stop term fuel seen ls = .ok (fs, ls')) :
    fs = [] ∧ ls' = ls ∨
      Derives (.list .field) depth (· = fs) (ls.map (·.token)) (ls'.map (·.token)) := by
  induction fuel generalizing ls fs seen with
  | zero =>
    obtain ⟨rfl, rfl⟩ := Prod.mk.inj (Except.ok.inj h)
    exact .inl ⟨rfl, rfl⟩
  | succ fuel ih =>
    unfold fields at h
    split at h
    · obtain ⟨rfl, rfl⟩ := Prod.mk.inj (Except.ok.inj h)
      exact .inl ⟨rfl, rfl⟩
    · right
      obtain ⟨⟨_, ls₁⟩, hf, h⟩ := ok_of_bind h
      obtain ⟨x, rfl, hspan⟩ := sound_field ht hf
      dsimp only at h
      split at h
      · simp [throw, throwThe, MonadExceptOf.throw, bind, Except.bind] at h
      split at h
      · obtain ⟨rfl, rfl⟩ := Prod.mk.inj (Except.ok.inj h)
        exact ⟨.last x false, rfl, .last hspan⟩
      · next hc =>
        rw [map_of_after? hc] at hspan
        obtain ⟨⟨more, ls₂⟩, hm, h⟩ := ok_of_bind h
        obtain ⟨rfl, rfl⟩ := Prod.mk.inj (Except.ok.inj h)
        obtain ⟨rfl, rfl⟩ | ⟨rest, rfl, hrest⟩ := ih hm
        · exact ⟨.last x true, rfl, .last hspan⟩
        · exact ⟨.more x rest, rfl, .more hspan hrest⟩

theorem sound_braced : SoundPrimary depth [.mark .openBrace] (braced stop term) := by
  intro ls t ls' h
  unfold braced at h
  split at h
  · next hc =>
    obtain ⟨rfl, rfl⟩ := Prod.mk.inj (Except.ok.inj h)
    rw [map_of_after? hc]
    exact ⟨.openStruct, rfl, .openStruct, fun _ _ _ ↦ rfl⟩
  · next hbrace =>
    split at h
    · next ha =>
      obtain ⟨⟨_, ls₁⟩, hk, h⟩ := ok_of_bind h
      obtain ⟨key, rfl, hkey⟩ := sound_union ht hk
      obtain ⟨ls₂, he₂, h⟩ := ok_of_bind h
      obtain ⟨ls₃, he₃, h⟩ := ok_of_bind h
      obtain ⟨⟨_, ls₄⟩, hv, h⟩ := ok_of_bind h
      obtain ⟨value, rfl, hvalue⟩ := sound_union ht hv
      obtain ⟨ls₅, he₅, h⟩ := ok_of_bind h
      obtain ⟨rfl, rfl⟩ := Prod.mk.inj (Except.ok.inj h)
      rw [map_of_expect he₂, map_of_expect he₃] at hkey
      rw [map_of_expect he₅] at hvalue
      rw [map_of_after? ha]
      exact ⟨.map key value, rfl, hkey.map hvalue, fun _ _ _ ↦ rfl⟩
    · obtain ⟨⟨fs, ls₁⟩, hf, h⟩ := ok_of_bind h
      obtain ⟨ls₂, he, h⟩ := ok_of_bind h
      obtain ⟨rfl, rfl⟩ := Prod.mk.inj (Except.ok.inj h)
      obtain ⟨rfl, -⟩ | ⟨fields, rfl, hspan⟩ := derives_fields ht hf
      · exact absurd rfl (fields_ne_nil hbrace hf)
      · rw [map_of_expect he] at hspan
        exact ⟨fields.struct, rfl, hspan.struct (nodup_of_fields hf).1, fun _ _ _ ↦ rfl⟩

theorem sound_primary
    (hb : ∀ ⦃ls t ls'⦄, term ls = .ok (t, ls') → after? .openBracket ls' = none) :
    SoundPrimary depth [] (primary stop term) := by
  intro ls t ls' h
  unfold primary at h
  split at h
  · next word _ _ _ =>
    split at h
    · next ty hr =>
      have ha : atom? (.word word) = some ty := hr
      obtain ⟨rfl, rfl⟩ := Prod.mk.inj (Except.ok.inj h)
      exact ⟨.atom _ _ ha, rfl, .atom ha, fun _ _ _ ↦ rfl⟩
    · next hr =>
      split at h
      · cases h
      · next hx => exact sound_afterWord ht hb (by simp [isReserved, hr, hx]) _ h
  · obtain ⟨rfl, rfl⟩ := Prod.mk.inj (Except.ok.inj h)
    exact ⟨.atom _ _ rfl, rfl, .atom rfl, fun _ _ _ ↦ rfl⟩
  · obtain ⟨rfl, rfl⟩ := Prod.mk.inj (Except.ok.inj h)
    exact ⟨.atom _ _ rfl, rfl, .atom rfl, fun _ _ _ ↦ rfl⟩
  · obtain ⟨⟨xs, ls₁⟩, hi, h⟩ := ok_of_bind h
    obtain ⟨ls₂, he, h⟩ := ok_of_bind h
    obtain ⟨rfl, rfl⟩ := Prod.mk.inj (Except.ok.inj h)
    obtain ⟨rfl, rfl⟩ | ⟨items, rfl, hspan⟩ := derives_items ht hi
    · refine ⟨.emptyTuple, rfl, ?_, fun _ _ _ ↦ rfl⟩
      rw [List.map_cons, map_of_expect he]
      exact .emptyTuple
    · rw [map_of_expect he] at hspan
      exact ⟨items.tuple, by cases items <;> rfl, hspan.tuple, fun _ _ _ ↦ rfl⟩
  · exact sound_braced ht h
  · obtain ⟨⟨_, ls₁⟩, hi, h⟩ := ok_of_bind h
    obtain ⟨ls₂, he, h⟩ := ok_of_bind h
    obtain ⟨rfl, rfl⟩ := Prod.mk.inj (Except.ok.inj h)
    obtain ⟨inner, rfl, hspan⟩ := sound_union ht hi
    rw [map_of_expect he] at hspan
    exact ⟨inner.group, rfl, hspan.group, fun _ _ _ ↦ rfl⟩
  · cases h

end

theorem sound_term (depth : Nat) : Sound .term depth (term stop depth) := by
  induction depth with
  | zero =>
    intro ls t ls' h
    cases h
  | succ depth ih =>
    intro ls t ls' h
    cases hq : after? .question ls with
    | some ls₀ =>
      rw [term, hq] at h
      obtain ⟨⟨_, ls₁⟩, hi, h⟩ := ok_of_bind h
      obtain ⟨inner, rfl, hspan⟩ := ih hi
      obtain ⟨rfl, rfl⟩ := Prod.mk.inj (Except.ok.inj h)
      rw [map_of_after? hq]
      exact ⟨inner.nullable, rfl, hspan.nullable⟩
    | none =>
      rw [term_succ hq] at h
      obtain ⟨⟨_, ls₁⟩, hb, h⟩ := ok_of_bind h
      obtain ⟨base, rfl, hspan, hleaves⟩ := sound_primary ih (fun _ _ _ ↦ after?_of_term) hb
      obtain ⟨rest, hrest, hspan'⟩ := derives_brackets h
      exact ⟨.bare base rest, hrest, hspan.bare hspan' (hleaves hspan'.tokens)⟩

end

/-- The parser reads from a text just what the grammar derives from its tokens, and there is one
derivation at most. -/
theorem parse_eq_ok_iff (text : String) (t : Ty) :
    (parse text = .ok t ↔ ∃ ls, lex text = .ok ls ∧ ∃ p : Phrase .type,
      p.tokens = ls.map (·.token) ∧ p.value = t ∧ p.every Phrase.hasDistinctNames ∧
        p.every Phrase.leavesBrackets ∧ p.nesting ≤ maxDepth) ∧
    ∀ p q : Phrase .type, p.every Phrase.leavesBrackets → q.every Phrase.leavesBrackets →
      p.tokens = q.tokens → p = q := by
  refine ⟨⟨fun h ↦ ?_, ?_⟩, fun p q hp hq h ↦ ?_⟩
  · obtain ⟨ls, hlex, h⟩ := ok_of_bind h
    obtain ⟨p, rfl, hspan⟩ := sound_union (sound_term maxDepth) (parseTokens_eq_ok.1 h)
    obtain ⟨htokens, hdistinct, hleaves, hnesting⟩ := hspan
    refine ⟨ls, hlex, p, ?_, rfl, hdistinct, hleaves, hnesting⟩
    simpa using htokens.symm
  · rintro ⟨ls, hlex, p, hp, rfl, hd, hl, hn⟩
    obtain ⟨ls', hls', hu⟩ := (Phrase.readable hd hl hn).union text.utf8ByteSize
      (hp.symm.trans (List.append_nil _).symm) rfl
    obtain rfl := List.map_eq_nil_iff.1 hls'
    rw [parse, hlex]
    exact parseTokens_eq_ok.2 hu
  · have he : p.tokens ++ [] = q.tokens ++ [] := by simpa using h
    exact (Phrase.determined hp hq rfl rfl he).1

def boundedPhrase (inner outer : Phrase .brackets) : Phrase .type :=
  .chain (.chain (.bare (.bounded "T" rfl (.bare (.atom (.word "int") _ rfl) inner)) outer)
    .noOperand) .noOperand

theorem parse_eq_ok_iff_bound :
    parse "T extends int[]" = .ok (.bounded "T" (.list (.primitive .int))) ∧
    ∀ p : Phrase .type, p.every Phrase.leavesBrackets →
      p.tokens = (boundedPhrase (.list .noBrackets) .noBrackets).tokens →
      p = boundedPhrase (.list .noBrackets) .noBrackets := by
  obtain ⟨hparse, hunique⟩ := parse_eq_ok_iff "T extends int[]"
    (.bounded "T" (.list (.primitive .int)))
  refine ⟨hparse.2 ⟨_, rfl, boundedPhrase (.list .noBrackets) .noBrackets, ?_⟩, fun p hp h ↦ ?_⟩
  · exact ⟨rfl, rfl, rfl, rfl, by decide⟩
  · exact hunique _ _ hp rfl h

/-- The grammar alone derives lists of a generic with a bound that the parser does not read, and
these tokens in two ways. -/
theorem parse_bound_takes_brackets :
    ¬(parse "T extends int[]" = .ok (.list (.bounded "T" (.primitive .int))) ↔
      ∃ ls, lex "T extends int[]" = .ok ls ∧ ∃ p : Phrase .type,
        p.tokens = ls.map (·.token) ∧ p.value = .list (.bounded "T" (.primitive .int)) ∧
          p.every Phrase.hasDistinctNames ∧ p.nesting ≤ maxDepth) ∧
    ¬∀ p q : Phrase .type, p.tokens = q.tokens → p = q := by
  constructor
  · intro h
    have hparse := h.2 ⟨_, rfl, boundedPhrase .noBrackets (.list .noBrackets), rfl, rfl, rfl,
      by decide⟩
    have hbound : parse "T extends int[]" = .ok (.bounded "T" (.list (.primitive .int))) := rfl
    rw [hbound] at hparse
    cases hparse
  · intro h
    have he := congrArg Phrase.value (h (boundedPhrase .noBrackets (.list .noBrackets))
      (boundedPhrase (.list .noBrackets) .noBrackets) rfl)
    cases he

end FlowTypes.Notation
