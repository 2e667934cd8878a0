import FlowTypes.Proofs.Notation.Grammar

namespace FlowTypes.Notation.Phrase

variable {k : Category} {ts us : List Token} {op : Operator} {e : Element}

theorem not_endsBefore_list (p : Phrase (.list e)) (ts : List Token) :
    endsBefore 0 (p.tokens ++ ts) = false := by
  cases e with
  | item =>
    obtain ⟨t, more, hp, ho⟩ := p.opens rfl
    rw [hp]
    cases t with
    | mark m => cases m <;> first | rfl | simp [Token.opens] at ho
    | _ => rfl
  | field =>
    obtain ⟨⟨quoted, name, optional⟩, more, hp⟩ := p.fields_tokens
    rw [hp]
    cases quoted <;> rfl

theorem commaIf_ne {comma : Bool} (ht : endsBefore 0 ts) (p : Phrase (.list e)) :
    commaIf comma ++ ts ≠ .mark .comma :: (p.tokens ++ us) := by
  intro h
  cases comma with
  | false =>
    rw [show ts = _ from h] at ht
    simp [Token.rank] at ht
  | true =>
    have he : ts = p.tokens ++ us := (List.cons.inj h).2
    rw [he, not_endsBefore_list] at ht
    cases ht

theorem eq_of_commaIf {c d : Bool} (ht : endsBefore 0 ts) (hu : endsBefore 0 us)
    (h : commaIf c ++ ts = commaIf d ++ us) : c = d ∧ ts = us := by
  cases c <;> cases d
  · exact ⟨rfl, h⟩
  · subst h
    simp [commaIf, Token.rank] at ht
  · subst h
    simp [commaIf, Token.rank] at hu
  · simpa [commaIf] using h

theorem label_injective {l m : Label} (h : l.tokens ++ ts = m.tokens ++ us) : l = m ∧ ts = us := by
  obtain ⟨q, name, o⟩ := l
  obtain ⟨q', name', o'⟩ := m
  cases q <;> cases q' <;> cases o <;> cases o' <;> simp_all [Label.tokens]

/-- The tokens of a phrase, up to where it may end, tell that it is this one. -/
def Determined (p : Phrase k) : Prop :=
  ∀ ⦃q : Phrase k⦄ ⦃ts us : List Token⦄, q.every leavesBrackets → endsBefore p.rank ts →
    endsBefore q.rank us → p.tokens ++ ts = q.tokens ++ us → p = q ∧ ts = us

namespace Determined

theorem operands {first : Phrase (.operand op)} {rest : Phrase (.operands op)}
    (hf : Determined first) (hr : Determined rest) {first' : Phrase (.operand op)}
    {rest' : Phrase (.operands op)} (hq : first'.every leavesBrackets ∧ rest'.every leavesBrackets)
    (ht : endsBefore op.rank ts) (hu : endsBefore op.rank us)
    (h : first.tokens ++ (rest.tokens ++ ts) = first'.tokens ++ (rest'.tokens ++ us)) :
    (first = first' ∧ rest = rest') ∧ ts = us := by
  -- An operator after the first operand ranks above what may come after the chain.
  obtain ⟨rfl, h'⟩ := hf hq.1 (first.rank_operand ▸ endsBefore_operands rest ht)
    (first'.rank_operand ▸ endsBefore_operands rest' hu) h
  obtain ⟨rfl, rfl⟩ := hr hq.2 ht hu h'
  exact ⟨⟨rfl, rfl⟩, rfl⟩

theorem chain {first : Phrase (.operand op)} {rest : Phrase (.operands op)}
    (hf : Determined first) (hr : Determined rest) : Determined (.chain first rest) := by
  intro q ts us hq ht hu h
  cases q with | chain first' rest' =>
  simp only [every_chain, Bool.and_eq_true] at hq
  simp only [tokens, List.append_assoc] at h
  obtain ⟨⟨rfl, rfl⟩, rfl⟩ := hf.operands hr hq.2 ht hu h
  exact ⟨rfl, rfl⟩

theorem noOperand : Determined (.noOperand : Phrase (.operands op)) := by
  intro q ts us hq ht hu h
  cases q with
  | noOperand => exact ⟨rfl, h⟩
  | operand next rest =>
    subst h
    simp only [rank, tokens, List.cons_append, endsBefore_cons, op.rank_mark,
      decide_eq_true_eq] at ht
    omega

theorem operand {next : Phrase (.operand op)} {rest : Phrase (.operands op)}
    (hn : Determined next) (hr : Determined rest) : Determined (.operand next rest) := by
  intro q ts us hq ht hu h
  cases q with
  | noOperand =>
    subst h
    simp only [rank, tokens, List.cons_append, endsBefore_cons, op.rank_mark,
      decide_eq_true_eq] at hu
    omega
  | operand next' rest' =>
    simp only [every_operand, Bool.and_eq_true] at hq
    simp only [tokens, List.cons_append, List.append_assoc, List.cons.injEq, true_and] at h
    obtain ⟨⟨rfl, rfl⟩, rfl⟩ := hn.operands hr hq.2 ht hu h
    exact ⟨rfl, rfl⟩

theorem nullable {inner : Phrase .term} (hi : Determined inner) : Determined inner.nullable := by
  intro q ts us hq ht hu h
  cases q with
  | nullable inner' =>
    simp only [every_nullable, Bool.and_eq_true] at hq
    simp only [tokens, List.cons_append, List.cons.injEq, true_and] at h
    obtain ⟨rfl, rfl⟩ := hi hq.2 ht hu h
    exact ⟨rfl, rfl⟩
  | bare base rest =>
    simp only [every_bare, Bool.and_eq_true] at hq
    simp only [tokens, List.append_assoc] at h
    exact absurd h.symm (tokens_ne_question (endsBefore_brackets hq.1 hu))

theorem bare {base : Phrase .primary} {rest : Phrase .brackets}
    (hl : leavesBrackets (.bare base rest)) (hb : Determined base) (hr : Determined rest) :
    Determined (.bare base rest) := by
  intro q ts us hq ht hu h
  cases q with
  | nullable inner =>
    simp only [tokens, List.append_assoc] at h
    exact absurd h (tokens_ne_question (endsBefore_brackets hl ht))
  | bare base' rest' =>
    simp only [every_bare, Bool.and_eq_true] at hq
    simp only [tokens, List.append_assoc] at h
    obtain ⟨rfl, h'⟩ := hb hq.2.1 (endsBefore_brackets hl ht) (endsBefore_brackets hq.1 hu) h
    obtain ⟨rfl, rfl⟩ := hr hq.2.2 ht hu h'
    exact ⟨rfl, rfl⟩

theorem noBrackets : Determined .noBrackets := by
  intro q ts us hq ht hu h
  cases q with
  | noBrackets => exact ⟨rfl, h⟩
  | list | array =>
    subst h
    simp [rank, tokens, Token.rank] at ht

theorem list {rest : Phrase .brackets} (hr : Determined rest) : Determined rest.list := by
  intro q ts us hq ht hu h
  cases q with
  | noBrackets =>
    subst h
    simp [rank, tokens, Token.rank] at hu
  | list rest' =>
    simp only [every_list, Bool.and_eq_true] at hq
    simp only [tokens, List.cons_append, List.cons.injEq, true_and] at h
    obtain ⟨rfl, rfl⟩ := hr hq.2 ht hu h
    exact ⟨rfl, rfl⟩
  | array => simp [tokens] at h

theorem array {x : Double} {digits : String} {size : Nat} (hs : sizeOf? digits = some size)
    {rest : Phrase .brackets} (hr : Determined rest) :
    Determined (.array x digits size hs rest) := by
  intro q ts us hq ht hu h
  cases q with
  | noBrackets =>
    subst h
    simp [rank, tokens, Token.rank] at hu
  | list => simp [tokens] at h
  | array x' digits' size' hs' rest' =>
    simp only [every_array, Bool.and_eq_true] at hq
    simp only [tokens, List.cons_append, List.cons.injEq, true_and, Token.number.injEq] at h
    obtain ⟨⟨rfl, rfl⟩, h⟩ := h
    obtain ⟨rfl, rfl⟩ := hr hq.2 ht hu h
    obtain rfl := Option.some_inj.1 (hs.symm.trans hs')
    exact ⟨rfl, rfl⟩

theorem of_production {p : Phrase .primary}
    (hp : ∀ ⦃q : Phrase .primary⦄ ⦃ts us : List Token⦄, p.production = q.production →
      q.every leavesBrackets → endsBefore p.rank ts → endsBefore q.rank us →
      p.tokens ++ ts = q.tokens ++ us → p = q ∧ ts = us) : Determined p := by
  intro q ts us hq ht hu h
  have hr := production?_tokens p ht
  rw [h, production?_tokens q hu, Option.some_inj] at hr
  exact hp hr.symm hq ht hu h

theorem atom {token : Token} {ty : Ty} (ha : atom? token = some ty) :
    Determined (.atom token ty ha) := by
  refine of_production fun q ts us hr hq ht hu h ↦ ?_
  cases q with
  | atom token' ty' ha' =>
    simp only [tokens, List.cons_append, List.cons.injEq, List.nil_append] at h
    obtain ⟨rfl, rfl⟩ := h
    obtain rfl := Option.some_inj.1 (ha.symm.trans ha')
    exact ⟨rfl, rfl⟩
  | _ => cases hr

theorem generic {name : String} (hn : startsUppercase name) : Determined (.generic name hn) := by
  refine of_production fun q ts us hr hq ht hu h ↦ ?_
  cases q with
  | generic name' hn' =>
    simp only [tokens, List.cons_append, List.cons.injEq, List.nil_append, Token.word.injEq] at h
    obtain ⟨rfl, rfl⟩ := h
    exact ⟨rfl, rfl⟩
  | _ => cases hr

theorem bounded {name : String} (hn : startsUppercase name) {bound : Phrase .term}
    (hb : Determined bound) : Determined (.bounded name hn bound) := by
  refine of_production fun q ts us hr hq ht hu h ↦ ?_
  cases q with
  | bounded name' hn' bound' =>
    simp only [every_bounded, Bool.and_eq_true] at hq
    simp only [tokens, List.cons_append, List.cons.injEq, Token.word.injEq, true_and] at h
    obtain ⟨rfl, h⟩ := h
    obtain ⟨rfl, rfl⟩ := hb hq.2 ht hu h
    exact ⟨rfl, rfl⟩
  | _ => cases hr

theorem tag {name : String} (hn : isReserved name = false) : Determined (.tag name hn) := by
  refine of_production fun q ts us hr hq ht hu h ↦ ?_
  cases q with
  | tag name' hn' =>
    simp only [tokens, List.cons_append, List.cons.injEq, List.nil_append, Token.word.injEq,
      true_and] at h
    obtain ⟨rfl, rfl⟩ := h
    exact ⟨rfl, rfl⟩
  | _ => cases hr

theorem before {p q : Phrase k} (hp : Determined p) (hq : q.every leavesBrackets) {m : Mark}
    (hm : (Token.mark m).rank = 0) (h : p.tokens ++ .mark m :: ts = q.tokens ++ .mark m :: us) :
    p = q ∧ ts = us := by
  obtain ⟨he, ht⟩ := hp hq (by simp [hm]) (by simp [hm]) h
  exact ⟨he, (List.cons.inj ht).2⟩

theorem named {name : String} (hn : isReserved name = false) {inner : Phrase .type}
    (hi : Determined inner) : Determined (.named name hn inner) := by
  refine of_production fun q ts us hr hq ht hu h ↦ ?_
  cases q with
  | named name' hn' inner' =>
    simp only [every_named, Bool.and_eq_true] at hq
    simp only [tokens, List.cons_append, List.append_assoc, List.nil_append, List.cons.injEq,
      Token.word.injEq, true_and] at h
    obtain ⟨rfl, h⟩ := h
    obtain ⟨rfl, rfl⟩ := hi.before hq.2 rfl h
    exact ⟨rfl, rfl⟩
  | _ => cases hr

theorem emptyTuple : Determined .emptyTuple := by
  refine of_production fun q ts us hr hq ht hu h ↦ ?_
  cases q with
  | emptyTuple => exact ⟨rfl, List.append_cancel_left h⟩
  | _ => cases hr

theorem tuple {items : Phrase (.list .item)} (hi : Determined items) : Determined items.tuple := by
  refine of_production fun q ts us hr hq ht hu h ↦ ?_
  cases q with
  | tuple items' =>
    simp only [every_tuple, Bool.and_eq_true] at hq
    simp only [tokens, List.cons_append, List.append_assoc, List.nil_append, List.cons.injEq,
      true_and] at h
    obtain ⟨rfl, rfl⟩ := hi.before hq.2 rfl h
    exact ⟨rfl, rfl⟩
  | _ => cases hr

theorem openStruct : Determined .openStruct := by
  refine of_production fun q ts us hr hq ht hu h ↦ ?_
  cases q with
  | openStruct => exact ⟨rfl, List.append_cancel_left h⟩
  | _ => cases hr

theorem struct {fields : Phrase (.list .field)} (hf : Determined fields) :
    Determined fields.struct := by
  refine of_production fun q ts us hr hq ht hu h ↦ ?_
  cases q with
  | struct fields' =>
    simp only [every_struct, Bool.and_eq_true] at hq
    simp only [tokens, List.cons_append, List.append_assoc, List.nil_append, List.cons.injEq,
      true_and] at h
    obtain ⟨rfl, rfl⟩ := hf.before hq.2 rfl h
    exact ⟨rfl, rfl⟩
  | _ => cases hr

theorem map {key value : Phrase .type} (hk : Determined key) (hv : Determined value) :
    Determined (.map key value) := by
  refine of_production fun q ts us hr hq ht hu h ↦ ?_
  cases q with
  | map key' value' =>
    simp only [every_map, Bool.and_eq_true] at hq
    simp only [tokens, List.cons_append, List.append_assoc, List.nil_append, List.cons.injEq,
      true_and] at h
    obtain ⟨rfl, h'⟩ := hk.before hq.2.1 rfl h
    obtain ⟨rfl, rfl⟩ := hv.before hq.2.2 rfl (List.cons.inj h').2
    exact ⟨rfl, rfl⟩
  | _ => cases hr

theorem group {inner : Phrase .type} (hi : Determined inner) : Determined inner.group := by
  refine of_production fun q ts us hr hq ht hu h ↦ ?_
  cases q with
  | group inner' =>
    simp only [every_group, Bool.and_eq_true] at hq
    simp only [tokens, List.cons_append, List.append_assoc, List.nil_append, List.cons.injEq,
      true_and] at h
    obtain ⟨rfl, rfl⟩ := hi.before hq.2 rfl h
    exact ⟨rfl, rfl⟩
  | _ => cases hr

theorem field {label : Label} {t : Phrase .type} (hd : Determined t) :
    Determined (.field label t) := by
  intro q ts us hq ht hu h
  cases q with | field label' t' =>
  simp only [every_field, Bool.and_eq_true] at hq
  simp only [tokens, List.append_assoc] at h
  obtain ⟨rfl, h'⟩ := label_injective h
  obtain ⟨rfl, rfl⟩ := hd hq.2 ht hu h'
  exact ⟨rfl, rfl⟩

theorem last {x : Phrase (.element e)} {comma : Bool} (hx : Determined x) :
    Determined (.last x comma) := by
  intro q ts us hq ht hu h
  cases q with
  | last x' comma' =>
    simp only [every_last, Bool.and_eq_true] at hq
    simp only [tokens, List.append_assoc] at h
    obtain ⟨rfl, h'⟩ := hx hq.2 (endsBefore_commaIf x comma ht) (endsBefore_commaIf x' comma' hu) h
    obtain ⟨rfl, rfl⟩ := eq_of_commaIf ht hu h'
    exact ⟨rfl, rfl⟩
  | more x' rest' =>
    simp only [every_more, Bool.and_eq_true] at hq
    simp only [tokens, List.append_assoc, List.cons_append] at h
    obtain ⟨rfl, h'⟩ := hx hq.2.1 (endsBefore_commaIf x comma ht) (endsBefore_comma x' _) h
    exact absurd h' (commaIf_ne ht rest')

theorem more {x : Phrase (.element e)} {rest : Phrase (.list e)} (hx : Determined x)
    (hr : Determined rest) : Determined (.more x rest) := by
  intro q ts us hq ht hu h
  cases q with
  | last x' comma' =>
    simp only [every_last, Bool.and_eq_true] at hq
    simp only [tokens, List.append_assoc, List.cons_append] at h
    obtain ⟨rfl, h'⟩ := hx hq.2 (endsBefore_comma x _) (endsBefore_commaIf x' comma' hu) h
    exact absurd h'.symm (commaIf_ne hu rest)
  | more x' rest' =>
    simp only [every_more, Bool.and_eq_true] at hq
    simp only [tokens, List.append_assoc, List.cons_append] at h
    obtain ⟨rfl, h'⟩ := hx hq.2.1 (endsBefore_comma x _) (endsBefore_comma x' _) h
    obtain ⟨rfl, rfl⟩ := hr hq.2.2 ht hu (List.cons.inj h').2
    exact ⟨rfl, rfl⟩

end Determined

theorem determined {p : Phrase k} (hp : p.every leavesBrackets) : Determined p := by
  induction p with
  | chain _ _ ihf ihr =>
    simp only [every_chain, Bool.and_eq_true] at hp
    exact .chain (ihf hp.2.1) (ihr hp.2.2)
  | noOperand => exact .noOperand
  | operand _ _ ihn ihr =>
    simp only [every_operand, Bool.and_eq_true] at hp
    exact .operand (ihn hp.2.1) (ihr hp.2.2)
  | nullable _ ih =>
    simp only [every_nullable, Bool.and_eq_true] at hp
    exact .nullable (ih hp.2)
  | bare _ _ ihb ihr =>
    simp only [every_bare, Bool.and_eq_true] at hp
    exact .bare hp.1 (ihb hp.2.1) (ihr hp.2.2)
  | noBrackets => exact .noBrackets
  | list _ ih =>
    simp only [every_list, Bool.and_eq_true] at hp
    exact .list (ih hp.2)
  | array _ _ _ h _ ih =>
    simp only [every_array, Bool.and_eq_true] at hp
    exact .array h (ih hp.2)
  | atom _ _ h => exact .atom h
  | generic _ h => exact .generic h
  | bounded _ h _ ih =>
    simp only [every_bounded, Bool.and_eq_true] at hp
    exact .bounded h (ih hp.2)
  | tag _ h => exact .tag h
  | named _ h _ ih =>
    simp only [every_named, Bool.and_eq_true] at hp
    exact .named h (ih hp.2)
  | emptyTuple => exact .emptyTuple
  | tuple _ ih =>
    simp only [every_tuple, Bool.and_eq_true] at hp
    exact .tuple (ih hp.2)
  | openStruct => exact .openStruct
  | struct _ ih =>
    simp only [every_struct, Bool.and_eq_true] at hp
    exact .struct (ih hp.2)
  | map _ _ ihk ihv =>
    simp only [every_map, Bool.and_eq_true] at hp
    exact .map (ihk hp.2.1) (ihv hp.2.2)
  | group _ ih =>
    simp only [every_group, Bool.and_eq_true] at hp
    exact .group (ih hp.2)
  | field _ _ ih =>
    simp only [every_field, Bool.and_eq_true] at hp
    exact .field (ih hp.2)
  | last _ _ ih =>
    simp only [every_last, Bool.and_eq_true] at hp
    exact .last (ih hp.2)
  | more _ _ ihx ihr =>
    simp only [every_more, Bool.and_eq_true] at hp
    exact .more (ihx hp.2.1) (ihr hp.2.2)

end FlowTypes.Notation.Phrase
