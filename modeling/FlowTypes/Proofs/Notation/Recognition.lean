import FlowTypes.Proofs.Notation.Grammar
import FlowTypes.Proofs.Notation.RoundTrip

namespace FlowTypes.Notation

section

variable {ls : List Lexeme} {ts : List Token}

theorem exists_of_map_cons {t : Token} (h : ls.map (·.token) = t :: ts) :
    ∃ offset slice rest, ls = ⟨t, offset, slice⟩ :: rest ∧ rest.map (·.token) = ts := by
  obtain ⟨⟨token, offset, slice⟩, rest, rfl, rfl, hrest⟩ := List.map_eq_cons_iff.1 h
  exact ⟨offset, slice, rest, rfl, hrest⟩

theorem length_of_map (h : ls.map (·.token) = ts) : ls.length = ts.length := by
  rw [← h, List.length_map]

theorem length_lt_of_map {ls' : List Lexeme} {t : Token} {us : List Token}
    (h : ls.map (·.token) = us ++ t :: ts) (h' : ls'.map (·.token) = ts) :
    ls'.length < ls.length := by
  rw [length_of_map h, length_of_map h', List.length_append, List.length_cons]
  omega

theorem after?_of_endsBefore {rank : Nat} {m : Mark} (hm : rank < (Token.mark m).rank)
    (ht : endsBefore rank ts) (h : ls.map (·.token) = ts) : after? m ls = none := by
  cases ls with
  | nil => rfl
  | cons l ls =>
    obtain ⟨token, offset, slice⟩ := l
    subst h
    have hne : token ≠ .mark m := by
      rintro rfl
      simp only [List.map_cons, endsBefore_cons, decide_eq_true_eq] at ht
      omega
    simp [hne]

end

theorem items_of_some {term : Parser Ty} {ls : List Lexeme} {fuel : Nat}
    (h : (after? .closeBracket ls).isSome) : items term fuel ls = .ok ([], ls) := by
  obtain ⟨rest, h⟩ := Option.isSome_iff_exists.1 h
  cases fuel with
  | zero => rfl
  | succ fuel => rw [items, h]

theorem fields_of_some {stop : Nat} {term : Parser Ty} {ls : List Lexeme} {fuel : Nat}
    {seen : List String} (h : (after? .closeBrace ls).isSome) :
    fields stop term fuel seen ls = .ok ([], ls) := by
  obtain ⟨rest, h⟩ := Option.isSome_iff_exists.1 h
  cases fuel with
  | zero => rfl
  | succ fuel => rw [fields, h]

def operandParser (stop depth : Nat) : Operator → Parser Ty
  | .union => chain .ampersand .inter (term stop depth)
  | .inter => term stop depth

/-- A phrase is read with this value from the tokens before the rest, with fuel for all of them. A
list is read up to what closes it, if there is no name twice. -/
def Category.Reads (stop depth : Nat) :
    (k : Category) → k.Value → List Lexeme → List Lexeme → Prop
  | .chain op, t, ls, rest =>
    Notation.chain op.mark op.join (operandParser stop depth op) ls = .ok (t, rest)
  | .operands op, f, ls, rest => ∀ left fuel, ls.length ≤ fuel →
    Notation.operands op.mark op.join (operandParser stop depth op) fuel left ls =
      .ok (f left, rest)
  | .term, t, ls, rest => Notation.term stop depth ls = .ok (t, rest)
  | .brackets, f, ls, rest => ∀ base fuel, ls.length ≤ fuel →
    Notation.brackets stop fuel base ls = .ok (f base, rest)
  | .primary, t, ls, rest => Notation.primary stop (Notation.term stop depth) ls = .ok (t, rest)
  | .field, f, ls, rest => Notation.field stop (Notation.term stop depth) ls = .ok (f, rest)
  | .list .item, ts, ls, rest => (after? .closeBracket rest).isSome → ∀ fuel, ls.length < fuel →
    items (Notation.term stop depth) fuel ls = .ok (ts, rest)
  | .list .field, fs, ls, rest => (after? .closeBrace rest).isSome → ∀ fuel seen,
    ls.length < fuel → (fs.map (·.name)).Nodup → (∀ f ∈ fs, f.name ∉ seen) →
    fields stop (Notation.term stop depth) fuel seen ls = .ok (fs, rest)

namespace Phrase

variable {k : Category} {op : Operator} {e : Element} {depth : Nat}

def Readable (depth : Nat) (p : Phrase k) : Prop :=
  ∀ stop ⦃ls : List Lexeme⦄ ⦃ts : List Token⦄, ls.map (·.token) = p.tokens ++ ts →
    endsBefore p.rank ts → ∃ rest, rest.map (·.token) = ts ∧ k.Reads stop depth p.value ls rest

theorem after?_of_opens {p : Phrase k} (hk : k.opens) {m : Mark}
    (hm : (Token.mark m).opens = false) {ls : List Lexeme} {ts : List Token}
    (hls : ls.map (·.token) = p.tokens ++ ts) : after? m ls = none := by
  obtain ⟨t, more, hp, ho⟩ := p.opens hk
  rw [hp] at hls
  obtain ⟨_, _, ls', rfl, -⟩ := exists_of_map_cons hls
  have hne : t ≠ .mark m := by
    rintro rfl
    rw [hm] at ho
    cases ho
  simp [hne]

theorem after?_of_label {p : Phrase (.list .field)} {m : Mark} {ls : List Lexeme}
    {ts : List Token} (hls : ls.map (·.token) = p.tokens ++ ts) : after? m ls = none := by
  obtain ⟨⟨quoted, name, optional⟩, more, hp⟩ := p.fields_tokens
  rw [hp] at hls
  obtain ⟨_, _, ls', rfl, -⟩ := exists_of_map_cons hls
  cases quoted <;> rfl

namespace Readable

theorem operandParser {p : Phrase (.operand op)} (h : Readable depth p) (stop : Nat)
    {ls : List Lexeme} {ts : List Token} (hls : ls.map (·.token) = p.tokens ++ ts)
    (ht : endsBefore (op.rank + 1) ts) :
    ∃ rest, rest.map (·.token) = ts ∧ rest.length ≤ ls.length ∧
      Notation.operandParser stop depth op ls = .ok (op.value p.value, rest) := by
  obtain ⟨rest, hrest, hr⟩ := h stop hls (p.rank_operand ▸ ht)
  have hlength : rest.length ≤ ls.length := by
    rw [length_of_map hrest, length_of_map hls, List.length_append]
    omega
  refine ⟨rest, hrest, hlength, ?_⟩
  cases op <;> exact hr

theorem chain {first : Phrase (.operand op)} {rest : Phrase (.operands op)}
    (hf : Readable depth first) (hr : Readable depth rest) : Readable depth (.chain first rest) := by
  intro stop ls ts hls ht
  rw [tokens, List.append_assoc] at hls
  obtain ⟨ls₁, hls₁, -, hfirst⟩ := hf.operandParser stop hls (endsBefore_operands rest ht)
  obtain ⟨ls₂, hls₂, hrest⟩ := hr stop hls₁ ht
  refine ⟨ls₂, hls₂, ?_⟩
  change Notation.chain _ _ _ _ = _
  rw [chain_eq, hfirst]
  exact hrest _ _ (Nat.le_refl _)

theorem noOperand : Readable depth (.noOperand : Phrase (.operands op)) := by
  intro stop ls ts hls ht
  refine ⟨ls, hls, fun left fuel _ ↦ operands_of_none ?_ fuel⟩
  exact after?_of_endsBefore (by rw [op.rank_mark]; exact Nat.lt_succ_self _) ht hls

theorem operand {next : Phrase (.operand op)} {rest : Phrase (.operands op)}
    (hn : Readable depth next) (hr : Readable depth rest) : Readable depth (.operand next rest) := by
  intro stop ls ts hls ht
  rw [tokens, List.cons_append, List.append_assoc] at hls
  obtain ⟨_, _, ls₀, rfl, hls₀⟩ := exists_of_map_cons hls
  obtain ⟨ls₁, hls₁, hle, hnext⟩ := hn.operandParser stop hls₀ (endsBefore_operands rest ht)
  obtain ⟨ls₂, hls₂, hrest⟩ := hr stop hls₁ ht
  refine ⟨ls₂, hls₂, fun left fuel hfuel ↦ ?_⟩
  rw [List.length_cons] at hfuel
  obtain ⟨fuel, rfl⟩ := Nat.exists_eq_add_one.2 (Nat.zero_lt_of_lt hfuel)
  rw [operands, after?_cons, if_pos rfl]
  dsimp only
  rw [hnext]
  exact hrest _ _ (by omega)

theorem nullable {inner : Phrase .term} (hi : Readable depth inner) :
    Readable (depth + 1) inner.nullable := by
  intro stop ls ts hls ht
  obtain ⟨_, _, ls₀, rfl, hls₀⟩ := exists_of_map_cons hls
  obtain ⟨ls₁, hls₁, hinner⟩ := hi stop hls₀ ht
  refine ⟨ls₁, hls₁, ?_⟩
  change Notation.term _ _ _ = _
  rw [Notation.term, after?_cons, if_pos rfl]
  dsimp only
  rw [show Notation.term stop depth ls₀ = _ from hinner]
  rfl

theorem bare {base : Phrase .primary} {rest : Phrase .brackets}
    (hl : leavesBrackets (.bare base rest)) (hb : Readable depth base) (hr : Readable depth rest) :
    Readable (depth + 1) (.bare base rest) := by
  intro stop ls ts hls ht
  rw [tokens, List.append_assoc] at hls
  have hfollow := endsBefore_brackets hl ht
  have hquestion : after? .question ls = none := by
    cases h : after? .question ls with
    | none => rfl
    | some ls' =>
      obtain ⟨l, rfl, hl⟩ := after?_eq_some.1 h
      rw [List.map_cons, hl] at hls
      exact absurd hls.symm (tokens_ne_question hfollow)
  obtain ⟨ls₁, hls₁, hbase⟩ := hb stop hls hfollow
  obtain ⟨ls₂, hls₂, hrest⟩ := hr stop hls₁ ht
  refine ⟨ls₂, hls₂, ?_⟩
  change Notation.term _ _ _ = _
  rw [term_succ hquestion, show primary stop (Notation.term stop depth) ls = _ from hbase]
  exact hrest _ _ (Nat.le_refl _)

theorem noBrackets : Readable depth .noBrackets := by
  intro stop ls ts hls ht
  refine ⟨ls, hls, fun base fuel _ ↦ brackets_of_none ?_ fuel⟩
  exact after?_of_endsBefore (by decide) ht hls

theorem list {rest : Phrase .brackets} (hr : Readable depth rest) : Readable depth rest.list := by
  intro stop ls ts hls ht
  obtain ⟨_, _, ls₀, rfl, hls₀⟩ := exists_of_map_cons hls
  obtain ⟨_, _, ls₁, rfl, hls₁⟩ := exists_of_map_cons hls₀
  obtain ⟨ls₂, hls₂, hrest⟩ := hr stop hls₁ ht
  refine ⟨ls₂, hls₂, fun base fuel hfuel ↦ ?_⟩
  simp only [List.length_cons] at hfuel
  obtain ⟨fuel, rfl⟩ := Nat.exists_eq_add_one.2 (Nat.zero_lt_of_lt hfuel)
  simp only [brackets, after?_cons, if_pos]
  exact hrest _ _ (by omega)

theorem array {x : Double} {digits : String} {size : Nat} (hs : sizeOf? digits = some size)
    {rest : Phrase .brackets} (hr : Readable depth rest) :
    Readable depth (.array x digits size hs rest) := by
  intro stop ls ts hls ht
  obtain ⟨_, _, ls₀, rfl, hls₀⟩ := exists_of_map_cons hls
  obtain ⟨_, _, ls₁, rfl, hls₁⟩ := exists_of_map_cons hls₀
  obtain ⟨_, _, ls₂, rfl, hls₂⟩ := exists_of_map_cons hls₁
  obtain ⟨ls₃, hls₃, hrest⟩ := hr stop hls₂ ht
  refine ⟨ls₃, hls₃, fun base fuel hfuel ↦ ?_⟩
  simp only [List.length_cons] at hfuel
  obtain ⟨fuel, rfl⟩ := Nat.exists_eq_add_one.2 (Nat.zero_lt_of_lt hfuel)
  simp only [brackets, after?_cons, if_pos, reduceCtorEq, if_false, hs, expect_mark]
  exact hrest _ _ (by omega)

theorem atom {token : Token} {ty : Ty} (ha : atom? token = some ty) :
    Readable depth (.atom token ty ha) := by
  intro stop ls ts hls ht
  obtain ⟨_, _, ls₀, rfl, hls₀⟩ := exists_of_map_cons hls
  refine ⟨ls₀, hls₀, ?_⟩
  change primary _ _ _ = _
  cases token with
  | word w => simp only [primary, show reserved? w = some ty from ha, value]
  | number | string =>
    obtain rfl := Option.some_inj.1 ha
    rfl
  | mark m => simp [atom?] at ha

theorem generic {name : String} (hn : startsUppercase name) :
    Readable depth (.generic name hn) := by
  intro stop ls ts hls ht
  obtain ⟨_, _, ls₀, rfl, hls₀⟩ := exists_of_map_cons hls
  refine ⟨ls₀, hls₀, ?_⟩
  change primary _ _ _ = _
  have hbrace : after? .openBrace ls₀ = none :=
    after?_of_endsBefore (show 4 < 5 by decide) ht hls₀
  rw [primary_word (isReserved_of_startsUppercase hn)]
  unfold afterWord
  rw [hbrace, if_pos hn]
  cases ls₀ with
  | nil => rfl
  | cons l ls₀ =>
    obtain ⟨token, offset, slice⟩ := l
    obtain rfl : _ = ts := hls₀
    cases token with
    | word w => simp [rank, Token.rank] at ht
    | _ => rfl

theorem bounded {name : String} (hn : startsUppercase name) {bound : Phrase .term}
    (hb : Readable depth bound) : Readable depth (.bounded name hn bound) := by
  intro stop ls ts hls ht
  obtain ⟨_, _, ls₀, rfl, hls₀⟩ := exists_of_map_cons hls
  obtain ⟨_, _, ls₁, rfl, hls₁⟩ := exists_of_map_cons hls₀
  obtain ⟨ls₂, hls₂, hbound⟩ := hb stop hls₁ ht
  refine ⟨ls₂, hls₂, ?_⟩
  change primary _ _ _ = _
  rw [primary_word (isReserved_of_startsUppercase hn), afterWord, after?_cons, if_neg (by simp)]
  dsimp only
  rw [if_pos hn, if_pos rfl, show Notation.term stop depth ls₁ = _ from hbound]
  rfl

theorem tag {name : String} (hn : isReserved name = false) : Readable depth (.tag name hn) := by
  intro stop ls ts hls ht
  obtain ⟨_, _, ls₀, rfl, hls₀⟩ := exists_of_map_cons hls
  obtain ⟨_, _, ls₁, rfl, hls₁⟩ := exists_of_map_cons hls₀
  obtain ⟨_, _, ls₂, rfl, hls₂⟩ := exists_of_map_cons hls₁
  refine ⟨ls₂, hls₂, ?_⟩
  change primary _ _ _ = _
  rw [primary_word hn]
  simp [afterWord, value]

theorem union {p : Phrase .type} (h : Readable depth p) (stop : Nat) {ls : List Lexeme}
    {ts : List Token} (hls : ls.map (·.token) = p.tokens ++ ts) (ht : endsBefore 1 ts) :
    ∃ rest, rest.map (·.token) = ts ∧
      Notation.union (Notation.term stop depth) ls = .ok (p.value, rest) := h stop hls ht

theorem unionBefore {p : Phrase .type} (h : Readable depth p) (stop : Nat) {ls : List Lexeme}
    {ts : List Token} {m : Mark} (hm : (Token.mark m).rank ≤ 1)
    (hls : ls.map (·.token) = p.tokens ++ .mark m :: ts) :
    ∃ offset slice rest, rest.map (·.token) = ts ∧
      Notation.union (Notation.term stop depth) ls =
        .ok (p.value, ⟨.mark m, offset, slice⟩ :: rest) := by
  obtain ⟨_, hls', hp⟩ := h.union stop hls (by simpa using hm)
  obtain ⟨offset, slice, rest, rfl, hrest⟩ := exists_of_map_cons hls'
  exact ⟨offset, slice, rest, hrest, hp⟩

theorem named {name : String} (hn : isReserved name = false) {inner : Phrase .type}
    (hi : Readable depth inner) : Readable depth (.named name hn inner) := by
  intro stop ls ts hls ht
  simp only [tokens, List.cons_append, List.append_assoc, List.nil_append] at hls
  obtain ⟨_, _, ls₀, rfl, hls₀⟩ := exists_of_map_cons hls
  obtain ⟨_, _, ls₁, rfl, hls₁⟩ := exists_of_map_cons hls₀
  obtain ⟨_, _, ls₂, hls₂, hinner⟩ := hi.unionBefore stop (by decide) hls₁
  refine ⟨ls₂, hls₂, ?_⟩
  change primary _ _ _ = _
  have hclose : after? .closeBrace ls₁ = none := after?_of_opens rfl rfl hls₁
  rw [primary_word hn]
  simp only [afterWord, after?_cons, if_true, hclose, hinner, bind, Except.bind, expect_mark]
  rfl

theorem emptyTuple : Readable depth .emptyTuple := by
  intro stop ls ts hls ht
  obtain ⟨_, _, ls₀, rfl, hls₀⟩ := exists_of_map_cons hls
  obtain ⟨_, _, ls₁, rfl, hls₁⟩ := exists_of_map_cons hls₀
  refine ⟨ls₁, hls₁, ?_⟩
  change primary _ _ _ = _
  simp only [primary, items, after?_cons, if_true, bind, Except.bind, expect_mark]
  rfl

theorem tuple {items : Phrase (.list .item)} (hi : Readable depth items) :
    Readable depth items.tuple := by
  intro stop ls ts hls ht
  simp only [tokens, List.cons_append, List.append_assoc, List.nil_append] at hls
  obtain ⟨_, _, ls₀, rfl, hls₀⟩ := exists_of_map_cons hls
  obtain ⟨_, hrest, hitems⟩ := hi stop hls₀ (by rfl)
  obtain ⟨_, _, ls₁, rfl, hls₁⟩ := exists_of_map_cons hrest
  refine ⟨ls₁, hls₁, ?_⟩
  change primary _ _ _ = _
  simp only [primary, hitems (by simp) _ (Nat.lt_succ_self _), bind, Except.bind, expect_mark]
  cases items <;> rfl

theorem openStruct : Readable depth .openStruct := by
  intro stop ls ts hls ht
  obtain ⟨_, _, ls₀, rfl, hls₀⟩ := exists_of_map_cons hls
  obtain ⟨_, _, ls₁, rfl, hls₁⟩ := exists_of_map_cons hls₀
  refine ⟨ls₁, hls₁, ?_⟩
  change primary _ _ _ = _
  simp [primary, braced, value]

theorem struct {fields : Phrase (.list .field)} (hd : hasDistinctNames fields.struct)
    (hf : Readable depth fields) : Readable depth fields.struct := by
  intro stop ls ts hls ht
  simp only [tokens, List.cons_append, List.append_assoc, List.nil_append] at hls
  obtain ⟨_, _, ls₀, rfl, hls₀⟩ := exists_of_map_cons hls
  obtain ⟨_, hrest, hfields⟩ := hf stop hls₀ (by rfl)
  obtain ⟨_, _, ls₁, rfl, hls₁⟩ := exists_of_map_cons hrest
  refine ⟨ls₁, hls₁, ?_⟩
  change primary _ _ _ = _
  have hread := hfields (by simp) _ [] (Nat.lt_succ_self _) (of_decide_eq_true hd) (by simp)
  simp only [primary, braced, after?_of_label hls₀, hread, bind, Except.bind, expect_mark]
  rfl

theorem map {key value : Phrase .type} (hk : Readable depth key) (hv : Readable depth value) :
    Readable depth (.map key value) := by
  intro stop ls ts hls ht
  simp only [tokens, List.cons_append, List.append_assoc, List.nil_append] at hls
  obtain ⟨_, _, ls₀, rfl, hls₀⟩ := exists_of_map_cons hls
  obtain ⟨_, _, ls₁, rfl, hls₁⟩ := exists_of_map_cons hls₀
  obtain ⟨_, _, _, hls₂, hkey⟩ := hk.unionBefore stop (by decide) hls₁
  obtain ⟨_, _, ls₃, rfl, hls₃⟩ := exists_of_map_cons hls₂
  obtain ⟨_, _, ls₄, hls₄, hvalue⟩ := hv.unionBefore stop (by decide) hls₃
  refine ⟨ls₄, hls₄, ?_⟩
  change primary _ _ _ = _
  simp only [primary, braced, after?_cons, Token.mark.injEq, reduceCtorEq, if_false, if_true, hkey,
    hvalue, bind, Except.bind, expect_mark]
  rfl

theorem group {inner : Phrase .type} (hi : Readable depth inner) : Readable depth inner.group := by
  intro stop ls ts hls ht
  simp only [tokens, List.cons_append, List.append_assoc, List.nil_append] at hls
  obtain ⟨_, _, ls₀, rfl, hls₀⟩ := exists_of_map_cons hls
  obtain ⟨_, _, ls₁, hls₁, hinner⟩ := hi.unionBefore stop (by decide) hls₀
  refine ⟨ls₁, hls₁, ?_⟩
  change primary _ _ _ = _
  simp only [primary, hinner, bind, Except.bind, expect_mark]
  rfl

theorem field {label : Label} {t : Phrase .type} (ht : Readable depth t) :
    Readable depth (.field label t) := by
  intro stop ls ts hls hts
  obtain ⟨quoted, name, optional⟩ := label
  simp only [tokens, Label.tokens, List.cons_append, List.append_assoc] at hls
  obtain ⟨offset, slice, ls₀, rfl, hls₀⟩ := exists_of_map_cons hls
  have hname : fieldName stop (⟨if quoted then .string name else .word name, offset, slice⟩ :: ls₀) =
      .ok (name, ls₀) := by cases quoted <;> rfl
  cases optional with
  | true =>
    obtain ⟨_, _, ls₁, rfl, hls₁⟩ := exists_of_map_cons hls₀
    obtain ⟨_, _, ls₂, rfl, hls₂⟩ := exists_of_map_cons hls₁
    obtain ⟨ls₃, hls₃, htype⟩ := ht.union stop hls₂ hts
    refine ⟨ls₃, hls₃, ?_⟩
    change Notation.field _ _ _ = _
    unfold Notation.field
    simp only [hname, bind, Except.bind, after?_cons, if_true, expect_mark, htype]
    rfl
  | false =>
    obtain ⟨_, _, ls₁, rfl, hls₁⟩ := exists_of_map_cons hls₀
    obtain ⟨ls₂, hls₂, htype⟩ := ht.union stop hls₁ hts
    refine ⟨ls₂, hls₂, ?_⟩
    change Notation.field _ _ _ = _
    unfold Notation.field
    simp only [hname, bind, Except.bind, after?_cons, Token.mark.injEq, reduceCtorEq, if_false,
      expect_mark, htype]
    rfl

theorem lastItem {x : Phrase (.element .item)} {comma : Bool} (hx : Readable depth x) :
    Readable depth (.last x comma : Phrase (.list .item)) := by
  intro stop ls ts hls ht
  have hfirst : after? .closeBracket ls = none := after?_of_opens rfl rfl hls
  rw [tokens, List.append_assoc] at hls
  cases comma with
  | false =>
    obtain ⟨ls₁, hls₁, hitem⟩ := union hx stop hls (endsBefore_commaIf x false ht)
    refine ⟨ls₁, hls₁, fun _ fuel hfuel ↦ ?_⟩
    obtain ⟨fuel, rfl⟩ := Nat.exists_eq_add_one.2 (Nat.zero_lt_of_lt hfuel)
    have hcomma : after? .comma ls₁ = none := after?_of_endsBefore (show 0 < 1 by decide) ht hls₁
    simp only [items, hfirst, hitem, bind, Except.bind, hcomma]
    rfl
  | true =>
    obtain ⟨_, _, ls₁, hls₁, hitem⟩ := unionBefore hx stop (by decide) hls
    refine ⟨ls₁, hls₁, fun hclose fuel hfuel ↦ ?_⟩
    obtain ⟨fuel, rfl⟩ := Nat.exists_eq_add_one.2 (Nat.zero_lt_of_lt hfuel)
    simp only [items, hfirst, hitem, bind, Except.bind, after?_cons, if_true, items_of_some hclose]
    rfl

theorem moreItem {x : Phrase (.element .item)} {rest : Phrase (.list .item)}
    (hx : Readable depth x) (hr : Readable depth rest) : Readable depth (.more x rest) := by
  intro stop ls ts hls ht
  have hfirst : after? .closeBracket ls = none := after?_of_opens rfl rfl hls
  rw [tokens, List.append_assoc, List.cons_append] at hls
  obtain ⟨_, _, ls₁, hls₁, hitem⟩ := unionBefore hx stop (by decide) hls
  obtain ⟨ls₂, hls₂, hrest⟩ := hr stop hls₁ ht
  refine ⟨ls₂, hls₂, fun hclose fuel hfuel ↦ ?_⟩
  obtain ⟨fuel, rfl⟩ := Nat.exists_eq_add_one.2 (Nat.zero_lt_of_lt hfuel)
  have hfuel : ls₁.length < fuel :=
    Nat.lt_of_lt_of_le (length_lt_of_map hls hls₁) (Nat.le_of_lt_succ hfuel)
  simp only [items, hfirst, hitem, bind, Except.bind, after?_cons, if_true,
    hrest hclose fuel hfuel]
  rfl

theorem field_eq {x : Phrase (.element .field)} (hx : Readable depth x) (stop : Nat)
    {ls : List Lexeme} {ts : List Token} (hls : ls.map (·.token) = x.tokens ++ ts)
    (ht : endsBefore 1 ts) :
    ∃ rest, rest.map (·.token) = ts ∧
      Notation.field stop (Notation.term stop depth) ls = .ok (x.value, rest) := hx stop hls ht

theorem lastField {x : Phrase (.element .field)} {comma : Bool} (hx : Readable depth x) :
    Readable depth (.last x comma : Phrase (.list .field)) := by
  intro stop ls ts hls ht
  have hfirst : after? .closeBrace ls = none := after?_of_label hls
  rw [tokens, List.append_assoc] at hls
  obtain ⟨ls₁, hls₁, hfield⟩ := field_eq hx stop hls (x.rank_element ▸ endsBefore_commaIf x comma ht)
  cases comma with
  | false =>
    refine ⟨ls₁, hls₁, fun _ fuel seen hfuel hn hs ↦ ?_⟩
    obtain ⟨fuel, rfl⟩ := Nat.exists_eq_add_one.2 (Nat.zero_lt_of_lt hfuel)
    have hcomma : after? .comma ls₁ = none := after?_of_endsBefore (show 0 < 1 by decide) ht hls₁
    have hseen : x.value.name ∉ seen := hs _ (List.mem_singleton_self _)
    simp only [fields, hfirst, hfield, bind, Except.bind, hseen, if_false, hcomma]
    rfl
  | true =>
    obtain ⟨_, _, ls₂, rfl, hls₂⟩ := exists_of_map_cons hls₁
    refine ⟨ls₂, hls₂, fun hclose fuel seen hfuel hn hs ↦ ?_⟩
    obtain ⟨fuel, rfl⟩ := Nat.exists_eq_add_one.2 (Nat.zero_lt_of_lt hfuel)
    have hseen : x.value.name ∉ seen := hs _ (List.mem_singleton_self _)
    simp only [fields, hfirst, hfield, bind, Except.bind, hseen, if_false, after?_cons, if_true,
      fields_of_some hclose]
    rfl

theorem moreField {x : Phrase (.element .field)} {rest : Phrase (.list .field)}
    (hx : Readable depth x) (hr : Readable depth rest) : Readable depth (.more x rest) := by
  intro stop ls ts hls ht
  have hfirst : after? .closeBrace ls = none := after?_of_label hls
  rw [tokens, List.append_assoc, List.cons_append] at hls
  obtain ⟨_, hls₀, hfield⟩ := field_eq hx stop hls (x.rank_element ▸ endsBefore_comma x _)
  obtain ⟨_, _, ls₁, rfl, hls₁⟩ := exists_of_map_cons hls₀
  obtain ⟨ls₂, hls₂, hrest⟩ := hr stop hls₁ ht
  refine ⟨ls₂, hls₂, fun hclose fuel seen hfuel hn hs ↦ ?_⟩
  obtain ⟨fuel, rfl⟩ := Nat.exists_eq_add_one.2 (Nat.zero_lt_of_lt hfuel)
  have hfuel : ls₁.length < fuel :=
    Nat.lt_of_lt_of_le (length_lt_of_map hls hls₁) (Nat.le_of_lt_succ hfuel)
  have hseen : x.value.name ∉ seen := hs _ (List.mem_cons_self ..)
  obtain ⟨hfresh, hn⟩ := List.nodup_cons.1 hn
  have hs' : ∀ f ∈ rest.value, f.name ∉ x.value.name :: seen := by
    intro f hf hmem
    obtain hname | hmem := List.mem_cons.1 hmem
    · exact hfresh (List.mem_map.2 ⟨f, hf, hname⟩)
    · exact hs f (List.mem_cons_of_mem _ hf) hmem
  simp only [fields, hfirst, hfield, bind, Except.bind, hseen, if_false, after?_cons, if_true,
    hrest hclose fuel _ hfuel hn hs']
  rfl

end Readable

/-- The parser reads every phrase of the grammar that leaves brackets to bounds. -/
theorem readable {p : Phrase k} (hd : p.every hasDistinctNames) (hl : p.every leavesBrackets)
    (hn : p.nesting ≤ depth) : Readable depth p := by
  -- Every term takes one level off the depth, and the parts of all other phrases keep it.
  induction p generalizing depth with
  | chain _ _ ihf ihr =>
    simp only [every_chain, Bool.and_eq_true] at hd hl
    rw [nesting, Nat.max_le] at hn
    exact .chain (ihf hd.2.1 hl.2.1 hn.1) (ihr hd.2.2 hl.2.2 hn.2)
  | noOperand => exact .noOperand
  | operand _ _ ihn ihr =>
    simp only [every_operand, Bool.and_eq_true] at hd hl
    rw [nesting, Nat.max_le] at hn
    exact .operand (ihn hd.2.1 hl.2.1 hn.1) (ihr hd.2.2 hl.2.2 hn.2)
  | nullable _ ih =>
    simp only [every_nullable, Bool.and_eq_true] at hd hl
    obtain ⟨depth, rfl⟩ := Nat.exists_eq_add_one.2 (Nat.zero_lt_of_lt hn)
    exact .nullable (ih hd.2 hl.2 (Nat.le_of_succ_le_succ hn))
  | bare _ rest ihb ihr =>
    simp only [every_bare, Bool.and_eq_true] at hd hl
    obtain ⟨depth, rfl⟩ := Nat.exists_eq_add_one.2 (Nat.zero_lt_of_lt hn)
    exact .bare hl.1 (ihb hd.2.1 hl.2.1 (Nat.le_of_succ_le_succ hn))
      (ihr hd.2.2 hl.2.2 (nesting_brackets rest ▸ Nat.zero_le _))
  | noBrackets => exact .noBrackets
  | list rest ih =>
    simp only [every_list, Bool.and_eq_true] at hd hl
    exact .list (ih hd.2 hl.2 (nesting_brackets rest ▸ Nat.zero_le _))
  | array _ _ _ h rest ih =>
    simp only [every_array, Bool.and_eq_true] at hd hl
    exact .array h (ih hd.2 hl.2 (nesting_brackets rest ▸ Nat.zero_le _))
  | atom _ _ h => exact .atom h
  | generic _ h => exact .generic h
  | bounded _ h _ ih =>
    simp only [every_bounded, Bool.and_eq_true] at hd hl
    exact .bounded h (ih hd.2 hl.2 hn)
  | tag _ h => exact .tag h
  | named _ h _ ih =>
    simp only [every_named, Bool.and_eq_true] at hd hl
    exact .named h (ih hd.2 hl.2 hn)
  | emptyTuple => exact .emptyTuple
  | tuple _ ih =>
    simp only [every_tuple, Bool.and_eq_true] at hd hl
    exact .tuple (ih hd.2 hl.2 hn)
  | openStruct => exact .openStruct
  | struct _ ih =>
    simp only [every_struct, Bool.and_eq_true] at hd hl
    exact .struct hd.1 (ih hd.2 hl.2 hn)
  | map _ _ ihk ihv =>
    simp only [every_map, Bool.and_eq_true] at hd hl
    rw [nesting, Nat.max_le] at hn
    exact .map (ihk hd.2.1 hl.2.1 hn.1) (ihv hd.2.2 hl.2.2 hn.2)
  | group _ ih =>
    simp only [every_group, Bool.and_eq_true] at hd hl
    exact .group (ih hd.2 hl.2 hn)
  | field _ _ ih =>
    simp only [every_field, Bool.and_eq_true] at hd hl
    exact .field (ih hd.2 hl.2 hn)
  | @last e _ _ ih =>
    simp only [every_last, Bool.and_eq_true] at hd hl
    have hx := ih hd.2 hl.2 hn
    cases e with
    | item => exact .lastItem hx
    | field => exact .lastField hx
  | @more e _ _ ihx ihr =>
    simp only [every_more, Bool.and_eq_true] at hd hl
    rw [nesting, Nat.max_le] at hn
    have hx := ihx hd.2.1 hl.2.1 hn.1
    have hr := ihr hd.2.2 hl.2.2 hn.2
    cases e with
    | item => exact .moreItem hx hr
    | field => exact .moreField hx hr

end Phrase

end FlowTypes.Notation
