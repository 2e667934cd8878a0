import FlowTypes.Proofs.Notation.Parsing

namespace FlowTypes.Notation

inductive Operator
  | union
  | inter

namespace Operator

def mark : Operator → Mark
  | .union => .bar
  | .inter => .ampersand

def join : Operator → Ty → Ty → Ty
  | .union => .union
  | .inter => .inter

end Operator

inductive Element
  | item
  | field

abbrev Element.Value : Element → Type
  | .item => Ty
  | .field => Field Ty

/-- What the grammar has rules for: operands with an operator between them, what follows the first
of them, terms, the brackets that follow a primary, primaries, fields, and lists of elements. -/
inductive Category
  | chain (op : Operator)
  | operands (op : Operator)
  | term
  | brackets
  | primary
  | field
  | list (element : Element)

namespace Category

abbrev type : Category := .chain .union

def operand : Operator → Category
  | .union => .chain .inter
  | .inter => .term

def element : Element → Category
  | .item => .type
  | .field => .field

/-- What a phrase stands for. Further operands and brackets go on from what is before them. -/
abbrev Value : Category → Type
  | .chain _ | .term | .primary => Ty
  | .operands _ | .brackets => Ty → Ty
  | .field => Field Ty
  | .list e => List e.Value

end Category

def Operator.value : (op : Operator) → (Category.operand op).Value → Ty
  | .union, t | .inter, t => t

def Element.value : (e : Element) → (Category.element e).Value → e.Value
  | .item, t => t
  | .field, f => f

def atom? : Token → Option Ty
  | .word w => reserved? w
  | .number x _ => some (.literal (.number x))
  | .string s => some (.literal (.string s))
  | .mark _ => none

structure Label where
  quoted : Bool
  name : String
  optional : Bool

def Label.tokens (label : Label) : List Token :=
  (if label.quoted then .string label.name else .word label.name) ::
    ((if label.optional then [.mark .question] else []) ++ [.mark .colon])

/-- The derivations of the grammar

    type        := conjunction ('|' conjunction)*
    conjunction := term ('&' term)*
    term        := '?' term | primary ('[' size? ']')*
    primary     := atom | generic ('extends' term)? | name '{' type? '}'
                 | '[' (type (',' type)* ','?)? ']' | '{' (field (',' field)* ','?)? '}'
                 | '{' '[' type ']' ':' type '}' | '(' type ')'
    field       := name '?'? ':' type
-/
inductive Phrase : Category → Type
  | chain {op : Operator} (first : Phrase (.operand op)) (rest : Phrase (.operands op)) :
      Phrase (.chain op)
  | noOperand {op : Operator} : Phrase (.operands op)
  | operand {op : Operator} (next : Phrase (.operand op)) (rest : Phrase (.operands op)) :
      Phrase (.operands op)
  | nullable (inner : Phrase .term) : Phrase .term
  | bare (base : Phrase .primary) (rest : Phrase .brackets) : Phrase .term
  | noBrackets : Phrase .brackets
  | list (rest : Phrase .brackets) : Phrase .brackets
  | array (value : Double) (digits : String) (size : Nat) (h : sizeOf? digits = some size)
      (rest : Phrase .brackets) : Phrase .brackets
  | atom (token : Token) (ty : Ty) (h : atom? token = some ty) : Phrase .primary
  | generic (name : String) (h : startsUppercase name) : Phrase .primary
  | bounded (name : String) (h : startsUppercase name) (bound : Phrase .term) : Phrase .primary
  | tag (name : String) (h : isReserved name = false) : Phrase .primary
  | named (name : String) (h : isReserved name = false) (inner : Phrase .type) : Phrase .primary
  | emptyTuple : Phrase .primary
  | tuple (items : Phrase (.list .item)) : Phrase .primary
  | openStruct : Phrase .primary
  | struct (fields : Phrase (.list .field)) : Phrase .primary
  | map (key value : Phrase .type) : Phrase .primary
  | group (inner : Phrase .type) : Phrase .primary
  | field (label : Label) (type : Phrase .type) : Phrase .field
  | last {e : Element} (element : Phrase (.element e)) (comma : Bool) : Phrase (.list e)
  | more {e : Element} (element : Phrase (.element e)) (rest : Phrase (.list e)) : Phrase (.list e)

def commaIf (comma : Bool) : List Token := if comma then [.mark .comma] else []

namespace Phrase

def tokens : {k : Category} → Phrase k → List Token
  | _, chain first rest => first.tokens ++ rest.tokens
  | _, noOperand | _, noBrackets => []
  | .operands op, operand next rest => .mark op.mark :: (next.tokens ++ rest.tokens)
  | _, nullable inner => .mark .question :: inner.tokens
  | _, bare base rest => base.tokens ++ rest.tokens
  | _, list rest => .mark .openBracket :: .mark .closeBracket :: rest.tokens
  | _, array x digits _ _ rest =>
    .mark .openBracket :: .number x digits :: .mark .closeBracket :: rest.tokens
  | _, atom token _ _ => [token]
  | _, generic name _ => [.word name]
  | _, bounded name _ bound => .word name :: .word extendsWord :: bound.tokens
  | _, tag name _ => [.word name, .mark .openBrace, .mark .closeBrace]
  | _, named name _ inner =>
    .word name :: .mark .openBrace :: (inner.tokens ++ [.mark .closeBrace])
  | _, emptyTuple => [.mark .openBracket, .mark .closeBracket]
  | _, tuple items => .mark .openBracket :: (items.tokens ++ [.mark .closeBracket])
  | _, openStruct => [.mark .openBrace, .mark .closeBrace]
  | _, struct fields => .mark .openBrace :: (fields.tokens ++ [.mark .closeBrace])
  | _, map s t =>
    .mark .openBrace :: .mark .openBracket :: (s.tokens ++
      .mark .closeBracket :: .mark .colon :: (t.tokens ++ [.mark .closeBrace]))
  | _, group inner => .mark .openParen :: (inner.tokens ++ [.mark .closeParen])
  | _, field label t => label.tokens ++ t.tokens
  | _, last x comma => x.tokens ++ commaIf comma
  | _, more x rest => x.tokens ++ .mark .comma :: rest.tokens

def value : {k : Category} → Phrase k → k.Value
  | .chain op, chain first rest => rest.value (op.value first.value)
  | _, noOperand | _, noBrackets => id
  | .operands op, operand next rest => fun left ↦ rest.value (op.join left (op.value next.value))
  | _, nullable inner => .nullable inner.value
  | _, bare base rest => rest.value base.value
  | _, list rest => fun base ↦ rest.value (.list base)
  | _, array _ _ size _ rest => fun base ↦ rest.value (.array base size)
  | _, atom _ ty _ => ty
  | _, generic name _ => .generic name
  | _, bounded name _ bound => .bounded name bound.value
  | _, tag name _ => .tag name
  | _, named name _ inner => .named name inner.value
  | _, emptyTuple => .emptyTuple
  | _, tuple items => .tuple items.value
  | _, openStruct => .openStruct
  | _, struct fields => .struct fields.value
  | _, map s t => .map s.value t.value
  | _, group inner => inner.value
  | _, field label t => ⟨label.name, label.optional, t.value⟩
  | .list e, last x _ => [e.value x.value]
  | .list e, more x rest => e.value x.value :: rest.value

/-- How many terms are inside each other. -/
def nesting : {k : Category} → Phrase k → Nat
  | _, chain first rest => max first.nesting rest.nesting
  | _, operand next rest => max next.nesting rest.nesting
  | _, nullable inner => inner.nesting + 1
  | _, bare base _ => base.nesting + 1
  | _, bounded _ _ bound => bound.nesting
  | _, named _ _ inner | _, group inner => inner.nesting
  | _, tuple items => items.nesting
  | _, struct fields => fields.nesting
  | _, map s t => max s.nesting t.nesting
  | _, field _ t => t.nesting
  | _, last x _ => x.nesting
  | _, more x rest => max x.nesting rest.nesting
  | _, noOperand | _, noBrackets | _, list _ | _, array .. | _, atom .. | _, generic .. | _, tag ..
  | _, emptyTuple | _, openStruct => 0

theorem nesting_brackets (p : Phrase .brackets) : p.nesting = 0 := by
  cases p <;> rfl

def every (q : {k : Category} → Phrase k → Bool) : {k : Category} → Phrase k → Bool
  | _, p@(chain first rest) => q p && (every q first && every q rest)
  | _, p@(operand next rest) => q p && (every q next && every q rest)
  | _, p@(nullable inner) => q p && every q inner
  | _, p@(bare base rest) => q p && (every q base && every q rest)
  | _, p@(list rest) | _, p@(array _ _ _ _ rest) => q p && every q rest
  | _, p@(bounded _ _ bound) => q p && every q bound
  | _, p@(named _ _ inner) | _, p@(group inner) => q p && every q inner
  | _, p@(tuple items) => q p && every q items
  | _, p@(struct fields) => q p && every q fields
  | _, p@(map s t) => q p && (every q s && every q t)
  | _, p@(field _ t) => q p && every q t
  | _, p@(last x _) => q p && every q x
  | _, p@(more x rest) => q p && (every q x && every q rest)
  | _, p@noOperand | _, p@noBrackets | _, p@(atom ..) | _, p@(generic ..) | _, p@(tag ..)
  | _, p@emptyTuple | _, p@openStruct => q p

section

variable {op : Operator} {e : Element} {q : {k : Category} → Phrase k → Bool}

@[simp] theorem every_chain (first : Phrase (.operand op)) (rest : Phrase (.operands op)) :
    every q (chain first rest) = (q (chain first rest) && (every q first && every q rest)) := rfl

@[simp] theorem every_operand (next : Phrase (.operand op)) (rest : Phrase (.operands op)) :
    every q (operand next rest) = (q (operand next rest) && (every q next && every q rest)) := rfl

@[simp] theorem every_nullable (inner : Phrase .term) :
    every q inner.nullable = (q inner.nullable && every q inner) := rfl

@[simp] theorem every_bare (base : Phrase .primary) (rest : Phrase .brackets) :
    every q (bare base rest) = (q (bare base rest) && (every q base && every q rest)) := rfl

@[simp] theorem every_list (rest : Phrase .brackets) :
    every q rest.list = (q rest.list && every q rest) := rfl

@[simp] theorem every_array (x : Double) (digits : String) (size : Nat)
    (h : sizeOf? digits = some size) (rest : Phrase .brackets) :
    every q (array x digits size h rest) = (q (array x digits size h rest) && every q rest) := rfl

@[simp] theorem every_bounded (name : String) (h : startsUppercase name) (bound : Phrase .term) :
    every q (bounded name h bound) = (q (bounded name h bound) && every q bound) := rfl

@[simp] theorem every_named (name : String) (h : isReserved name = false) (inner : Phrase .type) :
    every q (named name h inner) = (q (named name h inner) && every q inner) := rfl

@[simp] theorem every_tuple (items : Phrase (.list .item)) :
    every q items.tuple = (q items.tuple && every q items) := rfl

@[simp] theorem every_struct (fields : Phrase (.list .field)) :
    every q fields.struct = (q fields.struct && every q fields) := rfl

@[simp] theorem every_map (s t : Phrase .type) :
    every q (map s t) = (q (map s t) && (every q s && every q t)) := rfl

@[simp] theorem every_group (inner : Phrase .type) :
    every q inner.group = (q inner.group && every q inner) := rfl

@[simp] theorem every_field (label : Label) (t : Phrase .type) :
    every q (field label t) = (q (field label t) && every q t) := rfl

@[simp] theorem every_last (x : Phrase (.element e)) (comma : Bool) :
    every q (last x comma) = (q (last x comma) && every q x) := rfl

@[simp] theorem every_more (x : Phrase (.element e)) (rest : Phrase (.list e)) :
    every q (more x rest) = (q (more x rest) && (every q x && every q rest)) := rfl

end

def hasDistinctNames : {k : Category} → Phrase k → Bool
  | _, struct fields => decide (fields.value.map (·.name)).Nodup
  | _, _ => true

/-- Has a generic with a bound no brackets after it? They are left to the bound. -/
def leavesBrackets : {k : Category} → Phrase k → Bool
  | _, bare (bounded ..) rest => rest.tokens.isEmpty
  | _, _ => true

end Phrase

def Operator.rank : Operator → Nat
  | .union => 1
  | .inter => 2

def Token.rank : Token → Nat
  | .mark .closeParen | .mark .closeBracket | .mark .closeBrace => 0
  | .mark .comma => 1
  | .mark .bar => 2
  | .mark .ampersand => 3
  | .mark .openBracket => 4
  | _ => 5

/-- The first token, if there is one, has at most this rank. -/
def endsBefore (rank : Nat) (ts : List Token) : Bool := ts.head?.all (·.rank ≤ rank)

@[simp] theorem endsBefore_nil (rank : Nat) : endsBefore rank [] := rfl

@[simp] theorem endsBefore_cons (rank : Nat) (t : Token) (ts : List Token) :
    endsBefore rank (t :: ts) = decide (t.rank ≤ rank) := rfl

theorem endsBefore_mono {rank rank' : Nat} (hr : rank ≤ rank') {ts : List Token}
    (h : endsBefore rank ts) : endsBefore rank' ts := by
  cases ts with
  | nil => rfl
  | cons t ts =>
    simp only [endsBefore_cons, decide_eq_true_eq] at h ⊢
    omega

theorem Operator.rank_mark (op : Operator) : (Token.mark op.mark).rank = op.rank + 1 := by
  cases op <;> rfl

namespace Category

def opens : Category → Bool
  | .chain _ | .term | .primary | .list .item => true
  | _ => false

end Category

namespace Phrase

variable {k : Category} {ts us : List Token} {op : Operator} {e : Element}

/-- The highest rank of a token that may come after a phrase. -/
def rank : {k : Category} → Phrase k → Nat
  | .list _, _ => 0
  | .field, _ => 1
  | .chain op, _ | .operands op, _ => op.rank
  | .term, _ | .brackets, _ | .primary, bounded .. => 3
  | .primary, _ => 4

theorem rank_operand (p : Phrase (.operand op)) : p.rank = op.rank + 1 := by
  cases op <;> rfl

theorem rank_element (p : Phrase (.element e)) : p.rank = 1 := by
  cases e <;> rfl

theorem endsBefore_operands (p : Phrase (.operands op)) (h : endsBefore op.rank ts) :
    endsBefore (op.rank + 1) (p.tokens ++ ts) := by
  cases p with
  | noOperand => exact endsBefore_mono (Nat.le_succ _) h
  | operand next rest => simp [tokens, op.rank_mark]

theorem endsBefore_brackets {base : Phrase .primary} {rest : Phrase .brackets}
    (hl : leavesBrackets (bare base rest)) (h : endsBefore 3 ts) :
    endsBefore base.rank (rest.tokens ++ ts) := by
  cases rest with
  | noBrackets => exact endsBefore_mono (by cases base <;> simp [rank]) h
  | list | array => cases base <;> first | rfl | simp [leavesBrackets, tokens] at hl

theorem opens (p : Phrase k) (hk : k.opens) : ∃ t ts, p.tokens = t :: ts ∧ t.opens := by
  induction p with
  | @chain op first _ ih _ =>
    obtain ⟨t, ts, h, ht⟩ := ih (by cases op <;> rfl)
    exact ⟨t, _, by rw [tokens, h, List.cons_append], ht⟩
  | bare base _ ih _ =>
    obtain ⟨t, ts, h, ht⟩ := ih rfl
    exact ⟨t, _, by rw [tokens, h, List.cons_append], ht⟩
  | @last e x _ ih | @more e x _ ih _ =>
    cases e with
    | item =>
      obtain ⟨t, ts, h, ht⟩ := ih rfl
      exact ⟨t, _, by rw [tokens, h, List.cons_append], ht⟩
    | field => simp [Category.opens] at hk
  | atom token ty h =>
    refine ⟨token, [], rfl, ?_⟩
    cases token with
    | mark m => simp [atom?] at h
    | _ => rfl
  | noOperand | operand | noBrackets | list | array | field => simp [Category.opens] at hk
  | _ => exact ⟨_, _, rfl, rfl⟩

theorem fields_tokens (p : Phrase (.list .field)) :
    ∃ label more, p.tokens = Label.tokens label ++ more := by
  cases p with
  | last x comma | more x rest =>
    cases x with | field label t =>
    exact ⟨label, _, List.append_assoc label.tokens t.tokens _⟩

inductive Production
  | atom
  | generic
  | bounded
  | tag
  | named
  | emptyTuple
  | tuple
  | openStruct
  | struct
  | map
  | group

def production : Phrase .primary → Production
  | atom .. => .atom
  | generic .. => .generic
  | bounded .. => .bounded
  | tag .. => .tag
  | named .. => .named
  | emptyTuple => .emptyTuple
  | tuple .. => .tuple
  | openStruct => .openStruct
  | struct .. => .struct
  | map .. => .map
  | group .. => .group

/-- The rule for what tokens begin with. Three of them are enough to tell. -/
def production? : List Token → Option Production
  | .number .. :: _ | .string _ :: _ => some .atom
  | .word w :: ts =>
    if (reserved? w).isSome then some .atom else match ts with
      | .mark .openBrace :: .mark .closeBrace :: _ => some .tag
      | .mark .openBrace :: _ => some .named
      | .word _ :: _ => some .bounded
      | _ => some .generic
  | .mark .openBracket :: .mark .closeBracket :: _ => some .emptyTuple
  | .mark .openBracket :: _ => some .tuple
  | .mark .openBrace :: .mark .closeBrace :: _ => some .openStruct
  | .mark .openBrace :: .mark .openBracket :: _ => some .map
  | .mark .openBrace :: _ => some .struct
  | .mark .openParen :: _ => some .group
  | _ => none

theorem reserved?_of_isReserved {name : String} (h : isReserved name = false) :
    reserved? name = none := by
  have hr : reserved? name = none ∧ name ≠ extendsWord := by simpa [isReserved] using h
  exact hr.1

theorem production?_tokens (p : Phrase .primary) (ht : endsBefore p.rank ts) :
    production? (p.tokens ++ ts) = some p.production := by
  cases p with
  | atom token ty h =>
    cases token with
    | word w => simp [tokens, production?, production, show reserved? w = some ty from h]
    | number | string => rfl
    | mark => simp [atom?] at h
  | generic name h =>
    have hr := reserved?_of_isReserved (isReserved_of_startsUppercase h)
    simp only [tokens, List.cons_append, List.nil_append, production?, hr, Option.isSome_none,
      Bool.false_eq_true, if_false, production]
    match ts, ht with
    | [], _ => rfl
    | .mark m :: _, ht => cases m <;> first | rfl | simp [rank, Token.rank] at ht
  | bounded name h bound =>
    have hr := reserved?_of_isReserved (isReserved_of_startsUppercase h)
    simp [tokens, production?, production, hr]
  | tag name h =>
    have hr := reserved?_of_isReserved h
    simp [tokens, production?, production, hr]
  | named name h inner =>
    have hr := reserved?_of_isReserved h
    obtain ⟨t, more, hi, ho⟩ := inner.opens rfl
    simp only [tokens, hi, List.cons_append, production?, hr, Option.isSome_none,
      Bool.false_eq_true, if_false, production]
    match t, ho with
    | .mark m, ho => cases m <;> first | rfl | simp [Token.opens] at ho
    | .word _, _ | .number .., _ | .string _, _ => rfl
  | tuple items =>
    obtain ⟨t, more, hi, ho⟩ := items.opens rfl
    simp only [tokens, hi, List.cons_append, production]
    match t, ho with
    | .mark m, ho => cases m <;> first | rfl | simp [Token.opens] at ho
    | .word _, _ | .number .., _ | .string _, _ => rfl
  | struct fields =>
    obtain ⟨label, more, hf⟩ := fields_tokens fields
    obtain ⟨quoted, name, optional⟩ := label
    simp only [tokens, hf, production]
    cases quoted <;> rfl
  | emptyTuple | openStruct | map | group => rfl

theorem endsBefore_comma (x : Phrase (.element e)) (ts : List Token) :
    endsBefore x.rank (.mark .comma :: ts) := by
  simp [x.rank_element, Token.rank]

theorem endsBefore_commaIf (x : Phrase (.element e)) (comma : Bool) (h : endsBefore 0 ts) :
    endsBefore x.rank (commaIf comma ++ ts) := by
  cases comma with
  | false => exact endsBefore_mono (Nat.zero_le _) h
  | true => exact endsBefore_comma x ts

theorem tokens_ne_question {p : Phrase .primary} (ht : endsBefore p.rank ts) {us : List Token} :
    p.tokens ++ ts ≠ .mark .question :: us := by
  intro h
  have hp := production?_tokens p ht
  rw [h] at hp
  cases hp

end Phrase

end FlowTypes.Notation
