import FlowTypes.Proofs.Notation.Nesting

namespace FlowTypes

namespace Ty

mutual

/-- The height of a type in which a union, an intersection, an array or a list counts `n` times. -/
def heightWith (n : Nat) : Ty → Nat
  | .literal _ | .primitive _ | .generic _ | .emptyTuple | .openStruct | .tag _ => 1
  | .bounded _ t | .named _ t | .nullable t => heightWith n t + 1
  | .array t _ | .list t => heightWith n t + n
  | .tuple ts => heightOfItemsWith n ts + 1
  | .struct fs => heightOfFieldsWith n fs + 1
  | .map s t => max (heightWith n s) (heightWith n t) + 1
  | .inter s t | .union s t => max (heightWith n s) (heightWith n t) + n

def heightOfItemsWith (n : Nat) : List Ty → Nat
  | [] => 0
  | t :: ts => max (heightWith n t) (heightOfItemsWith n ts)

def heightOfFieldsWith (n : Nat) : List (Field Ty) → Nat
  | [] => 0
  | ⟨_, _, t⟩ :: fs => max (heightWith n t) (heightOfFieldsWith n fs)

end

theorem heightOfItemsWith_one {ts : List Ty} (h : ∀ t ∈ ts, t.heightWith 1 = t.height) :
    heightOfItemsWith 1 ts = heightOfItems ts := by
  induction ts with
  | nil => rfl
  | cons t ts ih =>
    obtain ⟨ht, hts⟩ := List.forall_mem_cons.1 h
    rw [heightOfItemsWith, heightOfItems, ht, ih hts]

theorem heightOfFieldsWith_one {fs : List (Field Ty)}
    (h : ∀ f ∈ fs, f.type.heightWith 1 = f.type.height) :
    heightOfFieldsWith 1 fs = heightOfFields fs := by
  induction fs with
  | nil => rfl
  | cons f fs ih =>
    obtain ⟨hf, hfs⟩ := List.forall_mem_cons.1 h
    rw [heightOfFieldsWith, heightOfFields, hf, ih hfs]

theorem heightWith_one (t : Ty) : t.heightWith 1 = t.height := by
  induction t with
  | tuple ts ih => rw [heightWith, height, heightOfItemsWith_one ih]
  | struct fs ih => rw [heightWith, height, heightOfFieldsWith_one ih]
  | bounded _ _ ih | array _ _ ih | list _ ih | named _ _ ih | nullable _ ih =>
    rw [heightWith, height, ih]
  | map _ _ ihs iht | inter _ _ ihs iht | union _ _ ihs iht => rw [heightWith, height, ihs, iht]
  | _ => rfl

end Ty

namespace Notation

open Ty (heightWith heightOfItemsWith heightOfFieldsWith)

def Token.goesOn : Token → Bool
  | .mark m => m == .bar || m == .ampersand || m == .openBracket
  | _ => false

/-- What tokens can add to the height of a type. -/
def toll (n : Nat) (ts : List Token) : Nat := n * ts.countP Token.goesOn

variable {k : Category} {n : Nat}

theorem toll_append (ts us : List Token) : toll n (ts ++ us) = toll n ts + toll n us := by
  rw [toll, List.countP_append, Nat.mul_add, ← toll, ← toll]

theorem toll_mono {ts us : List Token} (h : ts.Sublist us) : toll n ts ≤ toll n us :=
  Nat.mul_le_mul_left n h.countP_le

theorem toll_le_cons (t : Token) (ts : List Token) : toll n ts ≤ toll n (t :: ts) :=
  toll_mono (List.sublist_cons_self t ts)

theorem toll_le_between (t u : Token) (ts : List Token) : toll n ts ≤ toll n (t :: (ts ++ [u])) :=
  toll_mono ((List.sublist_append_left ts [u]).cons t)

theorem toll_goesOn {t : Token} (ht : t.goesOn) (ts : List Token) :
    toll n (t :: ts) = toll n ts + n := by
  rw [toll, List.countP_cons_of_pos ht, Nat.mul_succ, ← toll]

theorem Operator.goesOn_mark (op : Operator) : (Token.mark op.mark).goesOn := by cases op <;> rfl

theorem Operator.heightWith_join (op : Operator) (s t : Ty) :
    (op.join s t).heightWith n = max (s.heightWith n) (t.heightWith n) + n := by
  cases op <;> rfl

theorem heightWith_atom {token : Token} {t : Ty} (h : atom? token = some t) :
    t.heightWith n = 1 := by
  cases token with
  | word w =>
    rw [atom?] at h
    unfold reserved? at h
    split at h
    · obtain rfl := Option.some_inj.1 h
      rfl
    · obtain rfl := Option.some_inj.1 h
      rfl
    · obtain rfl := Option.some_inj.1 h
      rfl
    · obtain ⟨p, -, rfl⟩ := Option.map_eq_some_iff.1 h
      rfl
  | number | string =>
    obtain rfl := Option.some_inj.1 h
    rfl
  | mark m => simp [atom?] at h

namespace Phrase

/-- A phrase stands for a type that is no higher than the phrase is deep and its marks allow. -/
def Limits (n : Nat) : {k : Category} → Phrase k → Prop
  | .chain _, p | .term, p => p.value.heightWith n ≤ p.nesting + toll n p.tokens
  | .operands _, p => ∀ t,
    (p.value t).heightWith n ≤ max (t.heightWith n) p.nesting + toll n p.tokens
  | .brackets, p => ∀ t, (p.value t).heightWith n ≤ t.heightWith n + toll n p.tokens
  | .primary, p => p.value.heightWith n ≤ p.nesting + 1 + toll n p.tokens
  | .field, p => p.value.type.heightWith n ≤ p.nesting + toll n p.tokens
  | .list .item, p => heightOfItemsWith n p.value ≤ p.nesting + toll n p.tokens
  | .list .field, p => heightOfFieldsWith n p.value ≤ p.nesting + toll n p.tokens

theorem Limits.operand {op : Operator} {p : Phrase (.operand op)} (h : p.Limits n) :
    (op.value p.value).heightWith n ≤ p.nesting + toll n p.tokens := by
  cases op <;> exact h

theorem limits (n : Nat) (p : Phrase k) : p.Limits n := by
  induction p with
  | @chain op first rest ihf ihr =>
    have hf := ihf.operand
    have hr := ihr (op.value first.value)
    simp only [Limits, value, nesting, tokens, toll_append]
    omega
  | noOperand => exact fun t ↦ Nat.le_add_right_of_le (Nat.le_max_left _ _)
  | @operand op next rest ihn ihr =>
    intro t
    have hn := ihn.operand
    have hr := ihr (op.join t (op.value next.value))
    rw [op.heightWith_join] at hr
    simp only [value, nesting, tokens, toll_goesOn op.goesOn_mark, toll_append]
    omega
  | nullable inner ih =>
    have htoll := toll_le_cons (n := n) (.mark .question) inner.tokens
    simp only [Limits] at ih
    simp only [Limits, value, heightWith, nesting, tokens]
    omega
  | bare base rest ihb ihr =>
    have hr := ihr base.value
    simp only [Limits] at ihb
    simp only [Limits, value, nesting, tokens, toll_append]
    omega
  | noBrackets => exact fun t ↦ Nat.le_add_right _ _
  | list rest ih =>
    intro t
    have hr := ih (.list t)
    have htoll := toll_le_cons (n := n) (.mark .closeBracket) rest.tokens
    simp only [value, tokens, toll_goesOn (t := .mark .openBracket) rfl]
    rw [heightWith] at hr
    omega
  | array x digits size _ rest ih =>
    intro t
    have hr := ih (.array t size)
    have hnumber := toll_le_cons (n := n) (.number x digits) (.mark .closeBracket :: rest.tokens)
    have hclose := toll_le_cons (n := n) (.mark .closeBracket) rest.tokens
    simp only [value, tokens, toll_goesOn (t := .mark .openBracket) rfl]
    rw [heightWith] at hr
    omega
  | atom token t h =>
    simp only [Limits, value, heightWith_atom h]
    omega
  | generic | tag | emptyTuple | openStruct =>
    simp only [Limits, value, heightWith]
    omega
  | bounded name _ bound ih =>
    have hname := toll_le_cons (n := n) (.word name) (.word extendsWord :: bound.tokens)
    have hword := toll_le_cons (n := n) (.word extendsWord) bound.tokens
    simp only [Limits] at ih
    simp only [Limits, value, heightWith, nesting, tokens]
    omega
  | named name _ inner ih =>
    have hname := toll_le_cons (n := n) (.word name)
      (.mark .openBrace :: (inner.tokens ++ [.mark .closeBrace]))
    have hbraces := toll_le_between (n := n) (.mark .openBrace) (.mark .closeBrace) inner.tokens
    simp only [Limits] at ih
    simp only [Limits, value, heightWith, nesting, tokens]
    omega
  | tuple items ih =>
    have hbrackets := toll_le_between (n := n) (.mark .openBracket) (.mark .closeBracket)
      items.tokens
    simp only [Limits] at ih
    simp only [Limits, value, heightWith, nesting, tokens]
    omega
  | struct fields ih =>
    have hbraces := toll_le_between (n := n) (.mark .openBrace) (.mark .closeBrace) fields.tokens
    simp only [Limits] at ih
    simp only [Limits, value, heightWith, nesting, tokens]
    omega
  | map s t ihs iht =>
    have htoll : toll n s.tokens + toll n t.tokens ≤ toll n (map s t).tokens := by
      rw [← toll_append]
      apply toll_mono
      have ht : t.tokens.Sublist (t.tokens ++ [.mark .closeBrace]) := List.sublist_append_left _ _
      exact (((List.Sublist.refl _).append ((ht.cons _).cons _)).cons _).cons _
    simp only [Limits] at ihs iht
    simp only [Limits, value, heightWith, nesting]
    omega
  | group inner ih =>
    have hparens := toll_le_between (n := n) (.mark .openParen) (.mark .closeParen) inner.tokens
    simp only [Limits] at ih
    simp only [Limits, value, nesting, tokens]
    omega
  | field label t ih =>
    simp only [Limits] at ih
    simp only [Limits, value, nesting, tokens, toll_append]
    omega
  | @last e x comma ih =>
    have hx : x.nesting + toll n x.tokens ≤
        (last x comma).nesting + toll n (last x comma).tokens := by
      rw [nesting, tokens, toll_append]
      omega
    cases e with
    | item | field => exact Nat.max_le.2 ⟨Nat.le_trans ih hx, Nat.zero_le _⟩
  | @more e x rest ihx ihr =>
    have hcomma := toll_le_cons (n := n) (.mark .comma) rest.tokens
    have hx : x.nesting + toll n x.tokens ≤
        (more x rest).nesting + toll n (more x rest).tokens := by
      rw [nesting, tokens, toll_append]
      omega
    have hrest : rest.nesting + toll n rest.tokens ≤
        (more x rest).nesting + toll n (more x rest).tokens := by
      rw [nesting, tokens, toll_append]
      omega
    cases e with
    | item | field => exact Nat.max_le.2 ⟨Nat.le_trans ihx hx, Nat.le_trans ihr hrest⟩

end Phrase

/-- A type that was read is no higher than the parser goes deep, but for what the marks of its text
add: at most `maxDepth` nodes on a path from the root to a leaf are something else than a union, an
intersection, an array or a list. -/
theorem height_of_parse {text : String} {t : Ty} (h : parse text = .ok t) :
    t.heightWith 0 ≤ maxDepth ∧ ∃ ls, lex text = .ok ls ∧
      t.height ≤ maxDepth + (ls.map (·.token)).countP Token.goesOn := by
  obtain ⟨ls, hlex, p, rfl, hs⟩ := exists_phrase_of_parse h
  have hlimits (n : Nat) : p.value.heightWith n ≤ p.nesting + toll n p.tokens := p.limits n
  have htokens : ls.map (·.token) = p.tokens := by simpa using hs.tokens
  have hnesting : p.nesting ≤ maxDepth := hs.fits.nesting
  refine ⟨?_, ls, hlex, ?_⟩
  · have h₀ := hlimits 0
    rw [toll, Nat.zero_mul] at h₀
    omega
  · have h₁ := hlimits 1
    rw [toll, Nat.one_mul, Ty.heightWith_one] at h₁
    rw [htokens]
    omega

theorem height_of_parse_loops :
    let t : Ty := .nullable (.union (.list (.list (.primitive .int)))
      (.struct [⟨"a", false, .inter (.generic "T") (.primitive .bool)⟩]))
    parse "?(int[][] | {a: T & bool})" = .ok t ∧ t.heightWith 0 = 3 ∧ t.height = 5 ∧
      t.heightWith 0 ≤ maxDepth ∧ ∃ ls, lex "?(int[][] | {a: T & bool})" = .ok ls ∧
        t.height ≤ maxDepth + (ls.map (·.token)).countP Token.goesOn := by
  intro t
  have h : parse "?(int[][] | {a: T & bool})" = .ok t := rfl
  exact ⟨h, rfl, rfl, height_of_parse h⟩

theorem parse_print_lists (n : Nat) :
    let t : Ty := Nat.repeat .list n (.primitive .int)
    parse (print t) = .ok t ∧ t.height = n + 1 := by
  intro t
  have hlists : isCanonical t ∧ needsParens t .element = false ∧ printDepth t = 1 ∧
      t.height = n + 1 := by
    induction n with
    | zero => exact ⟨rfl, rfl, rfl, rfl⟩
    | succ n ih =>
      obtain ⟨hc, hp, hd, hh⟩ := ih
      have ht : t = .list (Nat.repeat .list n (.primitive .int)) := rfl
      refine ⟨?_, rfl, ?_, ?_⟩
      · simpa [ht, isCanonical, isSpellable] using hc
      · rw [ht, printDepth, placed, hp, hd]
        rfl
      · rw [ht, Ty.height, hh]
  obtain ⟨hc, -, hd, hh⟩ := hlists
  refine ⟨(parse_print_iff_depth hc).2 ?_, hh⟩
  rw [hd]
  decide

/-- Brackets after a term are read in a loop, which no depth limits. -/
theorem height_unbounded : ¬∃ bound, ∀ text t, parse text = .ok t → t.height ≤ bound := by
  rintro ⟨bound, h⟩
  obtain ⟨hparse, hheight⟩ := parse_print_lists bound
  have hle := h _ _ hparse
  omega

end Notation

end FlowTypes
