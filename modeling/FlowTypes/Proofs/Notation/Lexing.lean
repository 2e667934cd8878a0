import FlowTypes.Notation.Printer
import FlowTypes.Proofs.Notation.Tiling
import FlowTypes.Proofs.Text.Quoted

namespace FlowTypes.Notation

def Piece.token? : Piece → Option Token
  | .token t => some t
  | .space => none

/-- The lexemes are those of the tokens among the pieces. -/
def Spells (ls : List Lexeme) (ps : List Piece) : Prop :=
  ls.map (·.token) = ps.filterMap Piece.token?

def breaks : List Piece → Bool
  | [] | .space :: _ | .token (.mark _) :: _ => true
  | _ => false

namespace Token

def isLegible : Token → Prop
  | .word w => Text.isWord w.toList
  | .number x t => Numeral.Reads t.toList x
  | .string _ | .mark _ => True

def needsBreak : Token → Bool
  | .word _ | .number .. => true
  | .string _ | .mark _ => false

end Token

/-- Every token is found again where it is written, and no two of them fuse. -/
def Legible : List Piece → Prop
  | [] => True
  | .space :: ps => Legible ps
  | .token t :: ps => t.isLegible ∧ (t.needsBreak → breaks ps) ∧ Legible ps

section

variable {ps : List Piece}

theorem head_of_breaks (hb : breaks ps) :
    (ps.flatMap Piece.text).head?.all (!Text.continuesWord ·) := by
  match ps, hb with
  | [], _ => rfl
  | .space :: ps, _ => rfl
  | .token (.mark m) :: ps, _ => cases m <;> rfl

theorem ends_of_breaks (hb : breaks ps) : Numeral.ends (ps.flatMap Piece.text) := by
  match ps, hb with
  | [], _ => rfl
  | .space :: ps, _ => rfl
  | .token (.mark m) :: ps, _ => cases m <;> rfl

theorem unquoted_of_isPlain {cs : List Char} (h : ∀ c ∈ cs, Text.Quoted.isPlain c) :
    Unquoted cs := by
  induction cs with
  | nil => exact .nil
  | cons c cs ih =>
    obtain ⟨⟨hquote, hslash, -⟩, hcs⟩ := List.forall_mem_cons.1 h
    exact .plain hquote hslash (ih hcs)

theorem unquoted_escape (text : List Char) : Unquoted (text.flatMap Text.Quoted.escape) := by
  induction text with
  | nil => exact .nil
  | cons c text ih =>
    rw [List.flatMap_cons]
    refine .append ?_ ih
    obtain ⟨he, hc⟩ | ⟨d, ds, he, hds, -⟩ := Text.Quoted.escape_cases c
    · rw [he]
      exact unquoted_of_isPlain (by simpa using hc)
    · rw [he]
      exact .escaped d (unquoted_of_isPlain hds)

theorem cut_text {t : Token} (ht : t.isLegible) (hb : t.needsBreak → breaks ps) :
    Cut t t.text (ps.flatMap Piece.text) := by
  cases t with
  | word w =>
    have hcut := Cut.word ht (head_of_breaks (hb rfl))
    rwa [String.ofList_toList] at hcut
  | number x w =>
    obtain ⟨n, hscan, htext, rfl⟩ := Numeral.Reads.scan ht _ (ends_of_breaks (hb rfl))
    obtain ⟨-, hcut⟩ := cut_number hscan (Numeral.Reads.finite ht)
    rwa [htext, String.ofList_toList] at hcut
  | string s => exact cut_string (unquoted_escape _) (Text.Quoted.read_escape s) _
  | mark m => exact .mark m _

theorem tiles_of_legible (h : Legible ps) (before : List Char) :
    ∃ ls, Tiles before (ps.flatMap Piece.text) ls ∧ Spells ls ps := by
  induction ps generalizing before with
  | nil => exact ⟨[], rfl, rfl⟩
  | cons p ps ih =>
    rw [List.flatMap_cons]
    cases p with
    | space =>
      obtain ⟨ls, ht, hs⟩ := ih h (before ++ [' '])
      exact ⟨ls, tiles_of_blank rfl ht, hs⟩
    | token t =>
      obtain ⟨hlegible, hb, hps⟩ := h
      obtain ⟨ls, ht, hs⟩ := ih hps (before ++ t.text)
      refine ⟨⟨t, (String.ofList before).utf8ByteSize, t.text⟩ :: ls, ?_, congrArg (t :: ·) hs⟩
      refine ⟨[], ps.flatMap Piece.text, rfl, rfl, ?_, cut_text hlegible hb, ?_⟩
      · rw [List.append_nil]
      · rwa [List.append_nil]

end

theorem lex_of_legible {ps : List Piece} (h : Legible ps) :
    ∃ ls, lex (String.ofList (ps.flatMap Piece.text)) = .ok ls ∧ Spells ls ps := by
  simp only [lex_eq_ok_iff, String.toList_ofList]
  exact tiles_of_legible h []

end FlowTypes.Notation
