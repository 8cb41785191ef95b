import Bourse.Proofs.Text.Digits
import Bourse.Statement.Sql

/-!
# Marks in statement text

Statement text can be read back from left to right: what is read are the characters of its fixed
pieces, and in between a mark for each bound value, numbered in order (`tokens_textFrom`). This
holds in both styles as long as no fixed piece has a mark of its own and none that follows a value
starts with a digit (`Separated`). So the marks are as many as the values, a value belongs to the
mark with its number, and the styles differ in nothing but the marks.
-/

namespace Bourse.Sql

/-- A character of statement text, or the mark of the value with some number. -/
inductive Token where
  | char (c : Char)
  | mark (number : ℕ)
deriving DecidableEq

/-- Reads text that has `bound` values before it. A question mark is the mark of the next value, a
dollar sign that of the value whose number comes after it. -/
def tokens (style : Placeholder) (bound : ℕ) : List Char → List Token
  | [] => []
  | c :: rest =>
    if style = .question ∧ c = '?' then .mark (bound + 1) :: tokens style (bound + 1) rest
    else if style = .dollar ∧ c = '$' then
      .mark (Nat.ofDigitChars 10 (rest.takeWhile Char.isDigit) 0)
        :: tokens style (bound + 1) (rest.dropWhile Char.isDigit)
    else .char c :: tokens style bound rest
termination_by cs => cs.length
decreasing_by
  · exact Nat.lt_succ_self _
  · exact Nat.lt_succ_of_le (List.dropWhile_suffix _).length_le
  · exact Nat.lt_succ_self _

def Token.number? : Token → Option ℕ
  | char _ => none
  | mark number => some number

/-- The text of some tokens, with `write n` in place of the mark of value `n`. -/
def rewrite (write : ℕ → String) : List Token → String
  | [] => ""
  | .char c :: rest => String.singleton c ++ rewrite write rest
  | .mark n :: rest => write n ++ rewrite write rest

/-- The numbers of the marks in a text, from left to right. -/
def marks (style : Placeholder) (text : String) : List ℕ :=
  (tokens style 0 text.toList).filterMap Token.number?

/-- A text with something else in place of its marks. -/
def replaceMarks (style : Placeholder) (write : ℕ → String) (text : String) : String :=
  rewrite write (tokens style 0 text.toList)

/-- A text with some values written in place of the marks of their numbers. -/
def fill (style : Placeholder) (write : Cell → String) (values : List Cell) (text : String) :
    String :=
  replaceMarks style (fun n => (values[n - 1]?).elim "" write) text

/-- A statement with its values written out where they are bound. -/
def written (write : Cell → String) : List Piece → String
  | [] => ""
  | .text s :: rest => s ++ written write rest
  | .bind value :: rest => write value ++ written write rest

/-- No character of the text is a mark. -/
def Plain (s : String) : Prop :=
  ∀ c ∈ s.toList, c ≠ '?' ∧ c ≠ '$'

theorem plain_ofList {cs : List Char} (h : (cs.all fun c => c != '?' && c != '$') = true) :
    Plain (String.ofList cs) := by
  simpa [Plain, List.all_eq_true] using h

@[simp]
theorem plain_append (s t : String) : Plain (s ++ t) ↔ Plain s ∧ Plain t := by
  simp only [Plain, String.toList_append, List.forall_mem_append]

/-- A number that comes before the text ends there: the text starts, and with no digit. -/
def Apart (s : String) : Prop :=
  ∃ c ∈ s.toList.head?, c.isDigit = false

theorem apart_ofList {c : Char} (h : c.isDigit = false) (cs : List Char) :
    Apart (String.ofList (c :: cs)) :=
  ⟨c, by rw [String.toList_ofList, List.head?_cons, Option.mem_some_iff], h⟩

theorem head?_append {s : String} {c : Char} (h : c ∈ s.toList.head?) (t : String) :
    c ∈ (s ++ t).toList.head? := by
  rw [String.toList_append, List.head?_append, Option.mem_def.1 h, Option.some_or]
  rfl

theorem Apart.append {s : String} (h : Apart s) (t : String) : Apart (s ++ t) := by
  obtain ⟨c, hc, hdigit⟩ := h
  exact ⟨c, head?_append hc t, hdigit⟩

/-- A value may come before these pieces. -/
def StartsApart : List Piece → Prop
  | .text s :: _ => Apart s
  | _ => True

/-- Fixed pieces are free of marks, and the end of each mark can be told. -/
def Separated : List Piece → Prop
  | [] => True
  | .text s :: rest => Plain s ∧ Separated rest
  | .bind _ :: rest => StartsApart rest ∧ Separated rest

theorem StartsApart.append {a b : List Piece} (ha : StartsApart a) (hb : StartsApart b) :
    StartsApart (a ++ b) := by
  cases a with
  | nil => exact hb
  | cons p rest => cases p <;> exact ha

theorem Separated.append {a b : List Piece} (ha : Separated a) (hb : Separated b)
    (hstart : StartsApart b) : Separated (a ++ b) := by
  induction a with
  | nil => exact hb
  | cons p rest ih =>
    cases p with
    | text s => exact ⟨ha.1, ih ha.2⟩
    | bind value => exact ⟨ha.1.append hstart, ih ha.2⟩

theorem separated_commaSeparated (cells : List Cell) : Separated (commaSeparated cells) := by
  fun_induction commaSeparated cells with
  | case1 => trivial
  | case2 value => exact ⟨trivial, trivial⟩
  | case3 value rest hrest ih => exact ⟨apart_ofList rfl _, plain_ofList (by decide), ih⟩

theorem separated_values (cells : List Cell) : Separated (values cells) := by
  unfold values
  split
  · exact ⟨plain_ofList (by decide), trivial⟩
  · have hend : Separated [.text ")"] := ⟨plain_ofList (by decide), trivial⟩
    exact ⟨plain_ofList (by decide), (separated_commaSeparated cells).append hend
      (apart_ofList rfl _)⟩

theorem startsApart_values (cells : List Cell) : StartsApart (values cells) := by
  unfold values
  split
  · exact apart_ofList rfl _
  · exact apart_ofList rfl _

/-- The tokens of some pieces with `bound` values before them. -/
def pieceTokens : ℕ → List Piece → List Token
  | _, [] => []
  | bound, .text s :: rest => s.toList.map .char ++ pieceTokens bound rest
  | bound, .bind _ :: rest => .mark (bound + 1) :: pieceTokens (bound + 1) rest

theorem tokens_plain (style : Placeholder) (bound : ℕ) {cs : List Char}
    (h : ∀ c ∈ cs, c ≠ '?' ∧ c ≠ '$') (rest : List Char) :
    tokens style bound (cs ++ rest) = cs.map .char ++ tokens style bound rest := by
  induction cs with
  | nil => rfl
  | cons c cs ih =>
    obtain ⟨⟨hquestion, hdollar⟩, hcs⟩ := List.forall_mem_cons.1 h
    rw [List.cons_append, tokens, if_neg fun hc => hquestion hc.2, if_neg fun hc => hdollar hc.2,
      ih hcs]
    rfl

theorem head?_textFrom (style : Placeholder) (bound : ℕ) {pieces : List Piece}
    (h : StartsApart pieces) :
    ∀ c ∈ (textFrom style bound pieces).toList.head?, c.isDigit = false := by
  match pieces with
  | [] => exact fun c hc => absurd hc (by simp [textFrom])
  | .text s :: rest =>
    obtain ⟨d, hd, hdigit⟩ := h
    intro c hc
    rw [textFrom, Option.mem_def.1 (head?_append hd _), Option.mem_some_iff] at hc
    rwa [← hc]
  | .bind value :: rest =>
    intro c hc
    cases style with
    | question =>
      simp only [textFrom, Placeholder.mark, String.toList_append] at hc
      obtain rfl : '?' = c := by simpa using hc
      rfl
    | dollar =>
      simp only [textFrom, Placeholder.mark, String.toList_append] at hc
      obtain rfl : '$' = c := by simpa using hc
      rfl

theorem tokens_mark (style : Placeholder) (bound : ℕ) {rest : List Char}
    (h : ∀ c ∈ rest.head?, c.isDigit = false) :
    tokens style bound ((style.mark (bound + 1)).toList ++ rest)
      = .mark (bound + 1) :: tokens style (bound + 1) rest := by
  cases style with
  | question =>
    have hmark : (Placeholder.question.mark (bound + 1)).toList = ['?'] := by
      simp [Placeholder.mark]
    rw [hmark, List.singleton_append, tokens, if_pos ⟨rfl, rfl⟩]
  | dollar =>
    have hmark : (Placeholder.dollar.mark (bound + 1)).toList
        = '$' :: Nat.toDigits 10 (bound + 1) := by
      simp [Placeholder.mark, Text.ofNat]
    obtain ⟨htake, hdrop⟩ := Text.takeWhile_digits (Text.isDigit_toDigits (bound + 1)) h
    have hnumber : Nat.ofDigitChars 10 (Nat.toDigits 10 (bound + 1)) 0 = bound + 1 :=
      Nat.ofDigitChars_toDigits (by decide) (by decide)
    rw [hmark, List.cons_append, tokens, if_neg (by simp), if_pos ⟨rfl, rfl⟩, htake, hdrop, hnumber]

/-- Of statement text both styles read the same tokens. -/
theorem tokens_textFrom (style : Placeholder) {pieces : List Piece} (h : Separated pieces)
    (bound : ℕ) :
    tokens style bound (textFrom style bound pieces).toList = pieceTokens bound pieces := by
  induction pieces generalizing bound with
  | nil => simp [textFrom, tokens, pieceTokens]
  | cons p rest ih =>
    cases p with
    | text s =>
      rw [textFrom, String.toList_append, tokens_plain style bound h.1, ih h.2, pieceTokens]
    | bind value =>
      rw [textFrom, String.toList_append, tokens_mark style bound (head?_textFrom style _ h.1),
        ih h.2, pieceTokens]

theorem numbers_pieceTokens (bound : ℕ) (pieces : List Piece) :
    (pieceTokens bound pieces).filterMap Token.number?
      = List.range' (bound + 1) (parameters pieces).length := by
  induction pieces generalizing bound with
  | nil => rfl
  | cons p rest ih =>
    cases p with
    | text s =>
      have hchars : (s.toList.map Token.char).filterMap Token.number? = [] := by
        simp [List.filterMap_map, Function.comp_def, Token.number?]
      rw [pieceTokens, List.filterMap_append, hchars, List.nil_append, ih, parameters_text]
    | bind value =>
      rw [pieceTokens, List.filterMap_cons, Token.number?, ih, parameters_bind, List.length_cons,
        List.range'_succ]

theorem rewrite_chars (write : ℕ → String) (s : String) (rest : List Token) :
    rewrite write (s.toList.map .char ++ rest) = s ++ rewrite write rest := by
  have hchars : ∀ cs : List Char,
      rewrite write (cs.map .char ++ rest) = String.ofList cs ++ rewrite write rest := by
    intro cs
    induction cs with
    | nil => simp
    | cons c cs ih =>
      rw [List.map_cons, List.cons_append, rewrite, ih, ← String.append_assoc]
      congr 1
      exact String.toList_inj.1 (by simp)
  rw [hchars, String.ofList_toList]

/-- The values written at the marks of their numbers stand where they are bound. -/
theorem rewrite_pieceTokens {write : Cell → String} (pieces : List Piece) {bound : ℕ}
    {byNumber : ℕ → String} (h : ∀ i v, (parameters pieces)[i]? = some v →
      byNumber (bound + i + 1) = write v) :
    rewrite byNumber (pieceTokens bound pieces) = written write pieces := by
  induction pieces generalizing bound with
  | nil => rfl
  | cons p rest ih =>
    cases p with
    | text s => rw [pieceTokens, rewrite_chars, ih h, written]
    | bind value =>
      rw [pieceTokens, rewrite, h 0 value rfl, written, ih]
      intro i v hv
      rw [← h (i + 1) v hv]
      congr 1
      omega

theorem rewrite_question (bound : ℕ) (pieces : List Piece) :
    rewrite (fun _ => "?") (pieceTokens bound pieces) = textFrom .question bound pieces := by
  induction pieces generalizing bound with
  | nil => rfl
  | cons p rest ih =>
    cases p with
    | text s => rw [pieceTokens, rewrite_chars, ih, textFrom]
    | bind value => rw [pieceTokens, rewrite, ih, textFrom, Placeholder.mark]

section Text

variable {pieces : List Piece} (h : Separated pieces)

include h

theorem marks_text (style : Placeholder) :
    marks style (text style pieces) = List.range' 1 (parameters pieces).length := by
  rw [marks, text, tokens_textFrom style h, numbers_pieceTokens]

theorem fill_text (style : Placeholder) (write : Cell → String) :
    fill style write (parameters pieces) (text style pieces) = written write pieces := by
  rw [fill, replaceMarks, text, tokens_textFrom style h]
  refine rewrite_pieceTokens pieces fun i v hv => ?_
  rw [Nat.zero_add, Nat.add_sub_cancel, hv, Option.elim_some]

theorem replaceMarks_text :
    replaceMarks .dollar (fun _ => "?") (text .dollar pieces) = text .question pieces := by
  rw [replaceMarks, text, tokens_textFrom .dollar h, rewrite_question, text]

end Text

end Bourse.Sql
