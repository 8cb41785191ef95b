import Mathlib.Tactic.IntervalCases
import Bourse.Json.Printer
import Bourse.Json.Reader
import Bourse.Proofs.Json.Numeral

/-!
# Written values are read back

The text of a value that is readable throughout is read as that value (`read_text`): a written
string reads as its characters, a written numeral as itself, and the reader's step count, taken
from the length of the text, is never used up.
-/

namespace Bourse.Json

open Numeral (EndsNumeral)

theorem readUnits_escape {c c' : Char} (hu : c ≠ 'u') (h : unescape? c = some c')
    (cs : List Char) : readUnits ('\\' :: c :: cs) = (readUnits cs).map fun (units, rest) =>
      (.char c' :: units, rest) := by
  rw [readUnits]
  · rw [h]
    cases readUnits cs <;> rfl
  · intro _ _ _ _ _ hc _
    exact hu hc

theorem readUnits_plain {c : Char} (hq : c ≠ '"') (hb : c ≠ '\\') (hc : ¬c.toNat < 0x20)
    (cs : List Char) : readUnits (c :: cs) = (readUnits cs).map fun (units, rest) =>
      (.char c :: units, rest) := by
  rw [readUnits]
  · simp only [hc, hb, decide_false, Bool.or_self, Bool.false_eq_true, if_false]
    cases readUnits cs <;> rfl
  · exact hq
  · intro _ _ _ _ _ h
    exact absurd h hb
  · intro _ _ h
    exact absurd h hb

theorem hexCode?_control : ∀ n : Fin 32,
    hexCode? '0' '0' (hexDigit (n / 16)) (hexDigit n) = some n.val := by
  decide

/-- An escaped character is read as itself or, for most control characters, as its code. -/
theorem exists_unit (c : Char) :
    ∃ u, (u = .char c ∨ u = .code c.toNat ∧ c.toNat < 0x20) ∧ ∀ cs,
      readUnits (escapeChar c ++ cs) = (readUnits cs).map fun (units, rest) =>
        (u :: units, rest) := by
  unfold escapeChar
  split_ifs with h1 h2 h3 h4 h5 h6 h7 h8
  · exact ⟨_, .inl rfl, readUnits_escape (by decide) (by subst h1; rfl)⟩
  · exact ⟨_, .inl rfl, readUnits_escape (by decide) (by subst h2; rfl)⟩
  · exact ⟨_, .inl rfl, readUnits_escape (by decide) (by subst h3; rfl)⟩
  · exact ⟨_, .inl rfl, readUnits_escape (by decide) (by subst h4; rfl)⟩
  · exact ⟨_, .inl rfl, readUnits_escape (by decide) (by subst h5; rfl)⟩
  · exact ⟨_, .inl rfl, readUnits_escape (by decide) (by subst h6; rfl)⟩
  · exact ⟨_, .inl rfl, readUnits_escape (by decide) (by subst h7; rfl)⟩
  · refine ⟨_, .inr ⟨rfl, h8⟩, fun cs => ?_⟩
    simp only [List.cons_append, List.nil_append, readUnits, hexCode?_control ⟨c.toNat, h8⟩]
    cases readUnits cs <;> rfl
  · exact ⟨_, .inl rfl, readUnits_plain h1 h2 h8⟩

theorem joinUnits?_cons {c : Char} {u : StringUnit}
    (hu : u = .char c ∨ u = .code c.toNat ∧ c.toNat < 0x20)
    (units : List StringUnit) : joinUnits? (u :: units) = (joinUnits? units).map (c :: ·) := by
  rcases hu with rfl | ⟨rfl, hc⟩
  · rfl
  · have hhigh : isHighSurrogate c.toNat = false := by
      simp only [isHighSurrogate, Bool.and_eq_false_imp, decide_eq_true_eq]
      omega
    have hlow : isLowSurrogate c.toNat = false := by
      simp only [isLowSurrogate, Bool.and_eq_false_imp, decide_eq_true_eq]
      omega
    rcases units with _ | ⟨_ | low, units⟩ <;>
      simp only [joinUnits?, hhigh, hlow, Bool.false_eq_true, Bool.or_self, if_false,
        Char.ofNat_toNat]

theorem readUnits_string : ∀ (s rest : List Char),
    ∃ units, readUnits (s.flatMap escapeChar ++ '"' :: rest) = some (units, rest) ∧
      joinUnits? units = some s
  | [], rest => ⟨[], rfl, rfl⟩
  | c :: s, rest => by
    obtain ⟨u, hu, hread⟩ := exists_unit c
    obtain ⟨units, hs, hjoin⟩ := readUnits_string s rest
    refine ⟨u :: units, ?_, ?_⟩
    · rw [List.flatMap_cons, List.append_assoc, hread, hs]
      rfl
    · rw [joinUnits?_cons hu, hjoin]
      rfl

theorem stringOfUnits_some {units : List StringUnit} {s : String}
    (h : joinUnits? units = some s.toList) : stringOfUnits units = .string s := by
  simp only [stringOfUnits, h, String.ofList_toList]

mutual

/-- No part of the value is unreadable. -/
def Readable : Json → Prop
  | .unreadable => False
  | .array items => ReadableItems items
  | .object members => ReadableMembers members
  | _ => True

def ReadableItems : List Json → Prop
  | [] => True
  | item :: rest => Readable item ∧ ReadableItems rest

def ReadableMembers : List (String × Json) → Prop
  | [] => True
  | (_, value) :: rest => Readable value ∧ ReadableMembers rest

end

theorem readableMembers_append {members : List (String × Json)} :
    ∀ {first : List (String × Json)},
      ReadableMembers (first ++ members) ↔ ReadableMembers first ∧ ReadableMembers members
  | [] => ⟨.intro trivial, And.right⟩
  | (_, _) :: _ => (and_congr_right fun _ => readableMembers_append).trans and_assoc.symm

/-- The first character of a numeral is no blank, bracket or quote and begins no word. -/
theorem exists_text (n : Numeral) :
    ∃ c cs, n.text = c :: cs ∧ isSpace c = false ∧ ∀ d ∈ "]\"[\x7bntf".toList, c ≠ d := by
  obtain ⟨c, cs, hc, hd⟩ := n.exists_text
  have hall : (" \n\t\r]\"[\x7bntf".toList.all fun d => !(d == '-' || d.isDigit)) = true := by
    decide
  have hnot : ∀ d ∈ " \n\t\r]\"[\x7bntf".toList, ¬(d = '-' ∨ d.isDigit) := fun d hd => by
    simpa using List.all_eq_true.1 hall d hd
  refine ⟨c, cs, hc, ?_, ?_⟩
  · rw [Bool.eq_false_iff]
    intro hs
    refine hnot c ?_ hd
    simp only [isSpace, Bool.or_eq_true, decide_eq_true_eq] at hs
    rcases hs with ((rfl | rfl) | rfl) | rfl <;> decide
  · rintro d hmem rfl
    exact hnot c (List.mem_append_right " \n\t\r".toList hmem) hd

/-- A value begins with a character that is neither blank nor a closing bracket. -/
theorem exists_chars : ∀ j : Json, ∃ c cs, chars j = c :: cs ∧ isSpace c = false ∧ c ≠ ']'
  | .null => ⟨_, _, rfl, by decide, by decide⟩
  | .bool true => ⟨_, _, rfl, by decide, by decide⟩
  | .bool false => ⟨_, _, rfl, by decide, by decide⟩
  | .number n =>
    have ⟨c, cs, hc, hs, hd⟩ := exists_text n
    ⟨c, cs, hc, hs, hd ']' (by decide)⟩
  | .string s => ⟨_, _, rfl, by decide, by decide⟩
  | .array items => ⟨_, _, rfl, by decide, by decide⟩
  | .object members => ⟨_, _, rfl, by decide, by decide⟩
  | .unreadable => ⟨_, _, rfl, by decide, by decide⟩

theorem skipSpace_cons {c : Char} (h : isSpace c = false) (cs : List Char) :
    skipSpace (c :: cs) = c :: cs := by
  rw [skipSpace, List.dropWhile_cons_of_neg (by simp [h])]

theorem readValue_number (n : Numeral) {rest : List Char} (h : EndsNumeral rest) (fuel : ℕ) :
    readValue (fuel + 1) (n.text ++ rest) = some (.number n, rest) := by
  obtain ⟨c, cs, hc, hs, hd⟩ := exists_text n
  have hread := n.read_text h
  rw [hc, List.cons_append] at hread ⊢
  have hhead (d : Char) (hmem : d ∈ "]\"[\x7bntf".toList) (r : List Char) :
      c :: (cs ++ rest) = d :: r → False := fun h => hd d hmem (List.cons.inj h).1
  have h1 := hhead '"' (by decide)
  have h2 := hhead '[' (by decide)
  have h3 := hhead '\x7b' (by decide)
  have h4 r := hhead 'n' (by decide) ('u' :: 'l' :: 'l' :: r)
  have h5 r := hhead 't' (by decide) ('r' :: 'u' :: 'e' :: r)
  have h6 r := hhead 'f' (by decide) ('a' :: 'l' :: 's' :: 'e' :: r)
  simp only [readValue, skipSpace_cons hs, hread, Option.map_some]

theorem stringChars_append (s : String) (rest : List Char) :
    stringChars s ++ rest = '"' :: (s.toList.flatMap escapeChar ++ '"' :: rest) := by
  simp [stringChars]

theorem readValue_string (s : String) (rest : List Char) (fuel : ℕ) :
    readValue (fuel + 1) (stringChars s ++ rest) = some (.string s, rest) := by
  obtain ⟨units, hread, hjoin⟩ := readUnits_string s.toList rest
  rw [stringChars_append]
  simp only [readValue, skipSpace_cons (by decide : isSpace '"' = false), hread, Option.map_some,
    stringOfUnits_some hjoin]

theorem endsNumeral_cons {c : Char} (h : c = ',' ∨ c = ']' ∨ c = '\x7d') (rest : List Char) :
    EndsNumeral (c :: rest) := by
  intro d hd
  obtain rfl : c = d := Option.some.inj hd
  rcases h with rfl | rfl | rfl <;> decide

theorem readItems_last {fuel : ℕ} {cs rest : List Char} {item : Json}
    (h : readValue fuel cs = some (item, ']' :: rest)) :
    readItems (fuel + 1) cs = some ([item], rest) := by
  rw [readItems, h]
  rfl

theorem readItems_comma {fuel : ℕ} {cs more rest : List Char} {item : Json} {items : List Json}
    (h : readValue fuel cs = some (item, ',' :: more))
    (hmore : readItems fuel more = some (items, rest)) :
    readItems (fuel + 1) cs = some (item :: items, rest) := by
  rw [readItems, h]
  change (readItems fuel more >>= fun _ => _) = _
  rw [hmore]
  rfl

theorem readValue_array {fuel : ℕ} {c : Char} {cs rest : List Char} {items : List Json}
    (hs : isSpace c = false) (hc : c ≠ ']') (h : readItems fuel (c :: cs) = some (items, rest)) :
    readValue (fuel + 1) ('[' :: c :: cs) = some (.array items, rest) := by
  have hb : ∀ r, c :: cs = ']' :: r → False := fun _ h => hc (List.cons.inj h).1
  simp only [readValue, skipSpace_cons (by decide : isSpace '[' = false), skipSpace_cons hs, h,
    Option.map_some]

theorem exists_itemChars (item : Json) (items : List Json) :
    ∃ c cs, itemChars (item :: items) = c :: cs ∧ isSpace c = false ∧ c ≠ ']' := by
  obtain ⟨c, cs, hc, hs, hb⟩ := exists_chars item
  cases items <;> rw [itemChars, hc] <;> exact ⟨c, _, rfl, hs, hb⟩

/-- Members as they are read, each name still in units, stand for the members written. -/
def Names (named : List (List StringUnit × Json)) (members : List (String × Json)) : Prop :=
  named.mapM (fun (name, value) => (joinUnits? name).map fun cs => (String.ofList cs, value))
    = some members

theorem Names.cons {units : List StringUnit} {name : String} {value : Json}
    {named : List (List StringUnit × Json)} {members : List (String × Json)}
    (hjoin : joinUnits? units = some name.toList) (h : Names named members) :
    Names ((units, value) :: named) ((name, value) :: members) := by
  simp only [Names] at h ⊢
  rw [List.mapM_cons, h, hjoin]
  simp

theorem readMembers_last {fuel : ℕ} {name : String} {value : Json} {cs rest : List Char}
    (h : readValue fuel cs = some (value, '\x7d' :: rest)) :
    ∃ named, readMembers (fuel + 1) (stringChars name ++ ':' :: cs) = some (named, rest) ∧
      Names named [(name, value)] := by
  obtain ⟨units, hread, hjoin⟩ := readUnits_string name.toList (':' :: cs)
  refine ⟨[(units, value)], ?_, Names.cons hjoin rfl⟩
  rw [stringChars_append, readMembers, skipSpace_cons (by decide)]
  change (readUnits _ >>= fun _ => _) = _
  rw [hread]
  change (readValue fuel cs >>= fun _ => _) = _
  rw [h]
  rfl

theorem readMembers_comma {fuel : ℕ} {name : String} {value : Json} {cs more rest : List Char}
    {named : List (List StringUnit × Json)} {members : List (String × Json)}
    (h : readValue fuel cs = some (value, ',' :: more))
    (hmore : readMembers fuel more = some (named, rest)) (hnames : Names named members) :
    ∃ named, readMembers (fuel + 1) (stringChars name ++ ':' :: cs) = some (named, rest) ∧
      Names named ((name, value) :: members) := by
  obtain ⟨units, hread, hjoin⟩ := readUnits_string name.toList (':' :: cs)
  refine ⟨(units, value) :: named, ?_, Names.cons hjoin hnames⟩
  rw [stringChars_append, readMembers, skipSpace_cons (by decide)]
  change (readUnits _ >>= fun _ => _) = _
  rw [hread]
  change (readValue fuel cs >>= fun _ => _) = _
  rw [h]
  change (readMembers fuel more >>= fun _ => _) = _
  rw [hmore]
  rfl

theorem readValue_object {fuel : ℕ} {cs rest : List Char}
    {named : List (List StringUnit × Json)} {members : List (String × Json)}
    (h : readMembers fuel ('"' :: cs) = some (named, rest)) (hnames : Names named members) :
    readValue (fuel + 1) ('\x7b' :: '"' :: cs) = some (.object members, rest) := by
  have hobject : objectOfMembers named = .object members := by
    simp only [objectOfMembers]
    rw [show named.mapM _ = some members from hnames]
  have hb : ∀ r, '"' :: cs = '\x7d' :: r → False := fun _ h => nomatch h
  simp only [readValue, skipSpace_cons (by decide : isSpace '\x7b' = false),
    skipSpace_cons (by decide : isSpace '"' = false), h, Option.map_some, hobject]

mutual

theorem readValue_chars : ∀ (j : Json), Readable j → ∀ {fuel : ℕ} {rest : List Char},
    2 * (chars j).length ≤ fuel → EndsNumeral rest →
    readValue fuel (chars j ++ rest) = some (j, rest)
  | j, h, 0, rest, hfuel, hrest => by
    obtain ⟨c, cs, hc, -⟩ := exists_chars j
    rw [hc] at hfuel
    cases hfuel
  | .null, h, fuel + 1, rest, hfuel, hrest => rfl
  | .bool true, h, fuel + 1, rest, hfuel, hrest => rfl
  | .bool false, h, fuel + 1, rest, hfuel, hrest => rfl
  | .number n, h, fuel + 1, rest, hfuel, hrest => readValue_number n hrest fuel
  | .string s, h, fuel + 1, rest, hfuel, hrest => readValue_string s rest fuel
  | .array [], h, fuel + 1, rest, hfuel, hrest => rfl
  | .array (item :: items), h, fuel + 1, rest, hfuel, hrest => by
    have hitems :
        readItems fuel (itemChars (item :: items) ++ rest) = some (item :: items, rest) := by
      refine readItems_chars item items h ?_
      simp only [chars, List.length_cons] at hfuel
      omega
    obtain ⟨c, cs, hc, hs, hb⟩ := exists_itemChars item items
    rw [chars, List.cons_append]
    rw [hc, List.cons_append] at hitems ⊢
    exact readValue_array hs hb hitems
  | .object [], h, fuel + 1, rest, hfuel, hrest => rfl
  | .object ((name, value) :: members), h, fuel + 1, rest, hfuel, hrest => by
    obtain ⟨named, hread, hnames⟩ : ∃ named, readMembers fuel
        (memberChars ((name, value) :: members) ++ rest) = some (named, rest) ∧
          Names named ((name, value) :: members) := by
      refine readMembers_chars name value members h ?_
      simp only [chars, List.length_cons] at hfuel
      omega
    obtain ⟨cs, hcs⟩ : ∃ cs, memberChars ((name, value) :: members) = '"' :: cs := by
      cases members <;> exact ⟨_, rfl⟩
    rw [chars, List.cons_append]
    rw [hcs, List.cons_append] at hread ⊢
    exact readValue_object hread hnames

theorem readItems_chars : ∀ (item : Json) (items : List Json), ReadableItems (item :: items) →
    ∀ {fuel : ℕ} {rest : List Char}, 2 * (itemChars (item :: items)).length ≤ fuel →
    readItems fuel (itemChars (item :: items) ++ rest) = some (item :: items, rest)
  | item, items, h, 0, rest, hfuel => by
    obtain ⟨c, cs, hc, -⟩ := exists_itemChars item items
    rw [hc] at hfuel
    cases hfuel
  | item, [], h, fuel + 1, rest, hfuel => by
    simp only [itemChars, List.length_append, List.length_singleton] at hfuel
    rw [itemChars, List.append_assoc]
    exact readItems_last (readValue_chars item h.1 (by omega) (endsNumeral_cons (by decide) _))
  | item, next :: items, h, fuel + 1, rest, hfuel => by
    simp only [itemChars, List.length_append, List.length_cons] at hfuel
    rw [itemChars, List.append_assoc, List.cons_append]
    exact readItems_comma (readValue_chars item h.1 (by omega) (endsNumeral_cons (by decide) _))
      (readItems_chars next items h.2 (by omega))

theorem readMembers_chars : ∀ (name : String) (value : Json) (members : List (String × Json)),
    ReadableMembers ((name, value) :: members) → ∀ {fuel : ℕ} {rest : List Char},
    2 * (memberChars ((name, value) :: members)).length ≤ fuel → ∃ named,
      readMembers fuel (memberChars ((name, value) :: members) ++ rest) = some (named, rest) ∧
        Names named ((name, value) :: members)
  | name, value, members, h, 0, rest, hfuel => by
    cases members <;> simp [memberChars, stringChars] at hfuel
  | name, value, [], h, fuel + 1, rest, hfuel => by
    simp only [memberChars, List.length_append, List.length_cons] at hfuel
    rw [memberChars, List.append_assoc, List.append_assoc, List.cons_append]
    exact readMembers_last (readValue_chars value h.1 (by omega) (endsNumeral_cons (by decide) _))
  | name, value, (name', value') :: members, h, fuel + 1, rest, hfuel => by
    rw [memberChars] at hfuel
    simp only [List.length_append, List.length_cons] at hfuel
    obtain ⟨named, hread, hnames⟩ :=
      @readMembers_chars name' value' members h.2 fuel rest (by omega)
    rw [memberChars]
    simp only [List.append_assoc, List.cons_append]
    exact readMembers_comma (readValue_chars value h.1 (by omega) (endsNumeral_cons (by decide) _))
      hread hnames

end

/-- The text of a value is read as the value. -/
theorem read_text {j : Json} (h : Readable j) : read j.text = some j := by
  have hnil : EndsNumeral [] := fun _ hc => nomatch hc
  have hread := @readValue_chars j h (2 * (chars j).length + 2) [] (by omega) hnil
  rw [List.append_nil] at hread
  rw [read, text, String.toList_ofList, hread]
  rfl

end Bourse.Json
