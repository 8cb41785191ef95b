import Bourse.Text.CaseTables

/-!
# Letter case

Full case mapping: one character may become several, and a capital sigma at the end of a word
becomes the final form. ASCII letters are mapped on their own, which is also what a comparison
that ignores only ASCII case uses.
-/

namespace Bourse.Text

/-- The image of a code point under the first run that holds it. -/
def imageIn (runs : List CaseRun) (n : Nat) : Option Char :=
  runs.findSome? fun (first, last, step, target) =>
    if first ≤ n && n ≤ last && (n - first) % step == 0 then some (Char.ofNat (n - first + target))
    else none

def inRanges (ranges : List (Nat × Nat)) (c : Char) : Bool :=
  ranges.any fun (first, last) => first ≤ c.toNat && c.toNat ≤ last

def isCased (c : Char) : Bool :=
  inRanges casedRanges c

/-- Characters that are passed over when a word's end is looked for. -/
def isCaseIgnorable (c : Char) : Bool :=
  inRanges caseIgnorableRanges c

def asciiLowerChar (c : Char) : Char :=
  if 'A' ≤ c && c ≤ 'Z' then Char.ofNat (c.toNat + 32) else c

def asciiUpperChar (c : Char) : Char :=
  if 'a' ≤ c && c ≤ 'z' then Char.ofNat (c.toNat - 32) else c

def lowerChar (c : Char) : List Char :=
  if c.toNat < 128 then [asciiLowerChar c]
  else match lowerSpecials.lookup c.toNat with
    | some image => image.map Char.ofNat
    | none => [(imageIn lowerRuns c.toNat).getD c]

def upperChar (c : Char) : List Char :=
  if c.toNat < 128 then [asciiUpperChar c]
  else match upperSpecials.lookup c.toNat with
    | some image => image.map Char.ofNat
    | none => [(imageIn upperRuns c.toNat).getD c]

/-- Whether a cased character comes first once the ignorable ones are passed over. -/
def meetsCased (cs : List Char) : Bool :=
  (cs.dropWhile isCaseIgnorable).head?.any isCased

/-- Lower case of `cs`, where `before` holds the characters already read, the nearest first. A
capital sigma becomes the final form when a cased character stands before it and none after. -/
def lowerAfter (before : List Char) : List Char → List Char
  | [] => []
  | c :: rest =>
    let image :=
      if c = 'Σ' then [if meetsCased before && !meetsCased rest then 'ς' else 'σ'] else lowerChar c
    image ++ lowerAfter (c :: before) rest

def lower (s : String) : String :=
  String.ofList (lowerAfter [] s.toList)

def upper (s : String) : String :=
  String.ofList (s.toList.flatMap upperChar)

def asciiLower (s : String) : String :=
  String.ofList (s.toList.map asciiLowerChar)

/-- Equality up to the case of ASCII letters. -/
def sameIgnoringAsciiCase (s t : String) : Bool :=
  asciiLower s == asciiLower t

end Bourse.Text
