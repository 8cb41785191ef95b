import Bourse.Json.Payload
import Bourse.Proofs.Date.Text
import Bourse.Proofs.Json.RoundTrip

/-!
# Payloads there and back

What is read from a written value is written alike (`read_write`), and for texts, dates, integers,
filters, windows and resolved sessions it is the value itself (`read_write_self`). A number that is
not finite is the one thing that is lost, and it was already written as `null` (`optional_float`).
-/

namespace Bourse.Payload

/-- Every value is read back as one that is written alike. -/
class Faithful (α : Type) [Payload α] : Prop where
  readable : ∀ a : α, (encode a).Readable
  reads : ∀ a : α, ∃ b : α, decode (encode a) = some b ∧ encode b = encode a

/-- Every value is read back as itself. -/
class Exact (α : Type) [Payload α] : Prop where
  readable : ∀ a : α, (encode a).Readable
  reads_self : ∀ a : α, decode (encode a) = some a

variable {α : Type} [Payload α]

instance [Exact α] : Faithful α where
  readable := Exact.readable
  reads a := ⟨a, Exact.reads_self a, rfl⟩

theorem read_write [Faithful α] (a : α) :
    ∃ b : α, read (write a) = some b ∧ encode b = encode a := by
  obtain ⟨b, hb, he⟩ := Faithful.reads a
  refine ⟨b, ?_, he⟩
  rw [read, write, Json.read_text (Faithful.readable a), Option.bind_some, hb]

theorem read_write_self [Exact α] (a : α) : read (write a) = some a := by
  rw [read, write, Json.read_text (Exact.readable a), Option.bind_some, Exact.reads_self]

instance : Exact String where
  readable _ := trivial
  reads_self _ := rfl

instance : Exact Date where
  readable _ := trivial
  reads_self d := Date.readSlack_iso d

theorem toInt?_ofInt (n : ℤ) : (Numeral.ofInt n).toInt? = some n := by
  simp only [Numeral.ofInt, Numeral.toInt?, List.isEmpty_nil, Option.isNone_none, Bool.and_self,
    Bool.true_and]
  rw [if_pos (by simp; omega)]
  simp only [decide_eq_true_eq]
  split_ifs <;> congr 1 <;> omega

instance : Exact Int64 where
  readable _ := trivial
  reads_self n := by
    change (do
      let i ← (Numeral.ofInt n.toInt).toInt?
      if Int64.minValue.toInt ≤ i ∧ i ≤ Int64.maxValue.toInt then some (Int64.ofInt i) else none)
        = some n
    have hbounds : Int64.minValue.toInt ≤ n.toInt ∧ n.toInt ≤ Int64.maxValue.toInt :=
      ⟨Int64.le_iff_toInt_le.1 n.minValue_le, Int64.le_iff_toInt_le.1 n.le_maxValue⟩
    rw [toInt?_ofInt, Option.bind_eq_bind, Option.bind_some, if_pos hbounds, Int64.ofInt_toInt]

instance : Exact UInt32 where
  readable _ := trivial
  reads_self n := by
    change (do
      let i ← (Numeral.ofInt n.toNat).toInt?
      if 0 ≤ i ∧ i < UInt32.size then some (UInt32.ofNat i.toNat) else none) = some n
    have hbounds : (0 : ℤ) ≤ n.toNat ∧ (n.toNat : ℤ) < UInt32.size :=
      ⟨Int.natCast_nonneg _, Int.ofNat_lt.2 n.toNat_lt⟩
    rw [toInt?_ofInt, Option.bind_eq_bind, Option.bind_some, if_pos hbounds, Int.toNat_natCast,
      UInt32.ofNat_toNat]

instance : Exact Exchange where
  readable _ := trivial
  reads_self e := by cases e <;> decide

instance : Exact Period where
  readable _ := trivial
  reads_self p := by cases p <;> decide

/-- A number as it reads back: one that is not finite is absent. -/
def settled (x : Option Float) : Option Float :=
  x.filter Float.isFinite

theorem readable_float (x : Option Float) : (encode x).Readable := by
  cases x with
  | none => trivial
  | some x =>
    change (Json.ofFloat x).Readable
    unfold Json.ofFloat
    split_ifs <;> trivial

theorem encode_settled (x : Option Float) : encode (settled x) = encode x := by
  cases x with
  | none => rfl
  | some x =>
    rw [settled, Option.filter_some]
    split_ifs with h
    · rfl
    · change Json.null = Json.ofFloat x
      rw [Json.ofFloat, if_neg h]

theorem optional_float (x : Option Float) : optional (some (encode x)) = some (settled x) := by
  cases x with
  | none => rfl
  | some x =>
    change optional (some (Json.ofFloat x)) = _
    rw [settled, Option.filter_some, Json.ofFloat]
    split_ifs with h
    · have hx : decode (.number (.ofFloat x)) = some x := by
        change (if (Numeral.ofFloat x).toFloat.isFinite then _ else none) = _
        rw [Numeral.toFloat_ofFloat h, if_pos h]
      rw [optional, hx]
      · rfl
      · intro hnull
        cases hnull
    · rfl

theorem required_self {β : Type} [Payload β] [Exact β] (b : β) :
    required (some (encode b)) = some b := Exact.reads_self b

theorem readableItems_map (h : ∀ a : α, (encode a).Readable) : ∀ items : List α,
    Json.ReadableItems (items.map encode)
  | [] => trivial
  | a :: items => ⟨h a, readableItems_map h items⟩

theorem mapM_decode {f : α → α} (h : ∀ a, decode (encode a) = some (f a)) : ∀ items : List α,
    (items.map encode).mapM decode = some (items.map f)
  | [] => rfl
  | a :: items => by
    rw [List.map_cons, List.mapM_cons, h, Option.bind_eq_bind, Option.bind_some,
      mapM_decode h items]
    rfl

instance [Exact α] : Exact (List α) where
  readable items := readableItems_map Exact.readable items
  reads_self items :=
    (mapM_decode Exact.reads_self items).trans (congrArg some (List.map_id items))

instance : Exact SessionDates where
  readable _ := ⟨trivial, trivial, trivial, trivial, trivial, trivial⟩
  reads_self s := by
    change (do return ⟨← required (some (encode s.latest)), ← required (some (encode s.lastFive)),
      ← required (some (encode s.lastQuarter)), ← required (some (encode s.firstYear)),
      ← required (some (encode s.lastYear))⟩ : Option SessionDates) = _
    simp only [required_self]
    rfl

instance : Exact RecentSessions where
  readable _ := ⟨trivial, trivial, trivial⟩
  reads_self s := by
    change (do return ⟨← required (some (encode s.latest)),
      ← required (some (encode s.lastFive))⟩ : Option RecentSessions) = _
    simp only [required_self]
    rfl

instance : Exact Window where
  readable _ := ⟨trivial, trivial, trivial⟩
  reads_self w := by
    change (do return ⟨← required (some (encode w.unit)),
      ← required (some (encode w.order))⟩ : Option Window) = _
    simp only [required_self]
    rfl

instance : Exact Filter where
  readable f := ⟨Exact.readable f.exchanges, Exact.readable f.industries, trivial⟩
  reads_self f := by
    change (do return ⟨← required (some (encode f.exchanges)),
      ← required (some (encode f.industries))⟩ : Option Filter) = _
    simp only [required_self]
    rfl

end Bourse.Payload
