import Mathlib.Data.List.Nodup
import Bourse.Cache.Key
import Bourse.Proofs.Date.Text
import Bourse.Proofs.Filter
import Bourse.Proofs.List.Distinct

/-!
# Keys tell questions apart

The pieces between the marks of a text can be told apart when none of them holds the mark
(`intercalate_inj`). No label, name, number or date holds a colon, so questions with the same key
text are the same question (`key_text_inj`).
-/

namespace Bourse

/-- A text without the mark `c`. -/
def Free (c : Char) (s : String) : Prop :=
  c ∉ s.toList

instance (c : Char) (s : String) : Decidable (Free c s) :=
  inferInstanceAs (Decidable (c ∉ s.toList))

theorem splitOn_intercalate {c : Char} {ss : List String} (hne : ss ≠ [])
    (hfree : ∀ s ∈ ss, Free c s) :
    ((String.ofList [c]).intercalate ss).toList.splitOn c = ss.map String.toList := by
  rw [String.toList_intercalate, String.toList_ofList, List.splitOn_intercalate]
  · simpa [Free] using hfree
  · simpa using hne

theorem intercalate_inj {c : Char} {ss ts : List String} (hs : ss ≠ []) (ht : ts ≠ [])
    (hsf : ∀ s ∈ ss, Free c s) (htf : ∀ t ∈ ts, Free c t)
    (h : (String.ofList [c]).intercalate ss = (String.ofList [c]).intercalate ts) : ss = ts := by
  have hmap : ss.map String.toList = ts.map String.toList := by
    rw [← splitOn_intercalate hs hsf, h, splitOn_intercalate ht htf]
  exact List.map_injective_iff.2 (fun _ _ => String.toList_inj.1) hmap

/-- The text up to the first mark is the first piece. -/
theorem takeWhile_intercalate {c : Char} {s t : String} (hs : Free c s) (ss : List String) :
    ((String.ofList [c]).intercalate (s :: t :: ss)).toList.takeWhile (· != c) = s.toList := by
  have hpiece : ∀ d ∈ s.toList, (d != c) = true := by
    intro d hd
    rw [bne_iff_ne]
    rintro rfl
    exact hs hd
  rw [String.intercalate_cons_cons, String.toList_append, String.toList_append,
    String.toList_ofList, List.append_assoc, List.takeWhile_append_of_pos hpiece,
    List.singleton_append, List.takeWhile_cons_of_neg (by simp), List.append_nil]

namespace Filter

/-- Parts of a key that can be told apart: there are some, and no label holds a mark. -/
structure WellFormed (f : Filter) : Prop where
  exchanges : f.exchanges ≠ []
  industries : f.industries ≠ []
  comma : ∀ label ∈ f.industries, Free ',' label
  colon : ∀ label ∈ f.industries, Free ':' label

theorem ne_nil_of_select {code : String} {exchanges : List Exchange}
    (h : Exchange.select code = .ok exchanges) : exchanges ≠ [] := by
  simp only [Exchange.select] at h
  split_ifs at h <;> cases h <;> decide

/-- Labels in normal form hold none of the marks that quote, escape or separate. -/
theorem NormalForm.free {industries : List String} (h : NormalForm industries) {c : Char}
    (hc : c ∈ "'\";\\`,:".toList) : ∀ label ∈ industries, Free c label := by
  intro label hlabel hmem
  have hplain := (h.labels label hlabel).plain
  rw [h.trimmed label hlabel] at hplain
  exact (hplain c hmem).2 hc

theorem wellFormed_make {exchange : String} {labels : List String} {f : Filter}
    (h : make exchange labels = .ok f) : f.WellFormed := by
  unfold make at h
  cases he : Exchange.select exchange with
  | error e => rw [he] at h; cases h
  | ok exchanges =>
    cases hi : selectIndustries labels with
    | error e => rw [he, hi] at h; cases h
    | ok industries =>
      rw [he, hi] at h
      cases h
      have hnormal := normalForm_of_select hi
      exact ⟨ne_nil_of_select he, hnormal.nonempty, hnormal.free (by decide),
        hnormal.free (by decide)⟩

theorem exchangeName_inj : ∀ {a b : Exchange}, a.name = b.name → a = b
  | .hose, .hose, _ | .hnx, .hnx, _ | .upcom, .upcom, _ => rfl

theorem fragments_inj {f g : Filter} (hf : f.WellFormed) (hg : g.WellFormed)
    (he : f.exchangeFragment = g.exchangeFragment)
    (hi : f.industryFragment = g.industryFragment) : f = g := by
  have hname : ∀ e : Exchange, Free ',' e.name := by
    intro e
    cases e <;> decide
  have hexchanges : f.exchanges.map Exchange.name = g.exchanges.map Exchange.name := by
    refine intercalate_inj (c := ',') ?_ ?_ ?_ ?_ he
    · simpa using hf.exchanges
    · simpa using hg.exchanges
    · simpa using fun e _ => hname e
    · simpa using fun e _ => hname e
  have hindustries := intercalate_inj hf.industries hg.industries hf.comma hg.comma hi
  cases f
  cases g
  rw [Filter.mk.injEq]
  exact ⟨List.map_injective_iff.2 (fun _ _ => exchangeName_inj) hexchanges, hindustries⟩

theorem free_intercalate {c : Char} {sep : String} (hsep : Free c sep) :
    ∀ {ss : List String}, (∀ s ∈ ss, Free c s) → Free c (sep.intercalate ss)
  | [], _ => by simp [Free]
  | [s], hs => by simpa using hs
  | s :: t :: ss, hs => by
    have hrest := free_intercalate hsep fun u hu => hs u (List.mem_cons_of_mem s hu)
    have hhead := hs s List.mem_cons_self
    unfold Free at hsep hrest hhead ⊢
    rw [String.intercalate_cons_cons, String.toList_append, String.toList_append]
    simp only [List.mem_append, not_or]
    exact ⟨⟨hhead, hsep⟩, hrest⟩

theorem free_exchangeFragment (f : Filter) : Free ':' f.exchangeFragment := by
  refine free_intercalate (by decide) ?_
  intro s hs
  obtain ⟨e, -, rfl⟩ := List.mem_map.1 hs
  cases e <;> decide

theorem free_industryFragment {f : Filter} (hf : f.WellFormed) : Free ':' f.industryFragment :=
  free_intercalate (by decide) hf.colon

end Filter

theorem free_ofNat (n : ℕ) : Free ':' (Text.ofNat n) := by
  rw [Free, Text.ofNat, String.toList_ofList]
  intro h
  exact absurd (Text.isDigit_toDigits n ':' h) (by decide)

theorem ofNat_inj {m n : ℕ} (h : Text.ofNat m = Text.ofNat n) : m = n := by
  have hdigits : Nat.toDigits 10 m = Nat.toDigits 10 n := String.ofList_injective h
  rw [← Nat.ofDigitChars_ten_toDigits (n := m), hdigits, Nat.ofDigitChars_ten_toDigits]

theorem free_iso (d : Date) : Free ':' d.iso := by
  have hpadded : ∀ width n, ':' ∉ Date.padded width n := fun width n h =>
    absurd (Date.isDigit_padded width n ':' h) (by decide)
  rw [Free, Date.iso, String.toList_ofList]
  unfold Date.isoChars Date.yearChars
  split_ifs <;> simp [hpadded]

namespace Topic

/-- The filter of a topic, when it has one, can be told apart from its key. -/
def WellFormed : Topic → Prop
  | ranking _ filter | series _ filter _ | breadth filter | topMovers filter _ => filter.WellFormed
  | sessionDates _ | recentSessions _ | nearestSession .. => True

/-- The pieces of a topic's key, with those of a window taken apart. -/
def pieces : Topic → List String
  | ranking metric filter => [metric.key, filter.exchangeFragment, filter.industryFragment]
  | series metric filter window => [metric.key, filter.exchangeFragment, filter.industryFragment,
      Text.ofNat window.order.toNat, window.unit.name]
  | breadth filter => ["breadth", filter.exchangeFragment, filter.industryFragment]
  | topMovers filter limit =>
    ["top-movers", filter.exchangeFragment, filter.industryFragment, Text.ofNat limit]
  | sessionDates table => ["session-date", table.name, table.dateColumn]
  | recentSessions table => ["recent-sessions", table.name, table.dateColumn]
  | nearestSession table target => ["nearest-date", table.name, target.iso]

theorem text_eq (t : Topic) : t.key.text = ":".intercalate t.pieces := by
  cases t <;> simp [key, pieces, CacheKey.ofFilter, CacheKey.ofName, CacheKey.part, CacheKey.text,
    Window.fragment, String.append_assoc]

/-- The name of the analysis that a topic is about. -/
def name : Topic → String
  | ranking metric _ | series metric .. => metric.key
  | breadth _ => "breadth"
  | topMovers .. => "top-movers"
  | sessionDates _ => "session-date"
  | recentSessions _ => "recent-sessions"
  | nearestSession .. => "nearest-date"

theorem free_metricKey (m : Metric) : Free ':' m.key := by
  cases m <;> decide

theorem free_name (t : Topic) : Free ':' t.name := by
  cases t with
  | ranking metric filter => exact free_metricKey metric
  | series metric filter window => exact free_metricKey metric
  | breadth => exact (by decide : Free ':' "breadth")
  | topMovers => exact (by decide : Free ':' "top-movers")
  | sessionDates => exact (by decide : Free ':' "session-date")
  | recentSessions => exact (by decide : Free ':' "recent-sessions")
  | nearestSession => exact (by decide : Free ':' "nearest-date")

/-- Whatever the labels of its filter hold, a topic's key begins with its name. -/
theorem takeWhile_text (t : Topic) :
    t.key.text.toList.takeWhile (· != ':') = t.name.toList := by
  have hpieces : ∃ s ss, t.pieces = t.name :: s :: ss := by
    cases t <;> exact ⟨_, _, rfl⟩
  obtain ⟨s, ss, hpieces⟩ := hpieces
  rw [text_eq, hpieces]
  exact takeWhile_intercalate t.free_name ss

theorem name_eq_of_text_eq {t u : Topic} (h : t.key.text = u.key.text) : t.name = u.name := by
  rw [← String.toList_inj, ← takeWhile_text, h, takeWhile_text]

theorem free_pieces : ∀ {t : Topic}, t.WellFormed → ∀ s ∈ t.pieces, Free ':' s := by
  have hunit : ∀ p : Period, Free ':' p.name := by
    intro p
    cases p <;> decide
  have htable : ∀ t : SessionTable, Free ':' t.name ∧ Free ':' t.dateColumn := by
    intro t
    cases t <;> decide
  intro t ht
  cases t with
  | ranking metric filter =>
    simpa [pieces] using ⟨free_metricKey metric, filter.free_exchangeFragment,
      Filter.free_industryFragment ht⟩
  | series metric filter window =>
    simpa [pieces] using ⟨free_metricKey metric, filter.free_exchangeFragment,
      Filter.free_industryFragment ht, free_ofNat _, hunit window.unit⟩
  | breadth filter =>
    simpa [pieces] using ⟨(breadth filter).free_name, filter.free_exchangeFragment,
      Filter.free_industryFragment ht⟩
  | topMovers filter limit =>
    simpa [pieces] using ⟨(topMovers filter limit).free_name, filter.free_exchangeFragment,
      Filter.free_industryFragment ht, free_ofNat limit⟩
  | sessionDates table =>
    simpa [pieces] using ⟨(sessionDates table).free_name, htable table⟩
  | recentSessions table =>
    simpa [pieces] using ⟨(recentSessions table).free_name, htable table⟩
  | nearestSession table target =>
    simpa [pieces] using ⟨(nearestSession table target).free_name, (htable table).1,
      free_iso target⟩

theorem metricKey_inj {m n : Metric} (h : m.key = n.key) : m = n := by
  have hall : ∀ m : Metric, m ∈ Metric.all := by
    intro m
    cases m <;> decide
  exact List.inj_on_of_nodup_map (by decide : (Metric.all.map Metric.key).Nodup) (hall m) (hall n) h

theorem metricKey_ne (m : Metric) : m.key ≠ "breadth" ∧ m.key ≠ "top-movers" ∧
    m.key ≠ "session-date" ∧ m.key ≠ "recent-sessions" ∧ m.key ≠ "nearest-date" := by
  cases m <;> decide

theorem pieces_inj {t u : Topic} (ht : t.WellFormed) (hu : u.WellFormed)
    (h : t.pieces = u.pieces) : t = u := by
  have htable : ∀ a b : SessionTable, a.name = b.name → a = b := by
    intro a b hab
    cases a <;> cases b <;> first | rfl | exact absurd hab (by decide)
  have hunit : ∀ a b : Period, a.name = b.name → a = b := by
    intro a b hab
    cases a <;> cases b <;> first | rfl | exact absurd hab (by decide)
  have hne := metricKey_ne
  have hne' (m : Metric) := (hne m).imp Ne.symm <| And.imp Ne.symm <| And.imp Ne.symm <|
    And.imp Ne.symm Ne.symm
  cases t <;> cases u <;>
    simp only [pieces, hne, hne', List.cons.injEq, String.reduceEq, reduceCtorEq, and_false,
      false_and, and_true] at h
  case ranking.ranking =>
    obtain ⟨hm, he, hi⟩ := h
    rw [metricKey_inj hm, Filter.fragments_inj ht hu he hi]
  case series.series m f v n g w =>
    obtain ⟨hm, he, hi, ho, hp⟩ := h
    have hw : v = w := by
      cases v
      cases w
      rw [Window.mk.injEq]
      exact ⟨hunit _ _ hp, UInt32.toNat_inj.1 (ofNat_inj ho)⟩
    rw [metricKey_inj hm, Filter.fragments_inj ht hu he hi, hw]
  case breadth.breadth =>
    rw [Filter.fragments_inj ht hu h.2.1 h.2.2]
  case topMovers.topMovers =>
    rw [Filter.fragments_inj ht hu h.2.1 h.2.2.1, ofNat_inj h.2.2.2]
  case sessionDates.sessionDates => rw [htable _ _ h.2.1]
  case recentSessions.recentSessions => rw [htable _ _ h.2.1]
  case nearestSession.nearestSession => rw [htable _ _ h.2.1, Date.iso_inj h.2.2]

/-- Topics with the same key text are the same. -/
theorem key_text_inj {t u : Topic} (ht : t.WellFormed) (hu : u.WellFormed)
    (h : t.key.text = u.key.text) : t = u := by
  have hne : ∀ v : Topic, v.pieces ≠ [] := by
    intro v
    cases v <;> exact List.cons_ne_nil _ _
  rw [text_eq, text_eq] at h
  exact pieces_inj ht hu (intercalate_inj (hne t) (hne u) (free_pieces ht) (free_pieces hu) h)

end Topic

end Bourse
