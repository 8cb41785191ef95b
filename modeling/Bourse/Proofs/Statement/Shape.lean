import Bourse.Proofs.Statement.Marks
import Bourse.Statement

/-!
# Shapes of statements

The text of a statement is settled by its shape (`text_eq_of_shape_eq`): the names of tables and
columns, and how many values there are of each kind. No value has a part in it. The text of every
statement can be read back, so its marks stand for its parameters one after another
(`text_carries_no_values`).
-/

namespace Bourse

open Sql

/-- How many report lines a measure has. -/
def Measure.lineCount : Measure → ℕ
  | .report lines => lines.length
  | _ => 0

def Measure.isRatio : Measure → Bool
  | .ratio _ => true
  | _ => false

/-- What the text of an aggregate shows of it. -/
structure Aggregate.Shape where
  table : String
  dateColumn : String
  valueColumn : String
  isRatio : Bool
  lines : ℕ
  entity : Entity
  exchanges : ℕ
  industries : ℕ
  dates : ℕ
deriving DecidableEq

def Aggregate.shape (a : Aggregate) : Aggregate.Shape where
  table := a.measure.table
  dateColumn := a.measure.dateColumn
  valueColumn := a.measure.valueColumn
  isRatio := a.measure.isRatio
  lines := a.measure.lineCount
  entity := a.entity
  exchanges := a.filter.exchanges.length
  industries := a.filter.industries.length
  dates := a.dates.length

/-- What the text of a statement shows of it. -/
inductive Statement.Shape where
  | sessionAnchors (table : SessionTable)
  | recentSessions (table : SessionTable)
  | nearestSession (table : SessionTable)
  | comparison (current : Aggregate.Shape) (prior : ℕ) (strict : Bool)
  | series (aggregate : Aggregate.Shape)
  | breadthCounts (exchanges industries : ℕ)
  | closes (exchanges industries dates : ℕ)
deriving DecidableEq

def Statement.shape : Statement → Statement.Shape
  | .sessionAnchors table _ => .sessionAnchors table
  | .recentSessions table => .recentSessions table
  | .nearestSession table _ => .nearestSession table
  | .comparison current prior strict => .comparison current.shape prior.length strict
  | .series aggregate => .series aggregate.shape
  | .breadthCounts f _ _ => .breadthCounts f.exchanges.length f.industries.length
  | .closes f dates => .closes f.exchanges.length f.industries.length dates.length

namespace Sql

/-- A piece without its value. -/
def Piece.blank : Piece → Piece
  | .text s => .text s
  | .bind _ => .bind .null

/-- No value has a part in the text. -/
theorem textFrom_blank (style : Placeholder) (bound : ℕ) (pieces : List Piece) :
    textFrom style bound (pieces.map Piece.blank) = textFrom style bound pieces := by
  induction pieces generalizing bound with
  | nil => rfl
  | cons p rest ih =>
    cases p with
    | text s => exact congrArg (s ++ ·) (ih bound)
    | bind value => exact congrArg (style.mark (bound + 1) ++ ·) (ih (bound + 1))

/-- Of a list of values the pieces show its length alone. -/
theorem blank_values (cells : List Cell) :
    (values cells).map Piece.blank = values (List.replicate cells.length .null) := by
  have hcomma : (commaSeparated cells).map Piece.blank
      = commaSeparated (List.replicate cells.length .null) := by
    fun_induction commaSeparated cells with
    | case1 => rfl
    | case2 value => rfl
    | case3 value rest hrest ih =>
      cases rest with
      | nil => exact absurd rfl hrest
      | cons next rest =>
        simp only [List.map_cons, ih, List.length_cons, List.replicate_succ, Piece.blank,
          commaSeparated]
  cases cells with
  | nil => rfl
  | cons value rest =>
    simp only [values, List.isEmpty_cons, Bool.false_eq_true, if_false, List.map_append,
      List.map_cons, hcomma, List.map_nil, Piece.blank, List.length_cons, List.replicate_succ]

theorem blank_texts (items : List String) :
    (texts items).map Piece.blank = values (List.replicate items.length .null) := by
  rw [texts, blank_values, List.length_map]

theorem blank_predicates (f : Filter) (info : String) :
    (predicates f info).map Piece.blank
      = [.text (" AND " ++ info ++ ".exchange IN ")]
        ++ values (List.replicate f.exchanges.length .null)
        ++ [.text (" AND " ++ info ++ ".industry IN ")]
        ++ values (List.replicate f.industries.length .null)
        ++ [.text (" AND " ++ info ++ ".security_type IN ")]
        ++ values (List.replicate 2 .null) := by
  simp only [predicates, List.map_append, blank_texts, List.length_map]
  rfl

theorem blank_predicates_eq {f f' : Filter} (hexchanges : f.exchanges.length = f'.exchanges.length)
    (hindustries : f.industries.length = f'.industries.length) (info : String) :
    (predicates f info).map Piece.blank = (predicates f' info).map Piece.blank := by
  rw [blank_predicates, blank_predicates, hexchanges, hindustries]

/-- Measures with the same table, and as many report lines, have one condition but for values. -/
theorem blank_measureCondition_eq {m m' : Measure} (htable : m.table = m'.table)
    (hlines : m.lineCount = m'.lineCount) :
    (measureCondition m).map Piece.blank = (measureCondition m').map Piece.blank := by
  cases m <;> cases m' <;> simp [Measure.table] at htable
  case trade.trade => rfl
  case ratio.ratio => rfl
  case report.report lines lines' =>
    have hlengths : lines.length = lines'.length := hlines
    simp only [measureCondition, List.map_cons, blank_texts, List.length_map, hlengths]

/-- Only the table of reports has report lines. -/
theorem ifReported_eq {m m' : Measure} (htable : m.table = m'.table) (s : String) :
    ifReported m s = ifReported m' s := by
  cases m <;> cases m' <;> simp [Measure.table] at htable <;> rfl

/-- Aggregates of one shape differ in nothing but their values. -/
theorem blank_aggregate_eq {a b : Aggregate} (h : a.shape = b.shape) :
    (aggregate a).map Piece.blank = (aggregate b).map Piece.blank := by
  obtain ⟨measure, entity, f, dates⟩ := a
  obtain ⟨measure', entity', f', dates'⟩ := b
  simp only [Aggregate.shape, Aggregate.Shape.mk.injEq] at h
  obtain ⟨htable, hdate, hcolumn, -, hlines, rfl, hexchanges, hindustries, hdates⟩ := h
  simp only [aggregate, List.map_append, List.map_cons, List.map_nil, Piece.blank, blank_texts,
    blank_measureCondition_eq htable hlines, blank_predicates_eq hexchanges hindustries,
    ifReported_eq htable, htable, hdate, hcolumn, hdates]

end Sql

namespace Statement

/-- Statements of one shape differ in nothing but their values. -/
theorem blank_pieces_eq {s s' : Statement} (h : s.shape = s'.shape) :
    s.pieces.map Sql.Piece.blank = s'.pieces.map Sql.Piece.blank := by
  cases s <;> cases s' <;> simp only [shape, reduceCtorEq, Shape.sessionAnchors.injEq,
    Shape.recentSessions.injEq, Shape.nearestSession.injEq, Shape.comparison.injEq,
    Shape.series.injEq, Shape.breadthCounts.injEq, Shape.closes.injEq] at h
  case sessionAnchors.sessionAnchors => subst h; rfl
  case recentSessions.recentSessions => subst h; rfl
  case nearestSession.nearestSession => subst h; rfl
  case series.series => exact blank_aggregate_eq h
  case comparison.comparison current prior strict current' prior' strict' =>
    obtain ⟨hcurrent, hprior, rfl⟩ := h
    -- The prior part is the same aggregate once more, at the prior dates.
    have hpast : ({ current with dates := prior } : Aggregate).shape
        = ({ current' with dates := prior' } : Aggregate).shape := by
      simp only [Aggregate.shape, Aggregate.Shape.mk.injEq] at hcurrent ⊢
      simp only [hcurrent, hprior, and_self]
    have htable : current.measure.table = current'.measure.table :=
      congrArg Aggregate.Shape.table hcurrent
    simp only [pieces, Sql.comparison, List.map_append, List.map_cons, List.map_nil,
      Sql.Piece.blank, blank_aggregate_eq hcurrent, blank_aggregate_eq hpast, ifReported_eq htable]
  case breadthCounts.breadthCounts =>
    simp only [pieces, Sql.breadthCounts, List.map_append, List.map_cons, List.map_nil,
      Sql.Piece.blank, blank_predicates_eq h.1 h.2]
  case closes.closes =>
    simp only [pieces, Sql.closes, List.map_append, List.map_cons, List.map_nil,
      Sql.Piece.blank, blank_texts, blank_predicates_eq h.1 h.2.1, h.2.2]

theorem text_eq_of_shape_eq {s s' : Statement} (h : s.shape = s'.shape) (style : Placeholder) :
    s.text style = s'.text style := by
  rw [text, text, Sql.text, Sql.text, ← Sql.textFrom_blank, blank_pieces_eq h, Sql.textFrom_blank]

end Statement

/-- The measure that a statement sums. -/
def Statement.measure? : Statement → Option Measure
  | .comparison current _ _ => some current.measure
  | .series aggregate => some aggregate.measure
  | _ => none

theorem Metric.plain_valueColumn (m : Metric) : Plain m.measure.valueColumn := by
  cases m <;> exact plain_ofList (by decide)

namespace Sql

theorem plain_name (table : SessionTable) : Plain table.name ∧ Plain table.dateColumn := by
  cases table <;> exact ⟨plain_ofList (by decide), plain_ofList (by decide)⟩

theorem plain_table (m : Measure) : Plain m.table ∧ Plain m.dateColumn := by
  cases m <;> exact ⟨plain_ofList (by decide), plain_ofList (by decide)⟩

theorem plain_column (e : Entity) : Plain e.column := by
  cases e <;> exact plain_ofList (by decide)

theorem plain_ifReported (m : Measure) {s : String} (h : Plain s) : Plain (ifReported m s) := by
  cases m with
  | report _ => exact h
  | _ => exact show Plain "" from plain_ofList (by decide)

/-- Values may follow on anything. -/
theorem Separated.texts {a : List Piece} (ha : Separated a) (items : List String) :
    Separated (a ++ texts items) :=
  ha.append (separated_values _) (startsApart_values _)

theorem Separated.text {a : List Piece} (ha : Separated a) {s : String} (hs : Plain s)
    (hstart : Apart s) : Separated (a ++ [.text s]) :=
  ha.append ⟨hs, trivial⟩ hstart

theorem separated_predicates (f : Filter) : Separated (predicates f "i") := by
  have hexchange : Plain (" AND " ++ "i" ++ ".exchange IN ") := by
    simp only [plain_append]
    and_intros <;> exact plain_ofList (by decide)
  have hindustry : Plain (" AND " ++ "i" ++ ".industry IN ") := by
    simp only [plain_append]
    and_intros <;> exact plain_ofList (by decide)
  have htype : Plain (" AND " ++ "i" ++ ".security_type IN ") := by
    simp only [plain_append]
    and_intros <;> exact plain_ofList (by decide)
  have hand : ∀ s, Apart (" AND " ++ "i" ++ s) := fun s => ((apart_ofList rfl _).append _).append s
  have hstart : Separated [.text (" AND " ++ "i" ++ ".exchange IN ")] := ⟨hexchange, trivial⟩
  exact ((((hstart.texts _).text hindustry (hand _)).texts _).text htype (hand _)).texts _

theorem startsApart_predicates (f : Filter) : StartsApart (predicates f "i") :=
  ((apart_ofList rfl _).append _).append _

theorem separated_measureCondition (m : Measure) : Separated (measureCondition m) := by
  cases m with
  | trade _ => trivial
  | ratio _ => exact ⟨plain_ofList (by decide), trivial, trivial⟩
  | report _ => exact ⟨plain_ofList (by decide), separated_values _⟩

theorem startsApart_measureCondition (m : Measure) : StartsApart (measureCondition m) := by
  cases m with
  | trade _ => trivial
  | ratio _ => exact apart_ofList rfl _
  | report _ => exact apart_ofList rfl _

theorem separated_aggregate {a : Aggregate} (h : Plain a.measure.valueColumn) :
    Separated (aggregate a) := by
  have hreport : Plain (ifReported a.measure ", LOWER(t.report_name) AS report") :=
    plain_ifReported _ (plain_ofList (by decide))
  have hgroup : Plain (ifReported a.measure ", LOWER(t.report_name)") :=
    plain_ifReported _ (plain_ofList (by decide))
  have hselect : Separated [.text ("SELECT t." ++ a.measure.dateColumn ++ " AS d, "
      ++ a.entity.column ++ " AS entity"
      ++ ifReported a.measure ", LOWER(t.report_name) AS report"
      ++ ", SUM(t." ++ a.measure.valueColumn ++ ") AS v FROM " ++ a.measure.table
      ++ " t INNER JOIN ticker_info i ON i.code = t.code WHERE t." ++ a.measure.dateColumn
      ++ " IN ")] := by
    refine ⟨?_, trivial⟩
    simp only [plain_append, plain_table, plain_column, hreport, h, and_true]
    and_intros <;> exact plain_ofList (by decide)
  refine (((hselect.texts _).append (separated_predicates _) (startsApart_predicates _)).append
    (separated_measureCondition _) (startsApart_measureCondition _)).text ?_ ?_
  · simp only [plain_append, plain_table, plain_column, hgroup, and_true]
    and_intros <;> exact plain_ofList (by decide)
  · iterate 4 refine Apart.append ?_ _
    exact apart_ofList rfl _

theorem startsApart_aggregate (a : Aggregate) : StartsApart (aggregate a) := by
  show Apart _
  iterate 12 refine Apart.append ?_ _
  exact apart_ofList rfl _

theorem separated_comparison {current : Aggregate} (h : Plain current.measure.valueColumn)
    (prior : List String) (strict : Bool) : Separated (comparison current prior strict) := by
  have hreport : Plain (ifReported current.measure ", cur.report AS report") :=
    plain_ifReported _ (plain_ofList (by decide))
  have hjoin : Plain (ifReported current.measure " AND cur.report = prev.report") :=
    plain_ifReported _ (plain_ofList (by decide))
  have hselect : Separated [.text (
      "SELECT cur.d AS period, prev.d AS prior_period, cur.entity AS entity"
      ++ ifReported current.measure ", cur.report AS report"
      ++ ", prev.v AS prior_value, cur.v AS current_value FROM (")] := by
    refine ⟨?_, trivial⟩
    simp only [plain_append, hreport, and_true]
    and_intros <;> exact plain_ofList (by decide)
  have hcurrent : Separated (aggregate current) := separated_aggregate h
  have hprior : Separated (aggregate { current with dates := prior }) := separated_aggregate h
  refine ((((hselect.append hcurrent (startsApart_aggregate _)).text (plain_ofList (by decide))
    (apart_ofList rfl _)).append hprior (startsApart_aggregate _)).text ?_ ?_)
  · simp only [plain_append, hjoin, and_true]
    cases strict <;> and_intros <;> exact plain_ofList (by decide)
  · iterate 2 refine Apart.append ?_ _
    cases strict <;> exact apart_ofList rfl _

theorem separated_breadthCounts (f : Filter) (latest previous : String) :
    Separated (breadthCounts f latest previous) := by
  refine (Separated.append ?_ (separated_predicates _) (startsApart_predicates _)).text
    (plain_ofList (by decide)) (apart_ofList rfl _)
  refine ⟨?_, apart_ofList rfl _, plain_ofList (by decide), trivial, trivial⟩
  simp only [plain_append]
  and_intros <;> exact plain_ofList (by decide)

theorem separated_closes (f : Filter) (dates : List String) : Separated (closes f dates) := by
  have hselect : Separated [.text ("SELECT t.code AS code, i.industry AS industry, "
      ++ "t.trade_date AS d, t.close_price AS v "
      ++ "FROM ticker_trade t INNER JOIN ticker_info i ON i.code = t.code WHERE t.trade_date IN ")]
      := by
    refine ⟨?_, trivial⟩
    simp only [plain_append]
    and_intros <;> exact plain_ofList (by decide)
  exact (hselect.texts dates).append (separated_predicates _) (startsApart_predicates _)

theorem plain_recentSessions (table : SessionTable) : Plain (recentSessions table) := by
  unfold recentSessions
  simp only [plain_append, plain_name, and_true]
  and_intros <;> exact plain_ofList (by decide)

theorem separated_anchorPart (table : SessionTable) {anchor label relation order : String}
    (hanchor : Plain anchor) (hlabel : Plain label) (hrelation : Plain relation)
    (horder : Plain order) (target : Date) :
    Separated (anchorPart table anchor label relation order target) := by
  refine ⟨?_, ?_, ?_, trivial⟩
  · simp only [plain_append, hanchor, hlabel, hrelation, plain_name, and_true]
    and_intros <;> exact plain_ofList (by decide)
  · exact (((apart_ofList rfl _).append _).append _).append _
  · simp only [plain_append, hlabel, horder, and_true]
    and_intros <;> exact plain_ofList (by decide)

theorem startsApart_anchorPart (table : SessionTable) (anchor label relation order : String)
    (target : Date) : StartsApart (anchorPart table anchor label relation order target) := by
  show Apart _
  iterate 14 refine Apart.append ?_ _
  exact apart_ofList rfl _

theorem separated_sessionAnchors (table : SessionTable) (targets : SessionTargets) :
    Separated (sessionAnchors table targets) := by
  refine ⟨plain_recentSessions table, Separated.append (Separated.append ?_ ?_ ?_) ?_ ?_⟩
  case refine_3 => exact startsApart_anchorPart ..
  case refine_5 => exact startsApart_anchorPart ..
  all_goals refine separated_anchorPart table ?_ ?_ ?_ ?_ _ <;> exact plain_ofList (by decide)

theorem separated_nearestSession (table : SessionTable) (target : Date) :
    Separated (nearestSession table target) := by
  refine ⟨?_, apart_ofList rfl _, plain_ofList (by decide), trivial⟩
  simp only [plain_append, plain_name, and_true]
  and_intros <;> exact plain_ofList (by decide)

end Sql

namespace Statement

theorem separated_pieces {s : Statement} (h : ∀ m ∈ s.measure?, Plain m.valueColumn) :
    Sql.Separated s.pieces := by
  cases s with
  | sessionAnchors table targets => exact Sql.separated_sessionAnchors table targets
  | recentSessions table => exact ⟨Sql.plain_recentSessions table, trivial⟩
  | nearestSession table target => exact Sql.separated_nearestSession table target
  | comparison current prior strict => exact Sql.separated_comparison (h _ rfl) prior strict
  | series aggregate => exact Sql.separated_aggregate (h _ rfl)
  | breadthCounts f latest previous => exact Sql.separated_breadthCounts f latest previous
  | closes f dates => exact Sql.separated_closes f dates

/-- Statement text is settled by the statement's shape. Read back from left to right, it has a mark
for each parameter and no other, the marks are numbered in order, and with the parameters written
at the marks of their numbers each value stands where the statement binds it. The two styles differ
in nothing but the marks. -/
theorem text_carries_no_values (s : Statement) (h : ∀ m ∈ s.measure?, Sql.Plain m.valueColumn) :
    (∀ s' : Statement, s'.shape = s.shape → ∀ style, s'.text style = s.text style)
      ∧ (∀ style, Sql.marks style (s.text style) = List.range' 1 s.parameters.length)
      ∧ (∀ style write, Sql.fill style write s.parameters (s.text style)
          = Sql.written write s.pieces)
      ∧ Sql.replaceMarks .dollar (fun _ => "?") (s.text .dollar) = s.text .question := by
  have hpieces : Sql.Separated s.pieces := separated_pieces h
  exact ⟨fun s' hshape style => text_eq_of_shape_eq hshape style, Sql.marks_text hpieces,
    Sql.fill_text hpieces, Sql.replaceMarks_text hpieces⟩

/-- Labels that look like marks are no marks, and give the text that other labels give. -/
theorem text_carries_no_values_marks :
    let asked (labels : List String) : Statement :=
      .comparison ⟨Metric.marketCapChange.measure, .industry, ⟨[.hose], labels⟩, ["2024-01-05"]⟩
        ["2023-12-29"] true
    (∀ m ∈ (asked ["? OR ?", "$1"]).measure?, Sql.Plain m.valueColumn)
      ∧ (asked ["A", "B"]).text .dollar = (asked ["? OR ?", "$1"]).text .dollar
      ∧ Sql.marks .question ((asked ["? OR ?", "$1"]).text .question) = List.range' 1 14
      ∧ Sql.marks .dollar ((asked ["? OR ?", "$1"]).text .dollar) = List.range' 1 14 := by
  intro asked
  have hplain : ∀ m ∈ (asked ["? OR ?", "$1"]).measure?, Sql.Plain m.valueColumn := by
    rintro _ ⟨⟩
    exact Metric.plain_valueColumn .marketCapChange
  obtain ⟨htext, hmarks, -, -⟩ := text_carries_no_values (asked ["? OR ?", "$1"]) hplain
  exact ⟨hplain, htext (asked ["A", "B"]) rfl .dollar, hmarks .question, hmarks .dollar⟩

end Statement

end Bourse
