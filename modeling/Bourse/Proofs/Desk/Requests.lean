import Bourse.Proofs.Desk.Calls
import Bourse.Proofs.Desk.Parts

/-!
# Computations of a desk

A call is answered from a computation that is kept under the key of its topic
(`exists_computation`). All that a computation asks the cache for are the sessions of tables, and to
find these nothing cached is asked for (`Computes.uses`). A computation so never comes back to the
key that it is for, and a request for that key does not wait for itself (`Computes.avoids`).
-/

namespace Bourse

variable {α β : Type}

/-- The key of a topic about the sessions of a table. -/
def SessionKey (key : String) : Prop :=
  ∃ topic : Topic, topic.OfSessions ∧ topic.key.text = key

/-- The key of another topic is no such key, whatever the labels of its filter hold. -/
theorem not_sessionKey {topic : Topic} (h : ¬topic.OfSessions) : ¬SessionKey topic.key.text := by
  rintro ⟨other, hother, hkey⟩
  have hname := Topic.name_eq_of_text_eq hkey
  have hmetric := Topic.metricKey_ne
  have hmetric' (m : Metric) := (hmetric m).imp Ne.symm <| And.imp Ne.symm <| And.imp Ne.symm <|
    And.imp Ne.symm Ne.symm
  cases topic <;> cases other <;> simp_all [Topic.OfSessions, Topic.name]

/-- Sessions may be asked for and kept. -/
structure Act.FindsSessions (allowed : Act → Prop) : Prop where
  keyed : ∀ {key}, SessionKey key → ∀ act : Act, act.On key → allowed act
  asked : ∀ statement : Statement, statement.filter? = none → allowed (.ask statement)

/-- Statements about the tickers of a filter may be asked. -/
def Act.AsksFor (allowed : Act → Prop) (filter : Filter) : Prop :=
  ∀ statement : Statement, statement.filter? = some filter → allowed (.ask statement)

namespace Desk

open Analysis Act

variable (desk : Desk)

section Within

variable {allowed : Act → Prop}

theorem finds_within (h : FindsSessions allowed) :
    desk.Finds fun _ a => a.run.Within allowed :=
  finds_of_keeps (composes_within allowed) fun topic htopic _ _ hstatement _ =>
    desk.gateway.within_kept (h.keyed ⟨topic, htopic, rfl⟩) <|
      within_bind (within_ask (h.asked _ hstatement)) fun _ => within_lift _

theorem asks_within {filter : Filter} (hask : AsksFor allowed filter) :
    Asks (fun _ a => a.run.Within allowed) (some filter) :=
  fun statement hstatement => within_ask (hask statement hstatement)

end Within

/-- The act is about no key but one of sessions. -/
def KeysOfSessions (act : Act) : Prop :=
  ∀ key, act.On key → SessionKey key

theorem findsSessions_keysOfSessions : FindsSessions KeysOfSessions where
  keyed hkey act hact key' hact' := by
    cases act <;> first | (cases hact; cases hact'; exact hkey) | cases hact
  asked _ _ _ hact := hact.elim

theorem asksFor_keysOfSessions (filter : Filter) : AsksFor KeysOfSessions filter :=
  fun _ _ _ hact => hact.elim

theorem uses_sampleSessions (table : SessionTable) (targets : List Date) :
    (desk.sampleSessions table targets).run.Uses SessionKey :=
  ((desk.finds_within findsSessions_keysOfSessions).sampleSessions table targets).uses

theorem uses_computeChange (metric : Metric) (filter : Filter) (window : Option Window) :
    (desk.computeChange metric filter window).run.Uses SessionKey :=
  ((desk.finds_within findsSessions_keysOfSessions).computeChange
    (asks_within (asksFor_keysOfSessions filter)) metric window).uses

/-- The computation of a call, whose value a desk keeps under the key of the call's topic. Its parts
are statements and, unless the topic is about sessions itself, sessions that the desk resolves. It
gives a value or its plain fault under any conditions, unless something fails. -/
structure Computes (desk : Desk) (c : Call) [Payload α] (ttl : Option ℕ)
    (computation : Analysis α) : Prop where
  answer : desk.answer c
    = Payload.encode <$> desk.gateway.getOrComputeFor c.topic.key.text ttl computation
  parts : ∀ P : (β : Type) → Analysis β → Prop, Composes P → (∀ filter?, Asks P filter?) →
    (¬c.topic.OfSessions → desk.Finds P) → P α computation
  steady : ∀ (conditions : Conditions) (t : Tables),
    Steady conditions t (desk.truth t) (fun _ _ => True) computation

variable {desk} {c : Call} [Payload α] {ttl : Option ℕ} {computation : Analysis α}

namespace Computes

/-- A computation that is the same in whatever order rows come. -/
theorem of_eq (hanswer : desk.answer c
      = Payload.encode <$> desk.gateway.getOrComputeFor c.topic.key.text ttl computation)
    (hparts : ∀ P : (β : Type) → Analysis β → Prop, Composes P → (∀ filter?, Asks P filter?) →
      (¬c.topic.OfSessions → desk.Finds P) → P α computation)
    (hsteady : ∀ (conditions : Conditions) (t : Tables),
      Steady conditions t (desk.truth t) Eq computation) :
    desk.Computes c ttl computation :=
  ⟨hanswer, hparts, fun conditions t => (hsteady conditions t).mono fun _ => trivial⟩

/-- Sessions are found without the cache. -/
theorem of_ask {statement : Statement} {decode : List Row → Except Fault α}
    (hanswer : desk.answer c = Payload.encode <$> desk.gateway.getOrComputeFor c.topic.key.text ttl
      (ask statement >>= fun rows => liftM (decode rows)))
    (hdecode : ∀ (t : Tables) (rows : List Row), rows.Perm (t.answer statement) →
      decode rows = decode (t.answer statement)) :
    desk.Computes c ttl (ask statement >>= fun rows => liftM (decode rows)) :=
  .of_eq hanswer (fun _ hP hasks _ => hP.bind (hasks _ statement rfl) fun _ => hP.lift _)
    fun _ t => steady_asked (hdecode t)

variable (h : desk.Computes c ttl computation)

include h

theorem uses : computation.run.Uses SessionKey :=
  (h.parts _ (composes_within KeysOfSessions) (fun _ _ _ => within_ask fun _ => False.elim)
    fun _ => desk.finds_within findsSessions_keysOfSessions).uses

theorem avoids : computation.run.Avoids c.topic.key.text := by
  by_cases hsessions : c.topic.OfSessions
  · have hnone : computation.run.Uses fun _ => False :=
      (h.parts _ (composes_within _) (fun _ _ _ => within_ask fun _ => False.elim)
        fun hother => absurd hsessions hother).uses
    exact hnone.avoids not_false
  · exact h.uses.avoids (not_sessionKey hsessions)

end Computes

/-- A call is answered from the computation of its topic, or it is refused at once. -/
theorem exists_computation (desk : Desk) (c : Call) :
    (∃ e, desk.answer c = throw e) ∨
      ∃ (α : Type) (_ : Payload α) (ttl : Option ℕ) (computation : Analysis α),
        desk.Computes c ttl computation := by
  cases c with
  | priceChange f =>
    refine .inr ⟨_, _, _, _, .of_eq rfl (fun _ hP hasks hfinds =>
      hP.bind ((hfinds not_false).pivoted (hasks _) .priceChange none) fun _ => hP.pure _)
      fun _ t => ?_⟩
    exact steady_byDate (fun _ => rfl) rfl (allSame_singleton _)
  | liquidityChange f =>
    refine .inr ⟨_, _, _, _, .of_eq rfl (fun _ hP hasks hfinds =>
      hP.bind ((hfinds not_false).pivoted (hasks _) .liquidityChange none) fun _ => hP.pure _)
      fun _ t => ?_⟩
    exact steady_byDate (fun _ => rfl) rfl (allSame_singleton _)
  | equityChange f =>
    refine .inr ⟨_, _, _, _, .of_eq rfl (fun _ hP hasks hfinds =>
      hP.bind ((hfinds not_false).pivoted (hasks _) .equityChange _) fun _ => hP.pure _)
      fun _ t => ?_⟩
    refine steady_byLine ?_ rfl
    exact fun _ => rfl
  | liabilitiesChange f =>
    refine .inr ⟨_, _, _, _, .of_eq rfl (fun _ hP hasks hfinds =>
      hP.bind ((hfinds not_false).pivoted (hasks _) .liabilitiesChange _) fun _ => hP.pure _)
      fun _ t => ?_⟩
    refine steady_byLine ?_ rfl
    exact fun _ => rfl
  | industrySeries m f w =>
    by_cases hm : m.isWindowed
    · exact .inr ⟨_, _, _, _, .of_eq (by simp only [answer, industrySeries, if_pos hm]; rfl)
        (fun _ hP hasks hfinds =>
          hP.bind ((hfinds not_false).computeChange (hasks _) m (some w)) fun _ => hP.pure _)
        fun _ _ => steady_series hm⟩
    · refine .inl ⟨.invalid (.notASeries m.key), ?_⟩
      simp only [answer, industrySeries, if_neg hm]
      rfl
  | marketBreadth f =>
    exact .inr ⟨_, _, _, _, rfl, fun _ hP hasks hfinds =>
      hP.bind (hfinds not_false).breadthSessions fun _ => hP.bind (hasks _ _ rfl) fun _ =>
        hP.bind (hasks _ _ rfl) fun _ => hP.pure _,
      fun _ t => steady_breadth desk t f (fun _ _ => True) (fun _ _ => trivial)
        fun _ _ _ _ _ _ => trivial⟩
  | topMovers f limit =>
    exact .inr ⟨_, _, _, _, .of_eq rfl (fun _ hP hasks hfinds =>
      hP.bind ((hfinds not_false).recentSessions .trades) fun _ => hP.bind (hasks _ _ rfl) fun _ =>
        hP.pure _) fun _ t => steady_movers desk t f _⟩
  | sessionDates table =>
    exact .inr ⟨_, _, _, _, .of_ask rfl fun _ _ => SessionDates.ofRows_perm⟩
  | recentSessions table =>
    exact .inr ⟨_, _, _, _, .of_ask rfl fun _ _ => RecentSessions.ofRows_perm table⟩
  | nearestSession table target =>
    exact .inr ⟨_, _, _, _, .of_ask rfl fun _ _ h => congrArg _ (eq_nearestRows_of_perm h)⟩

end Desk

end Bourse
