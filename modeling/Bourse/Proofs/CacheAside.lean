import Bourse.Proofs.CacheAside.Rush

/-!
# Cache-aside

What is found under a key in a rush was stored by the last write, or was there from the start
(`Rush.exists_at`). So a request answers what it computed or what it found, one that comes after a
write finds something, a request that fails leaves the key alone, and the last of the writes is the
one that stays (`Rush.served`).
-/

namespace Bourse

variable {α : Type} [Payload α]

namespace Rush

variable (r : Rush α)

/-- The own computation of the request `i` has come to the outcome in the end. -/
def Computed (i : ℕ) (outcome : Except Fault α) : Prop :=
  r.Computing r.moves.length i (.done outcome)

/-- The last write of the first `n` moves is that of the request `i` in move `m`. -/
def LastWrite (n m i : ℕ) (text : String) : Prop :=
  m < n ∧ r.Writes m i text ∧ ∀ m' j other, r.Writes m' j other → m' < n → m' ≤ m

/-- Nothing is stored in the first `n` moves. -/
def Unwritten (n : ℕ) : Prop :=
  ∀ m i text, r.Writes m i text → n ≤ m

/-- What requests for one key come to, when they take no turns. -/
structure Served : Prop where
  /-- A request that takes a step has looked its key up, and goes on until it has answered. -/
  looks : ∀ n i, i < r.requests.length → r.moves[n]? = some (.step i) → ∃ k ≤ n, r.Looks k i
  finishes : ∀ n i outcome, r.Computing n i (.done outcome) → r.moves[n]? = some (.step i) →
    (r.crew (n + 1)).answer? i = some outcome
  /-- It answers what it computed itself, or what it found when it looked the key up. -/
  values : ∀ i v, r.finish.answer? i = some (.ok v) →
    r.Computed i (.ok v) ∨ ∃ n, r.Looks n i ∧ (r.entry n).bind Payload.read = some v
  faults : ∀ i e, r.finish.answer? i = some (.error e) → r.Computed i (.error e)
  /-- What is found at any moment was stored by the last write before it, or was there before. -/
  entries : ∀ n ≤ r.moves.length,
    (∃ m i text, r.LastWrite n m i text ∧ r.entry n = some text) ∨
      r.Unwritten n ∧ r.entry n = r.start.cache.find? (r.crew n).backend.now r.key
  changes : ∀ n i, r.moves[n]? = some (.step i) → (∀ text, ¬r.Writes n i text) →
    r.entry (n + 1) = r.entry n
  /-- Only what was computed is stored, and a computation that fails stores nothing. -/
  writers : ∀ n i text, r.Writes n i text →
    ∃ v, r.Computing n i (.done (.ok v)) ∧ Payload.write v = text
  failures : ∀ i e, r.Computed i (.error e) → ∀ n text, ¬r.Writes n i text
  /-- After the first write, a request answers as soon as it has looked the key up. -/
  hits : ∀ m j text n i, r.Writes m j text → m < n → r.Looks n i →
    ∃ v, (r.entry n).bind Payload.read = some v ∧ (r.crew (n + 1)).answer? i = some (.ok v)
  /-- When all have answered, the value of the last write is kept, or none has computed one. -/
  settled : (∀ i < r.requests.length, (r.finish.answer? i).isSome) →
    (∃ m i v, r.LastWrite r.moves.length m i (Payload.write v) ∧ r.Computed i (.ok v) ∧
      r.entry r.moves.length = some (Payload.write v)) ∨
    (∀ i v, ¬r.Computed i (.ok v)) ∧
      r.entry r.moves.length = r.start.cache.find? r.finish.backend.now r.key

variable {r} {n i k : ℕ} {p : Program (Except Fault α)} {stage : ℕ → Stage α}
  {found : ℕ → Option String}

/-- What is found after `n` moves was stored by the last write, or was there from the start. -/
def Standing (r : Rush α) (n : ℕ) (found : ℕ → Option String) : Prop :=
  (∃ m i text, r.LastWrite n m i text ∧ found = fun _ => some text) ∨
    r.Unwritten n ∧ found = fun instant => r.start.cache.find? instant r.key

theorem Standing.of_writes {text : String} (h : r.Writes n i text) :
    r.Standing (n + 1) fun _ => some text :=
  .inl ⟨n, i, text, ⟨Nat.lt_succ_self n, h, fun _ _ _ _ hlt => Nat.le_of_lt_succ hlt⟩, rfl⟩

theorem Standing.succ (h : r.Standing n found) (hnone : ∀ i text, ¬r.Writes n i text) :
    r.Standing (n + 1) found := by
  have hearlier : ∀ m i text, r.Writes m i text → m ≠ n := by
    rintro m i text hwrites rfl
    exact hnone i text hwrites
  rcases h with ⟨m, i, text, ⟨hlt, hwrites, hlast⟩, rfl⟩ | ⟨hnever, rfl⟩
  · refine .inl ⟨m, i, text, ⟨by omega, hwrites, fun m' j other hother hlt' => ?_⟩, rfl⟩
    have hne := hearlier m' j other hother
    exact hlast m' j other hother (by omega)
  · refine .inr ⟨fun m i text hwrites => ?_, rfl⟩
    have hne := hearlier m i text hwrites
    have hle := hnever m i text hwrites
    omega

/-- At every moment each request is in some stage, and what is found stands by the last write. -/
theorem exists_at (hr : r.Apt) : ∀ {n : ℕ}, n ≤ r.moves.length →
    ∃ stage found, r.At n stage found ∧ r.Standing n found
  | 0, _ => ⟨_, _, At.start hr, .inr ⟨fun _ _ _ _ => Nat.zero_le _, rfl⟩⟩
  | n + 1, h => by
    obtain ⟨stage, found, hat, hstanding⟩ := exists_at hr (Nat.le_of_succ_le h)
    obtain ⟨stage', found', hat', hfound⟩ := hat.exists_succ hr (List.getElem?_eq_getElem h)
    refine ⟨stage', found', hat', ?_⟩
    rcases hfound with ⟨i, text, hwrites, rfl⟩ | ⟨hnone, rfl⟩
    · exact .of_writes hwrites
    · exact hstanding.succ hnone

theorem Steps.lt_length (h : r.Steps n i p) : n < r.moves.length :=
  (List.getElem?_eq_some_iff.1 h.1).1

theorem Looks.lt_length (h : r.Looks n i) : n < r.moves.length := by
  obtain ⟨p, hsteps, -⟩ := h
  exact hsteps.lt_length

theorem Writes.lt_length {text : String} (h : r.Writes n i text) : n < r.moves.length := by
  obtain ⟨p, hsteps, -⟩ := h
  exact hsteps.lt_length

/-- A request looks its key up once. -/
theorem Looks.unique (hr : r.Apt) {k : ℕ} (h : r.Looks n i) (h' : r.Looks k i) : n = k := by
  have hfirst : ∀ {m m' : ℕ}, r.Looks m i → r.Looks m' i → ¬m < m' := by
    intro m m' hm hm' hlt
    obtain ⟨stage, found, hat, -⟩ := exists_at hr (Nat.le_of_lt hm'.lt_length)
    obtain ⟨-, hi, hstage⟩ := hat.looks_iff.1 hm'
    have hreached := hat.reached i hi
    rw [hstage] at hreached
    exact hreached m hlt hm
  have hle := hfirst h h'
  have hge := hfirst h' h
  omega

/-- A request computes once. -/
theorem Computing.unique (hr : r.Apt) {p' : Program (Except Fault α)} (h : r.Computing n i p)
    (h' : r.Computing n i p') : p = p' := by
  obtain ⟨k, q, -, hq, hlooks, -, rfl⟩ := h
  obtain ⟨k', q', -, hq', hlooks', -, rfl⟩ := h'
  obtain rfl := hlooks.unique hr hlooks'
  obtain rfl := Option.some.inj (hq.symm.trans hq')
  rfl

theorem Computing.miss (hr : r.Apt) (h : r.Computing n i p) (hlooks : r.Looks k i) :
    (r.entry k).bind (Payload.read (α := α)) = none := by
  obtain ⟨k', q, -, -, hlooks', hmiss, -⟩ := h
  exact hlooks.unique hr hlooks' ▸ hmiss

/-- What a request stores is the value that it has computed, and it is read back. -/
theorem Writes.exists_value (hr : r.Apt) {text : String} (h : r.Writes n i text) :
    ∃ v, r.Computing n i (.done (.ok v)) ∧ Payload.write v = text ∧
      Payload.read text = some v := by
  obtain ⟨stage, found, hat, -⟩ := exists_at hr (Nat.le_of_lt h.lt_length)
  obtain ⟨-, hi, v, hstage, rfl⟩ := hat.writes_iff.1 h
  have hreached := hat.reached i hi
  have hsound := hat.sound i hi
  rw [hstage] at hreached hsound
  exact ⟨v, hreached, rfl, hsound.2 v rfl⟩

theorem Unwritten.not_writes (h : r.Unwritten n) {m : ℕ} {text : String} (hlt : m < n) :
    ¬r.Writes m i text := fun hwrites => by
  have hle := h m i text hwrites
  omega

/-- When a request has answered, it found what it answers or its computation has come to it. -/
theorem At.of_answer? (h : r.At n stage found) {outcome : Except Fault α}
    (ha : (r.crew n).answer? i = some outcome) :
    (∃ k < n, ∃ v, outcome = .ok v ∧ r.Looks k i ∧ (r.entry k).bind Payload.read = some v) ∨
      r.Computing n i (.done outcome) ∧
        ∀ v, outcome = .ok v → ∃ m < n, r.Writes m i (Payload.write v) := by
  rw [Crew.answer?, h.programs] at ha
  obtain ⟨p, hp, hresult⟩ := Option.bind_eq_some_iff.1 ha
  obtain ⟨q, hq, rfl⟩ := Option.map_eq_some_iff.1 hp
  have hreached := h.reached i (List.getElem?_eq_some_iff.1 hq).1
  rcases Stage.result?_program _ hresult with ⟨v, rfl, hstage⟩ | ⟨e, rfl, hstage⟩ <;>
    rw [hstage] at hreached
  · rcases hreached with ⟨k, hk, hlooks, hfound⟩ | ⟨hcomputed, hwrites⟩
    · exact .inl ⟨k, hk, v, rfl, hlooks, hfound⟩
    · exact .inr ⟨hcomputed, fun w hw => by cases hw; exact hwrites⟩
  · exact .inr ⟨hreached, fun w hw => by cases hw⟩

/-- A request that finds a value when it looks the key up answers it at once. -/
theorem At.answer?_succ (h : r.At n stage found) (hr : r.Apt) (hlooks : r.Looks n i) {v : α}
    (hfound : (r.entry n).bind Payload.read = some v) :
    (r.crew (n + 1)).answer? i = some (.ok v) := by
  obtain ⟨hm, hi, hstage⟩ := h.looks_iff.1 hlooks
  have hq := List.getElem?_eq_getElem hi
  rw [Crew.answer?, (h.step hr hm hq).programs, hq, Function.update_self, hstage,
    Stage.next_arriving i hfound]
  rfl

/-- A request that has taken a step has looked its key up. -/
theorem At.exists_looks (h : r.At n stage found) (hi : i < r.requests.length)
    (hm : r.moves[n]? = some (.step i)) : ∃ k ≤ n, r.Looks k i := by
  have hcomputing : ∀ {p}, r.Computing n i p → ∃ k ≤ n, r.Looks k i :=
    fun ⟨k, _, hk, _, hlooks, _⟩ => ⟨k, Nat.le_of_lt hk, hlooks⟩
  have hreached := h.reached i hi
  rcases hstage : stage i with _ | p | v <;> rw [hstage] at hreached
  · exact ⟨n, Nat.le_refl n, h.looks_iff.2 ⟨hm, hi, hstage⟩⟩
  · exact hcomputing hreached
  · rcases hreached with ⟨k, hk, hlooks, -⟩ | ⟨hcomputed, -⟩
    · exact ⟨k, Nat.le_of_lt hk, hlooks⟩
    · exact hcomputing hcomputed

/-- A request whose computation has come to an outcome answers that with its next step. -/
theorem At.answer?_of_computing (h : r.At n stage found) (hr : r.Apt) {outcome : Except Fault α}
    (hcomputed : r.Computing n i (.done outcome)) (hm : r.moves[n]? = some (.step i)) :
    (r.crew (n + 1)).answer? i = some outcome := by
  obtain ⟨k, q, hk, hq, hlooks, -⟩ := id hcomputed
  have hreached := h.reached i (List.getElem?_eq_some_iff.1 hq).1
  rw [Crew.answer?, (h.step hr hm hq).programs, hq, Function.update_self]
  rcases hstage : stage i with _ | p | v <;> rw [hstage] at hreached
  · exact absurd hlooks (hreached k hk)
  · obtain rfl := Computing.unique hr hcomputed hreached
    rcases outcome with e | v <;> rfl
  · rcases hreached with ⟨k', -, hlooks', hfound⟩ | ⟨hcomputed', -⟩
    · rw [Computing.miss hr hcomputed hlooks'] at hfound
      cases hfound
    · cases Computing.unique hr hcomputed hcomputed'
      rfl

theorem entry_stands (hr : r.Apt) (hn : n ≤ r.moves.length) :
    (∃ m i text, r.LastWrite n m i text ∧ r.entry n = some text) ∨
      r.Unwritten n ∧ r.entry n = r.start.cache.find? (r.crew n).backend.now r.key := by
  obtain ⟨stage, found, hat, ⟨m, i, text, hlast, rfl⟩ | ⟨hnever, rfl⟩⟩ := exists_at hr hn
  · exact .inl ⟨m, i, text, hlast, hat.entry_eq⟩
  · exact .inr ⟨hnever, hat.entry_eq⟩

/-- A step that is no write leaves the entry as it was. -/
theorem entry_succ (hr : r.Apt) (hm : r.moves[n]? = some (.step i))
    (hnone : ∀ text, ¬r.Writes n i text) : r.entry (n + 1) = r.entry n := by
  obtain ⟨hn, -⟩ := List.getElem?_eq_some_iff.1 hm
  obtain ⟨stage, found, hat, -⟩ := exists_at hr (Nat.le_of_lt hn)
  obtain ⟨stage', found', hat', ⟨j, text, hwrites, -⟩ | ⟨-, rfl⟩⟩ := hat.exists_succ hr hm
  · obtain ⟨p, hsteps, hstores⟩ := hwrites
    have hmove := hm.symm.trans hsteps.1
    cases hmove
    exact absurd ⟨p, hsteps, hstores⟩ (hnone text)
  · rw [hat'.entry_eq, hat.entry_eq, now_crew_step hm]

/-- After a write, what is found is read as a value. -/
theorem Writes.exists_read (hr : r.Apt) {m j : ℕ} {text : String} (h : r.Writes m j text)
    (hlt : m < n) (hn : n ≤ r.moves.length) :
    ∃ v, (r.entry n).bind (Payload.read (α := α)) = some v := by
  obtain ⟨m', j', text', ⟨-, hwrites', -⟩, hentry⟩ | ⟨hnever, -⟩ := entry_stands hr hn
  · obtain ⟨v, -, -, hread⟩ := hwrites'.exists_value hr
    exact ⟨v, by rw [hentry, Option.bind_some, hread]⟩
  · exact absurd h (hnever.not_writes hlt)

/-- Requests that take no turns answer what they computed or what they found, those that fail leave
the key alone, those that come after a write find its value or a later one, and in the end the last
write stands. -/
theorem served (hr : r.Apt) : r.Served where
  looks n i hi hm := by
    obtain ⟨stage, found, hat, -⟩ := exists_at hr (Nat.le_of_lt (List.getElem?_eq_some_iff.1 hm).1)
    exact hat.exists_looks hi hm
  finishes n i outcome hcomputed hm := by
    obtain ⟨stage, found, hat, -⟩ := exists_at hr (Nat.le_of_lt (List.getElem?_eq_some_iff.1 hm).1)
    exact hat.answer?_of_computing hr hcomputed hm
  values i v hi := by
    obtain ⟨stage, found, hat, -⟩ := exists_at hr (Nat.le_refl r.moves.length)
    rcases hat.of_answer? hi with ⟨k, -, w, hw, hlooks, hfound⟩ | ⟨hcomputed, -⟩
    · cases hw
      exact .inr ⟨k, hlooks, hfound⟩
    · exact .inl hcomputed
  faults i e hi := by
    obtain ⟨stage, found, hat, -⟩ := exists_at hr (Nat.le_refl r.moves.length)
    rcases hat.of_answer? hi with ⟨k, -, w, hw, -⟩ | ⟨hcomputed, -⟩
    · cases hw
    · exact hcomputed
  entries n hn := entry_stands hr hn
  changes n i hm hnone := entry_succ hr hm hnone
  writers n i text hwrites := by
    obtain ⟨v, hcomputed, htext, -⟩ := hwrites.exists_value hr
    exact ⟨v, hcomputed, htext⟩
  failures i e he n text hwrites := by
    obtain ⟨v, hcomputed, -, -⟩ := hwrites.exists_value hr
    cases Computing.unique hr he (hcomputed.mono (Nat.le_of_lt hwrites.lt_length))
  hits m j text n i hwrites hlt hlooks := by
    have hn := Nat.le_of_lt hlooks.lt_length
    obtain ⟨v, hfound⟩ := hwrites.exists_read hr hlt hn
    obtain ⟨stage, found, hat, -⟩ := exists_at hr hn
    exact ⟨v, hfound, hat.answer?_succ hr hlooks hfound⟩
  settled hanswered := by
    obtain ⟨m, i, text, ⟨hlt, hwrites, hlast⟩, hentry⟩ | ⟨hnever, hentry⟩ :=
      entry_stands hr (Nat.le_refl r.moves.length)
    · obtain ⟨v, hcomputed, rfl, -⟩ := hwrites.exists_value hr
      exact .inl ⟨m, i, v, ⟨hlt, hwrites, hlast⟩, hcomputed.mono (Nat.le_of_lt hlt), hentry⟩
    · -- every request that has computed a value has also stored it
      refine .inr ⟨fun i v hcomputed => ?_, hentry⟩
      obtain ⟨_, q, -, hq, -⟩ := id hcomputed
      obtain ⟨outcome, hanswer⟩ :=
        Option.isSome_iff_exists.1 (hanswered i (List.getElem?_eq_some_iff.1 hq).1)
      obtain ⟨stage, found, hat, -⟩ := exists_at hr (Nat.le_refl r.moves.length)
      rcases hat.of_answer? hanswer with ⟨k, -, w, -, hlooks, hfound⟩ | ⟨hcomputed', hwritten⟩
      · rw [Computing.miss hr hcomputed hlooks] at hfound
        cases hfound
      · cases Computing.unique hr hcomputed hcomputed'
        obtain ⟨m, hlt, hwrites⟩ := hwritten v rfl
        exact hnever.not_writes hlt hwrites

/-- Three requests miss the key and one comes after the first write. The first of them fails, and
the other two store their values one after the other. -/
def sample : Rush String where
  gateway := ⟨.aside, none, 2000⟩
  key := "k"
  requests := [⟨none, Analysis.compute (.error (.cache "no rows"))⟩,
    ⟨none, Analysis.compute (.ok "a")⟩, ⟨none, Analysis.compute (.ok "b")⟩,
    ⟨none, Analysis.compute (.ok "c")⟩]
  start := .fresh (.prepared [])
  moves := [.step 0, .step 1, .step 2, .step 1, .step 2, .step 0, .step 1, .step 3, .wait 80,
    .step 2]

theorem apt_sample : sample.Apt where
  strategy := rfl
  lookups := rfl
  writes := rfl
  keyed := CacheStore.keyed_empty _
  proper := by
    intro q hq
    simp only [sample, List.mem_cons, List.not_mem_nil, or_false] at hq
    rcases hq with rfl | rfl | rfl | rfl
    · exact ⟨trivial, nofun, nofun⟩
    all_goals exact ⟨trivial, fun v hv => by cases hv; decide +kernel, nofun⟩

theorem served_sample : sample.Apt ∧ sample.finish.answer? 1 = some (.ok "a") ∧
    sample.finish.answer? 2 = some (.ok "b") ∧ sample.finish.answer? 3 = some (.ok "a") ∧
    sample.entry 10 = some (Payload.write "b") ∧ sample.Served :=
  ⟨apt_sample, by decide +kernel, by decide +kernel, by decide +kernel, by decide +kernel,
    served apt_sample⟩

end Rush

end Bourse
