import LintDesk.Proofs.Desk.CurrentPasses

/-! # Served documents

An action owes diagnostics to a document if it is going to lint it or is part of its current pass.
A document is served since some moment if, while linting is on, it is owed something by a pass
begun after that moment, or the last pass was and has published what it found. Generations count
passes, so a moment is given by the last generation before it. Here stands that actions keep
documents served (`ServedWhileOpen.act`).
-/

namespace LintDesk

/-- The snapshot whose diagnostics are shown for a document after an event. -/
def Event.shows (uri : Url) (old : Option Document) : Event → Option Document
  | publish document _ => if document.uri = uri then some document else old
  | clear u => if u = uri then none else old
  | clearAll => none

/-- The snapshot whose diagnostics are shown for a document. -/
def shown (events : List Event) (uri : Url) : Option Document :=
  events.foldl (Event.shows uri) none

/-- The last pass over a document after a mark. -/
def Mark.begins (uri : Url) (old : Option (Document × Nat)) : Mark → Option (Document × Nat)
  | began document generation =>
    if document.uri = uri then some (document, generation) else old
  | _ => old

/-- The last pass over a document, as its snapshot and its generation. -/
def lastBegun (history : List Mark) (uri : Url) : Option (Document × Nat) :=
  history.foldl (Mark.begins uri) none

@[simp] theorem shown_append (events : List Event) (e : Event) (uri : Url) :
    shown (events ++ [e]) uri = e.shows uri (shown events uri) := by
  simp [shown]

@[simp] theorem lastBegun_append (history : List Mark) (m : Mark) (uri : Url) :
    lastBegun (history ++ [m]) uri = m.begins uri (lastBegun history uri) := by
  simp [lastBegun]

theorem mem_of_foldl_begins {uri : Url} {history : List Mark} {old : Option (Document × Nat)}
    {document : Document} {generation : Nat}
    (h : history.foldl (Mark.begins uri) old = some (document, generation)) :
    old = some (document, generation) ∨
    .began document generation ∈ history ∧ document.uri = uri := by
  induction history generalizing old with
  | nil => exact .inl h
  | cons m history ih =>
      rcases ih h with hm | ⟨hmem, huri⟩
      · cases m with
        | began v g =>
            simp only [Mark.begins] at hm
            split at hm
            · next huri =>
                cases hm
                exact .inr ⟨List.mem_cons_self, huri⟩
            · exact .inl hm
        | _ => exact .inl hm
      · exact .inr ⟨List.mem_cons_of_mem m hmem, huri⟩

theorem mem_of_lastBegun {uri : Url} {history : List Mark} {document : Document} {generation : Nat}
    (h : lastBegun history uri = some (document, generation)) :
    .began document generation ∈ history ∧ document.uri = uri :=
  (mem_of_foldl_begins h).resolve_left fun hnone => by cases hnone

theorem foldl_begins {since : List Mark} {uri : Url} (h : ∀ m ∈ since, m.outdates uri = false)
    (old : Option (Document × Nat)) : since.foldl (Mark.begins uri) old = old := by
  induction since with
  | nil => rfl
  | cons m since ih =>
      have hm : m.begins uri old = old := by
        cases m with
        | began document generation =>
            have hne := h _ List.mem_cons_self
            simp only [Mark.outdates, decide_eq_false_iff_not] at hne
            simp [Mark.begins, hne]
        | _ => rfl
      rw [List.foldl_cons, hm]
      exact ih fun n hn => h n (List.mem_cons_of_mem m hn)

/-- A current pass is the last one over its document. -/
theorem IsCurrent.lastBegun {history : List Mark} {document : Document} {generation : Nat}
    (h : IsCurrent history document generation) :
    lastBegun history document.uri = some (document, generation) := by
  obtain ⟨before, since, rfl, -, hsince⟩ := h
  rw [LintDesk.lastBegun, List.foldl_append, List.foldl_cons, foldl_begins hsince]
  simp [Mark.begins]

namespace Desk

/-- An action is part of the current pass over a document, and this pass is begun after `past`. -/
def Continues (d : Desk) (past : Nat) (uri : Url) (a : Action) : Prop :=
  ∃ document generation, a.pass? = some (document, generation) ∧ document.uri = uri ∧
    d.generation? uri = some generation ∧ past < generation

/-- An action is going to lead to diagnostics of a document: it is about to lint it, or part of its
current pass. -/
def Owed (d : Desk) (past : Nat) (uri : Url) (a : Action) : Prop :=
  (∃ document, (a = .lint document ∨ a = .pass document ∨ a.delayed? = some document) ∧
    document.uri = uri) ∨
  a = .lintVisible ∨ d.Continues past uri a

/-- Something is under way for a document. -/
def Owes (d : Desk) (past : Nat) (uri : Url) : Prop :=
  ∃ task a, d.Holds task a ∧ d.Owed past uri a

/-- The last pass over a document is begun after `past` and has published what it found, if it had
to. -/
def Settled (d : Desk) (past : Nat) (uri : Url) : Prop :=
  ∃ document generation, lastBegun d.history uri = some (document, generation) ∧
    past < generation ∧
    (document.isLintable (d.settingsFor uri).languages = true →
      shown d.events uri = some document)

/-- Something is under way for a document, or it is settled. -/
def IsServed (d : Desk) (past : Nat) (uri : Url) : Prop :=
  d.Owes past uri ∨ d.Settled past uri

/-! ### What concerns other documents -/

/-- A change that leaves alone what is under way for a document. -/
structure SameWork (uri : Url) (d d' : Desk) : Prop where
  enabled : d'.enabled = d.enabled
  generation : d'.generation? uri = d.generation? uri
  agenda : ∀ {past task a}, d.Holds task a → d.Owed past uri a → d'.agenda? task = d.agenda? task

/-- A change that does not concern a document. -/
structure SameFor (uri : Url) (d d' : Desk) : Prop extends SameWork uri d d' where
  settings : d'.settings = d.settings
  begun : lastBegun d'.history uri = lastBegun d.history uri
  shown : shown d'.events uri = shown d.events uri

section SameFor

variable {past : Nat} {uri : Url} {d d' d'' : Desk}

theorem SameWork.owed (h : SameWork uri d d') {a : Action} (ha : d.Owed past uri a) :
    d'.Owed past uri a := by
  unfold Owed Continues at ha ⊢
  rwa [h.generation]

theorem SameWork.holds (h : SameWork uri d d') {task : Nat} {a : Action} (hh : d.Holds task a)
    (ha : d.Owed past uri a) : d'.Holds task a := by
  obtain ⟨agenda, hagenda, hmem⟩ := id hh
  exact ⟨agenda, (h.agenda hh ha).trans hagenda, hmem⟩

theorem SameWork.owes (h : SameWork uri d d') (ho : d.Owes past uri) : d'.Owes past uri := by
  obtain ⟨task, a, hh, ha⟩ := ho
  exact ⟨task, a, h.holds hh ha, h.owed ha⟩

theorem SameWork.trans (h : SameWork uri d d') (h' : SameWork uri d' d'') : SameWork uri d d'' where
  enabled := h'.enabled.trans h.enabled
  generation := h'.generation.trans h.generation
  agenda hh ha := (h'.agenda (h.holds hh ha) (h.owed ha)).trans (h.agenda hh ha)

theorem SameFor.settled (h : SameFor uri d d') (hs : d.Settled past uri) :
    d'.Settled past uri := by
  unfold Settled at hs ⊢
  rwa [h.begun, h.shown, settingsFor, h.settings]

theorem SameFor.trans (h : SameFor uri d d') (h' : SameFor uri d' d'') : SameFor uri d d'' where
  toSameWork := h.toSameWork.trans h'.toSameWork
  settings := h'.settings.trans h.settings
  begun := h'.begun.trans h.begun
  shown := h'.shown.trans h.shown

theorem SameFor.of_passState (hb : d'.passState = d.passState) : SameFor uri d d' where
  enabled := congrArg PassState.enabled hb
  generation := generation?_congr hb uri
  agenda _ _ := agenda?_congr hb _
  settings := congrArg PassState.settings hb
  begun := congrArg (fun b : PassState => lastBegun b.history uri) hb
  shown := congrArg (fun b : PassState => LintDesk.shown b.events uri) hb

theorem pass?_of_delayed? {a : Action} {document : Document} (h : a.delayed? = some document) :
    a.pass? = none := by
  cases a <;> first | rfl | cases h

/-- The pending task of a document owes nothing to another. -/
theorem TimersMatch.pending?_ne_of_owed (h : d.TimersMatch) {task : Nat} {a : Action}
    (hh : d.Holds task a) (ha : d.Owed past uri a) {other : Url} (hne : other ≠ uri) :
    d.pending? other ≠ some task := by
  intro hpending
  obtain ⟨v, hv, huri⟩ := Option.map_eq_some_iff.mp ((h.timer hh other).mp hpending)
  rcases ha with ⟨document, ha, hdocument⟩ | rfl | ⟨document, generation, hp, -⟩
  · rcases ha with rfl | rfl | ha
    · cases hv
    · cases hv
    · rw [hv] at ha
      obtain rfl := Option.some.inj ha
      exact hne (huri.symm.trans hdocument)
  · cases hv
  · rw [pass?_of_delayed? hv] at hp
    cases hp

theorem SameFor.spawn (d : Desk) (agenda : List Action) : SameFor uri d (d.spawn agenda).2 := by
  refine ⟨⟨rfl, rfl, fun hh _ => ?_⟩, rfl, rfl, rfl⟩
  obtain ⟨found, hfound, -⟩ := hh
  rw [agenda?_spawn, hfound]
  rfl

theorem SameFor.dropPending (h : d.TimersMatch) {dropped : Url} (hne : dropped ≠ uri) :
    SameFor uri d (d.dropPending dropped) := by
  obtain ⟨schedules, tasks, ready, timers, heq⟩ := dropPending_eq d dropped
  refine ⟨⟨by rw [heq], generation?_dropPending d dropped uri, fun hh ha => ?_⟩, by rw [heq],
    by rw [heq], by rw [heq]⟩
  rw [agenda?_dropPending, if_neg (h.pending?_ne_of_owed hh ha hne)]

theorem SameFor.openPass {document : Document} (hne : document.uri ≠ uri) :
    SameFor uri d (d.openPass document).2 where
  enabled := rfl
  generation := by rw [generation?_openPass, if_neg (Ne.symm hne)]
  agenda _ _ := rfl
  settings := rfl
  begun := by simp [history_openPass, Mark.begins, hne]
  shown := rfl

theorem SameFor.lintSoon (h : d.TimersMatch) {document : Document} (hne : document.uri ≠ uri) :
    SameFor uri d (d.lintSoon document) := by
  obtain ⟨tasks, ready, timers, heq⟩ := lintSoon_eq d document
  refine ⟨⟨by rw [heq]; rfl, ?_, fun hh ha => ?_⟩, by rw [heq]; rfl, by rw [heq]; rfl,
    by rw [heq]; rfl⟩
  · unfold generation?
    rw [schedule?_lintSoon, if_neg (Ne.symm hne)]
  · obtain ⟨agenda, hagenda, -⟩ := id hh
    rw [agenda?_lintSoon, if_neg (h.pending?_ne_of_owed hh ha hne), hagenda]
    rfl

theorem SameFor.closeDocument (h : d.TimersMatch) {closed : Url} (hne : closed ≠ uri) :
    SameFor uri d (d.closeDocument closed) := by
  obtain ⟨tasks, ready, timers, heq⟩ := closeDocument_eq d closed
  refine ⟨⟨by rw [heq], ?_, fun hh ha => ?_⟩, by rw [heq], by rw [heq]; simp [Mark.begins],
    by rw [heq]; simp [Event.shows, hne]⟩
  · unfold generation?
    rw [schedule?_closeDocument, if_neg (Ne.symm hne)]
  · rw [agenda?_closeDocument, if_neg (h.pending?_ne_of_owed hh ha hne)]

end SameFor

/-! ### Passes -/

theorem StartsHelpers.sameFor {d d' : Desk} (h : StartsHelpers d d') (uri : Url) :
    SameFor uri d d' := by
  induction h with
  | same hb => exact .of_passState hb
  | spawn _ a _ hb ih => exact (ih.trans (.spawn _ [a])).trans (.of_passState hb)

/-- A current pass that publishes has nothing left to do. -/
theorem publish_settled {past : Nat} {d : Desk} (h : d.Sound) {c : Collection} {generation : Nat}
    (hbegun : .began c.document generation ∈ d.history) (hon : d.enabled = true)
    (hcarried : d.generation? c.document.uri = some generation) (hpast : past < generation)
    (violations : List Violation) :
    (d.publish c generation violations).Settled past c.document.uri := by
  obtain ⟨-, hcurrent⟩ := h.passesOrdered.current hcarried hbegun
  unfold Desk.publish
  dsimp only
  rw [if_pos (by rw [hon, carries_iff.mpr hcarried]; rfl)]
  refine ⟨c.document, generation, ?_, hpast, fun _ => ?_⟩
  · change lastBegun (d.history ++ [_]) _ = _
    rw [lastBegun_append]
    exact hcurrent.lastBegun
  · change shown (d.events ++ [_]) _ = _
    simp [Event.shows]

theorem publish_sameWork (uri : Url) (d : Desk) (c : Collection) (generation : Nat)
    (violations : List Violation) : SameWork uri d (d.publish c generation violations) := by
  unfold Desk.publish
  dsimp only
  split
  · exact ⟨rfl, rfl, fun _ _ => rfl⟩
  · exact ⟨rfl, rfl, fun _ _ => rfl⟩

/-- Publishing concerns no document but that of the pass, and only if the pass is current. -/
theorem publish_sameFor {uri : Url} {d : Desk} {c : Collection} {generation : Nat}
    (h : c.document.uri = uri → d.enabled = true → d.generation? uri ≠ some generation)
    (violations : List Violation) : SameFor uri d (d.publish c generation violations) := by
  unfold Desk.publish
  dsimp only
  split
  · next hguard =>
      obtain ⟨hon, hcarries⟩ := Bool.and_eq_true_iff.mp hguard
      have hne : c.document.uri ≠ uri := by
        rintro rfl
        exact h rfl hon (carries_iff.mp hcarries)
      refine ⟨⟨rfl, rfl, fun _ _ => rfl⟩, rfl, lastBegun_append d.history _ uri, ?_⟩
      change shown (d.events ++ [_]) uri = _
      simp [Event.shows, hne]
  · exact .of_passState rfl

/-- After an action there is something to do next for a document, or it is settled. -/
def ServedNext (past : Nat) (uri : Url) (e : Effect) : Prop :=
  (∃ b ∈ e.next, e.desk.Owed past uri b) ∨ e.desk.Settled past uri

theorem CollectSpec.servedNext {past : Nat} {o : Option Collection} {d : Desk} {e : Effect}
    {document : Document} {generation : Nat} (hs : CollectSpec o d e) (h : d.Sound)
    (hp : o.bind Collection.pass? = some (document, generation))
    (hbegun : .began document generation ∈ d.history) (hon : d.enabled = true)
    (hcarried : d.generation? document.uri = some generation) (hpast : past < generation) :
    ServedNext past document.uri e := by
  cases hs with
  | goesOn hd hn ha =>
      refine .inl ⟨_, by rw [hn]; exact List.mem_singleton_self _, .inr (.inr ?_)⟩
      exact ⟨document, generation, (pass?_of_client? ha).trans hp, rfl,
        (hd.sameFor _).generation.trans hcarried, hpast⟩
  | ends ho _ _ =>
      rw [ho] at hp
      cases hp
  | @publishes c _ _ _ _ violations hc hd _ he =>
      obtain ⟨rfl, rfl⟩ := Prod.mk.inj (Option.some.inj (hc.symm.trans hp))
      have hsame := hd.sameFor c.document.uri
      have hsound := h.passChanges (StartsHelpers.passChanges (S := fun _ => False) hd)
      refine .inr ((SameFor.of_passState he).settled (publish_settled hsound (hd.history ▸ hbegun)
        (hsame.enabled.trans hon) (hsame.generation.trans hcarried) hpast violations))

theorem CollectSpec.sameWork {o : Option Collection} {d : Desk} {e : Effect} (h : CollectSpec o d e)
    (uri : Url) : SameWork uri d e.desk := by
  cases h with
  | goesOn hd _ _ => exact (hd.sameFor uri).toSameWork
  | ends _ hd _ => exact (hd.sameFor uri).toSameWork
  | publishes violations _ hd _ he =>
      exact ((hd.sameFor uri).toSameWork.trans (publish_sameWork uri _ _ _ violations)).trans
        (SameFor.of_passState he).toSameWork

/-- Going on with a pass concerns no document but its own, and only if the pass is current. -/
theorem CollectSpec.sameFor {uri : Url} {o : Option Collection} {d : Desk} {e : Effect}
    (hs : CollectSpec o d e)
    (h : ∀ document generation, o.bind Collection.pass? = some (document, generation) →
      document.uri = uri → d.enabled = true → d.generation? uri ≠ some generation) :
    SameFor uri d e.desk := by
  cases hs with
  | goesOn hd _ _ => exact hd.sameFor uri
  | ends _ hd _ => exact hd.sameFor uri
  | publishes violations hc hd _ he =>
      have hsame := hd.sameFor uri
      refine (hsame.trans (publish_sameFor (fun huri hon => ?_) violations)).trans
        (.of_passState he)
      rw [hsame.generation]
      exact h _ _ hc huri (hsame.enabled.symm.trans hon)

theorem Begun.servedNext {past : Nat} {d : Desk} {document : Document} {e : Effect}
    (hb : Begun d document e) (h : d.Sound) (hpast : past ≤ d.generation) (hon : d.enabled = true) :
    ServedNext past document.uri e := by
  have hsound : (d.openPass document).2.Sound :=
    h.passChanges (.single (.opens (S := fun _ => True) document trivial))
  have hcarried : (d.openPass document).2.generation? document.uri = some (d.generation + 1) := by
    rw [generation?_openPass, if_pos rfl]
  cases hb with
  | stops hoff hd _ =>
      refine .inr ((SameFor.of_passState hd).settled
        ⟨document, d.generation + 1, ?_, Nat.lt_succ_of_le hpast, fun hlintable => ?_⟩)
      · simp [history_openPass, Mark.begins]
      · change document.isLintable (d.settingsFor document.uri).languages = true at hlintable
        rw [hoff hon] at hlintable
        cases hlintable
  | collects hc hs =>
      exact hs.servedNext hsound hc (began_mem_openPass hc hc) hon hcarried
        (Nat.lt_succ_of_le hpast)

theorem Begun.sameFor {uri : Url} {d : Desk} {document : Document} {e : Effect}
    (hb : Begun d document e) (hne : document.uri ≠ uri) : SameFor uri d e.desk := by
  have hopen : SameFor uri d (d.openPass document).2 := .openPass hne
  cases hb with
  | stops _ hd _ => exact hopen.trans (.of_passState hd)
  | collects hc hs =>
      refine hopen.trans (hs.sameFor fun document' generation hp huri => ?_)
      obtain ⟨rfl, -⟩ := Prod.mk.inj (Option.some.inj (hc.symm.trans hp))
      exact absurd huri hne

/-! ### Agendas -/

theorem StartsHelpers.agenda? {d d' : Desk} (h : StartsHelpers d d') {task : Nat}
    (ht : task < d.nextTask) : d'.agenda? task = d.agenda? task := by
  induction h with
  | same hb => exact agenda?_congr hb task
  | spawn hprev a _ hb ih =>
      have hlt := Nat.lt_of_lt_of_le ht
        (StartsHelpers.passChanges (S := fun _ => False) hprev).extends.nextTask
      rw [agenda?_congr hb, agenda?_spawn, if_neg (Nat.ne_of_lt hlt), Option.or_none, ih]

theorem CollectSpec.agenda? {o : Option Collection} {d : Desk} {e : Effect} (h : CollectSpec o d e)
    {task : Nat} (ht : task < d.nextTask) : e.desk.agenda? task = d.agenda? task := by
  cases h with
  | goesOn hd _ _ => exact hd.agenda? ht
  | ends _ hd _ => exact hd.agenda? ht
  | publishes violations _ hd _ he =>
      rw [agenda?_congr he, ← hd.agenda? ht]
      unfold Desk.publish
      dsimp only
      split <;> rfl

theorem Begun.agenda? {d : Desk} {document : Document} {e : Effect} (h : Begun d document e)
    {task : Nat} (ht : task < d.nextTask) : e.desk.agenda? task = d.agenda? task := by
  cases h with
  | stops _ hd _ => exact agenda?_congr hd task
  | collects _ hs => exact hs.agenda? ht

theorem ServedNext.of_lintVisible {past : Nat} {uri : Url} {e : Effect}
    (h : e.next = [.lintVisible]) : ServedNext past uri e :=
  .inl ⟨.lintVisible, by rw [h]; exact List.mem_singleton_self _, .inr (.inl rfl)⟩

/-- What is to be done next stands on the agenda. -/
theorem ServedNext.served {past : Nat} {uri : Url} {e : Effect} (h : ServedNext past uri e)
    {task : Nat} {old rest : List Action} (hold : e.desk.agenda? task = some old) :
    (e.desk.setAgenda task (e.next ++ rest)).IsServed past uri := by
  rcases h with ⟨b, hb, howed⟩ | hsettled
  · refine .inl ⟨task, b, ⟨e.next ++ rest, ?_, List.mem_append_left _ hb⟩, howed⟩
    rw [agenda?_setAgenda, if_pos rfl, hold]
    rfl
  · exact .inr hsettled

/-- A document is still served after an action that leaves alone what is under way for it, if what
the action itself owed is owed by what it leaves to its task. -/
theorem SameWork.served {past : Nat} {uri : Url} {d : Desk} {e : Effect} (h : SameWork uri d e.desk)
    (hs : d.Settled past uri → e.desk.Settled past uri) {task : Nat} {a : Action}
    {rest : List Action} (hagenda : d.agenda? task = some (a :: rest)) (hd : d.IsServed past uri)
    (ha : d.Owed past uri a → ServedNext past uri e) :
    (e.desk.setAgenda task (e.next ++ rest)).IsServed past uri := by
  rcases hd with ⟨t, b, hh, howed⟩ | hsettled
  · obtain ⟨agenda, hsome, hmem⟩ := id hh
    have hkept := h.agenda hh howed
    by_cases ht : t = task
    · subst ht
      rw [hagenda] at hsome
      obtain rfl := Option.some.inj hsome
      rcases List.mem_cons.mp hmem with rfl | hmem
      · exact (ha howed).served (hkept.trans hagenda)
      · refine .inl ⟨t, b, ⟨e.next ++ rest, ?_, List.mem_append_right _ hmem⟩, h.owed howed⟩
        rw [agenda?_setAgenda, if_pos rfl, hkept, hagenda]
        rfl
    · refine .inl ⟨t, b, ⟨agenda, ?_, hmem⟩, h.owed howed⟩
      rw [agenda?_setAgenda, if_neg ht, hkept, hsome]
  · exact .inr (hs hsettled)

theorem SameFor.served {past : Nat} {uri : Url} {d : Desk} {e : Effect} (h : SameFor uri d e.desk)
    {task : Nat} {a : Action} {rest : List Action} (hagenda : d.agenda? task = some (a :: rest))
    (hd : d.IsServed past uri) (ha : d.Owed past uri a → ServedNext past uri e) :
    (e.desk.setAgenda task (e.next ++ rest)).IsServed past uri :=
  h.toSameWork.served h.settled hagenda hd ha

/-! ### Actions -/

theorem Begun.enabled {d : Desk} {document : Document} {e : Effect} (h : Begun d document e) :
    e.desk.enabled = d.enabled := by
  cases h with
  | stops _ hd _ => exact congrArg PassState.enabled hd
  | collects _ hs => exact (hs.sameWork default).enabled

section Owed

variable {past : Nat} {d : Desk} {uri : Url} {a : Action} {document : Document}

theorem continues_of_collects (ha : a.collects = true) (h : d.Owed past uri a) :
    d.Continues past uri a := by
  rcases h with ⟨document, rfl | rfl | h, -⟩ | rfl | h
  · cases ha
  · cases ha
  · rw [delayed?_of_collects ha] at h
    cases h
  · cases ha
  · exact h

theorem owed_of_snapshot? (ha : a.snapshot? = some document) (h : d.Owed past uri a) :
    document.uri = uri := by
  rcases h with ⟨v, rfl | rfl | h, huri⟩ | rfl | ⟨v, generation, hp, -⟩
  · exact Option.some.inj ha ▸ huri
  · exact Option.some.inj ha ▸ huri
  · rw [delayed?_of_snapshot? ha] at h
    cases h
  · cases ha
  · cases a with
    | lint v => cases hp
    | pass v => cases hp
    | save v => cases hp
    | _ => cases ha

theorem owed_of_delayed? (ha : a.delayed? = some document) (h : d.Owed past uri a) :
    document.uri = uri := by
  rcases h with ⟨v, rfl | rfl | h, huri⟩ | rfl | ⟨v, generation, hp, -⟩
  · cases ha
  · cases ha
  · rw [ha] at h
    exact Option.some.inj h ▸ huri
  · cases ha
  · rw [pass?_of_delayed? ha] at hp
    cases hp

theorem not_owed_of_isAside (ha : a.isAside = true) : ¬d.Owed past uri a := by
  obtain ⟨⟨hdelayed, hpass⟩, hsnapshot⟩ := plain_of_isAside ha
  rintro (⟨v, rfl | rfl | h, -⟩ | rfl | ⟨v, generation, hp, -⟩)
  · cases hsnapshot
  · cases hsnapshot
  · rw [hdelayed] at h
    cases h
  · cases ha
  · rw [hpass] at hp
    cases hp

theorem not_owed_of_canRefresh (ha : a.canRefresh = true) : ¬d.Owed past uri a := by
  unfold Action.canRefresh at ha
  rintro (⟨v, rfl | rfl | h, -⟩ | rfl | ⟨v, generation, hp, -⟩)
  · cases ha
  · cases ha
  · split at ha <;> first | cases h | cases ha
  · cases ha
  · split at ha <;> first | cases hp | cases ha

end Owed

/-- While linting is on, something is under way for a document that is open and was never closed, or
it is settled. -/
def ServedWhileOpen (d : Desk) (past : Nat) (uri : Url) : Prop :=
  d.enabled = true → .closed uri ∉ d.history → (∃ v ∈ d.visible, v.uri = uri) → d.IsServed past uri

/-- A pass is begun, on a desk that differs from the one before for its document only. -/
theorem Begun.served {past : Nat} {uri : Url} {d d₁ : Desk} {document : Document} {e : Effect}
    (hb : Begun d₁ document e) (h₁ : d₁.Sound) (hpast : past ≤ d₁.generation)
    (hsame : document.uri ≠ uri → SameFor uri d d₁) {task : Nat} {a : Action} {rest : List Action}
    (hagenda : d.agenda? task = some (a :: rest)) (hkept : d₁.agenda? task = some (a :: rest))
    (ha : a.snapshot? = some document) (hon : e.desk.enabled = true)
    (hd : d.enabled = true → d.IsServed past uri) :
    (e.desk.setAgenda task (e.next ++ rest)).IsServed past uri := by
  by_cases huri : document.uri = uri
  · subst huri
    have hself := (hb.agenda? (h₁.timersMatch.task_lt hkept)).trans hkept
    exact (hb.servedNext h₁ hpast (hb.enabled ▸ hon)).served hself
  · have hother := (hsame huri).trans (hb.sameFor huri)
    exact hother.served hagenda (hd (hother.enabled ▸ hon)) fun howed =>
      absurd (owed_of_snapshot? ha howed) huri

/-- Going on with a pass leaves a settled document settled, unless the pass is the current one. -/
theorem CollectSpec.settled {past : Nat} {uri : Url} {o : Option Collection} {d : Desk} {e : Effect}
    {a : Action} (hs : CollectSpec o d e) (h : d.Sound) (hbegun : a.BegunIn d.history)
    (ho : a.pass? = o.bind Collection.pass?)
    (hcurrent : ¬(d.enabled = true ∧ d.Continues past uri a)) (hd : d.Settled past uri) :
    e.desk.Settled past uri := by
  refine (hs.sameFor fun document generation hp huri hon hcarried => hcurrent ⟨hon, ?_⟩).settled hd
  -- The current pass is the last one, so it is as young as the settled one.
  obtain ⟨-, hlast⟩ := h.passesOrdered.current (huri ▸ hcarried) (hbegun _ _ (ho.trans hp))
  obtain ⟨snapshot, last, hsnapshot, hpast, -⟩ := hd
  rw [← huri, hlast.lastBegun] at hsnapshot
  cases hsnapshot
  exact ⟨document, generation, ho.trans hp, huri, hcarried, hpast⟩

/-! ### One kind of action after the other

The task `task` does its action `a`, with the effect `e`, and linting is on afterwards. A document
that was served is still served.
-/

section Cases

variable {past : Nat} {uri : Url} {d : Desk} {task : Nat} {a : Action} {rest : List Action}
  {e : Effect}

theorem CollectSpec.served {o : Option Collection} (hs : CollectSpec o d e) (h : d.Sound)
    (hagenda : d.agenda? task = some (a :: rest)) (hcollects : a.collects = true)
    (ho : a.pass? = o.bind Collection.pass?) (hon : e.desk.enabled = true)
    (hd : d.enabled = true → d.IsServed past uri) :
    (e.desk.setAgenda task (e.next ++ rest)).IsServed past uri := by
  have hbegun : a.BegunIn d.history := h.timersMatch.begun ⟨_, hagenda, List.mem_cons_self⟩
  by_cases hcurrent : d.enabled = true ∧ d.Continues past uri a
  · obtain ⟨hon, document, generation, hp, rfl, hcarried, hyoung⟩ := hcurrent
    exact (hs.servedNext h (ho ▸ hp) (hbegun _ _ hp) hon hcarried hyoung).served
      ((hs.agenda? (h.timersMatch.task_lt hagenda)).trans hagenda)
  · -- Another pass, or an older one of this document, ends or goes on.
    have hwork := hs.sameWork uri
    have hon' := hwork.enabled ▸ hon
    exact hwork.served (hs.settled h hbegun ho hcurrent) hagenda (hd hon') fun howed =>
      absurd ⟨hon', continues_of_collects hcollects howed⟩ hcurrent

/-- The delayed lint of a document is dropped before the pass is begun. -/
theorem Begun.served_of_drops {d₁ : Desk} {document : Document}
    (hb : Begun (d₁.dropPending document.uri) document e) (h : d.Sound)
    (hpast : past ≤ d.generation) (h₁ : d₁.passState = d.passState)
    (hagenda : d.agenda? task = some (a :: rest)) (ha : a.snapshot? = some document)
    (hon : e.desk.enabled = true) (hd : d.enabled = true → d.IsServed past uri) :
    (e.desk.setAgenda task (e.next ++ rest)).IsServed past uri := by
  have hsound₁ := h.of_passState h₁
  have hagenda₁ := (agenda?_congr h₁ task).trans hagenda
  have hne := hsound₁.timersMatch.pending?_ne ⟨_, hagenda₁, List.mem_cons_self⟩
    (delayed?_of_snapshot? ha) document.uri
  have hdrops : PassChanges (fun _ => True) d (d₁.dropPending document.uri) :=
    (PassChanges.of_passState h₁).trans (.single (.drops _))
  refine hb.served (h.passChanges hdrops) (Nat.le_trans hpast hdrops.extends.generation)
    (fun huri => (SameFor.of_passState h₁).trans (.dropPending hsound₁.timersMatch huri)) hagenda ?_
    ha hon hd
  rw [agenda?_dropPending, if_neg hne, hagenda₁]

theorem served_of_holds {document : Document} (hb : e.desk.passState = d.passState)
    (hn : e.next = [.fire document]) (hagenda : d.agenda? task = some (.holdBack document :: rest))
    (hon : e.desk.enabled = true) (hd : d.enabled = true → d.IsServed past uri) :
    (e.desk.setAgenda task (e.next ++ rest)).IsServed past uri := by
  have hsame : SameFor uri d e.desk := .of_passState hb
  refine hsame.served hagenda (hd (hsame.enabled ▸ hon)) fun howed => .inl ?_
  exact ⟨_, by rw [hn]; exact List.mem_singleton_self _,
    .inl ⟨_, .inr (.inr rfl), owed_of_delayed? rfl howed⟩⟩

/-- The pass is left to a task of its own. -/
theorem served_of_fires {document : Document} (h : d.Sound)
    (hb : e.desk.passState = (d.spawn [.pass document]).2.passState)
    (hagenda : d.agenda? task = some (.fire document :: rest)) (hon : e.desk.enabled = true)
    (hd : d.enabled = true → d.IsServed past uri) :
    (e.desk.setAgenda task (e.next ++ rest)).IsServed past uri := by
  have hsame : SameFor uri d e.desk := (SameFor.spawn d _).trans (.of_passState hb)
  by_cases huri : document.uri = uri
  · have hlt := h.timersMatch.task_lt hagenda
    obtain ⟨agenda, hsome, hmem⟩ := holds_start h.timersMatch (.pass document)
    refine .inl ⟨d.nextTask, .pass document, ⟨agenda, ?_, hmem⟩,
      .inl ⟨document, .inr (.inl rfl), huri⟩⟩
    rw [agenda?_setAgenda, if_neg (Nat.ne_of_gt hlt), agenda?_congr hb]
    exact hsome
  · exact hsame.served hagenda (hd (hsame.enabled ▸ hon)) fun howed =>
      absurd (owed_of_delayed? rfl howed) huri

theorem served_of_shows (hb : e.desk.passState = d.passState) (hn : e.next = d.visible.map .lint)
    (hagenda : d.agenda? task = some (a :: rest)) (hvisible : ∃ v ∈ d.visible, v.uri = uri) :
    (e.desk.setAgenda task (e.next ++ rest)).IsServed past uri := by
  obtain ⟨v, hv, huri⟩ := hvisible
  have hnext : ServedNext past uri e :=
    .inl ⟨.lint v, by rw [hn]; exact List.mem_map_of_mem hv, .inl ⟨v, .inl rfl, huri⟩⟩
  exact hnext.served ((agenda?_congr hb task).trans hagenda)

theorem enabled_of_disables {d₁ : Desk}
    (hb : e.desk.passState =
      ((({ d₁ with enabled := false }.note (.switched false)).outdateAll true).tell
        .clearAll).passState) : e.desk.enabled = false := by
  obtain ⟨tasks, ready, timers, heq⟩ :=
    outdateAll_eq ({ d₁ with enabled := false }.note (.switched false)) true
  rw [show e.desk.enabled = _ from congrArg PassState.enabled hb, heq]
  rfl

theorem served_of_closes {closed : Url} (h : d.Sound)
    (hb : e.desk.passState = (d.closeDocument closed).passState)
    (hagenda : d.agenda? task = some (.close closed :: rest)) (hopen : .closed uri ∉ e.desk.history)
    (hon : e.desk.enabled = true) (hd : d.enabled = true → d.IsServed past uri) :
    (e.desk.setAgenda task (e.next ++ rest)).IsServed past uri := by
  have hne : closed ≠ uri := by
    rintro rfl
    obtain ⟨tasks, ready, timers, heq⟩ := closeDocument_eq d closed
    apply hopen
    rw [show e.desk.history = _ from congrArg PassState.history hb, heq]
    exact List.mem_append_right _ (List.mem_singleton_self _)
  have hsame : SameFor uri d e.desk :=
    (SameFor.closeDocument h.timersMatch hne).trans (.of_passState hb)
  refine hsame.served hagenda (hd (hsame.enabled ▸ hon)) fun howed => ?_
  rcases howed with ⟨v, h | h | h, -⟩ | h | ⟨v, generation, h, -⟩ <;> cases h

theorem served_of_idles
    (hidle : a.isAside = true ∨ a.canRefresh = true ∨ ∃ document, a = .save document)
    (hb : e.desk.passState = d.passState) (hagenda : d.agenda? task = some (a :: rest))
    (hon : e.desk.enabled = true) (hd : d.enabled = true → d.IsServed past uri) :
    (e.desk.setAgenda task (e.next ++ rest)).IsServed past uri := by
  have hsame : SameFor uri d e.desk := .of_passState hb
  refine hsame.served hagenda (hd (hsame.enabled ▸ hon)) fun howed => ?_
  rcases hidle with hidle | hidle | ⟨v, rfl⟩
  · exact absurd howed (not_owed_of_isAside hidle)
  · exact absurd howed (not_owed_of_canRefresh hidle)
  · rcases howed with ⟨v, h | h | h, -⟩ | h | ⟨v, generation, h, -⟩ <;> cases h

end Cases

/-- Actions keep documents served. -/
theorem ServedWhileOpen.act {past : Nat} {uri : Url} {d : Desk} (hd : d.ServedWhileOpen past uri)
    (h : d.Sound) (hpast : past ≤ d.generation) {task : Nat} {a : Action} {rest : List Action}
    {e : Effect} (hagenda : d.agenda? task = some (a :: rest)) (hspec : ActSpec d a e) :
    (e.desk.setAgenda task (e.next ++ rest)).ServedWhileOpen past uri := by
  intro hon hopen hvisible
  have hpassChanges := hspec.passChanges (h.timersMatch.begun ⟨_, hagenda, List.mem_cons_self⟩)
  replace hvisible : ∃ v ∈ d.visible, v.uri = uri := hpassChanges.visible.1 ▸ hvisible
  replace hopen : .closed uri ∉ e.desk.history := hopen
  replace hon : e.desk.enabled = true := hon
  have hat : d.enabled = true → d.IsServed past uri := fun hon =>
    hd hon (fun hm => hopen (hpassChanges.extends.history.subset hm)) hvisible
  cases hspec with
  | collects hcollects ho hs => exact hs.served h hagenda hcollects ho hon hat
  | @begins _ _ d₁ _ hsnapshot h₁ hb =>
      have hgeneration : d₁.generation = d.generation := congrArg PassState.generation h₁
      exact hb.served (h.of_passState h₁) (hgeneration ▸ hpast) (fun _ => .of_passState h₁) hagenda
        ((agenda?_congr h₁ task).trans hagenda) hsnapshot hon hat
  | replaces hsnapshot h₁ hb => exact hb.served_of_drops h hpast h₁ hagenda hsnapshot hon hat
  | holds hb hn => exact served_of_holds hb hn hagenda hon hat
  | fires hb _ => exact served_of_fires h hb hagenda hon hat
  | shows hb hn => exact served_of_shows hb hn hagenda hvisible
  | refreshes _ h₁ hb hn =>
      exact (ServedNext.of_lintVisible hn).served
        ((agenda?_congr hb task).trans ((agenda?_congr h₁ task).trans hagenda))
  | enables _ h₁ hb hn =>
      exact (ServedNext.of_lintVisible hn).served
        ((agenda?_congr hb task).trans ((agenda?_congr h₁ task).trans hagenda))
  | disables _ _ hb _ =>
      rw [enabled_of_disables hb] at hon
      cases hon
  | closes hb _ => exact served_of_closes h hb hagenda hopen hon hat
  | idles hidle hb _ => exact served_of_idles hidle hb hagenda hon hat

end Desk

end LintDesk
