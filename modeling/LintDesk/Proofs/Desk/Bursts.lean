import LintDesk.Proofs.Desk.Delays

/-! # One timer for a document

A document has at most one task that delays its next lint, and the schedule knows that task. So in a
burst of requests, each of which comes before the timer of the one before it can go off, only the
last timer does, and one pass is started for all of them. Linting a document now, closing it and
turning linting off leave no timer behind.
-/

namespace LintDesk

namespace Action

/-- The document whose timer goes off with an action. -/
def fired? : Action → Option Document
  | .fire document => some document
  | _ => none

/-- The document over which an action begins a pass that was delayed. -/
def passed? : Action → Option Document
  | .pass document => some document
  | _ => none

theorem delayed?_of_fired? (a : Action) {v : Document} (h : a.fired? = some v) :
    a.delayed? = some v := by
  unfold fired? at h
  split at h
  · exact h
  · cases h

theorem eq_pass_of_passed? (a : Action) {v : Document} (h : a.passed? = some v) : a = .pass v := by
  unfold passed? at h
  split at h
  · exact congrArg pass (Option.some.inj h)
  · cases h

end Action

/-- The timers of a document that went off, with their tasks. -/
def firings (uri : Url) (log : List (Nat × Action)) : List (Nat × Document) :=
  log.filterMap fun x => (x.2.fired?.filter (·.uri = uri)).map (x.1, ·)

/-- The delayed passes over a document that tasks begun, none of them older than `first`. -/
def passings (first : Nat) (uri : Url) (log : List (Nat × Action)) : List Document :=
  log.filterMap fun x => if first ≤ x.1 then x.2.passed?.filter (·.uri = uri) else none

namespace Desk

/-- A task delays the lint of a document: it is there, and its timer has not gone off. -/
def HasTimer (d : Desk) (task : Nat) (document : Document) : Prop :=
  ∃ a, d.Holds task a ∧ a.delayed? = some document

/-- A task waits for a timer. -/
def Asleep (d : Desk) (task : Nat) : Prop :=
  ∃ t ∈ d.timers, t.task = task

instance (d : Desk) (task : Nat) : Decidable (d.Asleep task) :=
  inferInstanceAs (Decidable (∃ t ∈ d.timers, t.task = task))

/-- What a task does next. -/
def nextAction (d : Desk) (task : Nat) : List (Nat × Action) :=
  (((d.agenda? task).bind List.head?).map (task, ·)).toList

/-- One move in time, with what a task does in it: a task works that does not wait for a timer,
timers go off that are due, or the host does something that `ok` allows. -/
inductive TimedMove (ok : HostEvent → Prop) : Desk → List (Nat × Action) → Desk → Prop where
  | works {d : Desk} (task : Nat) (h : ¬d.Asleep task) :
      TimedMove ok d (d.nextAction task) (d.advance task)
  | passes {d d' : Desk} (hb : d'.passState = d.passState) (hclock : d.clock ≤ d'.clock)
      (htimers : ∀ t ∈ d.timers, d'.clock < t.due → t ∈ d'.timers) : TimedMove ok d [] d'
  | hosts {d : Desk} (e : HostEvent) (h : ok e) : TimedMove ok d [] (e.apply d)

/-- A burst of requests for delayed lints of a document: the time, the task and the snapshot of the
last request, and what tasks have done since the first one. Each request comes less than the quiet
time after the one before it; nothing else asks for a delayed lint of the document. -/
inductive Burst (uri : Url) (d₀ : Desk) :
    Nat → Nat → Document → List (Nat × Action) → Desk → Prop where
  | first {document : Document} (h : document.uri = uri) :
      Burst uri d₀ d₀.clock d₀.nextTask document [] (d₀.lintSoon document)
  | goesOn {since last : Nat} {document : Document} {log done : List (Nat × Action)} {d d' : Desk}
      (h : Burst uri d₀ since last document log d)
      (hm : TimedMove (fun e => ¬e.delays uri) d done d') :
      Burst uri d₀ since last document (log ++ done) d'
  | again {since last : Nat} {document next : Document} {log : List (Nat × Action)} {d : Desk}
      (h : Burst uri d₀ since last document log d) (hsoon : d.clock < since + quietTime)
      (hnext : next.uri = uri) :
      Burst uri d₀ d.clock d.nextTask next log (d.lintSoon next)

/-! ### Timers and schedules -/

/-- The schedule of a document knows the task that delays its lint. -/
theorem TimersMatch.pending?_of_hasTimer {d : Desk} (h : d.TimersMatch) {task : Nat}
    {document : Document} (hl : d.HasTimer task document) :
    d.pending? document.uri = some task := by
  obtain ⟨a, hholds, ha⟩ := hl
  exact (h.timer hholds document.uri).mpr (by rw [ha]; rfl)

/-! ### Moves of a burst -/

/-- A move leaves the timer and the delayed passes of a document alone, but for those of the task
that works. -/
structure LeavesDelayed (uri : Url) (worker : Option Nat) (d d' : Desk) : Prop where
  clock : d.clock ≤ d'.clock
  nextTask : d.nextTask ≤ d'.nextTask
  agenda : ∀ {task agenda}, 0 < task → task < d.nextTask → worker ≠ some task →
    d'.agenda? task = some agenda → d.agenda? task = some agenda
  holds : ∀ {task a}, 0 < task → d'.Holds task a → ¬a.SparesTimer uri → d.Holds task a
  own : ∀ {task a b rest}, worker = some task → d.agenda? task = some (a :: rest) →
    d'.Holds task b → b.SparesTimer uri ∨ b ∈ rest
  timers : ∀ {t}, t ∈ d.timers → 0 < t.task → t.task < d.nextTask →
    t ∈ d'.timers ∨ d'.agenda? t.task = none ∨ t.due ≤ d'.clock

variable {uri : Url}

theorem KeepsTimer.leavesDelayed {d d' : Desk} (h : KeepsTimer uri d d') :
    LeavesDelayed uri none d d' where
  clock := Nat.le_of_eq h.clock.symm
  nextTask := h.nextTask
  agenda hpos hlt _ hsome := h.older hpos hlt hsome
  holds {task a} hpos hholds hspares := by
    by_cases hlt : task < d.nextTask
    · obtain ⟨agenda, hsome, ha⟩ := hholds
      exact ⟨agenda, h.older hpos hlt hsome, ha⟩
    · exact (h.newer hpos (Nat.le_of_not_lt hlt) hholds).resolve_right hspares
  own hworker := by cases hworker
  timers ht hpos hlt := (h.timers ht hpos hlt).imp_right .inl

theorem leavesDelayed_of_passState {d d' : Desk} (hb : d'.passState = d.passState)
    (hclock : d.clock ≤ d'.clock) (htimers : ∀ t ∈ d.timers, d'.clock < t.due → t ∈ d'.timers) :
    LeavesDelayed uri none d d' where
  clock := hclock
  nextTask := Nat.le_of_eq (congrArg PassState.nextTask hb).symm
  agenda _ _ _ hsome := agenda?_congr hb _ ▸ hsome
  holds _ := fun ⟨agenda, hsome, ha⟩ _ => ⟨agenda, agenda?_congr hb _ ▸ hsome, ha⟩
  own hworker := by cases hworker
  timers {t} ht _ _ := by
    by_cases hdue : d'.clock < t.due
    · exact .inl (htimers t ht hdue)
    · exact .inr (.inr (Nat.le_of_not_lt hdue))

/-- An action that delays no lint of the document leaves its timer and its delayed passes alone. -/
theorem leavesDelayed_advance {d : Desk} {task : Nat} {a : Action} {rest : List Action}
    (hagenda : d.agenda? task = some (a :: rest))
    (ha : ∀ document, a.delayed? = some document → document.uri ≠ uri) :
    LeavesDelayed uri (some task) d (d.advance task) := by
  obtain ⟨hkeeps, hnext⟩ : KeepsTimerEffect uri d (d.act task a) := keepsTimerEffect_act d task ha
  have hleft := hkeeps.leavesDelayed
  obtain ⟨running, heq⟩ := advance_eq hagenda
  rw [heq]
  have hset := agenda?_setAgenda (d.act task a).desk task ((d.act task a).next ++ rest)
  have hown : ∀ {b}, b ∈ (d.act task a).next ++ rest → b.SparesTimer uri ∨ b ∈ rest := fun hb =>
    (List.mem_append.mp hb).imp_left (hnext _)
  refine ⟨hleft.clock, hleft.nextTask, fun {t agenda} hpos hlt hne hsome => ?_, ?_, ?_,
    fun ht hpos hlt => (hleft.timers ht hpos hlt).imp_right (.imp_left fun hnone => ?_)⟩
  · change ((d.act task a).desk.setAgenda task _).agenda? t = some agenda at hsome
    rw [hset, if_neg fun h => hne (congrArg some h.symm)] at hsome
    exact hleft.agenda hpos hlt (by simp) hsome
  · intro t b hpos hholds hspares
    rcases holds_setAgenda hholds with hholds | ⟨rfl, hb, -⟩
    · exact hleft.holds hpos hholds hspares
    · have hrest := (hown hb).resolve_left hspares
      exact ⟨a :: rest, hagenda, List.mem_cons_of_mem a hrest⟩
  · rintro t a' b rest' hworker hagenda' ⟨found, hsome, hb⟩
    obtain rfl := Option.some.inj hworker
    obtain ⟨rfl, rfl⟩ := List.cons.inj (Option.some.inj (hagenda.symm.trans hagenda'))
    change ((d.act task a).desk.setAgenda task _).agenda? task = some found at hsome
    rw [hset, if_pos rfl] at hsome
    obtain ⟨-, -, rfl⟩ := Option.map_eq_some_iff.mp hsome
    exact hown hb
  · change ((d.act task a).desk.setAgenda task _).agenda? _ = none
    rw [hset, hnone]
    split <;> rfl

/-! ### How far a burst has come -/

/-- How far the last request of a burst has come. Until its timer has gone off, no timer of the
document has and no pass was started; from then on there is one pass, by one task. -/
inductive BurstStage (uri : Url) (first since last : Nat) (document : Document)
    (log : List (Nat × Action)) (d : Desk) : Prop where
  | waits (hfired : firings uri log = []) (hpassed : passings first uri log = [])
      (hnone : ∀ {task v}, first ≤ task → d.Holds task (.pass v) → v.uri ≠ uri)
      (hlast : ∀ {agenda}, d.agenda? last = some agenda →
        agenda = [.holdBack document] ∧ since ≤ d.clock ∨
        agenda = [.fire document] ∧ (since + quietTime ≤ d.clock ∨
          ∃ t ∈ d.timers, t.task = last ∧ since + quietTime ≤ t.due))
  | fired (hclock : since + quietTime ≤ d.clock) (hfired : firings uri log = [(last, document)])
      (hlast : ∀ {agenda}, d.agenda? last = some agenda → agenda = [])
      (passer : Nat) (hpasser : first ≤ passer ∧ passer < d.nextTask)
      (hpassed : passings first uri log = [])
      (hagenda : ∀ {agenda}, d.agenda? passer = some agenda → agenda = [.pass document])
      (honly : ∀ {task v}, first ≤ task → d.Holds task (.pass v) → v.uri = uri → task = passer)
  | passed (hclock : since + quietTime ≤ d.clock) (hfired : firings uri log = [(last, document)])
      (hlast : ∀ {agenda}, d.agenda? last = some agenda → agenda = [])
      (hpassed : passings first uri log = [document])
      (hnone : ∀ {task v}, first ≤ task → d.Holds task (.pass v) → v.uri ≠ uri)

/-- The invariant of a burst. -/
structure BurstInvariant (uri : Url) (first since last : Nat) (document : Document)
    (log : List (Nat × Action)) (d : Desk) : Prop where
  sound : d.Sound
  first_pos : 0 < first
  first_le : first ≤ last
  last_lt : last < d.nextTask
  only : ∀ {task a v}, d.Holds task a → a.delayed? = some v → v.uri = uri → task = last
  stage : BurstStage uri first since last document log d

variable {first since last : Nat} {document : Document} {log : List (Nat × Action)} {d d' : Desk}

theorem not_sparesTimer_of_delayed? {a : Action} {v : Document} (ha : a.delayed? = some v)
    (hv : v.uri = uri) : ¬a.SparesTimer uri :=
  fun h => h v (.inl ha) hv

theorem not_sparesTimer_pass {v : Document} (hv : v.uri = uri) : ¬(Action.pass v).SparesTimer uri :=
  fun h => h v (.inr rfl) hv

theorem TimersMatch.pos_of_delayed? (h : d.TimersMatch) {task : Nat} {a : Action} {v : Document}
    (hholds : d.Holds task a) (ha : a.delayed? = some v) : 0 < task :=
  (h.pending_lt (h.pending?_of_hasTimer ⟨a, hholds, ha⟩)).1

/-- What leaves the timer and the delayed passes of the document alone keeps the stage, unless the
task works that has the timer or the pass. -/
theorem BurstStage.leavesDelayed {worker : Option Nat}
    (h : BurstStage uri first since last document log d)
    (hfirst : 0 < first ∧ first ≤ last ∧ last < d.nextTask) (hl : LeavesDelayed uri worker d d')
    (hlast : worker ≠ some last)
    (hpasser : ∀ {task}, first ≤ task →
      (∀ {agenda}, d.agenda? task = some agenda → agenda = [.pass document]) →
      worker ≠ some task) :
    BurstStage uri first since last document log d' := by
  obtain ⟨hpos, hle, hlt⟩ := hfirst
  have hagenda : ∀ {agenda}, d'.agenda? last = some agenda → d.agenda? last = some agenda :=
    hl.agenda (by omega) hlt hlast
  have hholds : ∀ {task v}, first ≤ task → d'.Holds task (.pass v) → v.uri = uri →
      d.Holds task (.pass v) := fun htask hholds hv =>
    hl.holds (by omega) hholds (not_sparesTimer_pass hv)
  cases h with
  | waits hfired hpassed hnone hstage =>
      refine .waits hfired hpassed (fun htask h hv => hnone htask (hholds htask h hv) hv) ?_
      intro agenda hsome
      rcases hstage (hagenda hsome) with ⟨rfl, hclock⟩ | ⟨rfl, hdue⟩
      · exact .inl ⟨rfl, Nat.le_trans hclock hl.clock⟩
      · refine .inr ⟨rfl, ?_⟩
        rcases hdue with hclock | ⟨t, ht, rfl, hdue⟩
        · exact .inl (Nat.le_trans hclock hl.clock)
        · rcases hl.timers ht (by omega) hlt with ht | hnone | hclock
          · exact .inr ⟨t, ht, rfl, hdue⟩
          · rw [hnone] at hsome
            cases hsome
          · exact .inl (Nat.le_trans hdue hclock)
  | fired hclock hfired hdone passer hp hpassed hpagenda honly =>
      refine .fired (Nat.le_trans hclock hl.clock) hfired (fun hsome => hdone (hagenda hsome))
        passer ⟨hp.1, Nat.lt_of_lt_of_le hp.2 hl.nextTask⟩ hpassed (fun hsome => hpagenda ?_)
        fun htask h hv => honly htask (hholds htask h hv) hv
      exact hl.agenda (by omega) hp.2 (hpasser hp.1 hpagenda) hsome
  | passed hclock hfired hdone hpassed hnone =>
      exact .passed (Nat.le_trans hclock hl.clock) hfired (fun hsome => hdone (hagenda hsome))
        hpassed fun htask h hv => hnone htask (hholds htask h hv) hv

/-- What leaves the timer and the delayed passes of the document alone keeps a burst as it is. -/
theorem BurstInvariant.leavesDelayed {worker : Option Nat}
    (h : BurstInvariant uri first since last document log d)
    (hsound : d'.Sound) (hl : LeavesDelayed uri worker d d') (hlast : worker ≠ some last)
    (hpasser : ∀ {task}, first ≤ task →
      (∀ {agenda}, d.agenda? task = some agenda → agenda = [.pass document]) →
      worker ≠ some task) : BurstInvariant uri first since last document log d' where
  sound := hsound
  first_pos := h.first_pos
  first_le := h.first_le
  last_lt := Nat.lt_of_lt_of_le h.last_lt hl.nextTask
  only hholds ha hv :=
    have hpos := hsound.timersMatch.pos_of_delayed? hholds ha
    h.only (hl.holds hpos hholds (not_sparesTimer_of_delayed? ha hv)) ha hv
  stage := h.stage.leavesDelayed ⟨h.first_pos, h.first_le, h.last_lt⟩ hl hlast hpasser

theorem BurstInvariant.keepsTimer (h : BurstInvariant uri first since last document log d)
    (hsound : d'.Sound) (hc : KeepsTimer uri d d') :
    BurstInvariant uri first since last document log d' :=
  h.leavesDelayed hsound hc.leavesDelayed (by simp) (by simp)

/-- A request for a delayed lint begins a burst, or takes over from the last one while no timer has
gone off. -/
theorem burstInvariant_lintSoon (hsound : d.Sound) (hpos : 0 < first) (hle : first ≤ d.nextTask)
    (hfired : firings uri log = []) (hpassed : passings first uri log = [])
    (hnone : ∀ {task v}, first ≤ task → d.Holds task (.pass v) → v.uri ≠ uri)
    (huri : document.uri = uri) :
    BurstInvariant uri first d.clock d.nextTask document log (d.lintSoon document) := by
  have hsound' : (d.lintSoon document).Sound := hsound.event (.requests document)
  obtain ⟨tasks, ready, timers, heq⟩ := lintSoon_eq d document
  have hnew : ∀ {agenda}, (d.lintSoon document).agenda? d.nextTask = some agenda →
      agenda = [.holdBack document] := by
    intro agenda hsome
    rcases agenda?_lintSoon_cases hsome with ⟨-, hold⟩ | ⟨-, hnew⟩
    · cases hsound.timersMatch.agenda?_nextTask.symm.trans hold
    · exact hnew
  refine ⟨hsound', hpos, hle, by rw [heq]; exact Nat.lt_succ_self _,
    fun {task a v} hholds ha hv => ?_,
    .waits hfired hpassed ?_ fun hsome => .inl ⟨hnew hsome, by rw [heq]; exact Nat.le_refl _⟩⟩
  · have hpending := hsound'.timersMatch.pending?_of_hasTimer ⟨a, hholds, ha⟩
    rw [pending?_lintSoon, if_pos (hv.trans huri.symm)] at hpending
    exact (Option.some.inj hpending).symm
  · rintro task v hle ⟨agenda, hsome, hmem⟩
    rcases agenda?_lintSoon_cases hsome with ⟨-, hold⟩ | ⟨-, rfl⟩
    · exact hnone hle ⟨agenda, hold, hmem⟩
    · simp at hmem

/-! ### Work in a burst -/

theorem filterMap_concat {α β : Type} (f : α → Option β) (l : List α) (x : α) :
    (l ++ [x]).filterMap f = l.filterMap f ++ (f x).toList := by
  rw [List.filterMap_append, List.filterMap_cons]
  cases f x <;> rfl

theorem firings_concat (log : List (Nat × Action)) (task : Nat) (a : Action) :
    firings uri (log ++ [(task, a)]) =
      firings uri log ++ ((a.fired?.filter (·.uri = uri)).map (task, ·)).toList :=
  filterMap_concat _ log (task, a)

theorem passings_concat (log : List (Nat × Action)) (task : Nat) (a : Action) :
    passings first uri (log ++ [(task, a)]) = passings first uri log ++
      (if first ≤ task then a.passed?.filter (·.uri = uri) else none).toList :=
  filterMap_concat _ log (task, a)

/-- Only timers that go off and delayed passes matter. -/
theorem BurstInvariant.congr (h : BurstInvariant uri first since last document log d)
    {log' : List (Nat × Action)} (hfirings : firings uri log' = firings uri log)
    (hpassings : passings first uri log' = passings first uri log) :
    BurstInvariant uri first since last document log' d := by
  refine ⟨h.sound, h.first_pos, h.first_le, h.last_lt, h.only, ?_⟩
  cases h.stage with
  | waits hfired hpassed hnone hlast =>
      exact .waits (hfirings.trans hfired) (hpassings.trans hpassed) hnone hlast
  | fired hclock hfired hlast passer hpasser hpassed hagenda honly =>
      exact .fired hclock (hfirings.trans hfired) hlast passer hpasser (hpassings.trans hpassed)
        hagenda honly
  | passed hclock hfired hlast hpassed hnone =>
      exact .passed hclock (hfirings.trans hfired) hlast (hpassings.trans hpassed) hnone

/-- A task that has something to do has not gone off yet. -/
theorem BurstInvariant.waits_of_agenda (h : BurstInvariant uri first since last document log d)
    {a : Action} {rest : List Action} (hagenda : d.agenda? last = some (a :: rest)) :
    firings uri log = [] ∧ passings first uri log = [] ∧
    (∀ {task v}, first ≤ task → d.Holds task (.pass v) → v.uri ≠ uri) ∧
    (a :: rest = [.holdBack document] ∧ since ≤ d.clock ∨
      a :: rest = [.fire document] ∧ (since + quietTime ≤ d.clock ∨ d.Asleep last)) := by
  cases h.stage with
  | waits hfired hpassed hnone hlast =>
      refine ⟨hfired, hpassed, hnone, (hlast hagenda).imp_right fun hdue => ?_⟩
      exact hdue.imp_right (.imp_right fun ⟨t, ht, htask, _⟩ => ⟨t, ht, htask⟩)
  | fired _ _ hlast => cases hlast hagenda
  | passed _ _ hlast => cases hlast hagenda

/-- The last request sets its timer. -/
theorem BurstInvariant.holdBack (h : BurstInvariant uri first since last document log d)
    (hagenda : d.agenda? last = some [.holdBack document]) :
    BurstInvariant uri first since last document (log ++ [(last, .holdBack document)])
      (d.advance last) := by
  obtain ⟨hfired, hpassed, hnone, hstage⟩ := h.waits_of_agenda hagenda
  have hclock : since ≤ d.clock := by
    rcases hstage with ⟨-, hclock⟩ | ⟨hfire, -⟩
    · exact hclock
    · cases hfire
  obtain ⟨running, heq⟩ := advance_eq hagenda
  have hadvance : d.advance last =
      { (d.setTimer last quietTime).setAgenda last [.fire document] with running } := heq
  have hset := agenda?_setAgenda (d.setTimer last quietTime) last [.fire document]
  have hsound := h.sound.advance last
  rw [hadvance] at hsound ⊢
  refine ⟨hsound, h.first_pos, h.first_le, h.last_lt, fun hholds ha hv => ?_,
    .waits ?_ ?_ (fun htask hholds => ?_) fun {agenda} hsome => .inr ⟨?_, .inr ?_⟩⟩
  · rcases holds_setAgenda hholds with hholds | ⟨htask, -⟩
    · exact h.only hholds ha hv
    · exact htask
  · simp [firings_concat, hfired, Action.fired?]
  · simp [passings_concat, hpassed, Action.passed?]
  · rcases holds_setAgenda hholds with hholds | ⟨-, hmem, -⟩
    · exact hnone htask hholds
    · simp at hmem
  · change ((d.setTimer last quietTime).setAgenda last _).agenda? last = _ at hsome
    rw [hset, if_pos rfl] at hsome
    obtain ⟨-, -, rfl⟩ := Option.map_eq_some_iff.mp hsome
    rfl
  · refine ⟨⟨d.clock + quietTime, last⟩, List.mem_append_right _ (by simp), rfl, ?_⟩
    exact Nat.add_le_add_right hclock quietTime

/-- The timer of the last request goes off. -/
theorem BurstInvariant.fire (h : BurstInvariant uri first since last document log d)
    (huri : document.uri = uri) (hagenda : d.agenda? last = some [.fire document])
    (hawake : ¬d.Asleep last) :
    BurstInvariant uri first since last document (log ++ [(last, .fire document)])
      (d.advance last) := by
  obtain ⟨hfired, hpassed, hnone, hstage⟩ := h.waits_of_agenda hagenda
  have hclock : since + quietTime ≤ d.clock := by
    rcases hstage with ⟨hhold, -⟩ | ⟨-, hclock | hasleep⟩
    · cases hhold
    · exact hclock
    · exact absurd hasleep hawake
  obtain ⟨running, heq⟩ := advance_eq hagenda
  have hadvance : d.advance last =
      { (d.spawn [.pass document]).2.setAgenda last [] with running } := heq
  have hset := agenda?_setAgenda (d.spawn [.pass document]).2 last []
  have hholds : ∀ {task a}, ((d.spawn [.pass document]).2.setAgenda last []).Holds task a →
      d.Holds task a ∨ task = d.nextTask ∧ a = .pass document := by
    intro task a hholds
    rcases holds_setAgenda hholds with ⟨agenda, hsome, ha⟩ | ⟨-, hmem, -⟩
    · rw [agenda?_spawn] at hsome
      rcases agenda?_of_join hsome with hsome | ⟨htask, rfl⟩
      · exact .inl ⟨agenda, hsome, ha⟩
      · exact .inr ⟨htask, List.mem_singleton.mp ha⟩
    · cases hmem
  have hne : d.nextTask ≠ last := Nat.ne_of_gt h.last_lt
  have hsound := h.sound.advance last
  rw [hadvance] at hsound ⊢
  refine ⟨hsound, h.first_pos, h.first_le, Nat.lt_succ_of_lt h.last_lt, fun hh ha hv => ?_,
    .fired hclock ?_ (fun hsome => ?_) d.nextTask
      ⟨Nat.le_trans h.first_le (Nat.le_of_lt h.last_lt), Nat.lt_succ_self _⟩ ?_
      (fun hsome => ?_) fun htask hh hv => ?_⟩
  · rcases hholds hh with hh | ⟨-, rfl⟩
    · exact h.only hh ha hv
    · cases ha
  · simp [firings_concat, hfired, Action.fired?, huri]
  · change ((d.spawn _).2.setAgenda last []).agenda? last = _ at hsome
    rw [hset, if_pos rfl] at hsome
    obtain ⟨-, -, rfl⟩ := Option.map_eq_some_iff.mp hsome
    rfl
  · simp [passings_concat, hpassed, Action.passed?]
  · change ((d.spawn _).2.setAgenda last []).agenda? d.nextTask = _ at hsome
    rw [hset, if_neg hne, agenda?_spawn, h.sound.timersMatch.agenda?_nextTask] at hsome
    simpa using hsome.symm
  · rcases hholds hh with hh | ⟨htask, -⟩
    · exact absurd hv (hnone htask hh)
    · exact htask

/-- The pass that was delayed is begun. -/
theorem BurstInvariant.pass (h : BurstInvariant uri first since last document log d) {task : Nat}
    {v : Document} {rest : List Action} (hfirst : first ≤ task) (hv : v.uri = uri)
    (hagenda : d.agenda? task = some (.pass v :: rest)) :
    BurstInvariant uri first since last document (log ++ [(task, .pass v)]) (d.advance task) := by
  have hholds : d.Holds task (.pass v) := ⟨_, hagenda, List.mem_cons_self⟩
  have hl : LeavesDelayed uri (some task) d (d.advance task) :=
    leavesDelayed_advance hagenda fun _ ha => by cases ha
  have hsound := h.sound.advance task
  cases h.stage with
  | waits _ _ hnone => exact absurd hv (hnone hfirst hholds)
  | passed _ _ _ _ hnone => exact absurd hv (hnone hfirst hholds)
  | fired hclock hfired hlast passer hpasser hpassed hpagenda honly =>
      obtain rfl := honly hfirst hholds hv
      obtain ⟨hpass, rfl⟩ := List.cons.inj (hpagenda hagenda)
      obtain rfl := Action.pass.inj hpass
      have hne : task ≠ last := by
        rintro rfl
        cases hlast hagenda
      have hpos : 0 < task := Nat.lt_of_lt_of_le h.first_pos hfirst
      refine ⟨hsound, h.first_pos, h.first_le, Nat.lt_of_lt_of_le h.last_lt hl.nextTask,
        fun hh ha hv' => ?_, .passed (Nat.le_trans hclock hl.clock) ?_
          (fun hsome => hlast (hl.agenda ?_ h.last_lt ?_ hsome)) ?_ fun {t w} ht hh hw => ?_⟩
      · have hpos' := hsound.timersMatch.pos_of_delayed? hh ha
        exact h.only (hl.holds hpos' hh (not_sparesTimer_of_delayed? ha hv')) ha hv'
      · simp [firings_concat, hfired, Action.fired?]
      · exact Nat.lt_of_lt_of_le h.first_pos h.first_le
      · simpa using hne
      · simp [passings_concat, hpassed, Action.passed?, hfirst, hv]
      · -- another delayed pass would be with the same task, whose agenda is done
        have hpos' : 0 < t := Nat.lt_of_lt_of_le h.first_pos ht
        obtain rfl := honly ht (hl.holds hpos' hh (not_sparesTimer_pass hw)) hw
        rcases hl.own rfl hagenda hh with hspares | hmem
        · exact not_sparesTimer_pass hw hspares
        · cases hmem

/-- A task does something else than to hold back the lint, to fire it or to begin its pass. -/
theorem BurstInvariant.worksAside (h : BurstInvariant uri first since last document log d)
    (huri : document.uri = uri) {task : Nat} {a : Action} {rest : List Action}
    (hagenda : d.agenda? task = some (a :: rest))
    (hdelays : ¬∃ v, a.delayed? = some v ∧ v.uri = uri)
    (hpass : ¬(first ≤ task ∧ ∃ v, a = .pass v ∧ v.uri = uri)) :
    BurstInvariant uri first since last document (log ++ [(task, a)]) (d.advance task) := by
  have hl : LeavesDelayed uri (some task) d (d.advance task) :=
    leavesDelayed_advance hagenda fun v ha hv => hdelays ⟨v, ha, hv⟩
  have hfired : a.fired?.filter (·.uri = uri) = none := by
    refine Option.filter_eq_none_iff.mpr fun v hv => ?_
    simpa using fun hu => hdelays ⟨v, a.delayed?_of_fired? hv, hu⟩
  have hpassed : (if first ≤ task then a.passed?.filter (·.uri = uri) else none) = none := by
    split
    · next hle =>
        refine Option.filter_eq_none_iff.mpr fun v hv => ?_
        simpa using fun hu => hpass ⟨hle, v, a.eq_pass_of_passed? hv, hu⟩
    · rfl
  refine (h.leavesDelayed (h.sound.advance task) hl ?_ fun {t} ht hpagenda heq => ?_).congr ?_ ?_
  · intro heq
    obtain rfl := Option.some.inj heq
    obtain ⟨-, -, -, ⟨hhold, -⟩ | ⟨hfire, -⟩⟩ := h.waits_of_agenda hagenda
    · obtain ⟨rfl, -⟩ := List.cons.inj hhold
      exact hdelays ⟨document, rfl, huri⟩
    · obtain ⟨rfl, -⟩ := List.cons.inj hfire
      exact hdelays ⟨document, rfl, huri⟩
  · obtain rfl := Option.some.inj heq
    obtain ⟨rfl, -⟩ := List.cons.inj (hpagenda hagenda)
    exact hpass ⟨ht, document, rfl, huri⟩
  · rw [firings_concat, hfired]
    exact List.append_nil _
  · rw [passings_concat, hpassed]
    exact List.append_nil _

/-- A task that does not wait for a timer does what comes next. -/
theorem BurstInvariant.works (h : BurstInvariant uri first since last document log d)
    (huri : document.uri = uri) {task : Nat} (hawake : ¬d.Asleep task) :
    BurstInvariant uri first since last document (log ++ d.nextAction task) (d.advance task) := by
  have hsound := h.sound.advance task
  cases hagenda : d.agenda? task with
  | none =>
      rw [advance_of_gone hagenda] at hsound ⊢
      simp only [nextAction, hagenda, Option.bind_none, Option.map_none, Option.toList_none,
        List.append_nil]
      exact h.keepsTimer hsound (.of_same rfl rfl rfl rfl)
  | some agenda =>
      cases agenda with
      | nil =>
          rw [advance_of_done hagenda] at hsound ⊢
          simp only [nextAction, hagenda, Option.bind_some, List.head?_nil, Option.map_none,
            Option.toList_none, List.append_nil]
          exact h.keepsTimer hsound (keepsTimer_finishTask d task)
      | cons a rest =>
          have hspec : d.nextAction task = [(task, a)] := by simp [nextAction, hagenda]
          rw [hspec]
          by_cases hdelays : ∃ v, a.delayed? = some v ∧ v.uri = uri
          · obtain ⟨v, ha, hv⟩ := hdelays
            obtain rfl := h.only ⟨_, hagenda, List.mem_cons_self⟩ ha hv
            obtain ⟨-, -, -, ⟨hhold, -⟩ | ⟨hfire, -⟩⟩ := h.waits_of_agenda hagenda
            · obtain ⟨rfl, rfl⟩ := List.cons.inj hhold
              exact h.holdBack hagenda
            · obtain ⟨rfl, rfl⟩ := List.cons.inj hfire
              exact h.fire huri hagenda hawake
          · by_cases hpass : first ≤ task ∧ ∃ v, a = .pass v ∧ v.uri = uri
            · obtain ⟨hfirst, v, rfl, hv⟩ := hpass
              exact h.pass hfirst hv hagenda
            · exact h.worksAside huri hagenda hdelays hpass

/-- Every burst keeps its invariant. -/
theorem Burst.burstInvariant {d₀ : Desk} (h₀ : d₀.Sound)
    (h : Burst uri d₀ since last document log d) :
    BurstInvariant uri d₀.nextTask since last document log d ∧ document.uri = uri := by
  have hpos := h₀.timersMatch.nextTask_pos
  induction h with
  | first huri =>
      refine ⟨burstInvariant_lintSoon h₀ hpos (Nat.le_refl _) rfl rfl
        (fun {task v} hle hholds => ?_) huri, huri⟩
      obtain ⟨agenda, hsome, -⟩ := hholds
      exact absurd (h₀.timersMatch.task_lt hsome) (Nat.not_lt.mpr hle)
  | goesOn _ hm ih =>
      obtain ⟨hburst, huri⟩ := ih
      refine ⟨?_, huri⟩
      cases hm with
      | works task hawake => exact hburst.works huri hawake
      | passes hb hclock htimers =>
          rw [List.append_nil]
          exact hburst.leavesDelayed (hburst.sound.of_passState hb)
            (leavesDelayed_of_passState hb hclock htimers) (by simp) (by simp)
      | hosts e he =>
          rw [List.append_nil]
          exact hburst.keepsTimer (hburst.sound.event e) (keepsTimer_event _ he)
  | again _ hsoon hnext ih =>
      obtain ⟨hburst, -⟩ := ih
      refine ⟨?_, hnext⟩
      cases hburst.stage with
      | waits hfired hpassed hnone =>
          refine burstInvariant_lintSoon hburst.sound hpos ?_ hfired hpassed hnone hnext
          exact Nat.le_trans hburst.first_le (Nat.le_of_lt hburst.last_lt)
      | fired hclock => omega
      | passed hclock => omega

/-! ### What leaves no timer behind -/

/-- What takes away the timers of some documents: linting one now, also because it was saved,
closing one, and turning linting off. -/
inductive Cancels (d : Desk) : (Url → Prop) → Desk → Prop where
  | lints {task : Nat} {document : Document} {rest : List Action}
      (h : d.agenda? task = some (.lint document :: rest)) :
      Cancels d (· = document.uri) (d.advance task)
  | saves {task : Nat} {document : Document} {rest : List Action}
      (h : d.agenda? task = some (.save document :: rest))
      (hmode : (d.runMode document.uri).1 = .onSave) :
      Cancels d (· = document.uri) (d.advance task)
  | closes {task : Nat} {closed : Url} {rest : List Action}
      (h : d.agenda? task = some (.close closed :: rest)) : Cancels d (· = closed) (d.advance task)
  | hears (closed : Url) : Cancels d (· = closed) ((Server.Notice.closed closed).apply d)
  | disables {task : Nat} {rest : List Action}
      (h : d.agenda? task = some (.setEnabled false :: rest)) (hon : d.enabled = true) :
      Cancels d (fun _ => True) (d.advance task)
  | toggles {task : Nat} {rest : List Action} (h : d.agenda? task = some (.toggle :: rest))
      (hon : d.enabled = true) : Cancels d (fun _ => True) (d.advance task)

theorem StartsHelpers.schedules (h : StartsHelpers d d') : d'.schedules = d.schedules := by
  induction h with
  | same hb => exact congrArg PassState.schedules hb
  | spawn _ _ _ hb ih => exact (congrArg PassState.schedules hb).trans ih

theorem CollectSpec.schedules {o : Option Collection} {e : Effect} (h : CollectSpec o d e) :
    e.desk.schedules = d.schedules := by
  cases h with
  | goesOn hd => exact hd.schedules
  | ends _ hd => exact hd.schedules
  | publishes violations _ hd _ he =>
      refine (congrArg PassState.schedules he).trans (Eq.trans ?_ hd.schedules)
      simp only [passState, publish]
      split <;> rfl

theorem Begun.pending? {e : Effect} (h : Begun d document e) (u : Url) :
    e.desk.pending? u = d.pending? u := by
  rw [← pending?_openPass d document u]
  cases h with
  | stops _ hd => exact pending?_congr hd u
  | collects _ hs =>
      simp only [Desk.pending?, schedule?]
      rw [hs.schedules]

/-- Once the timers of a document are taken away, its schedule knows none. -/
theorem Cancels.pending?_eq_none {affected : Url → Prop} {u : Url} (h : Cancels d affected d')
    (hu : affected u) : d'.pending? u = none := by
  have hadvance : ∀ {task a rest}, d.agenda? task = some (a :: rest) →
      (d.advance task).pending? u = (d.act task a).desk.pending? u := by
    intro task a rest hagenda
    obtain ⟨running, heq⟩ := advance_eq hagenda
    rw [heq]
    rfl
  have hlint : ∀ (d₁ : Desk) (task : Nat) {v : Document}, u = v.uri →
      (d₁.lintNow task v).desk.pending? u = none := by
    intro d₁ task v hv
    rw [lintNow, (startPass_begun _ task v).pending?, pending?_dropPending, if_pos hv]
  have hdisable : ∀ d₁ : Desk, d₁.enabled = true →
      (d₁.startEnabling false).desk.pending? u = none := by
    intro d₁ hon
    rw [startEnabling, if_neg (by simp [hon])]
    exact pending?_outdateAll _ true u
  cases h with
  | lints hagenda =>
      rw [hadvance hagenda]
      exact hlint d _ hu
  | saves hagenda hmode =>
      rw [hadvance hagenda]
      unfold act
      dsimp only
      split
      · exact hlint _ _ hu
      · next heq =>
          rw [heq] at hmode
          cases hmode
  | closes hagenda =>
      rw [hadvance hagenda]
      exact (pending?_closeDocument d _ u).trans (if_pos hu)
  | hears closed => exact (pending?_closeDocument _ closed u).trans (if_pos hu)
  | disables hagenda hon =>
      rw [hadvance hagenda]
      exact hdisable d hon
  | toggles hagenda hon =>
      rw [hadvance hagenda]
      change ((d.leave _ (.flag (!d.enabled))).startEnabling (!d.enabled)).desk.pending? u = none
      rw [hon]
      exact hdisable _ hon

theorem Cancels.sound {affected : Url → Prop} (h : Cancels d affected d') (hd : d.Sound) :
    d'.Sound := by
  cases h with
  | lints | saves | closes | disables | toggles => exact hd.advance _
  | hears closed => exact hd.event (.notices (.closed closed))

/-- Tasks that were there delay no lint that they did not delay before. -/
structure NoNewDelays (d d' : Desk) : Prop where
  nextTask : d.nextTask ≤ d'.nextTask
  hasTimer : ∀ {task v}, task < d.nextTask → d'.HasTimer task v → d.HasTimer task v

theorem NoNewDelays.trans {d d₁ d₂ : Desk} (h : NoNewDelays d d₁) (h' : NoNewDelays d₁ d₂) :
    NoNewDelays d d₂ where
  nextTask := Nat.le_trans h.nextTask h'.nextTask
  hasTimer hlt htimer := h.hasTimer hlt (h'.hasTimer (Nat.lt_of_lt_of_le hlt h.nextTask) htimer)

theorem NoNewDelays.of_agendas (hnext : d.nextTask ≤ d'.nextTask)
    (h : ∀ {task agenda}, task < d.nextTask → d'.agenda? task = some agenda →
      d.agenda? task = some agenda) : NoNewDelays d d' :=
  ⟨hnext, fun hlt ⟨a, ⟨agenda, hsome, ha⟩, hdelayed⟩ => ⟨a, ⟨agenda, h hlt hsome, ha⟩, hdelayed⟩⟩

theorem NoNewDelays.of_passState (hb : d'.passState = d.passState) : NoNewDelays d d' :=
  .of_agendas (Nat.le_of_eq (congrArg PassState.nextTask hb).symm) fun _ hsome =>
    agenda?_congr hb _ ▸ hsome

theorem Extends.noNewDelays (h : Extends d d') : NoNewDelays d d' :=
  .of_agendas h.nextTask h.agenda

theorem noNewDelays_advance (hd : d.Sound) (task : Nat) : NoNewDelays d (d.advance task) := by
  rcases advance_cases d task with hb | ⟨-, hb⟩ | ⟨a, rest, e, hagenda, hspec, hb⟩
  · exact .of_passState hb
  · have habort : NoNewDelays d (d.abort task) :=
      .of_agendas (Nat.le_refl _) fun _ => agenda?_of_abort
    exact habort.trans (.of_passState hb)
  · have ha : d.Holds task a := ⟨_, hagenda, List.mem_cons_self⟩
    have hdelays := (hspec.passChanges (hd.timersMatch.begun ha)).extends.noNewDelays
    have hset : NoNewDelays d (e.desk.setAgenda task (e.next ++ rest)) := by
      refine ⟨hdelays.nextTask, ?_⟩
      rintro t v hlt ⟨b, hholds, hdelayed⟩
      rcases holds_setAgenda hholds with hholds | ⟨rfl, hmem, -⟩
      · exact hdelays.hasTimer hlt ⟨b, hholds, hdelayed⟩
      · rcases List.mem_append.mp hmem with hnext | hrest
        · exact ⟨a, ha, (hspec.delayed?_next hnext).symm.trans hdelayed⟩
        · exact ⟨b, ⟨_, hagenda, List.mem_cons_of_mem a hrest⟩, hdelayed⟩
    exact hset.trans (.of_passState hb)

theorem noNewDelays_event (d : Desk) (e : HostEvent) : NoNewDelays d (e.apply d) := by
  by_cases hwaits : ∃ calls, e = .waits calls
  · obtain ⟨calls, rfl⟩ := hwaits
    refine ⟨Nat.le_refl _, fun _ ⟨a, hholds, hdelayed⟩ => ?_⟩
    obtain ⟨agenda, hsome, ha⟩ := hholds
    rcases agenda?_of_join (agenda?_append d host _ _ ▸ hsome) with hsome | ⟨-, rfl⟩
    · exact ⟨a, ⟨agenda, hsome, ha⟩, hdelayed⟩
    · obtain ⟨call, -, rfl⟩ := List.mem_map.mp ha
      simp at hdelayed
  · exact (HostEvent.hostChanges d fun calls heq => hwaits ⟨calls, heq⟩).extends.noNewDelays

theorem noNewDelays_run {ok : HostEvent → Prop} (hd : d.Sound) (hr : Run ok d d') :
    NoNewDelays d d' := by
  induction hr with
  | refl => exact .of_passState rfl
  | tail hprev hm ih =>
      refine ih.trans ?_
      cases hm with
      | works task => exact noNewDelays_advance (hd.run hprev) task
      | drifts hb => exact .of_passState hb
      | hosts e _ => exact noNewDelays_event _ e

/-- In every run a document has at most one timer, which its schedule knows. In a burst of requests
only the timer of the last one goes off, and one pass is begun, over its snapshot. After a document
was linted or closed or linting was turned off, its timers are those of later requests. -/
theorem one_timer_per_document {d₀ d : Desk} (h₀ : d₀.IsFresh) (hr : Run (fun _ => True) d₀ d) :
    (∀ {task v}, d.HasTimer task v → d.pending? v.uri = some task ∧
      ∀ {other w}, d.HasTimer other w → w.uri = v.uri → other = task) ∧
    (∀ {uri since last document log d'}, Burst uri d since last document log d' →
      (firings uri log = [] ∧ passings d.nextTask uri log = [] ∨
        firings uri log = [(last, document)] ∧
          (passings d.nextTask uri log = [] ∨ passings d.nextTask uri log = [document]))) ∧
    (∀ {affected d₁ d'}, Cancels d affected d₁ → Run (fun _ => True) d₁ d' →
      ∀ {task v}, d'.HasTimer task v → affected v.uri → d₁.nextTask ≤ task) := by
  have hsound := h₀.sound.run hr
  refine ⟨fun htimer => ?_, fun hburst => ?_, fun hcancels hrun _ _ htimer haffected => ?_⟩
  · have hpending := hsound.timersMatch.pending?_of_hasTimer htimer
    refine ⟨hpending, fun hother huri => ?_⟩
    have hpending' := hsound.timersMatch.pending?_of_hasTimer hother
    rw [huri, hpending] at hpending'
    exact (Option.some.inj hpending').symm
  · cases (hburst.burstInvariant hsound).1.stage with
    | waits hfired hpassed => exact .inl ⟨hfired, hpassed⟩
    | fired _ hfired _ _ _ hpassed => exact .inr ⟨hfired, .inl hpassed⟩
    | passed _ hfired _ hpassed => exact .inr ⟨hfired, .inr hpassed⟩
  · have hsound₁ := hcancels.sound hsound
    by_contra hlt
    have htimer₁ := (noNewDelays_run hsound₁ hrun).hasTimer (Nat.lt_of_not_le hlt) htimer
    have hpending := hsound₁.timersMatch.pending?_of_hasTimer htimer₁
    rw [hcancels.pending?_eq_none haffected] at hpending
    cases hpending

/-- A document is edited twice within the quiet time. The first timer is dropped, the second one
goes off, and the pass over the second snapshot is begun. -/
theorem one_timer_per_document_of_edits :
    let first := draft "A" "a\n"
    let second := { draft "A" "b\n" with version := 2 }
    let d₁ := (quietDesk.lintSoon first).advance 1
    let d₂ := ({ d₁ with clock := 499 }.lintSoon second).advance 2
    let d₃ := (({ d₂ with clock := 999, timers := [] }.advance 2).advance 3)
    let log := [(1, Action.holdBack first), (2, .holdBack second), (2, .fire second),
      (3, .pass second)]
    Burst first.uri quietDesk 499 2 second log d₃ ∧ d₃.history = [.began second 1] ∧
    (firings first.uri log = [] ∧ passings 1 first.uri log = [] ∨
      firings first.uri log = [(2, second)] ∧
        (passings 1 first.uri log = [] ∨ passings 1 first.uri log = [second])) := by
  intro first second d₁ d₂ d₃ log
  have hburst : Burst first.uri quietDesk 499 2 second log d₃ := by
    have h₁ : Burst first.uri quietDesk 0 1 first [(1, .holdBack first)] d₁ :=
      (Burst.first rfl).goesOn (.works 1 (by decide))
    have h₂ : Burst first.uri quietDesk 0 1 first [(1, .holdBack first)] { d₁ with clock := 499 } :=
      h₁.goesOn (.passes rfl (by decide) fun t ht _ => ht)
    have h₃ : Burst first.uri quietDesk 499 2 second
        [(1, .holdBack first), (2, .holdBack second)] d₂ :=
      (h₂.again (by decide) (rfl : second.uri = first.uri)).goesOn (.works 2 (by decide))
    have h₄ : Burst first.uri quietDesk 499 2 second
        [(1, .holdBack first), (2, .holdBack second)] { d₂ with clock := 999, timers := [] } :=
      h₃.goesOn (.passes rfl (by decide) (by decide))
    exact (h₄.goesOn (.works 2 (by decide))).goesOn (.works 3 (by decide))
  refine ⟨hburst, by decide, ?_⟩
  exact (one_timer_per_document quietDesk_isFresh .refl).2.1 hburst

end Desk

end LintDesk
