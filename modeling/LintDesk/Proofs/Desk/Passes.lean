import LintDesk.Proofs.Desk.PassChanges

/-! # The order of passes

The history of a desk tells which passes were begun, which of them published, and what made passes
outdated. `PassesOrdered` says that a generation that a document carries is that of its last pass,
and that no later mark has made it outdated; it is kept by every change to the pass state.
-/

namespace LintDesk

namespace Mark

/-- The generation of a pass that was begun. -/
def begun? : Mark → Option Nat
  | began _ generation => some generation
  | _ => none

/-- The document whose diagnostics were published. -/
def published? : Mark → Option Document
  | published document _ => some document
  | _ => none

/-- Whether a mark makes the passes of a document outdated that were begun before. -/
def outdates (uri : Url) : Mark → Bool
  | began document _ => document.uri = uri
  | published _ _ => false
  | closed u => u = uri
  | refreshed => true
  | switched enabled => !enabled

/-- Whether linting is on after a mark. -/
def turns (on : Bool) : Mark → Bool
  | switched enabled => enabled
  | _ => on

end Mark

/-- The document that an event publishes diagnostics of. -/
def Event.published? : Event → Option Document
  | publish document _ => some document
  | _ => none

/-- Whether linting is on after what happened; it is at first. -/
def isOn (history : List Mark) : Bool :=
  history.foldl Mark.turns true

@[simp] theorem isOn_append (history : List Mark) (m : Mark) :
    isOn (history ++ [m]) = m.turns (isOn history) := by
  simp [isOn]

/-- The pass is the only one of its generation, and nothing has made it outdated since it was
begun. -/
def IsCurrent (history : List Mark) (document : Document) (generation : Nat) : Prop :=
  ∃ before since, history = before ++ .began document generation :: since ∧
    (∀ m ∈ before ++ since, m.begun? ≠ some generation) ∧
    ∀ m ∈ since, m.outdates document.uri = false

theorem IsCurrent.append {history : List Mark} {document : Document} {generation : Nat}
    (h : IsCurrent history document generation) {m : Mark} (hbegun : m.begun? ≠ some generation)
    (hm : m.outdates document.uri = false) :
    IsCurrent (history ++ [m]) document generation := by
  obtain ⟨before, since, rfl, hunique, hsince⟩ := h
  refine ⟨before, since ++ [m], by simp, ?_, ?_⟩
  · intro n hn
    rcases List.mem_append.mp (List.append_assoc .. ▸ hn) with hn | hn
    · exact hunique n hn
    · rwa [List.mem_singleton.mp hn]
  · intro n hn
    rcases List.mem_append.mp hn with hn | hn
    · exact hsince n hn
    · rwa [List.mem_singleton.mp hn]

theorem IsCurrent.began {history : List Mark} {document : Document} {generation : Nat}
    (h : ∀ m ∈ history, m.begun? ≠ some generation) :
    IsCurrent (history ++ [.began document generation]) document generation :=
  ⟨history, [], rfl, by simpa using h, by simp⟩

/-- A pass that is current after a mark that makes passes of its document outdated was begun
later. -/
theorem IsCurrent.began_mem_after {before after : List Mark} {m : Mark} {document : Document}
    {generation : Nat} (h : IsCurrent (before ++ m :: after) document generation)
    (hm : m.outdates document.uri = true) (hne : m ≠ .began document generation) :
    .began document generation ∈ after := by
  obtain ⟨before', since, heq, -, hsince⟩ := h
  rcases List.append_eq_append_iff.mp heq with ⟨l, -, hl⟩ | ⟨l, -, hl⟩
  · -- The pass was begun after the part before the mark.
    cases l with
    | nil => exact absurd (List.cons.inj hl).1 hne
    | cons x l => simp [(List.cons.inj hl).2]
  · cases l with
    | nil => exact absurd (List.cons.inj hl).1.symm hne
    | cons x l =>
        have hmem : m ∈ since := by simp [(List.cons.inj hl).2]
        rw [hsince m hmem] at hm
        cases hm

/-- Whatever was published was current, with linting on. -/
def AllPublishedCurrent (history : List Mark) : Prop :=
  ∀ before document generation after,
    history = before ++ .published document generation :: after →
    isOn before = true ∧ IsCurrent before document generation

/-- The last mark of a list, or one before it. -/
theorem append_singleton_eq_append_cons {history before after : List Mark} {last m : Mark}
    (h : history ++ [last] = before ++ m :: after) :
    (history = before ∧ last = m) ∨ ∃ after', history = before ++ m :: after' := by
  rcases List.eq_nil_or_concat after with rfl | ⟨after', x, rfl⟩
  · exact .inl (by simpa using List.append_inj' h rfl)
  · refine .inr ⟨after', ?_⟩
    have h' : history ++ [last] = (before ++ m :: after') ++ [x] := by simpa using h
    exact (List.append_inj' h' rfl).1

theorem AllPublishedCurrent.append {history : List Mark} (h : AllPublishedCurrent history)
    {m : Mark} (hm : ∀ document generation, m = .published document generation →
      isOn history = true ∧ IsCurrent history document generation) :
    AllPublishedCurrent (history ++ [m]) := by
  intro before document generation after heq
  rcases append_singleton_eq_append_cons heq with ⟨rfl, hlast⟩ | ⟨after', hbefore⟩
  · exact hm document generation hlast
  · exact h before document generation after' hbefore

theorem AllPublishedCurrent.append_unpublished {history marks : List Mark}
    (h : AllPublishedCurrent history) (hmarks : ∀ m ∈ marks, m.published? = none) :
    AllPublishedCurrent (history ++ marks) := by
  induction marks generalizing history with
  | nil => simpa using h
  | cons m marks ih =>
      have hm : AllPublishedCurrent (history ++ [m]) :=
        h.append fun document generation heq => by
          have hnone := hmarks m List.mem_cons_self
          simp [heq, Mark.published?] at hnone
      have hrest := ih hm fun n hn => hmarks n (List.mem_cons_of_mem m hn)
      simpa using hrest

namespace Desk

/-- Passes are in order: the invariant of every run. -/
structure PassesOrdered (d : Desk) : Prop where
  carried_le : ∀ {uri generation}, d.generation? uri = some generation → generation ≤ d.generation
  begun_le : ∀ {m generation}, m ∈ d.history → m.begun? = some generation →
    0 < generation ∧ generation ≤ d.generation
  current : ∀ {uri document generation}, d.generation? uri = some generation →
    .began document generation ∈ d.history →
    document.uri = uri ∧ IsCurrent d.history document generation
  enabled_eq : d.enabled = isOn d.history
  told : d.events.filterMap Event.published? = d.history.filterMap Mark.published?
  publishedCurrent : AllPublishedCurrent d.history

theorem IsFresh.passesOrdered {d : Desk} (h : d.IsFresh) : d.PassesOrdered where
  carried_le hg := by simp [generation?, schedule?, h.schedules] at hg
  begun_le hm := by simp [h.history] at hm
  current _ hm := by simp [h.history] at hm
  enabled_eq := by simp [h.enabled, h.history, isOn]
  told := by simp [h.events, h.history]
  publishedCurrent := by
    intro before document generation after heq
    simp [h.history] at heq

/-- Passes stay in order when documents carry no new generations but the one that no pass has. -/
theorem PassesOrdered.congr {d d' : Desk} (h : d.PassesOrdered)
    (hcarried : ∀ uri generation, d'.generation? uri = some generation →
      d.generation? uri = some generation ∨ generation = 0)
    (hgeneration : d'.generation = d.generation) (henabled : d'.enabled = d.enabled)
    (hevents : d'.events = d.events) (hhistory : d'.history = d.history) : d'.PassesOrdered where
  carried_le hg := by
    rw [hgeneration]
    rcases hcarried _ _ hg with hg | rfl
    · exact h.carried_le hg
    · exact Nat.zero_le _
  begun_le hm hbegun := by
    rw [hhistory] at hm
    rw [hgeneration]
    exact h.begun_le hm hbegun
  current hg hm := by
    rw [hhistory] at hm ⊢
    rcases hcarried _ _ hg with hg | rfl
    · exact h.current hg hm
    · exact absurd (h.begun_le hm rfl).1 (Nat.lt_irrefl 0)
  enabled_eq := by rw [henabled, hhistory, h.enabled_eq]
  told := by rw [hevents, hhistory, h.told]
  publishedCurrent := hhistory ▸ h.publishedCurrent

theorem PassesOrdered.openPass {d : Desk} (h : d.PassesOrdered) (document : Document) :
    (d.openPass document).2.PassesOrdered where
  carried_le {uri generation} hg := by
    change generation ≤ d.generation + 1
    rw [generation?_openPass] at hg
    split at hg
    · exact Nat.le_of_eq (Option.some.inj hg).symm
    · exact Nat.le_succ_of_le (h.carried_le hg)
  begun_le {m generation} hm hbegun := by
    change 0 < generation ∧ generation ≤ d.generation + 1
    rw [history_openPass, List.mem_append, List.mem_singleton] at hm
    rcases hm with hm | rfl
    · have := h.begun_le hm hbegun
      omega
    · cases hbegun
      omega
  current {uri document' generation} hg hm := by
    rw [generation?_openPass] at hg
    rw [history_openPass, List.mem_append, List.mem_singleton] at hm
    rw [history_openPass]
    have hnew : ∀ m ∈ d.history, m.begun? ≠ some (d.generation + 1) := by
      intro m hm hbegun
      have := h.begun_le hm hbegun
      omega
    split at hg
    · next huri =>
        obtain rfl := Option.some.inj hg
        rcases hm with hm | hm
        · exact absurd rfl (hnew _ hm)
        · cases hm
          exact ⟨huri.symm, .began hnew⟩
    · next huri =>
        rcases hm with hm | hm
        · obtain ⟨rfl, hcurrent⟩ := h.current hg hm
          refine ⟨rfl, hcurrent.append ?_ ?_⟩
          · intro heq
            obtain rfl := Option.some.inj heq
            have := h.carried_le hg
            omega
          · simpa [Mark.outdates] using Ne.symm huri
        · cases hm
          have := h.carried_le hg
          omega
  enabled_eq := by
    rw [history_openPass, isOn_append]
    exact h.enabled_eq
  told := by
    rw [history_openPass, List.filterMap_append]
    exact h.told.trans (List.append_nil _).symm
  publishedCurrent := h.publishedCurrent.append_unpublished (by simp [Mark.published?])

/-- After all generations were renewed no pass is carried, so passes are in order whatever else is
marked. -/
theorem PassesOrdered.of_renewed {d d' : Desk} (h : d.PassesOrdered)
    (hcarried : ∀ uri generation, d'.generation? uri = some generation →
      d.generation < generation ∧ generation ≤ d'.generation)
    (hle : d.generation ≤ d'.generation) (henabled : d'.enabled = isOn d'.history)
    (hevents : d'.events.filterMap Event.published? = d.events.filterMap Event.published?)
    {marks : List Mark} (hhistory : d'.history = d.history ++ marks)
    (hmarks : ∀ m ∈ marks, m.begun? = none ∧ m.published? = none) : d'.PassesOrdered := by
  have hbegun : ∀ {m generation}, m ∈ d'.history → m.begun? = some generation →
      0 < generation ∧ generation ≤ d.generation := by
    intro m generation hm hsome
    rcases List.mem_append.mp (hhistory ▸ hm) with hm | hm
    · exact h.begun_le hm hsome
    · rw [(hmarks m hm).1] at hsome
      cases hsome
  refine ⟨fun hg => (hcarried _ _ hg).2, fun hm hsome => ?_, fun hg hm => ?_, henabled, ?_, ?_⟩
  · have := hbegun hm hsome
    omega
  · have := hbegun hm rfl
    have := hcarried _ _ hg
    omega
  · have hnone : marks.filterMap Mark.published? = [] :=
      List.filterMap_eq_nil_iff.mpr fun m hm => (hmarks m hm).2
    rw [hevents, h.told, hhistory, List.filterMap_append, hnone, List.append_nil]
  · rw [hhistory]
    exact h.publishedCurrent.append_unpublished fun m hm => (hmarks m hm).2

theorem PassesOrdered.clearAll {d : Desk} (h : d.PassesOrdered) : d.clearAll.PassesOrdered := by
  have hhistory : d.clearAll.history = d.history ++ [.refreshed] := rfl
  have hevents : d.clearAll.events = d.events ++ [.clearAll] := rfl
  refine h.of_renewed (fun uri generation hg => generation?_outdateAll d false hg)
    (Nat.le_add_right _ _) ?_ ?_ hhistory (by simp [Mark.begun?, Mark.published?])
  · rw [hhistory, isOn_append]
    exact h.enabled_eq
  · simp [hevents, Event.published?]

theorem PassesOrdered.enable {d : Desk} (h : d.PassesOrdered) :
    ({ d with enabled := true }.note (.switched true)).clearAll.PassesOrdered := by
  let on := { d with enabled := true }.note (.switched true)
  have hhistory : on.clearAll.history = d.history ++ [.switched true, .refreshed] :=
    List.append_assoc ..
  have hevents : on.clearAll.events = d.events ++ [.clearAll] := rfl
  refine h.of_renewed (fun uri generation hg => generation?_outdateAll on false hg)
    (Nat.le_add_right _ _) ?_ ?_ hhistory (by simp [Mark.begun?, Mark.published?])
  · change true = isOn on.clearAll.history
    simp [hhistory, isOn, Mark.turns]
  · change on.clearAll.events.filterMap _ = _
    simp [hevents, Event.published?]

theorem PassesOrdered.disable {d : Desk} (h : d.PassesOrdered) :
    ((({ d with enabled := false }.note (.switched false)).outdateAll true).tell
      .clearAll).PassesOrdered := by
  let off := { d with enabled := false }.note (.switched false)
  obtain ⟨tasks, ready, timers, heq⟩ := outdateAll_eq off true
  have hhistory : ((off.outdateAll true).tell .clearAll).history =
      d.history ++ [.switched false] := by rw [heq]; rfl
  refine h.of_renewed (fun uri generation hg => generation?_outdateAll off true hg)
    ?_ ?_ ?_ hhistory (by simp [Mark.begun?, Mark.published?])
  · change d.generation ≤ (off.outdateAll true).generation
    rw [heq]
    exact Nat.le_add_right _ _
  · change (off.outdateAll true).enabled = isOn ((off.outdateAll true).tell .clearAll).history
    rw [hhistory, heq, isOn_append]
    rfl
  · change ((off.outdateAll true).events ++ [Event.clearAll]).filterMap _ = _
    rw [heq]
    simp [off, note, Event.published?]

theorem PassesOrdered.close {d : Desk} (h : d.PassesOrdered) (closed : Url) :
    (d.closeDocument closed).PassesOrdered := by
  obtain ⟨tasks, ready, timers, heq⟩ := closeDocument_eq d closed
  have hhistory : (d.closeDocument closed).history = d.history ++ [.closed closed] := by rw [heq]
  have hcarried : ∀ {uri generation}, (d.closeDocument closed).generation? uri = some generation →
      uri ≠ closed ∧ d.generation? uri = some generation := by
    intro uri generation hg
    unfold generation? at hg ⊢
    rw [schedule?_closeDocument] at hg
    split at hg
    · cases hg
    · next hne => exact ⟨hne, hg⟩
  have hbegun : ∀ {m generation}, m ∈ (d.closeDocument closed).history →
      m.begun? = some generation → m ∈ d.history := by
    intro m generation hm hsome
    rcases List.mem_append.mp (hhistory ▸ hm) with hm | hm
    · exact hm
    · rw [List.mem_singleton.mp hm] at hsome
      cases hsome
  refine ⟨fun hg => ?_, fun hm hsome => ?_, fun hg hm => ?_, ?_, ?_, ?_⟩
  · rw [heq]
    exact h.carried_le (hcarried hg).2
  · rw [heq]
    exact h.begun_le (hbegun hm hsome) hsome
  · obtain ⟨hne, hg⟩ := hcarried hg
    obtain ⟨rfl, hcurrent⟩ := h.current hg (hbegun hm rfl)
    rw [hhistory]
    exact ⟨rfl, hcurrent.append (by simp [Mark.begun?]) (by simpa [Mark.outdates] using hne.symm)⟩
  · rw [hhistory, heq, isOn_append]
    exact h.enabled_eq
  · rw [hhistory, heq]
    simpa [List.filterMap_append, List.filterMap_cons, Event.published?, Mark.published?] using
      h.told
  · rw [hhistory]
    exact h.publishedCurrent.append_unpublished (by simp [Mark.published?])

/-- Only a current pass publishes, so what is published is current. -/
theorem PassesOrdered.publish {d : Desk} (h : d.PassesOrdered) {c : Collection} {generation : Nat}
    (hbegun : .began c.document generation ∈ d.history) (violations : List Violation) :
    (d.publish c generation violations).PassesOrdered := by
  unfold Desk.publish
  dsimp only
  split
  · next hguard =>
      obtain ⟨hon, hcarries⟩ := Bool.and_eq_true_iff.mp hguard
      obtain ⟨-, hcurrent⟩ := h.current (carries_iff.mp hcarries) hbegun
      refine ⟨h.carried_le, fun hm hsome => ?_, fun hg hm => ?_, ?_, ?_, ?_⟩
      · rcases List.mem_append.mp hm with hm | hm
        · exact h.begun_le hm hsome
        · rw [List.mem_singleton.mp hm] at hsome
          cases hsome
      · rcases List.mem_append.mp hm with hm | hm
        · obtain ⟨huri, hcurrent⟩ := h.current hg hm
          exact ⟨huri, hcurrent.append (by simp [Mark.begun?]) rfl⟩
        · cases List.mem_singleton.mp hm
      · change d.enabled = isOn (d.history ++ [_])
        rw [isOn_append]
        exact h.enabled_eq
      · change (d.events ++ [_]).filterMap _ = (d.history ++ [_]).filterMap _
        simp [List.filterMap_append, h.told, Event.published?, Mark.published?]
      · refine h.publishedCurrent.append fun document generation heq => ?_
        cases heq
        exact ⟨h.enabled_eq ▸ hon, hcurrent⟩
  · exact h

/-- Every change to the pass state keeps passes in order. -/
theorem PassesOrdered.passChange {S : Document → Prop} {d d' : Desk} (h : d.PassesOrdered)
    (ht : PassChange S d d') : d'.PassesOrdered := by
  cases ht with
  | same hb =>
      exact h.congr (fun uri _ hg => .inl (generation?_congr hb uri ▸ hg))
        (congrArg PassState.generation hb) (congrArg PassState.enabled hb)
        (congrArg PassState.events hb) (congrArg PassState.history hb)
  | spawns agenda _ _ => exact h.congr (fun _ _ hg => .inl hg) rfl rfl rfl rfl
  | opens document _ => exact h.openPass document
  | drops uri =>
      have hcarried := generation?_dropPending d uri
      obtain ⟨schedules, tasks, ready, timers, heq⟩ := dropPending_eq d uri
      refine h.congr (fun u generation hg => .inl (hcarried u ▸ hg)) ?_ ?_ ?_ ?_ <;> rw [heq]
  | delays document _ =>
      obtain ⟨tasks, ready, timers, heq⟩ := lintSoon_eq d document
      refine h.congr (fun uri generation hg => ?_) ?_ ?_ ?_ ?_
      · unfold generation? at hg ⊢
        rw [schedule?_lintSoon] at hg
        split at hg
        · next huri =>
            subst huri
            cases hs : d.schedule? document.uri with
            | none =>
                rw [hs] at hg
                exact .inr (Option.some.inj hg).symm
            | some s =>
                rw [hs] at hg
                exact .inl hg
        · exact .inl hg
      all_goals rw [heq]; rfl
  | publishes c generation violations hbegun => exact h.publish hbegun violations
  | clears => exact h.clearAll
  | enables => exact h.enable
  | disables => exact h.disable
  | closes uri => exact h.close uri

end Desk

end LintDesk
