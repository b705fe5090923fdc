import LintDesk.Proofs.Desk.IgnoreChanges

/-! # Reading ignore files

An ignore file is read by a task of its own, which is started when the reading is reserved, and
which lets the visible documents be linted again when the file has been read. Whatever happens
between these moments: a set made from an ignore file holds one predicate at most, which was read
since the ignore sets were last forgotten, and the file causes one refresh at most until they are
forgotten again (`ignore_files_read_once`).

Runs are those in which nobody but the desk changes its ignore sets; the desk's own order of tasks
is one of them (`perform_ownRun`).
-/

namespace LintDesk

/-- A path is that of the ignore file of a key. -/
def IgnoreKey.HasFile (key : IgnoreKey) (path : Path) : Prop :=
  ∃ (c : Collection) (name : String), c.settings.ignoring = .file name ∧ key = c.ignoreKey ∧
    path = c.ignorePath name

namespace Desk

/-! ### Who reads -/

/-- A task that reads an ignore file does nothing else. While the epoch lasts for which the file is
read, the set is still empty and no other task reads it. `P` tells which predicates sets may hold,
and `T` which tasks may take the text of which file. -/
structure ReservedReads (P : Nat → IgnoreKey → IgnorePredicate → Prop)
    (T : Nat → IgnoreKey → Nat → Path → Prop) (d : Desk) : Prop where
  reading : ∀ {task a key epoch path}, d.Holds task a → a.reading? = some (key, epoch, path) →
    d.agenda? task = some [a] ∧ epoch ≤ d.ignores.epoch ∧ key.HasFile path ∧
      (a = .take (.ignoreFile key epoch path) → T task key epoch path)
  reserved : ∀ {task a key path}, d.Holds task a →
    a.reading? = some (key, d.ignores.epoch, path) →
      ∃ e, d.ignores.find? key = some e ∧ e.fileAsked = true ∧ e.set = []
  alone : ∀ {task task' a a' key path path'}, d.Holds task a → d.Holds task' a' →
    a.reading? = some (key, d.ignores.epoch, path) →
      a'.reading? = some (key, d.ignores.epoch, path') → task = task'
  sets : ∀ {key name e}, key.setting = .file name → d.ignores.find? key = some e →
    (e.fileAsked = false → e.set = []) ∧
      (e.set = [] ∨ ∃ p, e.set = [p] ∧ P d.ignores.epoch key p)

variable {P P' : Nat → IgnoreKey → IgnorePredicate → Prop}
  {T T' : Nat → IgnoreKey → Nat → Path → Prop} {d d' : Desk}

theorem IsFresh.reservedReads (h : d.IsFresh) (hempty : d.ignores.entries = []) :
    d.ReservedReads P T := by
  have hnone : ∀ {task a}, ¬d.Holds task a := by
    rintro task a ⟨agenda, hagenda, -⟩
    rw [agenda?, h.tasks] at hagenda
    cases hagenda
  refine ⟨fun hh => absurd hh hnone, fun hh => absurd hh hnone, fun hh => absurd hh hnone, ?_⟩
  intro key name e _ he
  simp [IgnoreCache.find?, hempty] at he

theorem ReservedReads.mono (h : d.ReservedReads P T)
    (hP : ∀ epoch key p, P epoch key p → P' epoch key p)
    (hT : ∀ task key epoch path, T task key epoch path → T' task key epoch path) :
    d.ReservedReads P' T' := by
  refine ⟨fun hh hreads => ?_, h.reserved, h.alone, fun hkey he => ?_⟩
  · obtain ⟨hagenda, hepoch, hfile, htake⟩ := h.reading hh hreads
    exact ⟨hagenda, hepoch, hfile, fun ha => hT _ _ _ _ (htake ha)⟩
  · obtain ⟨hasked, hset⟩ := h.sets hkey he
    refine ⟨hasked, hset.imp_right ?_⟩
    rintro ⟨p, hp, hmay⟩
    exact ⟨p, hp, hP _ _ _ hmay⟩

theorem KeepsIgnores.holds (h : KeepsIgnores d d') {task : Nat} {a : Action} (hh : d'.Holds task a)
    (hreads : a.reading? ≠ none) : d.Holds task a := by
  obtain ⟨agenda, hagenda, ha⟩ := hh
  exact ⟨agenda, h.agenda task agenda hagenda ⟨a, ha, hreads⟩, ha⟩

theorem ReservedReads.keepsIgnores (h : d.ReservedReads P T) (hq : KeepsIgnores d d') :
    d'.ReservedReads P T := by
  have hholds : ∀ {task a key epoch path}, d'.Holds task a →
      a.reading? = some (key, epoch, path) → d.Holds task a :=
    fun hh hreads => hq.holds hh (by simp [hreads])
  refine ⟨fun hh hreads => ?_, ?_, ?_, ?_⟩
  · obtain ⟨hagenda, hrest⟩ := h.reading (hholds hh hreads) hreads
    obtain ⟨agenda, hagenda', ha⟩ := hh
    have hsame := hq.agenda _ agenda hagenda' ⟨_, ha, by simp [hreads]⟩
    rw [hq.ignores]
    exact ⟨(hagenda'.trans hsame.symm).trans hagenda, hrest⟩
  · rw [hq.ignores]
    exact fun hh hreads => h.reserved (hholds hh hreads) hreads
  · rw [hq.ignores]
    exact fun hh hh' hreads hreads' =>
      h.alone (hholds hh hreads) (hholds hh' hreads') hreads hreads'
  · rw [hq.ignores]
    exact h.sets

theorem ReservedReads.gets (h : d.ReservedReads P T) (key : IgnoreKey) :
    ReservedReads P T { d with ignores := (d.ignores.get key).2 } := by
  refine ⟨?_, ?_, ?_, ?_⟩
  all_goals rw [IgnoreCache.epoch_get]
  · exact h.reading
  · intro task a k path hh hreads
    obtain ⟨e, he, hentry⟩ := h.reserved hh hreads
    exact ⟨e, by simp [IgnoreCache.find?_get, he], hentry⟩
  · exact h.alone
  · intro k name e hk he
    rw [IgnoreCache.find?_get] at he
    rcases Option.or_eq_some_iff.mp he with hold | ⟨-, hnew⟩
    · exact h.sets hk hold
    · split at hnew
      · next heq =>
          obtain rfl := Option.some.inj hnew
          rw [← heq, hk]
          exact ⟨fun _ => rfl, .inl rfl⟩
      · cases hnew

theorem ReservedReads.forgets (h : d.ReservedReads P T) : d.forgetIgnores.ReservedReads P T := by
  -- what is read is read for an epoch that is over
  have hover : ∀ {task a key path}, d.Holds task a →
      a.reading? ≠ some (key, d.ignores.epoch + 1, path) := by
    intro task a key path hh hreads
    exact absurd (h.reading hh hreads).2.1 (Nat.not_succ_le_self _)
  refine ⟨fun hh hreads => ?_, fun hh hreads => absurd hreads (hover hh),
    fun hh _ hreads _ => absurd hreads (hover hh), fun _ he => by cases he⟩
  obtain ⟨hagenda, hepoch, hrest⟩ := h.reading (d := d) hh hreads
  exact ⟨hagenda, Nat.le_succ_of_le hepoch, hrest⟩

/-! ### Reserving -/

/-- The desk on which the reading of an ignore file is reserved, and left to a task of its own. -/
def startRead (d : Desk) (c : Collection) (name : String) : Desk :=
  (spawn { d with ignores := d.ignores.modify c.ignoreKey fun e => { e with fileAsked := true } }
    [.ask (.ignoreFile c.ignoreKey d.ignores.epoch (c.ignorePath name))]).2

section Reserving

variable {c : Collection} {name : String}

theorem find?_startRead (d : Desk) (c : Collection) (name : String) (key : IgnoreKey) :
    (d.startRead c name).ignores.find? key =
      if key = c.ignoreKey then (d.ignores.find? key).map fun e => { e with fileAsked := true }
      else d.ignores.find? key :=
  d.ignores.find?_modify c.ignoreKey key fun _ => rfl

theorem agenda?_of_startRead {task : Nat} {agenda : List Action}
    (h : (d.startRead c name).agenda? task = some agenda) :
    d.agenda? task = some agenda ∨ task = d.nextTask ∧
      agenda = [.ask (.ignoreFile c.ignoreKey d.ignores.epoch (c.ignorePath name))] := by
  rw [startRead, agenda?_spawn] at h
  exact agenda?_of_join h

theorem holds_of_startRead {task : Nat} {a : Action} (h : (d.startRead c name).Holds task a) :
    d.Holds task a ∨ task = d.nextTask ∧
      a = .ask (.ignoreFile c.ignoreKey d.ignores.epoch (c.ignorePath name)) := by
  obtain ⟨agenda, hagenda, ha⟩ := h
  rcases agenda?_of_startRead hagenda with hold | ⟨htask, rfl⟩
  · exact .inl ⟨agenda, hold, ha⟩
  · exact .inr ⟨htask, List.mem_singleton.mp ha⟩

/-- Who reserves a reading starts it, and nobody has reserved it before. -/
theorem reserve_eq_startRead (name : String)
    (hreserve : (d.ignores.reserve c.ignoreKey d.ignores.epoch).1 = true) :
    (spawn { d with ignores := (d.ignores.reserve c.ignoreKey d.ignores.epoch).2 }
      [.ask (.ignoreFile c.ignoreKey d.ignores.epoch (c.ignorePath name))]).2 =
        d.startRead c name ∧
      ∃ e, d.ignores.find? c.ignoreKey = some e ∧ e.fileAsked = false := by
  rcases d.ignores.reserve_cases c.ignoreKey d.ignores.epoch with hfalse | ⟨-, hfree, htrue⟩
  · rw [hfalse] at hreserve
    cases hreserve
  · rw [htrue]
    exact ⟨rfl, hfree⟩

theorem ReservedReads.not_reads (h : d.ReservedReads P T) {e : IgnoreEntry} {key : IgnoreKey}
    (he : d.ignores.find? key = some e) (hnew : e.fileAsked = false) {task : Nat} {a : Action}
    {path : Path} (hh : d.Holds task a) : a.reading? ≠ some (key, d.ignores.epoch, path) := by
  intro hreads
  obtain ⟨e', he', hasked, -⟩ := h.reserved hh hreads
  obtain rfl := Option.some.inj (he.symm.trans he')
  rw [hnew] at hasked
  cases hasked

theorem ReservedReads.reading_startRead (h : d.ReservedReads P T)
    (hname : c.settings.ignoring = .file name) {task epoch : Nat} {a : Action} {key : IgnoreKey}
    {path : Path} (hh : (d.startRead c name).Holds task a)
    (hreads : a.reading? = some (key, epoch, path)) :
    (d.startRead c name).agenda? task = some [a] ∧ epoch ≤ d.ignores.epoch ∧ key.HasFile path ∧
      (a = .take (.ignoreFile key epoch path) → T task key epoch path) := by
  obtain ⟨agenda, hagenda, ha⟩ := hh
  rcases agenda?_of_startRead hagenda with hold | ⟨rfl, rfl⟩
  · obtain ⟨hagenda', hrest⟩ := h.reading ⟨agenda, hold, ha⟩ hreads
    obtain rfl := Option.some.inj (hold.symm.trans hagenda')
    exact ⟨hagenda, hrest⟩
  · obtain rfl := List.mem_singleton.mp ha
    cases hreads
    exact ⟨hagenda, Nat.le_refl _, ⟨c, name, hname, rfl, rfl⟩, nofun⟩

theorem ReservedReads.reserved_startRead (h : d.ReservedReads P T) {e : IgnoreEntry}
    (he : d.ignores.find? c.ignoreKey = some e) (hnew : e.fileAsked = false) (hempty : e.set = [])
    {task : Nat} {a : Action} {key : IgnoreKey} {path : Path}
    (hh : (d.startRead c name).Holds task a)
    (hreads : a.reading? = some (key, d.ignores.epoch, path)) :
    ∃ e, (d.startRead c name).ignores.find? key = some e ∧ e.fileAsked = true ∧ e.set = [] := by
  rw [find?_startRead]
  rcases holds_of_startRead hh with hold | ⟨rfl, rfl⟩
  · obtain ⟨e', he', hasked, hset⟩ := h.reserved hold hreads
    have hkey : key ≠ c.ignoreKey := by
      rintro rfl
      exact h.not_reads he hnew hold hreads
    exact ⟨e', by simp [hkey, he'], hasked, hset⟩
  · cases hreads
    exact ⟨{ e with fileAsked := true }, by simp [he], rfl, hempty⟩

theorem ReservedReads.alone_startRead (h : d.ReservedReads P T) {e : IgnoreEntry}
    (he : d.ignores.find? c.ignoreKey = some e) (hnew : e.fileAsked = false) {task task' : Nat}
    {a a' : Action} {key : IgnoreKey} {path path' : Path} (hh : (d.startRead c name).Holds task a)
    (hh' : (d.startRead c name).Holds task' a')
    (hreads : a.reading? = some (key, d.ignores.epoch, path))
    (hreads' : a'.reading? = some (key, d.ignores.epoch, path')) : task = task' := by
  rcases holds_of_startRead hh with hold | ⟨rfl, rfl⟩
  · rcases holds_of_startRead hh' with hold' | ⟨-, rfl⟩
    · exact h.alone hold hold' hreads hreads'
    · cases hreads'
      exact absurd hreads (h.not_reads he hnew hold)
  · rcases holds_of_startRead hh' with hold' | ⟨rfl, -⟩
    · cases hreads
      exact absurd hreads' (h.not_reads he hnew hold')
    · rfl

theorem ReservedReads.sets_startRead (h : d.ReservedReads P T) {e : IgnoreEntry}
    (he : d.ignores.find? c.ignoreKey = some e) (hempty : e.set = []) {key : IgnoreKey}
    {name' : String} {e' : IgnoreEntry} (hkey : key.setting = .file name')
    (he' : (d.startRead c name).ignores.find? key = some e') :
    (e'.fileAsked = false → e'.set = []) ∧
      (e'.set = [] ∨ ∃ p, e'.set = [p] ∧ P d.ignores.epoch key p) := by
  rw [find?_startRead] at he'
  by_cases heq : key = c.ignoreKey
  · rw [if_pos heq, heq, he] at he'
    obtain rfl := Option.some.inj he'
    exact ⟨nofun, .inl hempty⟩
  · rw [if_neg heq] at he'
    exact h.sets hkey he'

/-- Who reserves the reading of a file is the only one to read it. -/
theorem ReservedReads.reserves (h : d.ReservedReads P T) (hname : c.settings.ignoring = .file name)
    (hreserve : (d.ignores.reserve c.ignoreKey d.ignores.epoch).1 = true) :
    ReservedReads P T ({ d with ignores := (d.ignores.reserve c.ignoreKey d.ignores.epoch).2 }.spawn
      [.ask (.ignoreFile c.ignoreKey d.ignores.epoch (c.ignorePath name))]).2 := by
  obtain ⟨heq, e, he, hnew⟩ := reserve_eq_startRead name hreserve
  have hempty : e.set = [] := (h.sets hname he).1 hnew
  rw [heq]
  exact {
    reading := h.reading_startRead hname
    reserved := h.reserved_startRead he hnew hempty
    alone := h.alone_startRead he hnew
    sets := h.sets_startRead he hempty }

end Reserving

theorem ReservedReads.ignoreChange (h : d.ReservedReads P T) (hchange : IgnoreChange d d') :
    d'.ReservedReads P T := by
  cases hchange with
  | keepsIgnores hq => exact h.keepsIgnores hq
  | gets key => exact h.gets key
  | reserves hname hreserve => exact h.reserves hname hreserve
  | forgets => exact h.forgets

theorem ReservedReads.ignoreChanges (h : d.ReservedReads P T) (hchanges : IgnoreChanges d d') :
    d'.ReservedReads P T := by
  induction hchanges with
  | refl => exact h
  | tail _ hchange ih => exact ih.ignoreChange hchange

/-! ### Reading -/

/-- The desk with one more predicate in the set of a key. -/
def addIgnore (d : Desk) (key : IgnoreKey) (p : IgnorePredicate) : Desk :=
  { d with ignores := d.ignores.modify key fun e => { e with set := e.set ++ [p] } }

theorem find?_addIgnore (d : Desk) (key k : IgnoreKey) (p : IgnorePredicate) :
    (d.addIgnore key p).ignores.find? k =
      if k = key then (d.ignores.find? k).map fun e => { e with set := e.set ++ [p] }
      else d.ignores.find? k :=
  d.ignores.find?_modify key k fun _ => rfl

/-- The task that waits for a file takes the place of the one that asked for it. -/
theorem ReservedReads.asks (h : d.ReservedReads P T) {task epoch : Nat} {key : IgnoreKey}
    {path : Path} (hagenda : d.agenda? task = some [.ask (.ignoreFile key epoch path)])
    (hT : T task key epoch path) :
    (d.setAgenda task [.take (.ignoreFile key epoch path)]).ReservedReads P T := by
  have hask : d.Holds task (.ask (.ignoreFile key epoch path)) :=
    ⟨_, hagenda, List.mem_singleton_self _⟩
  have hset : (d.setAgenda task [.take (.ignoreFile key epoch path)]).agenda? task =
      some [.take (.ignoreFile key epoch path)] := by
    simp [agenda?_setAgenda, hagenda]
  have hfrom : ∀ {other a}, (d.setAgenda task [.take (.ignoreFile key epoch path)]).Holds other a →
      other = task ∧ a = .take (.ignoreFile key epoch path) ∨ other ≠ task ∧ d.Holds other a := by
    rintro other a ⟨agenda, hsome, ha⟩
    rcases agenda?_of_setAgenda hsome with ⟨hother, rfl⟩ | ⟨hother, hold⟩
    · exact .inl ⟨hother, List.mem_singleton.mp ha⟩
    · exact .inr ⟨hother, agenda, hold, ha⟩
  -- who reads now was reading the same file before
  have hreader : ∀ {other a},
      (d.setAgenda task [.take (.ignoreFile key epoch path)]).Holds other a →
        ∃ b, d.Holds other b ∧ b.reading? = a.reading? := by
    intro other a hh
    rcases hfrom hh with ⟨rfl, rfl⟩ | ⟨-, hold⟩
    · exact ⟨_, hask, rfl⟩
    · exact ⟨a, hold, rfl⟩
  refine ⟨fun hh hreads => ?_, fun hh hreads => ?_, fun hh hh' hreads hreads' => ?_, h.sets⟩
  · rcases hfrom hh with ⟨rfl, rfl⟩ | ⟨hother, hold⟩
    · cases hreads
      obtain ⟨-, hepoch, hfile, -⟩ := h.reading hask rfl
      exact ⟨hset, hepoch, hfile, fun _ => hT⟩
    · obtain ⟨hsame, hrest⟩ := h.reading hold hreads
      exact ⟨by rw [agenda?_setAgenda, if_neg hother, hsame], hrest⟩
  · obtain ⟨b, hold, hb⟩ := hreader hh
    exact h.reserved hold (hb.trans hreads)
  · obtain ⟨b, hold, hb⟩ := hreader hh
    obtain ⟨b', hold', hb'⟩ := hreader hh'
    exact h.alone hold hold' (hb.trans hreads) (hb'.trans hreads')

/-- What was read is put into the set that was reserved for it. -/
theorem ReservedReads.appends (h : d.ReservedReads P T) {task : Nat} {key : IgnoreKey} {path : Path}
    {p : IgnorePredicate}
    (hagenda : d.agenda? task = some [.take (.ignoreFile key d.ignores.epoch path)])
    (hP : P d.ignores.epoch key p) {agenda : List Action}
    (hnext : ∀ a ∈ agenda, a.reading? = none) :
    ((d.addIgnore key p).setAgenda task agenda).ReservedReads P T := by
  have htake : d.Holds task (.take (.ignoreFile key d.ignores.epoch path)) :=
    ⟨_, hagenda, List.mem_singleton_self _⟩
  obtain ⟨e, he, hasked, hempty⟩ := h.reserved htake rfl
  have hfrom : ∀ {other found a}, ((d.addIgnore key p).setAgenda task agenda).agenda? other =
      some found → a ∈ found → a.reading? ≠ none →
        other ≠ task ∧ d.agenda? other = some found := by
    intro other found a hsome ha hreads
    rcases agenda?_of_setAgenda hsome with ⟨-, rfl⟩ | hold
    · exact absurd (hnext a ha) hreads
    · exact hold
  have hold : ∀ {other a read}, ((d.addIgnore key p).setAgenda task agenda).Holds other a →
      a.reading? = some read → other ≠ task ∧ d.Holds other a := by
    rintro other a read ⟨found, hsome, ha⟩ hreads
    obtain ⟨hother, hfound⟩ := hfrom hsome ha (by simp [hreads])
    exact ⟨hother, found, hfound, ha⟩
  refine ⟨?_, ?_, ?_, ?_⟩
  · rintro other a k epoch path' ⟨found, hsome, ha⟩ hreads
    obtain ⟨-, hfound⟩ := hfrom hsome ha (by simp [hreads])
    obtain ⟨hsame, hrest⟩ := h.reading ⟨found, hfound, ha⟩ hreads
    exact ⟨(hsome.trans hfound.symm).trans hsame, hrest⟩
  · intro other a k path' hh hreads
    obtain ⟨hother, hheld⟩ := hold hh hreads
    obtain ⟨e', he', hentry⟩ := h.reserved hheld hreads
    by_cases hk : k = key
    · subst hk
      exact absurd (h.alone hheld htake hreads rfl) hother
    · exact ⟨e', (d.find?_addIgnore key k p).trans (by simp [hk, he']), hentry⟩
  · intro other other' a a' k path₁ path₂ hh hh' hreads hreads'
    exact h.alone (hold hh hreads).2 (hold hh' hreads').2 hreads hreads'
  · intro k name e' hk he'
    replace he' := (d.find?_addIgnore key k p).symm.trans he'
    by_cases heq : k = key
    · rw [if_pos heq, heq, he] at he'
      obtain rfl := Option.some.inj he'
      refine ⟨fun hnot => ?_, .inr ⟨p, by simp [hempty], heq ▸ hP⟩⟩
      rw [hasked] at hnot
      cases hnot
    · rw [if_neg heq] at he'
      exact h.sets hk he'

/-- To ask for a file is to wait for its text. -/
theorem makeCall_ignoreFile (d : Desk) (task : Nat) (key : IgnoreKey) (epoch : Nat) (path : Path) :
    let e := d.makeCall task (.ignoreFile key epoch path)
    e.desk.tasks = d.tasks ∧ e.desk.ignores = d.ignores ∧
      e.next = [.take (.ignoreFile key epoch path)] := by
  refine ⟨congrArg PassState.tasks (passState_after _ _ _ _), ?_, next_after _ _ _ _⟩
  exact ((keepsIgnores_after _ _ _ _).after_same rfl rfl).ignores

/-- A file that was read is appended to its set and causes a refresh, or nothing comes of it. -/
theorem takeCall_ignoreFile (d : Desk) (task : Nat) (key : IgnoreKey) (epoch : Nat) (path : Path) :
    let e := d.takeCall task (.ignoreFile key epoch path)
    (e.desk.passState = d.passState ∧ e.desk.ignores = d.ignores ∧ e.next = []) ∨
    ∃ contents, d.files.layer.read path = .ok contents ∧ d.ignores.epoch = epoch ∧
      e = (d.addIgnore key (.ofFile contents)).startRefresh := by
  unfold takeCall
  dsimp only
  cases hread : d.files.layer.read path with
  | ok contents =>
      dsimp only [ignoreFilePredicate]
      rcases d.ignores.append_cases key epoch (.ofFile contents) with
        hfalse | ⟨hepoch, -, htrue⟩
      · rw [hfalse]
        exact .inl ⟨rfl, rfl, rfl⟩
      · rw [htrue]
        exact .inr ⟨contents, rfl, hepoch, rfl⟩
  | error fault =>
      refine .inl ?_
      by_cases hmissing : fault.isNotFound
      · simp [ignoreFilePredicate, hmissing]
      · simp [ignoreFilePredicate, hmissing, passState]

/-! ### Moves -/

theorem advance_of_agenda {task : Nat} {a : Action} {rest : List Action}
    (h : d.agenda? task = some (a :: rest)) :
    (d.advance task).tasks =
      ((d.act task a).desk.setAgenda task ((d.act task a).next ++ rest)).tasks ∧
    (d.advance task).ignores = (d.act task a).desk.ignores ∧
    (d.advance task).history = (d.act task a).desk.history := by
  obtain ⟨running, heq⟩ := advance_eq h
  rw [heq]
  exact ⟨rfl, rfl, rfl⟩

theorem keepsIgnores_advance {task : Nat} {a : Action} {rest : List Action}
    (hagenda : d.agenda? task = some (a :: rest)) :
    KeepsIgnores ((d.act task a).desk.setAgenda task ((d.act task a).next ++ rest))
      (d.advance task) := by
  obtain ⟨htasks, hignores, -⟩ := advance_of_agenda hagenda
  exact .of_tasks htasks hignores

/-- Whoever reads an ignore file has nothing else to do. -/
theorem ReservedReads.reads_only (h : d.ReservedReads P T) {task : Nat} {a b : Action}
    {rest : List Action} (hagenda : d.agenda? task = some (a :: rest)) (hb : b ∈ a :: rest)
    (hreads : b.reading? ≠ none) : a = b ∧ rest = [] := by
  obtain ⟨⟨key, epoch, path⟩, hread⟩ := Option.ne_none_iff_exists'.mp hreads
  have hone := (h.reading ⟨_, hagenda, hb⟩ hread).1
  rw [hagenda] at hone
  simpa using hone

theorem ReservedReads.ignoreChanges_advance (h : d.ReservedReads P T) {task : Nat} {a : Action}
    {rest : List Action} (hagenda : d.agenda? task = some (a :: rest))
    (hreads : a.reading? = none) : IgnoreChanges d (d.advance task) := by
  obtain ⟨hdesk, hnext⟩ := noReadEffect_act d task hreads
  refine hdesk.tail (.keepsIgnores (.trans ?_ (keepsIgnores_advance hagenda)))
  refine keepsIgnores_setAgenda _ task fun b hb => ?_
  rcases List.mem_append.mp hb with hb | hb
  · exact hnext b hb
  · by_contra hread
    rw [(h.reads_only hagenda (List.mem_cons_of_mem a hb) hread).2] at hb
    cases hb

theorem keepsIgnores_advance_ask {task : Nat} {key : IgnoreKey} {epoch : Nat} {path : Path}
    (hagenda : d.agenda? task = some [.ask (.ignoreFile key epoch path)]) :
    KeepsIgnores (d.setAgenda task [.take (.ignoreFile key epoch path)]) (d.advance task) := by
  refine .trans ?_ (keepsIgnores_advance hagenda)
  obtain ⟨htasks, hignores, hnext⟩ := makeCall_ignoreFile d task key epoch path
  change KeepsIgnores _ ((d.makeCall task _).desk.setAgenda task ((d.makeCall task _).next ++ []))
  rw [hnext]
  exact .setAgenda htasks hignores task _

theorem advance_take_ways {task : Nat} {key : IgnoreKey} {epoch : Nat} {path : Path}
    (hagenda : d.agenda? task = some [.take (.ignoreFile key epoch path)]) :
    IgnoreChanges d (d.advance task) ∨
      ∃ contents, epoch = d.ignores.epoch ∧ d.files.layer.read path = .ok contents ∧
        KeepsIgnores ((d.addIgnore key (.ofFile contents)).setAgenda task [.lintVisible])
          (d.advance task) := by
  have hdone := keepsIgnores_advance hagenda
  change KeepsIgnores ((d.takeCall task _).desk.setAgenda task
    ((d.takeCall task _).next ++ [])) _ at hdone
  rcases takeCall_ignoreFile d task key epoch path with
    ⟨hpassState, hignores, hnext⟩ | ⟨contents, hread, rfl, heffect⟩
  · rw [hnext] at hdone
    have hend : KeepsIgnores (d.takeCall task (.ignoreFile key epoch path)).desk _ :=
      (keepsIgnores_setAgenda _ task (by simp)).trans hdone
    exact .inl ((KeepsIgnores.of_passState hpassState hignores).trans hend).ignoreChanges
  · rw [heffect] at hdone
    refine .inr ⟨contents, rfl, hread, .trans ?_ hdone⟩
    exact .of_tasks rfl rfl

/-- All that a task can do where those who read ignore files do nothing else. -/
theorem ReservedReads.advance_ways (h : d.ReservedReads P T) (task : Nat) :
    IgnoreChanges d (d.advance task) ∨
    (∃ key epoch path, d.agenda? task = some [.ask (.ignoreFile key epoch path)] ∧
      KeepsIgnores (d.setAgenda task [.take (.ignoreFile key epoch path)]) (d.advance task)) ∨
    ∃ key path contents, d.agenda? task = some [.take (.ignoreFile key d.ignores.epoch path)] ∧
      d.files.layer.read path = .ok contents ∧
      KeepsIgnores ((d.addIgnore key (.ofFile contents)).setAgenda task [.lintVisible])
        (d.advance task) := by
  match hagenda : d.agenda? task with
  | none =>
      rw [advance_of_gone hagenda]
      exact .inl (KeepsIgnores.ignoreChanges (.of_tasks rfl rfl))
  | some [] =>
      rw [advance_of_done hagenda]
      exact .inl (keepsIgnores_finishTask d task).ignoreChanges
  | some (a :: rest) =>
      match hreads : a.reading? with
      | none => exact .inl (h.ignoreChanges_advance hagenda hreads)
      | some (key, epoch, path) =>
          obtain rfl : rest = [] := (h.reads_only hagenda List.mem_cons_self (by simp [hreads])).2
          rcases Action.reading?_cases hreads with rfl | rfl
          · exact .inr (.inl ⟨key, epoch, path, rfl, keepsIgnores_advance_ask hagenda⟩)
          · rcases advance_take_ways hagenda with hchanges | ⟨contents, rfl, hread, hkeeps⟩
            · exact .inl hchanges
            · exact .inr (.inr ⟨key, path, contents, rfl, hread, hkeeps⟩)

theorem ReservedReads.advance (h : d.ReservedReads P T) (task : Nat)
    (hP : ∀ epoch key p, P epoch key p → P' epoch key p)
    (hT : ∀ task key epoch path, T task key epoch path → T' task key epoch path)
    (hasks : ∀ {key epoch path}, d.agenda? task = some [.ask (.ignoreFile key epoch path)] →
      epoch ≤ d.ignores.epoch → T' task key epoch path)
    (hreads : ∀ {key path contents},
      d.agenda? task = some [.take (.ignoreFile key d.ignores.epoch path)] →
      T task key d.ignores.epoch path → key.HasFile path →
      d.files.layer.read path = .ok contents → P' d.ignores.epoch key (.ofFile contents)) :
    (d.advance task).ReservedReads P' T' := by
  have hmono := h.mono hP hT
  rcases h.advance_ways task with hchanges | ⟨key, epoch, path, hagenda, hq⟩ |
    ⟨key, path, contents, hagenda, hread, hq⟩
  · exact hmono.ignoreChanges hchanges
  · have hepoch := (h.reading ⟨_, hagenda, List.mem_singleton_self _⟩ rfl).2.1
    exact (hmono.asks hagenda (hasks hagenda hepoch)).keepsIgnores hq
  · obtain ⟨-, -, hfile, htake⟩ := h.reading ⟨_, hagenda, List.mem_singleton_self _⟩ rfl
    exact (hmono.appends hagenda (hreads hagenda (htake rfl) hfile hread)
      (by simp [Action.reading?])).keepsIgnores hq

/-! ### Epochs -/

theorem IgnoreChange.grows (h : IgnoreChange d d') : d.ignores.Grows d'.ignores := by
  cases h with
  | keepsIgnores hq =>
      rw [hq.ignores]
      exact .refl _
  | gets key => exact d.ignores.grows_get key
  | reserves hname _ => exact d.ignores.grows_reserve _ _
  | forgets => exact d.ignores.grows_invalidate

theorem IgnoreChanges.grows (h : IgnoreChanges d d') : d.ignores.Grows d'.ignores := by
  induction h with
  | refl => exact .refl _
  | tail _ hchange ih => exact ih.trans hchange.grows

theorem grows_act (d : Desk) (task : Nat) (a : Action) :
    d.ignores.Grows (d.act task a).desk.ignores := by
  match hreads : a.reading? with
  | none => exact IgnoreChanges.grows (noReadEffect_act d task hreads).desk
  | some (key, epoch, path) =>
      rcases Action.reading?_cases hreads with rfl | rfl
      · exact (makeCall_ignoreFile d task key epoch path).2.1 ▸ .refl _
      · rcases takeCall_ignoreFile d task key epoch path with
          ⟨-, hignores, -⟩ | ⟨contents, -, -, heffect⟩
        · exact hignores ▸ .refl _
        · change d.ignores.Grows (d.takeCall task _).desk.ignores
          rw [heffect]
          exact d.ignores.grows_modify key (fun _ => rfl) fun _ => List.prefix_append _ _

theorem grows_advance (d : Desk) (task : Nat) : d.ignores.Grows (d.advance task).ignores := by
  match hagenda : d.agenda? task with
  | none =>
      rw [advance_of_gone hagenda]
      exact .refl _
  | some [] =>
      rw [advance_of_done hagenda]
      exact IgnoreChange.grows (.keepsIgnores (keepsIgnores_finishTask d task))
  | some (a :: rest) =>
      rw [(advance_of_agenda hagenda).2.1]
      exact grows_act d task a

/-! ### Runs -/

/-- One move of a run in which nobody but the desk changes its ignore sets. -/
inductive OwnMove : Desk → Desk → Prop where
  /-- A task does its next action. -/
  | works {d : Desk} (task : Nat) : OwnMove d (d.advance task)
  | hosts {d : Desk} (e : HostEvent) : OwnMove d (e.apply d)
  | forgets {d : Desk} : OwnMove d d.forgetIgnores
  /-- Something else changes: time, files, other caches, answers of the user. -/
  | drifts {d d' : Desk} (hpassState : d'.passState = d.passState)
      (hignores : d'.ignores = d.ignores) :
      OwnMove d d'

abbrev OwnRun : Desk → Desk → Prop :=
  Relation.ReflTransGen OwnMove

theorem perform_ownRun (calls : List Call) (fuel : Nat) (d : Desk) :
    OwnRun d (d.perform fuel (calls.map Call.action)) :=
  perform_order (fun _ task => .works task)
    (fun _ _ hpassState hignores => .drifts hpassState hignores) fuel (.hosts _)

theorem works_ownRun (tasks : List Nat) (d : Desk) : OwnRun d (d.works tasks) :=
  works_order (fun _ task => .works task) tasks d

theorem OwnMove.grows (h : OwnMove d d') : d.ignores.Grows d'.ignores := by
  cases h with
  | works task => exact grows_advance d task
  | hosts e => exact IgnoreChanges.grows (event_ignoreChanges d e)
  | forgets => exact d.ignores.grows_invalidate
  | drifts _ hignores => exact hignores ▸ .refl _

theorem OwnRun.grows (h : OwnRun d d') : d.ignores.Grows d'.ignores := by
  induction h with
  | refl => exact .refl _
  | tail _ hmove ih => exact ih.trans hmove.grows

/-- On the way from `d₀` to `d` a task asked for an ignore file, when its epoch had begun. -/
def Asked (d₀ d : Desk) (task : Nat) (key : IgnoreKey) (epoch : Nat) (path : Path) : Prop :=
  ∃ d₁, OwnRun d₀ d₁ ∧ d₁.agenda? task = some [.ask (.ignoreFile key epoch path)] ∧
    epoch ≤ d₁.ignores.epoch ∧ OwnRun (d₁.advance task) d

/-- On the way from `d₀` to `d` a predicate was read from the ignore file of a key: the file was
asked for in the given epoch, and its text came in the same epoch. As ignore sets are forgotten a
new epoch begins, so this is since they were last forgotten if the epoch is that of `d`. -/
def ReadIn (d₀ d : Desk) (epoch : Nat) (key : IgnoreKey) (p : IgnorePredicate) : Prop :=
  ∃ (d₁ d₂ : Desk) (task : Nat) (path : Path) (contents : String), key.HasFile path ∧
    OwnRun d₀ d₁ ∧ d₁.agenda? task = some [.ask (.ignoreFile key epoch path)] ∧
    d₁.ignores.epoch = epoch ∧
    OwnRun (d₁.advance task) d₂ ∧ d₂.agenda? task = some [.take (.ignoreFile key epoch path)] ∧
    d₂.ignores.epoch = epoch ∧ d₂.files.layer.read path = .ok contents ∧
    p = .ofFile contents ∧ OwnRun (d₂.advance task) d

theorem Asked.tail {d₀ : Desk} {task epoch : Nat} {key : IgnoreKey} {path : Path}
    (h : Asked d₀ d task key epoch path) (hmove : OwnMove d d') :
    Asked d₀ d' task key epoch path := by
  obtain ⟨d₁, hrun, hagenda, hepoch, hrest⟩ := h
  exact ⟨d₁, hrun, hagenda, hepoch, hrest.tail hmove⟩

theorem ReadIn.tail {d₀ : Desk} {epoch : Nat} {key : IgnoreKey} {p : IgnorePredicate}
    (h : ReadIn d₀ d epoch key p) (hmove : OwnMove d d') : ReadIn d₀ d' epoch key p := by
  obtain ⟨d₁, d₂, task, path, contents, hfile, hrun, hask, hepoch, hwait, htake, hepoch', hread, hp,
    hrest⟩ := h
  exact ⟨d₁, d₂, task, path, contents, hfile, hrun, hask, hepoch, hwait, htake, hepoch', hread, hp,
    hrest.tail hmove⟩

/-- A file whose text comes in the epoch for which it was asked has been asked for in it. -/
theorem Asked.readIn {d₀ : Desk} {task : Nat} {key : IgnoreKey} {path : Path} {contents : String}
    (h : Asked d₀ d task key d.ignores.epoch path) (hfile : key.HasFile path)
    (hagenda : d.agenda? task = some [.take (.ignoreFile key d.ignores.epoch path)])
    (hread : d.files.layer.read path = .ok contents) :
    ReadIn d₀ (d.advance task) d.ignores.epoch key (.ofFile contents) := by
  obtain ⟨d₁, hrun, hask, hbegun, hwait⟩ := h
  have hlater : d₁.ignores.epoch ≤ d.ignores.epoch :=
    ((grows_advance d₁ task).trans (OwnRun.grows hwait)).epoch
  exact ⟨d₁, d, task, path, contents, hfile, hrun, hask, Nat.le_antisymm hlater hbegun, hwait,
    hagenda, rfl, hread, rfl, .refl⟩

theorem reservedReads_of_ownRun {d₀ : Desk} (hfresh : d₀.IsFresh) (hempty : d₀.ignores.entries = [])
    (hrun : OwnRun d₀ d) : d.ReservedReads (ReadIn d₀ d) (Asked d₀ d) := by
  induction hrun with
  | refl => exact hfresh.reservedReads hempty
  | @tail d d' hprev hmove ih =>
      have hP : ∀ epoch key p, ReadIn d₀ d epoch key p → ReadIn d₀ d' epoch key p :=
        fun _ _ _ h => h.tail hmove
      have hT : ∀ task key epoch path, Asked d₀ d task key epoch path →
          Asked d₀ d' task key epoch path := fun _ _ _ _ h => h.tail hmove
      cases hmove with
      | works task =>
          refine ih.advance task hP hT ?_ ?_
          · intro key epoch path hagenda hepoch
            exact ⟨d, hprev, hagenda, hepoch, .refl⟩
          · intro key path contents hagenda hasked hfile hread
            exact hasked.readIn hfile hagenda hread
      | hosts e => exact (ih.mono hP hT).ignoreChanges (event_ignoreChanges d e)
      | forgets => exact (ih.mono hP hT).forgets
      | drifts hpassState hignores =>
          exact (ih.mono hP hT).keepsIgnores (.of_passState hpassState hignores)

/-! ### Refreshes -/

/-- A task takes the text of the ignore file of a key and refreshes the desk. -/
def Reloads (key : IgnoreKey) (d d' : Desk) : Prop :=
  ∃ task epoch path rest, d.agenda? task = some (.take (.ignoreFile key epoch path) :: rest) ∧
    d' = d.advance task ∧ d'.history = d.history ++ [.refreshed]

/-- A file that causes a refresh fills the empty set of its key. -/
theorem ReservedReads.reloads (h : d.ReservedReads P T) {key : IgnoreKey} (hr : Reloads key d d') :
    ∃ e p, d.ignores.find? key = some e ∧ e.set = [] ∧
      d'.ignores.find? key = some { e with set := [p] } ∧ d'.ignores.epoch = d.ignores.epoch := by
  obtain ⟨task, epoch, path, rest, hagenda, rfl, hhistory⟩ := hr
  obtain ⟨-, hignores, hmarks⟩ := advance_of_agenda hagenda
  rcases takeCall_ignoreFile d task key epoch path with
    ⟨hpassState, -, -⟩ | ⟨contents, -, rfl, heffect⟩
  · have hsame : (d.advance task).history = d.history :=
      hmarks.trans (congrArg PassState.history hpassState)
    simp [hsame] at hhistory
  · obtain ⟨e, he, -, hset⟩ := h.reserved ⟨_, hagenda, List.mem_cons_self⟩ rfl
    have hadded : (d.advance task).ignores = (d.addIgnore key (.ofFile contents)).ignores :=
      hignores.trans (congrArg (·.desk.ignores) heffect)
    rw [hadded, find?_addIgnore]
    exact ⟨e, .ofFile contents, he, hset, by simp [he, hset], rfl⟩

theorem Reloads.ownMove {key : IgnoreKey} (h : Reloads key d d') : OwnMove d d' := by
  obtain ⟨task, -, -, -, -, rfl, -⟩ := h
  exact .works task

/-- A second refresh on account of a file needs a new epoch. -/
theorem ReservedReads.epoch_lt_of_reloads (h : d.ReservedReads P T) {d₁ d₂ d₃ : Desk}
    {key : IgnoreKey} (hfirst : Reloads key d d₁) (hrun : OwnRun d₁ d₂)
    (h₂ : d₂.ReservedReads P' T') (hsecond : Reloads key d₂ d₃) :
    d.ignores.epoch < d₂.ignores.epoch := by
  obtain ⟨e, p, -, -, hfilled, hepoch⟩ := h.reloads hfirst
  obtain ⟨e', -, he', hempty, -, -⟩ := h₂.reloads hsecond
  have hgrows := OwnRun.grows hrun
  refine Nat.lt_of_le_of_ne (hepoch ▸ hgrows.epoch) fun hsame => ?_
  -- in the same epoch the set would still hold what the first refresh was for
  obtain ⟨e'', he'', hprefix⟩ := hgrows.sets (hsame.symm.trans hepoch.symm) key _ hfilled
  obtain rfl := Option.some.inj (he'.symm.trans he'')
  rw [hempty] at hprefix
  simp at hprefix

/-- In an epoch the reading of an ignore file is reserved once for a key, and the set of a key is
what its setting compiles to, followed by what was appended in that epoch. So a set made from an
ignore file holds one predicate at most, which was read in the present epoch, and the file causes
one refresh in an epoch at most. -/
theorem ignore_files_read_once (calls : List IgnoreCall) {d₀ d : Desk} (hfresh : d₀.IsFresh)
    (hempty : d₀.ignores.entries = []) (hrun : OwnRun d₀ d) :
    let s := IgnoreRecord.run calls
    (s.reserved.Nodup ∧
      (∀ key, (s.cache.get key).1 =
        IgnoreSet.compile key.setting none ++ s.appendedTo key s.cache.epoch) ∧
      ∀ key epoch p, epoch < s.cache.epoch → s.cache.append key epoch p = (false, s.cache)) ∧
    (∀ key name, key.setting = .file name →
      (d.ignores.get key).1 = [] ∨
      ∃ p, (d.ignores.get key).1 = [p] ∧ ReadIn d₀ d d.ignores.epoch key p) ∧
    ∀ key d₁ d₂ d₃, Reloads key d d₁ → OwnRun d₁ d₂ → Reloads key d₂ d₃ →
      d.ignores.epoch < d₂.ignores.epoch := by
  have hreserved := reservedReads_of_ownRun hfresh hempty hrun
  refine ⟨⟨(IgnoreRecord.sound_run calls).once, (IgnoreRecord.sound_run calls).held,
    fun key epoch p => IgnoreCache.append_of_lt _ key p⟩, fun key name hkey => ?_,
    fun key d₁ d₂ d₃ hfirst hrest hsecond => ?_⟩
  · rw [IgnoreCache.get_fst]
    cases he : d.ignores.find? key with
    | none =>
        rw [hkey]
        exact .inl rfl
    | some e => exact (hreserved.sets hkey he).2
  · have hrun₂ : OwnRun d₀ d₂ := (hrun.tail hfirst.ownMove).trans hrest
    exact hreserved.epoch_lt_of_reloads hfirst hrest (reservedReads_of_ownRun hfresh hempty hrun₂)
      hsecond

/-- A document with a file. -/
def page : Document where
  uri := { scheme := "file", authority := some "", path := "/a.md" }
  text := "a\n"
  language := "markdown"
  version := 1

/-- A desk with an ignore file, which is empty. -/
def ignoringDesk : Desk :=
  { quietDesk with
    settings := { user := [("ignore", .str ".ignore")] }
    files := .memory (MemoryFiles.write {} ⟨".ignore"⟩ (some (.file "" 0)))
    visible := [page] }

/-- That desk when its only document was linted and the text of the ignore file is there. -/
def readingDesk : Desk :=
  (HostEvent.apply ignoringDesk (.starts (.lint page))).works [1, 1, 1, 2]

/-- The ignore sets are forgotten as soon as the file has caused a refresh, and the refresh itself
reads the file again. -/
def rereadingDesk : Desk :=
  (readingDesk.advance 2).forgetIgnores.works [2, 2, 4]

/-- There is a second refresh, but in a new epoch. -/
theorem ignore_files_read_once_of_forgotten :
    let key : IgnoreKey := ⟨none, .file ".ignore"⟩
    let d₁ := readingDesk.advance 2
    let d := rereadingDesk.advance 4
    (ignoringDesk.IsFresh ∧ OwnRun ignoringDesk readingDesk ∧ OwnRun d₁ rereadingDesk) ∧
    Reloads key readingDesk d₁ ∧ Reloads key rereadingDesk d ∧
    readingDesk.ignores.epoch < rereadingDesk.ignores.epoch ∧
    ∃ p, (d.ignores.get key).1 = [p] ∧ ReadIn ignoringDesk d d.ignores.epoch key p := by
  intro key d₁ d
  have hfresh : ignoringDesk.IsFresh := ⟨rfl, rfl, rfl, rfl, rfl, rfl, Nat.one_pos⟩
  have hreading : OwnRun ignoringDesk readingDesk :=
    .head (.hosts (.starts (.lint page))) (works_ownRun [1, 1, 1, 2] _)
  have hagain : OwnRun d₁ rereadingDesk := .head .forgets (works_ownRun [2, 2, 4] _)
  have hfirst : Reloads key readingDesk d₁ :=
    ⟨2, 0, ⟨".ignore"⟩, [], by with_unfolding_all rfl, rfl, by decide +kernel⟩
  have hsecond : Reloads key rereadingDesk d :=
    ⟨4, 1, ⟨".ignore"⟩, [], by with_unfolding_all rfl, rfl, by decide +kernel⟩
  have hrun : OwnRun ignoringDesk d :=
    ((hreading.tail hfirst.ownMove).trans hagain).tail hsecond.ownMove
  have hone : (d.ignores.get key).1.length = 1 := by decide +kernel
  refine ⟨⟨hfresh, hreading, hagain⟩, hfirst, hsecond, ?_, ?_⟩
  · exact (ignore_files_read_once [] hfresh rfl hreading).2.2 key d₁ rereadingDesk d hfirst hagain
      hsecond
  · rcases (ignore_files_read_once [] hfresh rfl hrun).2.1 key ".ignore" rfl with hnone | hread
    · simp [hnone] at hone
    · exact hread

end Desk

end LintDesk
