import LintDesk.Proofs.Desk.IgnoreFiles

/-! # Ignore files that have been read

Once the text of an ignore file has come, its set is complete: as long as ignore sets are not
forgotten, the set stays what the file says, and nobody reads the file again.
-/

namespace LintDesk.Desk

/-- The ignore file of a key has been read, and its set is complete. -/
structure HasRead (key : IgnoreKey) (set : IgnoreSet) (d : Desk) : Prop where
  entry : ∃ e, d.ignores.find? key = some e ∧ e.fileAsked = true ∧ e.set = set
  unread : ∀ {task a path}, d.Holds task a → a.reading? ≠ some (key, d.ignores.epoch, path)

variable {key : IgnoreKey} {set : IgnoreSet} {d d' : Desk}
  {P : Nat → IgnoreKey → IgnorePredicate → Prop} {T : Nat → IgnoreKey → Nat → Path → Prop}

/-- The set of a key is what the cache has, whether its file is to be read or not. -/
theorem ignoreSet_fst (d : Desk) (c : Collection) :
    (d.ignoreSet c).1 = (d.ignores.get c.ignoreKey).1 := by
  unfold ignoreSet
  dsimp only
  split
  · rfl
  · split
    · split <;> rfl
    · rfl

theorem HasRead.ignoreSet {c : Collection} (h : d.HasRead c.ignoreKey set) :
    (d.ignoreSet c).1 = set := by
  obtain ⟨e, he, -, hset⟩ := h.entry
  rw [ignoreSet_fst, IgnoreCache.get_fst, he]
  exact hset

/-- The first set of a key lets a task of its own read the ignore file. -/
theorem agenda?_ignoreSet {c : Collection} {name : String}
    (hignoring : c.settings.ignoring = .file name) (hserved : c.document.uri.hasFileSystem = true)
    (hfiles : d.files.layer.isAvailable = true) (hnew : d.ignores.find? c.ignoreKey = none)
    (hnone : d.agenda? d.nextTask = none) :
    (d.ignoreSet c).2.agenda? d.nextTask =
      some [.ask (.ignoreFile c.ignoreKey d.ignores.epoch (c.ignorePath name))] := by
  let got := (d.ignores.get c.ignoreKey).2
  have hreserve : (got.reserve c.ignoreKey got.epoch).1 = true := by
    simp [got, IgnoreCache.reserve, IgnoreCache.find?_get, hnew]
  have hepoch : (got.reserve c.ignoreKey got.epoch).2.epoch = d.ignores.epoch :=
    (got.epoch_reserve c.ignoreKey got.epoch).trans (d.ignores.epoch_get c.ignoreKey)
  have hspawn : (d.ignoreSet c).2 =
      ({ d with ignores := (got.reserve c.ignoreKey got.epoch).2 }.spawn
        [.ask (.ignoreFile c.ignoreKey d.ignores.epoch (c.ignorePath name))]).2 := by
    have hkey : c.ignoreKey = ⟨c.folder?.map (·.uri), .file name⟩ := by
      rw [Collection.ignoreKey, hignoring]
    rw [← hepoch]
    unfold Desk.ignoreSet
    simp only [hignoring, ← hkey]
    rw [if_pos (by simp [hserved, hfiles])]
    split
    · next ignores heq =>
        rw [show got.reserve c.ignoreKey got.epoch = (true, ignores) from heq]
    · next ignores heq =>
        rw [show got.reserve c.ignoreKey got.epoch = (false, ignores) from heq] at hreserve
        cases hreserve
  rw [hspawn]
  refine (agenda?_spawn _ _ _).trans ?_
  change (d.agenda? d.nextTask).or _ = _
  rw [hnone, if_pos rfl]
  rfl

/-! ### Changes -/

theorem HasRead.keepsIgnores (h : d.HasRead key set) (hq : KeepsIgnores d d') :
    d'.HasRead key set := by
  refine ⟨hq.ignores ▸ h.entry, fun hh hreads => ?_⟩
  rw [hq.ignores] at hreads
  exact h.unread (hq.holds hh (by simp [hreads])) hreads

theorem HasRead.ignoreChange (h : d.HasRead key set) (hchange : IgnoreChange d d')
    (hepoch : d'.ignores.epoch = d.ignores.epoch) : d'.HasRead key set := by
  obtain ⟨e, he, hentry⟩ := h.entry
  cases hchange with
  | keepsIgnores hq => exact h.keepsIgnores hq
  | gets k =>
      refine ⟨⟨e, by simp [IgnoreCache.find?_get, he], hentry⟩, fun hh hreads => ?_⟩
      rw [hepoch] at hreads
      exact h.unread (d := d) hh hreads
  | @reserves c name _ hreserve =>
      -- what was asked for is not reserved again
      obtain ⟨hother, htrue⟩ : key ≠ c.ignoreKey ∧
          (d.ignores.reserve c.ignoreKey d.ignores.epoch).2 =
            d.ignores.modify c.ignoreKey fun e => { e with fileAsked := true } := by
        rcases d.ignores.reserve_cases c.ignoreKey d.ignores.epoch with
          hfalse | ⟨-, ⟨e', he', hnew⟩, htrue⟩
        · rw [hfalse] at hreserve
          cases hreserve
        · refine ⟨?_, by rw [htrue]⟩
          rintro rfl
          obtain rfl := Option.some.inj (he.symm.trans he')
          rw [hnew] at hentry
          cases hentry.1
      refine ⟨⟨e, ?_, hentry⟩, ?_⟩
      · change IgnoreCache.find? (d.ignores.reserve c.ignoreKey d.ignores.epoch).2 key = some e
        have hfind := d.ignores.find?_modify c.ignoreKey key
          (f := fun e => { e with fileAsked := true }) fun _ => rfl
        rw [htrue, hfind, if_neg hother, he]
      · rintro task a path ⟨agenda, hagenda, ha⟩ hreads
        rw [hepoch] at hreads
        rw [agenda?_spawn] at hagenda
        rcases agenda?_of_join hagenda with hold | ⟨-, rfl⟩
        · exact h.unread ⟨agenda, hold, ha⟩ hreads
        · obtain rfl := List.mem_singleton.mp ha
          exact hother (Prod.mk.inj (Option.some.inj hreads)).1.symm
  | forgets => exact absurd hepoch (Nat.succ_ne_self _)

theorem HasRead.ignoreChanges (h : d.HasRead key set) (hchanges : IgnoreChanges d d')
    (hepoch : d'.ignores.epoch = d.ignores.epoch) : d'.HasRead key set := by
  induction hchanges with
  | refl => exact h
  | tail hprev hchange ih =>
      -- epochs only grow, so all of them are the same
      have hfirst := (IgnoreChanges.grows hprev).epoch
      have hlast := hchange.grows.epoch
      exact (ih (by omega)).ignoreChange hchange (by omega)

theorem HasRead.advance (h : d.HasRead key set) (hreserved : d.ReservedReads P T) (task : Nat)
    (hepoch : (d.advance task).ignores.epoch = d.ignores.epoch) :
    (d.advance task).HasRead key set := by
  rcases hreserved.advance_ways task with hchanges | ⟨k, epoch, path, hagenda, hq⟩ |
    ⟨k, path, contents, hagenda, -, hq⟩
  · exact h.ignoreChanges hchanges hepoch
  · have hasks : (d.setAgenda task [.take (.ignoreFile k epoch path)]).HasRead key set := by
      refine ⟨h.entry, fun {other a p} hh hreads => ?_⟩
      rcases holds_setAgenda hh with hold | ⟨-, ha, -⟩
      · exact h.unread hold hreads
      · obtain rfl := List.mem_singleton.mp ha
        exact h.unread ⟨_, hagenda, List.mem_singleton_self _⟩ hreads
    exact hasks.keepsIgnores hq
  · have hother : key ≠ k := by
      rintro rfl
      exact h.unread ⟨_, hagenda, List.mem_singleton_self _⟩ rfl
    have hreads : ((d.addIgnore k (.ofFile contents)).setAgenda task [.lintVisible]).HasRead key
        set := by
      refine ⟨?_, fun {other a p} hh hreads => ?_⟩
      · obtain ⟨e, he, hentry⟩ := h.entry
        exact ⟨e, (d.find?_addIgnore k key _).trans (by rw [if_neg hother, he]), hentry⟩
      · rcases holds_setAgenda hh with hold | ⟨-, ha, -⟩
        · exact h.unread (d := d) hold hreads
        · obtain rfl := List.mem_singleton.mp ha
          cases hreads
    exact hreads.keepsIgnores hq

/-! ### The text comes -/

/-- Once its reader has gone on to something else nobody reads an ignore file. -/
theorem ReservedReads.unread (hreserved : d.ReservedReads P T) {reader : Nat} {path : Path}
    (hholds : d.Holds reader (.take (.ignoreFile key d.ignores.epoch path))) {next : List Action}
    (hnext : ∀ a ∈ next, a.reading? = none) (htasks : d'.tasks = (d.setAgenda reader next).tasks)
    (hepoch : d'.ignores.epoch = d.ignores.epoch) {task : Nat} {a : Action} {p : Path}
    (hh : d'.Holds task a) : a.reading? ≠ some (key, d'.ignores.epoch, p) := by
  obtain ⟨agenda, hsome, ha⟩ := hh
  intro hreads
  rw [hepoch] at hreads
  rw [agenda?, htasks] at hsome
  rcases agenda?_of_setAgenda hsome with ⟨-, rfl⟩ | ⟨hother, hold⟩
  · rw [hnext a ha] at hreads
    cases hreads
  · exact hother (hreserved.alone ⟨agenda, hold, ha⟩ hholds hreads rfl)

/-- When the text of an ignore file has come, its set is what the file says; a file that cannot be
read says nothing. -/
theorem ReservedReads.hasRead (hreserved : d.ReservedReads P T) {reader : Nat} {path : Path}
    {rest : List Action} (hagenda : d.agenda? reader =
      some (.take (.ignoreFile key d.ignores.epoch path) :: rest)) :
    (d.advance reader).HasRead key
      ((d.files.layer.read path).toOption.toList.map IgnorePredicate.ofFile) := by
  have hholds : d.Holds reader (.take (.ignoreFile key d.ignores.epoch path)) :=
    ⟨_, hagenda, List.mem_cons_self⟩
  obtain rfl : rest = [] :=
    (hreserved.reads_only hagenda List.mem_cons_self (Option.some_ne_none _)).2
  obtain ⟨e, he, hasked, hset⟩ := hreserved.reserved hholds rfl
  obtain ⟨htasks, hignores, -⟩ := advance_of_agenda hagenda
  change _ = ((d.takeCall reader _).desk.setAgenda reader ((d.takeCall reader _).next ++ [])).tasks
    at htasks
  change _ = (d.takeCall reader _).desk.ignores at hignores
  cases hread : d.files.layer.read path with
  | ok contents =>
      have heffect : d.takeCall reader (.ignoreFile key d.ignores.epoch path) =
          (d.addIgnore key (.ofFile contents)).startRefresh := by
        simp [takeCall, hread, ignoreFilePredicate, IgnoreCache.append, he, addIgnore]
      rw [heffect] at htasks hignores
      have hnext : ∀ a ∈ [Action.lintVisible], a.reading? = none := by simp [Action.reading?]
      have hepoch : (d.advance reader).ignores.epoch = d.ignores.epoch :=
        (congrArg IgnoreCache.epoch hignores).trans rfl
      refine ⟨⟨{ e with set := e.set ++ [.ofFile contents] }, ?_, hasked, ?_⟩,
        hreserved.unread hholds hnext htasks hepoch⟩
      · rw [hignores]
        exact (d.find?_addIgnore key key _).trans (by simp [he])
      · simp [hset, Except.toOption]
  | error fault =>
      rcases takeCall_ignoreFile d reader key d.ignores.epoch path with
        ⟨hpassState, hsame, hnext⟩ | ⟨contents, hok, -⟩
      · rw [hnext] at htasks
        have htasks' : (d.advance reader).tasks = (d.setAgenda reader []).tasks :=
          htasks.trans (congrArg (List.map _) (congrArg PassState.tasks hpassState))
        refine ⟨⟨e, ?_, hasked, hset⟩, hreserved.unread hholds (by simp) htasks' ?_⟩
        · rw [hignores, hsame, he]
        · rw [hignores, hsame]
      · rw [hread] at hok
        cases hok

end LintDesk.Desk
