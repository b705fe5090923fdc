import LintDesk.Proofs.Trust.Consent

/-! # Outcomes since the last invalidation

Whatever the gate knows about a key was decided since it was last invalidated, and all that was read
for it was read since then (`Tracked`). So a request that comes in after an invalidation is given
what was found by reads that began after it, or nothing because the user refused after it
(`rules_since_invalidation`).
-/

namespace LintDesk

/-- The caller that a mark is about. -/
def GateMark.caller? : GateMark → Option Nat
  | entered who _ _ => some who
  | asked who _ => some who
  | answered who _ => some who
  | read who _ => some who
  | stored who _ _ => some who
  | returned who _ => some who
  | invalidated => none

theorem GateMark.caller?_of_enters {m : GateMark} {who : Nat} (h : m.enters who = true) :
    m.caller? = some who := by
  cases m with
  | entered other r trusted => simpa [enters, caller?] using h
  | _ => cases h

theorem GateMark.enters_of_caller? {m : GateMark} {who : Nat} (h : m.caller? ≠ some who) :
    m.enters who = false :=
  Bool.eq_false_iff.mpr fun henters => h (caller?_of_enters henters)

/-- An answer by which the user refuses; to dismiss the question is to refuse. -/
def Refuses (choice : Option TrustChoice) : Prop :=
  choice.getD .block = .block

instance (choice : Option TrustChoice) : Decidable (Refuses choice) :=
  inferInstanceAs (Decidable (_ = _))

namespace Gate

variable {g : Gate} {r : RuleRequest}

theorem settled?_eq_some_iff {key : RuleKey} {rules : List CustomRule} :
    g.settled? key = some rules ↔
      g.state key = .loaded rules ∨ g.state key = .blocked ∧ rules = [] := by
  unfold settled?
  cases g.state key with
  | unloaded => simp
  | prompting => simp
  | loaded known => simp
  | blocked => simp [eq_comm]

@[simp] theorem newRules_self (g : Gate) (who : Nat) (key : RuleKey) :
    g.newRules who key g = [] := by
  unfold newRules
  split
  · next rules hstate => simp [hstate]
  · rfl

theorem newRules_of_loaded {g g' : Gate} {who : Nat} {key : RuleKey} {rules : List CustomRule}
    (hafter : g'.state key = .loaded rules) (hbefore : g.state key ≠ .loaded rules) :
    g.newRules who key g' = [.stored who key rules] := by
  simp [newRules, hafter, hbefore]

/-- A request that comes in is given what is known, loads at once, or else its workspace is not
trusted and it asks, or waits until it may ask. -/
theorem enter_ways (g : Gate) (who : Nat) (isTrusted : String → Bool) (r : RuleRequest) :
    (∃ rules, g.settled? r.key = some rules ∧ g.enter who isTrusted r = (.done rules, g)) ∨
    g.enter who isTrusted r = g.load r g.epoch false r.locations.value [] ∨
    r.workspace.any isTrusted = false ∧
      ((g.holder = none ∧ g.enter who isTrusted r = { g with holder := some who }.takeTurn r) ∨
        g.holder ≠ none ∧
          g.enter who isTrusted r = (.queued, { g with waiting := g.waiting ++ [who] })) := by
  unfold enter
  split
  · next rules hrules => exact .inl ⟨rules, hrules, rfl⟩
  · split
    · next hempty =>
        rw [List.isEmpty_iff] at hempty
        exact .inr (.inl (by rw [hempty]; rfl))
    · split
      · exact .inr (.inl rfl)
      · next huntrusted =>
          have hany := (Bool.or_eq_false_iff.mp (Bool.eq_false_iff.mpr huntrusted)).2
          split
          · next hholder => exact .inr (.inr ⟨hany, .inl ⟨hholder, rfl⟩⟩)
          · next hholder => exact .inr (.inr ⟨hany, .inr ⟨by simp [hholder], rfl⟩⟩)

theorem answer_of_refuses (g : Gate) (r : RuleRequest) (epoch : Nat) {choice : Option TrustChoice}
    (h : Refuses choice) :
    g.answer r epoch choice = (g.settle r.key epoch .blocked).finish true [] := by
  unfold answer
  rw [h]

theorem answer_of_agrees (g : Gate) (r : RuleRequest) (epoch : Nat) {choice : Option TrustChoice}
    (h : ¬Refuses choice) :
    g.answer r epoch choice = g.load r epoch true r.locations.value [] := by
  unfold answer
  split
  · next hchoice => exact absurd hchoice h
  · rfl
  · rfl

end Gate

/-- What a request found at a location, and the log as it was when the text had come. -/
structure Find where
  who : Nat
  key : RuleKey
  location : String
  rules : List CustomRule
  log : List GateMark

/-- What was found is the outcome of a read that began when the log was `older`. -/
def Find.Began (f : Find) (older : List GateMark) : Prop :=
  ∃ since, f.log = since ++ .read f.who f.location :: older ∧
    ∀ location, .read f.who location ∉ since

namespace GateTrace

variable {s : GateTrace} {log rest : List GateMark} {who : Nat} {r : RuleRequest} {trusted : Bool}
  {since : List GateMark} {finds : List Find} {key : RuleKey} {rules : List CustomRule}

/-! ### Logs -/

/-- Every mark of a log stands in a relation to what came before it. -/
def Throughout (P : List GateMark → GateMark → Prop) : List GateMark → Prop
  | [] => True
  | m :: earlier => P earlier m ∧ Throughout P earlier

theorem Throughout.of_mem {P : List GateMark → GateMark → Prop} {later earlier : List GateMark}
    {m : GateMark} (h : Throughout P (later ++ m :: earlier)) : P earlier m := by
  induction later with
  | nil => exact h.1
  | cons _ later ih => exact ih h.2

theorem Throughout.append {P : List GateMark → GateMark → Prop} (h : Throughout P log)
    {marks : List GateMark} (hmarks : ∀ m ∈ marks, ∀ earlier, P earlier m) :
    Throughout P (marks ++ log) := by
  induction marks with
  | nil => exact h
  | cons m marks ih =>
      exact ⟨hmarks m List.mem_cons_self _, ih fun m' hm' => hmarks m' (List.mem_cons_of_mem m hm')⟩

/-- A caller has one request at a time. -/
theorem UnderWay.unique {r' : RuleRequest} {trusted' : Bool} {since' : List GateMark}
    (h : UnderWay log who r trusted since) (h' : UnderWay log who r' trusted' since') :
    since = since' ∧ r = r' ∧ trusted = trusted' := by
  obtain ⟨⟨before, rfl⟩, hsince⟩ := h
  obtain ⟨⟨before', heq⟩, hsince'⟩ := h'
  rcases append_cons_cases heq with ⟨hsame, hentered, -⟩ | ⟨mid, rfl, -⟩ | ⟨mid, rfl, -⟩
  · obtain ⟨-, hr, htrusted⟩ := GateMark.entered.inj hentered
    exact ⟨hsame, hr, htrusted⟩
  · exact absurd (hsince (.entered who r' trusted') (by simp)) (by simp [GateMark.enters])
  · exact absurd (hsince' (.entered who r trusted) (by simp)) (by simp [GateMark.enters])

/-! ### What was decided -/

/-- Rules found for a key at locations, one after the other, by reads that began after the log was
`rest`. -/
def FoundOver (finds : List Find) (rest : List GateMark) (key : RuleKey) (locations : List String)
    (rules : List CustomRule) : Prop :=
  ∃ fs : List Find, fs.map (·.location) = locations ∧ fs.flatMap (·.rules) = rules ∧
    ∀ f ∈ fs, f ∈ finds ∧ f.key = key ∧ ∃ between, f.Began (between ++ rest)

/-- The user was asked about a key and refused, both after the log was `rest`. -/
def RefusedOver (recent rest : List GateMark) (key : RuleKey) : Prop :=
  ∃ (who : Nat) (r : RuleRequest) (choice : Option TrustChoice) (later mid earlier : List GateMark),
    recent = later ++ .answered who choice :: (mid ++ .asked who r.locations.value :: earlier) ∧
    Refuses choice ∧ (∀ m ∈ mid, m.enters who = false) ∧ r.key = key ∧
    ∃ trusted since, UnderWay (earlier ++ rest) who r trusted since

/-- The rules of a key became known, and were found, since the last invalidation. -/
def LoadedAnew (finds : List Find) (log : List GateMark) (key : RuleKey) (rules : List CustomRule) :
    Prop :=
  ∃ recent rest, log = recent ++ rest ∧ .invalidated ∉ recent ∧
    (∃ who, .stored who key rules ∈ recent) ∧ FoundOver finds rest key key.locations rules

/-- The user was asked about a key and refused since the last invalidation. -/
def RefusedAnew (log : List GateMark) (key : RuleKey) : Prop :=
  ∃ recent rest, log = recent ++ rest ∧ .invalidated ∉ recent ∧ RefusedOver recent rest key

/-- How a request came by its rules: it has found them or was refused itself, or the outcome was
known. -/
def Accounted (finds : List Find) (earlier : List GateMark) (who : Nat) (rules : List CustomRule) :
    Prop :=
  ∃ r trusted since start, earlier = since ++ .entered who r trusted :: start ∧
    (∀ m ∈ since, m.enters who = false) ∧
    (FoundOver finds (.entered who r trusted :: start) r.key r.locations.value rules ∨
      LoadedAnew finds earlier r.key rules ∨
      rules = [] ∧ (RefusedOver since (.entered who r trusted :: start) r.key ∨
        RefusedAnew earlier r.key))

def AllAccounted (finds : List Find) : List GateMark → Prop :=
  Throughout fun earlier m =>
    ∀ who rules, m = .returned who rules → Accounted finds earlier who rules

theorem FoundOver.mono {finds' : List Find} {locations : List String}
    (h : FoundOver finds rest key locations rules) (hmore : finds ⊆ finds') :
    FoundOver finds' rest key locations rules := by
  obtain ⟨fs, hlocations, hrules, hfs⟩ := h
  exact ⟨fs, hlocations, hrules, fun f hf => ⟨hmore (hfs f hf).1, (hfs f hf).2⟩⟩

/-- What began after a moment began after every earlier one. -/
theorem FoundOver.over {locations : List String} (between : List GateMark)
    (h : FoundOver finds (between ++ rest) key locations rules) :
    FoundOver finds rest key locations rules := by
  obtain ⟨fs, hlocations, hrules, hfs⟩ := h
  refine ⟨fs, hlocations, hrules, fun f hf => ?_⟩
  obtain ⟨hmem, hkey, more, hbegan⟩ := hfs f hf
  exact ⟨hmem, hkey, more ++ between, by simpa using hbegan⟩

theorem FoundOver.nil : FoundOver finds rest key [] [] :=
  ⟨[], rfl, rfl, nofun⟩

theorem FoundOver.snoc {before : List String} {f : Find} {between : List GateMark}
    (h : FoundOver finds rest key before rules) (hmem : f ∈ finds) (hkey : f.key = key)
    (hbegan : f.Began (between ++ rest)) :
    FoundOver finds rest key (before ++ [f.location]) (rules ++ f.rules) := by
  obtain ⟨fs, hlocations, hrules, hfs⟩ := h
  refine ⟨fs ++ [f], by simp [hlocations], by simp [hrules], fun f' hf' => ?_⟩
  rcases List.mem_append.mp hf' with hf' | hf'
  · exact hfs f' hf'
  · obtain rfl := List.mem_singleton.mp hf'
    exact ⟨hmem, hkey, between, hbegan⟩

theorem RefusedOver.over {recent : List GateMark} (between : List GateMark)
    (h : RefusedOver recent (between ++ rest) key) : RefusedOver (recent ++ between) rest key := by
  obtain ⟨who, r, choice, later, mid, earlier, rfl, hrefuses, hmid, hkey, hunder⟩ := h
  exact ⟨who, r, choice, later, mid, earlier ++ between, by simp, hrefuses, hmid, hkey,
    by simpa using hunder⟩

theorem RefusedOver.append {recent : List GateMark} (h : RefusedOver recent rest key)
    (marks : List GateMark) : RefusedOver (marks ++ recent) rest key := by
  obtain ⟨who, r, choice, later, mid, earlier, rfl, hrefuses, hmid, hkey, hunder⟩ := h
  exact ⟨who, r, choice, marks ++ later, mid, earlier, by simp, hrefuses, hmid, hkey, hunder⟩

theorem LoadedAnew.mono {finds' : List Find} (h : LoadedAnew finds log key rules)
    (hmore : finds ⊆ finds') : LoadedAnew finds' log key rules := by
  obtain ⟨recent, rest, hlog, hvalid, hstored, hfound⟩ := h
  exact ⟨recent, rest, hlog, hvalid, hstored, hfound.mono hmore⟩

theorem LoadedAnew.append (h : LoadedAnew finds log key rules) {marks : List GateMark}
    (hmarks : .invalidated ∉ marks) : LoadedAnew finds (marks ++ log) key rules := by
  obtain ⟨recent, rest, rfl, hvalid, ⟨who, hstored⟩, hfound⟩ := h
  exact ⟨marks ++ recent, rest, by simp, by simp [hmarks, hvalid],
    ⟨who, List.mem_append_right _ hstored⟩, hfound⟩

theorem RefusedAnew.append (h : RefusedAnew log key) {marks : List GateMark}
    (hmarks : .invalidated ∉ marks) : RefusedAnew (marks ++ log) key := by
  obtain ⟨recent, rest, rfl, hvalid, hrefused⟩ := h
  exact ⟨marks ++ recent, rest, by simp, by simp [hmarks, hvalid], hrefused.append marks⟩

theorem AllAccounted.mono {finds' : List Find} (h : AllAccounted finds log)
    (hmore : finds ⊆ finds') : AllAccounted finds' log := by
  induction log with
  | nil => trivial
  | cons m log ih =>
      refine ⟨fun who rules hm => ?_, ih h.2⟩
      obtain ⟨r, trusted, since, start, hlog, hsince, hcause⟩ := h.1 who rules hm
      refine ⟨r, trusted, since, start, hlog, hsince, ?_⟩
      rcases hcause with hfound | hloaded | hrefused
      · exact .inl (hfound.mono hmore)
      · exact .inr (.inl (hloaded.mono hmore))
      · exact .inr (.inr hrefused)

/-! ### Where a request has come to -/

/-- What the log says about a request at a point of its passage; `now` is the epoch of the gate.
The log is cut where the epoch of the request was fixed, and all it has found since it may load was
found by reads that began after that. -/
def AtPoint (finds : List Find) (now : Nat) (log : List GateMark) (who : Nat) (r : RuleRequest)
    (p : Passage) : Prop :=
  ∃ recent rest trusted old, log = recent ++ rest ∧ (∀ m ∈ recent, m.enters who = false) ∧
    UnderWay rest who r trusted old ∧
    match p with
    | .queued => trusted = false
    | .asking epoch => trusted = false ∧ SinceEpoch now epoch recent ∧
        .asked who r.locations.value ∈ recent
    | .loading epoch _ left rules => SinceEpoch now epoch recent ∧
        ∃ before location after, left = location :: after ∧ r.locations.value = before ++ left ∧
          FoundOver finds rest r.key before rules ∧
          ∃ later earlier, recent = later ++ .read who location :: earlier ∧
            ∀ l, .read who l ∉ later
    | .done _ => True

theorem AtPoint.underWay {now : Nat} {p : Passage} (h : AtPoint finds now log who r p) :
    ∃ trusted since, UnderWay log who r trusted since := by
  obtain ⟨recent, rest, trusted, old, rfl, hrecent, hunder, -⟩ := h
  exact ⟨trusted, recent ++ old, hunder.append recent hrecent⟩

/-- A request that loads has something left to read. -/
theorem AtPoint.exists_left {now epoch : Nat} {holds : Bool} {left : List String}
    (h : AtPoint finds now log who r (.loading epoch holds left rules)) :
    ∃ location after, left = location :: after := by
  obtain ⟨recent, rest, trusted, old, -, -, -, -, before, location, after, hleft, -⟩ := h
  exact ⟨location, after, hleft⟩

theorem AtPoint.mono {finds' : List Find} {now : Nat} {p : Passage}
    (h : AtPoint finds now log who r p) (hmore : finds ⊆ finds') :
    AtPoint finds' now log who r p := by
  obtain ⟨recent, rest, trusted, old, hlog, hrecent, hunder, hp⟩ := h
  refine ⟨recent, rest, trusted, old, hlog, hrecent, hunder, ?_⟩
  cases p with
  | queued => exact hp
  | asking epoch => exact hp
  | loading epoch holds left rules =>
      obtain ⟨hsince, before, location, after, hleft, hall, hfound, hread⟩ := hp
      exact ⟨hsince, before, location, after, hleft, hall, hfound.mono hmore, hread⟩
  | done rules => trivial

/-- What happens to others leaves a request where it is. -/
theorem AtPoint.append {now now' : Nat} {p : Passage} (h : AtPoint finds now log who r p)
    (marks : List GateMark) (hmarks : ∀ m ∈ marks, m.caller? ≠ some who) (hnow : now ≤ now')
    (hvalid : .invalidated ∈ marks → now < now') : AtPoint finds now' (marks ++ log) who r p := by
  obtain ⟨recent, rest, trusted, old, rfl, hrecent, hunder, hp⟩ := h
  refine ⟨marks ++ recent, rest, trusted, old, by simp, ?_, hunder, ?_⟩
  · exact List.forall_mem_append.mpr
      ⟨fun m hm => GateMark.enters_of_caller? (hmarks m hm), hrecent⟩
  cases p with
  | queued => exact hp
  | asking epoch =>
      exact ⟨hp.1, hp.2.1.append marks hnow hvalid, List.mem_append_right _ hp.2.2⟩
  | loading epoch holds left rules =>
      obtain ⟨hsince, before, location, after, hleft, hall, hfound, later, earlier, rfl,
        hlater⟩ := hp
      refine ⟨hsince.append marks hnow hvalid, before, location, after, hleft, hall, hfound,
        marks ++ later, earlier, by simp, fun l hl => ?_⟩
      rcases List.mem_append.mp hl with hl | hl
      · exact hmarks _ hl rfl
      · exact hlater l hl
  | done rules => trivial

/-- Every returned list is accounted for, all requests but possibly one caller's are where the log
says, and what the gate knows was decided since the last invalidation. -/
structure TrackedBut (absent : Option Nat) (finds : List Find) (s : GateTrace) : Prop where
  accounted : AllAccounted finds s.log
  requests : ∀ who r p, some who ≠ absent → s.requests who = some (r, p) →
    AtPoint finds s.gate.epoch s.log who r p
  loaded : ∀ key rules, s.gate.state key = .loaded rules → LoadedAnew finds s.log key rules
  blocked : ∀ key, s.gate.state key = .blocked → RefusedAnew s.log key

variable {absent : Option Nat}

theorem TrackedBut.mono {finds' : List Find} (h : TrackedBut absent finds s)
    (hmore : finds ⊆ finds') : TrackedBut absent finds' s where
  accounted := h.accounted.mono hmore
  requests := fun who r p habsent hrequest => (h.requests who r p habsent hrequest).mono hmore
  loaded := fun key rules hstate => (h.loaded key rules hstate).mono hmore
  blocked := h.blocked

theorem TrackedBut.settled (h : TrackedBut absent finds s)
    (hrules : s.gate.settled? key = some rules) :
    LoadedAnew finds s.log key rules ∨ rules = [] ∧ RefusedAnew s.log key := by
  rcases Gate.settled?_eq_some_iff.mp hrules with hloaded | ⟨hblocked, hnil⟩
  · exact .inl (h.loaded key rules hloaded)
  · exact .inr ⟨hnil, h.blocked key hblocked⟩

/-! ### The steps of a request -/

theorem caller?_of_mem_marks {p : Passage} {m : GateMark} (h : m ∈ p.marks who r) :
    m.caller? = some who := by
  cases p with
  | queued => cases h
  | asking epoch => rw [List.mem_singleton.mp h]; rfl
  | loading epoch holds left rules =>
      obtain ⟨location, -, rfl⟩ := List.mem_map.mp h
      rfl
  | done rules => rw [List.mem_singleton.mp h]; rfl

theorem mem_newRules {g g' : Gate} {m : GateMark} (h : m ∈ g.newRules who key g') :
    ∃ rules, m = .stored who key rules := by
  unfold Gate.newRules at h
  split at h
  · split at h
    · cases h
    · exact ⟨_, List.mem_singleton.mp h⟩
  · cases h

theorem caller?_of_mem_newRules {g g' : Gate} {m : GateMark} (h : m ∈ g.newRules who key g') :
    m.caller? = some who := by
  obtain ⟨rules, rfl⟩ := mem_newRules h
  rfl

theorem invalidated_not_mem {marks : List GateMark} (h : ∀ m ∈ marks, m.caller? = some who) :
    .invalidated ∉ marks :=
  fun hmem => nomatch h _ hmem

theorem TrackedBut.forget (h : TrackedBut none finds s) (who : Nat) :
    TrackedBut (some who) finds s where
  accounted := h.accounted
  requests := fun other r p _ => h.requests other r p (by simp)
  loaded := h.loaded
  blocked := h.blocked

/-- Marks about one caller leave the others where they are. -/
theorem TrackedBut.others (h : TrackedBut absent finds s) {marks : List GateMark}
    (hmarks : ∀ m ∈ marks, m.caller? = some who) {other : Nat} {r : RuleRequest} {p : Passage}
    (hother : other ≠ who) (habsent : some other ≠ absent)
    (hrequest : s.requests other = some (r, p)) :
    AtPoint finds s.gate.epoch (marks ++ s.log) other r p := by
  refine (h.requests other r p habsent hrequest).append marks (fun m hm heq => ?_) (Nat.le_refl _)
    fun hm => absurd hm (invalidated_not_mem hmarks)
  exact hother (Option.some.inj (heq.symm.trans (hmarks m hm)))

theorem TrackedBut.note (h : TrackedBut none finds s) {m : GateMark} (hm : m.caller? = some who)
    (hreturned : ∀ other rules, m ≠ .returned other rules) :
    TrackedBut (some who) finds (s.note m) := by
  have hmarks : ∀ m' ∈ [m], m'.caller? = some who := by simpa using hm
  have hvalid := invalidated_not_mem hmarks
  refine ⟨⟨fun other rules heq => absurd heq (hreturned other rules), h.accounted⟩, ?_, ?_, ?_⟩
  · intro other r p habsent hrequest
    exact h.others hmarks (fun heq => habsent (congrArg some heq)) (by simp) hrequest
  · exact fun key rules hstate => (h.loaded key rules hstate).append hvalid
  · exact fun key hstate => (h.blocked key hstate).append hvalid

theorem AllAccounted.newRules (h : AllAccounted finds log) (who : Nat) (key : RuleKey)
    (g g' : Gate) : AllAccounted finds (g.newRules who key g' ++ log) := by
  refine Throughout.append h fun m hm earlier other rules heq => ?_
  obtain ⟨known, rfl⟩ := mem_newRules hm
  cases heq

theorem AllAccounted.marks (h : AllAccounted finds log) {p : Passage}
    (hdone : ∀ rules, p = .done rules → Accounted finds log who rules) :
    AllAccounted finds (p.marks who r ++ log) := by
  cases p with
  | done rules =>
      refine ⟨fun other known heq => ?_, h⟩
      obtain ⟨rfl, rfl⟩ := GateMark.returned.inj heq
      exact hdone rules rfl
  | queued => exact h
  | asking epoch => exact Throughout.append h (by simp [Passage.marks])
  | loading epoch holds left rules => exact Throughout.append h (by simp [Passage.marks])

/-- A caller's request has moved on to where the log says, and what the gate has come to know by
that was decided since the last invalidation. -/
theorem TrackedBut.move (h : TrackedBut (some who) finds s) {p : Passage} {g : Gate}
    (hepoch : g.epoch = s.gate.epoch)
    (hpoint : AtPoint finds s.gate.epoch
      (p.marks who r ++ (s.gate.newRules who r.key g ++ s.log)) who r p)
    (hdone : ∀ rules, p = .done rules →
      Accounted finds (s.gate.newRules who r.key g ++ s.log) who rules)
    (hloaded : ∀ key rules, g.state key = .loaded rules → s.gate.state key = .loaded rules ∨
      key = r.key ∧ ∃ recent rest, s.log = recent ++ rest ∧ .invalidated ∉ recent ∧
        FoundOver finds rest r.key r.locations.value rules)
    (hblocked : ∀ key, g.state key = .blocked →
      s.gate.state key = .blocked ∨ RefusedAnew s.log key) :
    TrackedBut none finds (s.move who r (p, g)) := by
  have hnew : .invalidated ∉ s.gate.newRules who r.key g :=
    invalidated_not_mem fun m => caller?_of_mem_newRules
  have hmarks : .invalidated ∉ p.marks who r := invalidated_not_mem fun m => caller?_of_mem_marks
  refine ⟨?_, ?_, ?_, ?_⟩
  · exact (AllAccounted.newRules h.accounted who r.key s.gate g).marks hdone
  · intro other r' p' _ hrequest
    change AtPoint finds g.epoch _ other r' p'
    rw [hepoch]
    by_cases hother : other = who
    · subst hother
      obtain ⟨rfl, rfl⟩ : r = r' ∧ p = p' := by simpa [GateTrace.move] using hrequest
      exact hpoint
    · have hsame : s.requests other = some (r', p') := by
        simpa [GateTrace.move, hother] using hrequest
      have hall : ∀ m ∈ p.marks who r ++ s.gate.newRules who r.key g, m.caller? = some who :=
        List.forall_mem_append.mpr
          ⟨fun m => caller?_of_mem_marks, fun m => caller?_of_mem_newRules⟩
      have hpoint' := h.others hall hother (by simpa using hother) hsame
      rwa [List.append_assoc] at hpoint'
  · intro key rules (hstate : g.state key = .loaded rules)
    by_cases hbefore : s.gate.state key = .loaded rules
    · exact ((h.loaded key rules hbefore).append hnew).append hmarks
    · obtain ⟨rfl, recent, rest, hlog, hrecent, hfound⟩ :=
        (hloaded key rules hstate).resolve_left hbefore
      refine ⟨p.marks who r ++ .stored who r.key rules :: recent, rest, ?_, ?_, ⟨who, by simp⟩,
        hfound⟩
      · change _ ++ (s.gate.newRules who r.key g ++ _) = _
        rw [Gate.newRules_of_loaded hstate hbefore, hlog]
        simp
      · simp [hmarks, hrecent]
  · intro key (hstate : g.state key = .blocked)
    rcases hblocked key hstate with hbefore | hrefused
    · exact ((h.blocked key hbefore).append hnew).append hmarks
    · exact (hrefused.append hnew).append hmarks

/-- A request that is over is nowhere in particular. -/
theorem UnderWay.atPoint_done (h : UnderWay s.log who r trusted since) (rules : List CustomRule)
    (g : Gate) (now : Nat) :
    AtPoint finds now ((Passage.done rules).marks who r ++ (s.gate.newRules who r.key g ++ s.log))
      who r (.done rules) :=
  ⟨[], _, trusted, _, rfl, nofun, h.move (.done rules) g, trivial⟩

/-- An outcome that is known is handed out. -/
theorem TrackedBut.known (h : TrackedBut (some who) finds s)
    (hunder : UnderWay s.log who r trusted since) {g : Gate}
    (hrules : s.gate.settled? r.key = some rules) (hsame : g.Agrees s.gate) :
    TrackedBut none finds (s.move who r (.done rules, g)) := by
  refine h.move hsame.1 (hunder.atPoint_done rules g _) ?_
    (fun key known hstate => .inl ((hsame.2 key).symm.trans hstate))
    fun key hstate => .inl ((hsame.2 key).symm.trans hstate)
  intro known hknown
  obtain rfl := Passage.done.inj hknown
  have hvalid : .invalidated ∉ s.gate.newRules who r.key g :=
    invalidated_not_mem fun m => caller?_of_mem_newRules
  obtain ⟨⟨start, hlog⟩, hsince⟩ := hunder.newRules g
  refine ⟨r, trusted, _, start, hlog, hsince, .inr ?_⟩
  rcases h.settled hrules with hloaded | ⟨hnil, hrefused⟩
  · exact .inl (hloaded.append hvalid)
  · exact .inr ⟨hnil, .inr (hrefused.append hvalid)⟩

theorem TrackedBut.wait (h : TrackedBut (some who) finds s)
    (hunder : UnderWay s.log who r false since) {g : Gate} (hsame : g.Agrees s.gate) :
    TrackedBut none finds (s.move who r (.queued, g)) :=
  h.move hsame.1 ⟨[], _, false, _, rfl, nofun, hunder.move .queued g, rfl⟩ nofun
    (fun key _ hstate => .inl ((hsame.2 key).symm.trans hstate))
    fun key hstate => .inl ((hsame.2 key).symm.trans hstate)

/-- The user is asked, which fixes the epoch of the request. -/
theorem TrackedBut.ask (h : TrackedBut (some who) finds s)
    (hunder : UnderWay s.log who r false since) {g : Gate} (hepoch : g.epoch = s.gate.epoch)
    (hprompting : ∀ k, g.state k = if k = r.key then .prompting else s.gate.state k) :
    TrackedBut none finds (s.move who r (.asking s.gate.epoch, g)) := by
  have hkept : ∀ key known, known ≠ .prompting → g.state key = known →
      s.gate.state key = known := by
    intro key known hne hstate
    rw [hprompting] at hstate
    split at hstate
    · exact absurd hstate.symm hne
    · exact hstate
  refine h.move hepoch
    ⟨[.asked who r.locations.value], _, false, _, rfl, by simp [GateMark.enters],
      hunder.newRules g, rfl, ⟨Nat.le_refl _, fun _ => by simp⟩, List.mem_cons_self⟩ nofun
    (fun key _ hstate => .inl (hkept key _ nofun hstate))
    fun key hstate => .inl (hkept key _ nofun hstate)

/-- A request ends without rules, because the user refused. -/
theorem TrackedBut.refuse (h : TrackedBut (some who) finds s) {recent : List GateMark} {epoch : Nat}
    (hlog : s.log = recent ++ rest) (hrecent : ∀ m ∈ recent, m.enters who = false)
    (hunder : UnderWay rest who r trusted since) (hsince : SinceEpoch s.gate.epoch epoch recent)
    (hrefused : RefusedOver recent rest r.key) :
    TrackedBut none finds
      (s.move who r ((s.gate.settle r.key epoch .blocked).finish true [])) := by
  have hunder' : UnderWay s.log who r trusted (recent ++ since) :=
    hlog ▸ hunder.append recent hrecent
  have hstate : ∀ k, (s.gate.settle r.key epoch .blocked).release.state k = s.gate.state k ∨
      k = r.key ∧ (s.gate.settle r.key epoch .blocked).release.state k = .blocked ∧
        epoch = s.gate.epoch :=
    s.gate.state_settle r.key epoch .blocked
  have hepoch : (s.gate.settle r.key epoch .blocked).release.epoch = s.gate.epoch :=
    s.gate.epoch_settle r.key epoch .blocked
  change TrackedBut none finds (s.move who r (.done [], (s.gate.settle _ _ _).release))
  generalize (s.gate.settle r.key epoch .blocked).release = g at hstate hepoch
  refine h.move hepoch (hunder'.atPoint_done [] g _) ?_ ?_ ?_
  · intro known hknown
    obtain rfl := Passage.done.inj hknown
    obtain ⟨⟨start, hrest⟩, -⟩ := hunder
    refine ⟨r, trusted, _, start, ?_, (hunder'.newRules g).2, .inr (.inr ⟨rfl, .inl ?_⟩)⟩
    · rw [hlog, hrest]
      simp
    · rw [hrest] at hrefused
      exact (hrefused.over since).append _
  · intro key _ hloaded
    rcases hstate key with hsame | ⟨-, hblocked, -⟩
    · exact .inl (hsame.symm.trans hloaded)
    · cases hblocked.symm.trans hloaded
  · intro key hblocked
    rcases hstate key with hsame | ⟨rfl, -, hnow⟩
    · exact .inl (hsame.symm.trans hblocked)
    · exact .inr ⟨recent, rest, hlog, hsince.2 hnow, hrefused⟩

/-- A request ends with what it has found over all its locations since its epoch was fixed. -/
theorem TrackedBut.finish (h : TrackedBut (some who) finds s) {recent : List GateMark} {epoch : Nat}
    (hlog : s.log = recent ++ rest) (hrecent : ∀ m ∈ recent, m.enters who = false)
    (hunder : UnderWay rest who r trusted since) (hsince : SinceEpoch s.gate.epoch epoch recent)
    (hfound : FoundOver finds rest r.key r.locations.value rules) {g : Gate}
    (hepoch : g.epoch = s.gate.epoch)
    (hstate : ∀ k, g.state k = s.gate.state k ∨
      k = r.key ∧ g.state k = .loaded rules ∧ epoch = s.gate.epoch) :
    TrackedBut none finds (s.move who r (.done rules, g)) := by
  have hunder' : UnderWay s.log who r trusted (recent ++ since) :=
    hlog ▸ hunder.append recent hrecent
  refine h.move hepoch (hunder'.atPoint_done rules g _) ?_ ?_ ?_
  · intro known hknown
    obtain rfl := Passage.done.inj hknown
    obtain ⟨⟨start, hrest⟩, -⟩ := hunder
    refine ⟨r, trusted, _, start, ?_, (hunder'.newRules g).2, .inl ?_⟩
    · rw [hlog, hrest]
      simp
    · rw [hrest] at hfound
      exact hfound.over since
  · intro key known hknown
    rcases hstate key with hsame | ⟨rfl, hstored, hnow⟩
    · exact .inl (hsame ▸ hknown)
    · -- the rules are stored, so the request's epoch is not over
      obtain rfl : rules = known := RuleStatus.loaded.inj (hstored.symm.trans hknown)
      exact .inr ⟨rfl, recent, rest, hlog, hsince.2 hnow, hfound⟩
  · intro key hblocked
    rcases hstate key with hsame | ⟨-, hstored, -⟩
    · exact .inl (hsame ▸ hblocked)
    · rw [hstored] at hblocked
      cases hblocked

/-- A request goes on loading: what it has found so far it has found by reads that began after its
epoch was fixed. -/
theorem TrackedBut.load (h : TrackedBut (some who) finds s) (recent : List GateMark) {epoch : Nat}
    (hlog : s.log = recent ++ rest) (hrecent : ∀ m ∈ recent, m.enters who = false)
    (hunder : UnderWay rest who r trusted since) (hsince : SinceEpoch s.gate.epoch epoch recent)
    (before : List String) {left : List String} (hall : r.locations.value = before ++ left)
    (hfound : FoundOver finds rest r.key before rules) (holds : Bool) :
    TrackedBut none finds (s.move who r (s.gate.load r epoch holds left rules)) := by
  rcases s.gate.load_cases r epoch holds left rules with ⟨rfl, hdone, hepoch, hstate⟩ |
    ⟨location, after, rfl, hload⟩
  · rw [List.append_nil] at hall
    rw [← Prod.eta (s.gate.load r epoch holds [] rules), hdone]
    exact h.finish hlog hrecent hunder hsince (hall ▸ hfound) hepoch hstate
  · rw [hload]
    refine h.move rfl ?_ nofun (fun _ _ hstate => .inl hstate) fun _ hstate => .inl hstate
    refine ⟨.read who location :: recent, rest, trusted, since, ?_, ?_, hunder, ?_, before,
      location, after, rfl, hall, hfound, [], recent, rfl, nofun⟩
    · simp [Passage.marks, hlog]
    · exact List.forall_mem_cons.mpr ⟨rfl, hrecent⟩
    · exact hsince.append [_] (Nat.le_refl _) (by simp)

theorem TrackedBut.turn (h : TrackedBut (some who) finds s)
    (hunder : UnderWay s.log who r false since) {g : Gate} (hsame : g.Agrees s.gate) :
    TrackedBut none finds (s.move who r (g.takeTurn r)) :=
  move_takeTurn hsame (fun _ _ => h.known hunder) fun _ => h.ask hunder

end GateTrace

/-! ### A record of what was found -/

/-- A trace with all that was found in it, latest first. -/
structure LoadTrace where
  trace : GateTrace
  finds : List Find

namespace LoadTrace

open GateTrace

/-- One step: what is found at a location is recorded when its text has come. -/
inductive Step (a : LoadTrace) : LoadTrace → Prop
  | receive {who : Nat} {r : RuleRequest} {epoch : Nat} {holds : Bool} {location : String}
      {left : List String} {rules : List CustomRule}
      (h : a.trace.requests who = some (r, .loading epoch holds (location :: left) rules))
      (text : Except Fault String) {journal journal' : Journal} {p : Passage} {g : Gate}
      (hreceive : a.trace.gate.receive r text journal
        (.loading epoch holds (location :: left) rules) = (p, g, journal')) :
      Step a {
        trace := a.trace.move who r (p, g)
        finds := {
          who, key := r.key, location, log := a.trace.log
          rules := (Gate.rulesOf location (a.trace.gate.pathOf r.baseDir location) text journal).1
        } :: a.finds }
  | other {trace' : GateTrace} (hstep : a.trace.Step trace')
      (hloading : ∀ who r epoch holds left rules,
        a.trace.requests who = some (r, .loading epoch holds left rules) →
          trace'.requests who = a.trace.requests who) :
      Step a { a with trace := trace' }

def IsFresh (a : LoadTrace) : Prop :=
  a.trace.IsFresh ∧ a.finds = []

def Reachable (a : LoadTrace) : Prop :=
  ∃ a₀ : LoadTrace, a₀.IsFresh ∧ Relation.ReflTransGen Step a₀ a

/-- Everything is where the log says. -/
def Tracked (a : LoadTrace) : Prop :=
  TrackedBut none a.finds a.trace

theorem Tracked.receive {a : LoadTrace} (h : a.Tracked) {who : Nat} {r : RuleRequest} {epoch : Nat}
    {holds : Bool} {location : String} {left : List String} {rules found : List CustomRule}
    (hrequest : a.trace.requests who = some (r, .loading epoch holds (location :: left) rules)) :
    TrackedBut none (⟨who, r.key, location, found, a.trace.log⟩ :: a.finds)
      (a.trace.move who r (a.trace.gate.load r epoch holds left (rules ++ found))) := by
  obtain ⟨recent, rest, trusted, old, hlog, hrecent, hunder, hsince, before, _, _, ⟨rfl, rfl⟩, hall,
    hfound, later, earlier, rfl, hlater⟩ := h.requests who r _ (by simp) hrequest
  have hmore : a.finds ⊆ ⟨who, r.key, location, found, a.trace.log⟩ :: a.finds :=
    List.subset_cons_self ..
  refine ((GateTrace.TrackedBut.forget h who).mono hmore).load _ hlog hrecent hunder hsince
    (before ++ [location]) (by simpa using hall) ?_ holds
  have hbegan : Find.Began ⟨who, r.key, location, found, a.trace.log⟩ (earlier ++ rest) :=
    ⟨later, by simpa using hlog, hlater⟩
  exact (hfound.mono hmore).snoc List.mem_cons_self rfl hbegan

theorem Tracked.enter {a : LoadTrace} (h : a.Tracked) (who : Nat) (isTrusted : String → Bool)
    (r : RuleRequest) :
    TrackedBut none a.finds ((a.trace.note (.entered who r (r.workspace.any isTrusted))).move who r
      (a.trace.gate.enter who isTrusted r)) := by
  have hnote : TrackedBut (some who) a.finds
      (a.trace.note (.entered who r (r.workspace.any isTrusted))) :=
    GateTrace.TrackedBut.note h rfl (by simp)
  have hunder : UnderWay (a.trace.note (.entered who r (r.workspace.any isTrusted))).log who r
      (r.workspace.any isTrusted) [] := ⟨⟨a.trace.log, rfl⟩, by simp⟩
  rcases a.trace.gate.enter_ways who isTrusted r with ⟨rules, hrules, henter⟩ | henter |
    ⟨huntrusted, ⟨-, henter⟩ | ⟨-, henter⟩⟩
  · rw [henter]
    exact hnote.known hunder hrules ⟨rfl, fun _ => rfl⟩
  · rw [henter]
    exact hnote.load [] rfl (by simp) hunder ⟨Nat.le_refl _, by simp⟩ [] rfl .nil false
  · rw [henter]
    rw [huntrusted] at hnote hunder ⊢
    exact hnote.turn hunder ⟨rfl, fun _ => rfl⟩
  · rw [henter]
    rw [huntrusted] at hnote hunder ⊢
    exact hnote.wait hunder ⟨rfl, fun _ => rfl⟩

theorem Tracked.answer {a : LoadTrace} (h : a.Tracked) {who : Nat} {r : RuleRequest} {epoch : Nat}
    (hrequest : a.trace.requests who = some (r, .asking epoch)) (choice : Option TrustChoice) :
    TrackedBut none a.finds ((a.trace.note (.answered who choice)).move who r
      (a.trace.gate.answer r epoch choice)) := by
  obtain ⟨recent, rest, trusted, old, hlog, hrecent, hunder, -, hsince, hasked⟩ :=
    h.requests who r _ (by simp) hrequest
  have hnote : TrackedBut (some who) a.finds (a.trace.note (.answered who choice)) :=
    GateTrace.TrackedBut.note h rfl (by simp)
  have hlog' : (a.trace.note (.answered who choice)).log =
      (.answered who choice :: recent) ++ rest := congrArg _ hlog
  have hrecent' : ∀ m ∈ .answered who choice :: recent, m.enters who = false :=
    List.forall_mem_cons.mpr ⟨rfl, hrecent⟩
  have hsince' := hsince.append [.answered who choice] (Nat.le_refl _) (by simp)
  by_cases hchoice : Refuses choice
  · rw [a.trace.gate.answer_of_refuses r epoch hchoice]
    obtain ⟨mid, earlier, rfl⟩ := List.append_of_mem hasked
    have hmid := List.forall_mem_append.mp hrecent
    exact hnote.refuse hlog' hrecent' hunder hsince' ⟨who, r, choice, [], mid, earlier, rfl,
      hchoice, hmid.1, rfl, trusted, earlier ++ old,
      hunder.append earlier (List.forall_mem_cons.mp hmid.2).2⟩
  · rw [a.trace.gate.answer_of_agrees r epoch hchoice]
    exact hnote.load _ hlog' hrecent' hunder hsince' [] rfl .nil true

theorem Tracked.invalidate {a : LoadTrace} (h : a.Tracked) :
    TrackedBut none a.finds
      ({ a.trace with gate := a.trace.gate.invalidate }.note .invalidated) := by
  refine ⟨⟨by simp, h.accounted⟩, ?_, ?_, ?_⟩
  · intro who r p _ hrequest
    exact (h.requests who r p (by simp) hrequest).append [.invalidated]
      (by simp [GateMark.caller?]) (Nat.le_succ _) fun _ => Nat.lt_succ_self _
  · intro key rules hstate
    cases hstate
  · intro key hstate
    cases hstate

theorem Tracked.other {a : LoadTrace} (h : a.Tracked) {trace' : GateTrace}
    (hstep : a.trace.Step trace')
    (hloading : ∀ who r epoch holds left rules,
      a.trace.requests who = some (r, .loading epoch holds left rules) →
        trace'.requests who = a.trace.requests who) :
    TrackedBut none a.finds trace' := by
  cases hstep with
  | enter who isTrusted r hfree => exact h.enter who isTrusted r
  | @takeTurn who r hrequest =>
      obtain ⟨recent, rest, trusted, old, hlog, hrecent, hunder, rfl⟩ :=
        h.requests who r _ (by simp) hrequest
      exact (GateTrace.TrackedBut.forget h who).turn (hlog ▸ hunder.append recent hrecent)
        ⟨rfl, fun _ => rfl⟩
  | answer hrequest choice => exact h.answer hrequest choice
  | @receive who r epoch holds left rules hrequest text journal journal' p g hreceive =>
      -- a request that has read moves on
      obtain ⟨location, after, rfl⟩ := (h.requests who r _ (by simp) hrequest).exists_left
      obtain ⟨found, journal'', -, hload⟩ := a.trace.gate.receive_loading r text journal epoch holds
        location after rules
      obtain ⟨rfl, -⟩ : _ = p ∧ _ := by simpa only [Prod.mk.injEq] using hload.symm.trans hreceive
      have hsame := (hloading who r epoch holds _ rules hrequest).trans hrequest
      cases after <;> simp [GateTrace.move, Gate.load, Gate.finish] at hsame
  | invalidate => exact h.invalidate

theorem Tracked.step {a a' : LoadTrace} (h : a.Tracked) (hstep : a.Step a') : a'.Tracked := by
  cases hstep with
  | @receive who r epoch holds location left rules hrequest text journal journal' p g hreceive =>
      obtain ⟨found, journal'', hfound, hload⟩ := a.trace.gate.receive_loading r text journal epoch
        holds location left rules
      obtain ⟨rfl, rfl, -⟩ : _ = p ∧ _ = g ∧ _ := by
        simpa only [Prod.mk.injEq] using hload.symm.trans hreceive
      rw [hfound]
      exact h.receive hrequest
  | other hstep hloading => exact h.other hstep hloading

theorem tracked_of_reachable {a : LoadTrace} (h : a.Reachable) : a.Tracked := by
  obtain ⟨a₀, ⟨⟨hstates, hrequests, hlog⟩, -⟩, hrun⟩ := h
  induction hrun with
  | refl =>
      refine ⟨by rw [hlog]; trivial, ?_, ?_, ?_⟩
      · intro who r p _ hrequest
        rw [hrequests] at hrequest
        cases hrequest
      · intro key rules hstate
        simp [Gate.state, hstates] at hstate
      · intro key hstate
        simp [Gate.state, hstates] at hstate
  | tail _ hstep ih => exact ih.step hstep

/-- The record keeps nothing from happening. -/
theorem exists_reachable {s : GateTrace} (h : s.Reachable) :
    ∃ finds, Reachable ⟨s, finds⟩ := by
  obtain ⟨s₀, hfresh, hrun⟩ := h
  induction hrun with
  | refl => exact ⟨[], ⟨s₀, []⟩, ⟨hfresh, rfl⟩, .refl⟩
  | @tail s s' _ hstep ih =>
      obtain ⟨finds, hreach⟩ := ih
      have htracked := tracked_of_reachable hreach
      obtain ⟨a₀, ha₀, hrun⟩ := hreach
      cases hstep with
      | @receive who r epoch holds left rules hrequest text journal journal' p g hreceive =>
          have hloading := htracked.requests who r _ (by simp) hrequest
          obtain ⟨location, after, rfl⟩ := hloading.exists_left
          exact ⟨_, a₀, ha₀, hrun.tail (.receive (a := ⟨s, finds⟩) hrequest text hreceive)⟩
      | enter who isTrusted r hfree =>
          refine ⟨finds, a₀, ha₀, hrun.tail (.other (.enter who isTrusted r hfree) ?_)⟩
          intro other r' epoch holds left rules hloading
          refine Function.update_of_ne (fun heq => ?_) _ _
          obtain ⟨known, hknown⟩ := hfree r' _ (heq ▸ hloading)
          cases hknown
      | @takeTurn who r hrequest =>
          refine ⟨finds, a₀, ha₀, hrun.tail (.other (.takeTurn hrequest) ?_)⟩
          intro other r' epoch holds left rules hloading
          refine Function.update_of_ne (fun heq => ?_) _ _
          cases (heq ▸ hloading).symm.trans hrequest
      | @answer who r epoch hrequest choice =>
          refine ⟨finds, a₀, ha₀, hrun.tail (.other (.answer hrequest choice) ?_)⟩
          intro other r' epoch holds left rules hloading
          refine Function.update_of_ne (fun heq => ?_) _ _
          cases (heq ▸ hloading).symm.trans hrequest
      | invalidate =>
          exact ⟨finds, a₀, ha₀, hrun.tail (.other .invalidate fun _ _ _ _ _ _ _ => rfl)⟩

/-- Whatever the order in which requests, answers, texts and invalidations come: the rules that the
gate knows were found and stored since the last invalidation, and a refusal that it knows was given
since then to a question put since then. A request that came in after an invalidation is given what
was found at its locations, for its key, by reads that all began after that invalidation, or nothing
because the user refused its key after that invalidation. -/
theorem rules_since_invalidation {a : LoadTrace} (h : a.Reachable) :
    (∀ key rules, a.trace.gate.state key = .loaded rules →
      ∃ recent rest : List GateMark, a.trace.log = recent ++ rest ∧ .invalidated ∉ recent ∧
        (∃ who, .stored who key rules ∈ recent) ∧
        FoundOver a.finds rest key key.locations rules) ∧
    (∀ key, a.trace.gate.state key = .blocked →
      ∃ recent rest : List GateMark, a.trace.log = recent ++ rest ∧ .invalidated ∉ recent ∧
        RefusedOver recent rest key) ∧
    ∀ (later : List GateMark) (who : Nat) (rules : List CustomRule) (since : List GateMark)
      (r : RuleRequest) (trusted : Bool) (between before : List GateMark),
      a.trace.log = later ++ .returned who rules ::
        (since ++ .entered who r trusted :: (between ++ .invalidated :: before)) →
      (∀ m ∈ since, m.enters who = false) →
      FoundOver a.finds (.invalidated :: before) r.key r.locations.value rules ∨
        rules = [] ∧ RefusedOver (since ++ .entered who r trusted :: between)
          (.invalidated :: before) r.key := by
  have htracked := tracked_of_reachable h
  refine ⟨htracked.loaded, htracked.blocked, ?_⟩
  intro later who rules since r trusted between before hlog hsince
  have haccounted := htracked.accounted
  rw [hlog] at haccounted
  obtain ⟨r', trusted', since', start, hearlier, hsince', hcause⟩ := haccounted.of_mem who rules rfl
  -- the request that is accounted for is the one that came in last
  obtain ⟨rfl, rfl, rfl⟩ := UnderWay.unique ⟨⟨_, rfl⟩, hsince⟩ ⟨⟨_, hearlier⟩, hsince'⟩
  obtain ⟨-, rfl⟩ := List.cons.inj (List.append_cancel_left hearlier)
  have hcut : since ++ .entered who r trusted :: (between ++ .invalidated :: before) =
      (since ++ .entered who r trusted :: between) ++ .invalidated :: before := by simp
  rcases hcause with hown | ⟨recent, rest, hknown, hvalid, -, hfound⟩ |
    ⟨rfl, hown | ⟨recent, rest, hknown, hvalid, hrefused⟩⟩
  · exact .inl (hown.over (.entered who r trusted :: between))
  · obtain ⟨mid, -, rfl⟩ := append_cut_of_not_mem (hknown.symm.trans hcut) hvalid
    exact .inl (hfound.over mid)
  · exact .inr ⟨rfl, hown.over (.entered who r trusted :: between)⟩
  · obtain ⟨mid, hafter, rfl⟩ := append_cut_of_not_mem (hknown.symm.trans hcut) hvalid
    exact .inr ⟨rfl, hafter ▸ hrefused.over mid⟩

/-- The gate is invalidated while a file is being read, and the next request for the same file is
given what it finds itself, although the first reader comes to its end in between. -/
theorem rules_since_invalidation_of_overlap :
    ∃ (a : LoadTrace) (r : RuleRequest) (old new : CustomRule) (before : List GateMark),
      a.Reachable ∧ r.locations = ⟨["r.json"], .user⟩ ∧ old ≠ new ∧
      a.trace.log = [.returned 1 [new], .stored 1 r.key [new], .returned 0 [old],
        .read 1 "r.json", .entered 1 r false, .invalidated] ++ before ∧
      before = [.read 0 "r.json", .entered 0 r false] ∧
      FoundOver a.finds (.invalidated :: before) r.key ["r.json"] [new] := by
  let r : RuleRequest := ⟨⟨["r.json"], .user⟩, none, none⟩
  let old : CustomRule := ⟨["A"], "d", none, [], "x"⟩
  let new : CustomRule := ⟨["B"], "d", none, [], "x"⟩
  let g : Gate := { epoch := 1 }
  let a₀ : LoadTrace := ⟨⟨{}, fun _ => none, []⟩, []⟩
  let s₁ := (a₀.trace.note (.entered 0 r false)).move 0 r (.loading 0 false ["r.json"] [], {})
  let s₂ := ({ s₁ with gate := s₁.gate.invalidate }.note .invalidated)
  let s₃ := (s₂.note (.entered 1 r false)).move 1 r (.loading 1 false ["r.json"] [], g)
  let oldText : Except Fault String :=
    .ok "\x7b\"names\":[\"A\"],\"description\":\"d\",\"tags\":[],\"function\":\"x\"\x7d"
  let newText : Except Fault String :=
    .ok "\x7b\"names\":[\"B\"],\"description\":\"d\",\"tags\":[],\"function\":\"x\"\x7d"
  obtain ⟨found, _, hfound, hold⟩ := g.receive_loading r oldText {} 0 false "r.json" [] []
  obtain rfl : found = [old] := by
    refine (congrArg Prod.fst hfound).symm.trans ?_
    decide +kernel
  obtain ⟨found', _, hfound', hnew⟩ := g.receive_loading r newText {} 1 false "r.json" [] []
  obtain rfl : found' = [new] := by
    refine (congrArg Prod.fst hfound').symm.trans ?_
    decide +kernel
  let a₄ : LoadTrace := ⟨s₃.move 0 r (g.load r 0 false [] [old]),
    [⟨0, r.key, "r.json", (Gate.rulesOf "r.json" (g.pathOf none "r.json") oldText {}).1, s₃.log⟩]⟩
  have hfirst : a₀.Step ⟨s₁, []⟩ :=
    .other (.enter 0 (fun _ => false) r (by simp)) (by simp)
  have hinvalidate : Step ⟨s₁, []⟩ ⟨s₂, []⟩ := .other .invalidate fun _ _ _ _ _ _ _ => rfl
  have hsecond : Step ⟨s₂, []⟩ ⟨s₃, []⟩ := by
    refine .other (.enter 1 (fun _ => false) r fun _ _ hrequest => by cases hrequest)
      fun who r' epoch holds left rules h => ?_
    refine Function.update_of_ne (fun heq => ?_) _ _
    subst heq
    cases h
  have hlate : Step ⟨s₃, []⟩ a₄ := .receive (a := ⟨s₃, []⟩) (r := r) rfl oldText hold
  have hlast := Step.receive (a := a₄) (r := r)
    (show a₄.trace.requests 1 = some (r, .loading 1 false ["r.json"] []) from rfl) newText hnew
  have hrun := (((((Relation.ReflTransGen.single hfirst).tail hinvalidate).tail hsecond).tail
    hlate).tail hlast)
  have hreach : Reachable _ := ⟨a₀, ⟨⟨rfl, fun _ => rfl, rfl⟩, rfl⟩, hrun⟩
  refine ⟨_, r, old, new, _, hreach, rfl, by decide, rfl, rfl, ?_⟩
  have hreturned := (rules_since_invalidation hreach).2.2 [] 1 [new]
    [.stored 1 r.key [new], .returned 0 [old], .read 1 "r.json"] r false []
    [.read 0 "r.json", .entered 0 r false] rfl (by simp [GateMark.enters])
  exact hreturned.resolve_right (by simp)

end LoadTrace

end LintDesk
